import QemuTest.Lib.X86.Machine

/-!
# X86 — Eflags

The flags word of 32-bit mode: the status flags at their bits, and the rest of
the word around them. What an instruction computes is the record of flags of
the machine; `put` writes it into the word.
-/

namespace X86

inductive Status where
  | CF | PF | AF | ZF | SF | OF
  deriving DecidableEq, Repr

def Status.bit : Status → Nat
  | .CF => 0
  | .PF => 2
  | .AF => 4
  | .ZF => 6
  | .SF => 7
  | .OF => 11

theorem Status.bit_injective : Function.Injective Status.bit := by
  intro f g h
  cases f <;> cases g <;> first | rfl | cases h

def Flags.get (f : Flags) : Status → Bool
  | .CF => f.cf
  | .PF => f.pf
  | .AF => f.af
  | .ZF => f.zf
  | .SF => f.sf
  | .OF => f.of

abbrev Eflags := BitVec 32

namespace Eflags

variable {w : Eflags} {f g : Status} {b : Bool}

def get (w : Eflags) (f : Status) : Bool := w.getLsbD f.bit

def set (w : Eflags) (f : Status) (b : Bool) : Eflags :=
  if b then w ||| BitVec.twoPow 32 f.bit else w &&& ~~~BitVec.twoPow 32 f.bit

/-- The status flags of a word. -/
def flags (w : Eflags) : Flags where
  cf := w.get .CF
  pf := w.get .PF
  af := w.get .AF
  zf := w.get .ZF
  sf := w.get .SF
  of := w.get .OF

/-- The word with other status flags. -/
def put (w : Eflags) (f : Flags) : Eflags :=
  [Status.CF, .PF, .AF, .ZF, .SF, .OF].foldl (fun w s => w.set s (f.get s)) w

/-- The image `pushfd` stores: without the resume and virtual-8086 flags. -/
def pushed (w : Eflags) : BitVec 32 := w &&& 0x00fcffff

theorem bit_lt (f : Status) : f.bit < 12 := by
  cases f <;> decide

theorem get_set : (w.set f b).get g = if g = f then b else w.get g := by
  have hlt : g.bit < 32 := Nat.lt_trans (bit_lt g) (by omega)
  by_cases hg : g = f
  · subst hg
    cases b <;> simp [get, set, hlt]
  · have hbit : g.bit ≠ f.bit := fun h => hg (Status.bit_injective h)
    cases b <;> simp [get, set, hg, hlt, hbit]

/-- A flag that is set is set again without a change. -/
theorem set_of_get (h : w.get f = true) : w.set f true = w := by
  have hlt : f.bit < 32 := Nat.lt_trans (bit_lt f) (by omega)
  have hbit : w.getLsbD f.bit = true := h
  rw [set, if_pos rfl]
  refine BitVec.eq_of_getLsbD_eq fun i hi => ?_
  by_cases heq : i = f.bit
  · rw [heq, BitVec.getLsbD_or, hbit, Bool.true_or]
  · simp [BitVec.getLsbD_or, BitVec.getLsbD_twoPow, Ne.symm heq]

theorem get_put {v : Flags} : (w.put v).get g = v.get g := by
  simp only [put, List.foldl_cons, List.foldl_nil, get_set]
  cases g <;> rfl

/-- The image keeps the status flags. -/
theorem get_pushed (w : Eflags) (f : Status) : get (pushed w) f = w.get f := by
  cases f <;> simp [get, pushed, Status.bit]

/-- A flag is masked out by its bit. -/
theorem and_bit (w : BitVec 32) (f : Status) {v : BitVec 32} (hv : v = BitVec.twoPow 32 f.bit) :
    w &&& v = if get w f then v else 0 := by
  rw [hv, BitVec.and_twoPow, get]
  rfl

theorem and_bit_eq_zero (w : BitVec 32) (f : Status) {v : BitVec 32}
    (hv : v = BitVec.twoPow 32 f.bit) : w &&& v = 0 ↔ get w f = false := by
  have hne : v ≠ 0 := by
    rw [hv]
    cases f <;> decide
  rw [and_bit w f hv]
  cases get w f with
  | false => simp
  | true => simpa using hne

end Eflags

end X86

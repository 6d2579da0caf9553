import QemuTest.Lib.X86.Constants
import QemuTest.Lib.X86.Polling

/-!
# X86 — Progress

What a program gets done. `advance` follows a program down through
instructions that cannot fail and past branches that values known from the
text keep from being taken; `advances_gets` says that the run gets there. A
countdown ends (`countdown_gets`), and flags that went over the stack are
tested as they were (`transfer_gets`, `bits_get`).
-/

namespace X86

open Runs

variable {C D : Type}

/-- An operand that is no memory. -/
def Operand.direct : Operand D → Bool
  | .reg _ | .imm _ => true
  | .mem _ => false

/-- The instructions that compute in registers and go on to the next one. -/
def Instr.direct : Instr C D → Bool
  | .mov _ _ o | .add _ o | .sub _ o | .xor _ o => o.direct
  | .cmp _ a b | .test _ a b => a.direct && b.direct
  | .lea _ _ | .dec _ => true
  | _ => false

/-- Is the branch taken with this zero flag? -/
def Cond.taken : Cond → Bool → Bool
  | .z, zf => zf
  | .nz, zf => !zf

theorem holds_eq_taken (f : Flags) (k : Cond) : k.holds f = k.taken f.zf := by
  cases k <;> rfl

/-- The comparisons of registers known from the text, by the zero flag they
leave. -/
def Known.zero (K : Known D) : Instr C D → Option Bool
  | .cmp .qword (.reg a) (.reg b) =>
      match K a, K b with
      | some (.imm x), some (.imm y) => some (decide (x = y))
      | _, _ => none
  | .test .qword (.reg a) (.reg b) =>
      match K a, K b with
      | some (.imm x), some (.imm y) => some (decide (x &&& y = 0))
      | _, _ => none
  | _ => none

/-- A division by a known number of a dividend known to be short. -/
def Known.divides (K : Known D) (d : Reg) : Bool :=
  match K .rdx, K d with
  | some (.imm hi), some (.imm v) => hi = 0 && v ≠ 0
  | _, _ => false

section

variable [DecidableEq C] (P : Program C D) (joins : Joins)

/-- The next instruction control certainly gets to: behind a comparison and
its branch, or behind one instruction. -/
def Program.advance (n : Nat) : Option Nat :=
  match P.fetch n, P.fetch (n + 1) with
  | some i, some (.jcc k _) =>
      match (P.constants joins n).zero i with
      | some zf => if k.taken zf then none else some (n + 2)
      | none => none
  | some (.div d), _ => if (P.constants joins n).divides d then some (n + 1) else none
  | some i, _ => if i.direct then some (n + 1) else none
  | none, _ => none

/-- The instruction `k` of these steps lead to. -/
def Program.advances : Nat → Nat → Option Nat
  | 0, n => some n
  | k + 1, n => (P.advance joins n).bind (Program.advances k)

end

section

variable [DecidableEq C] {P : Program C D} {L : Layout D} {port : Port} {lo : Nat}
  {inp : Byte} {s t : State} {i : Instr C D} {joins : Joins} {K : Known D} {n m : Nat}
  {Q : State → Prop}

omit [DecidableEq C] in
theorem read_direct {w : Width} {o : Operand D} (h : o.direct = true) :
    ∃ v, s.read L w o = some v := by
  cases o with
  | reg r => exact ⟨_, rfl⟩
  | imm v => exact ⟨_, rfl⟩
  | mem m => cases h

/-- A direct instruction goes on to the next one and sends nothing. -/
theorem exec_direct (h : i.direct = true) (inp : Byte) :
    ∃ t, exec P L inp s i = some t ∧ t.rip = s.rip + 1 ∧ t.log = s.log := by
  have hsome : ∃ t, exec P L inp s i = some t := by
    cases i <;> simp only [Instr.direct, Bool.false_eq_true, Bool.and_eq_true] at h
    case lea | dec => exact ⟨_, rfl⟩
    case mov w d o | add d o | sub d o | xor d o =>
      obtain ⟨v, hv⟩ := read_direct (s := s) (L := L) h
      exact ⟨_, by rw [exec, hv, Option.map_some]⟩
    case cmp w a b | test w a b =>
      obtain ⟨x, hx⟩ := read_direct (s := s) (L := L) (w := w) h.1
      obtain ⟨y, hy⟩ := read_direct (s := s) (L := L) (w := w) h.2
      exact ⟨_, by rw [exec, hx, hy, Option.bind_some, Option.map_some]⟩
  obtain ⟨t, ht⟩ := hsome
  refine ⟨t, ht, ?_, exec_agree (p := .log) ht (by cases i <;> first | rfl | cases h)⟩
  have hsucc := exec_succ ht (by rintro rfl; cases h)
  cases i <;> first | exact List.mem_singleton.mp hsucc | cases h

omit [DecidableEq C] in
theorem zero_direct {zf : Bool} (h : K.zero i = some zf) : i.direct = true := by
  unfold Known.zero at h
  split at h
  · rfl
  · rfl
  · cases h

/-- The zero flag is what the text says. -/
theorem exec_zero (hK : K.Agrees L s) {zf : Bool} (hz : K.zero i = some zf)
    (h : exec P L inp s i = some t) : t.flags.zf = zf := by
  unfold Known.zero at hz
  split at hz
  · rename_i a b
    split at hz
    · rename_i x y hx hy
      obtain rfl := Option.some.inj hz
      obtain rfl := Option.some.inj h
      simp [Flags.ofSub, Width.trunc, hK a _ hx, hK b _ hy, Value.eval]
    · cases hz
  · rename_i a b
    split at hz
    · rename_i x y hx hy
      obtain rfl := Option.some.inj hz
      obtain rfl := Option.some.inj h
      simp [Flags.ofLogic, Width.trunc, hK a _ hx, hK b _ hy, Value.eval]
    · cases hz
  · cases hz

/-- A branch that is not taken. -/
theorem exec_pass {k : Cond} {c : C} (h : k.taken s.flags.zf = false) :
    exec P L inp s (.jcc k c) = some s.next := by
  simp [exec, holds_eq_taken, h]

/-- A branch, by the zero flag. -/
theorem Gets.branch {k : Cond} {c : C} (hjcc : P.fetch n = some (.jcc k c)) (hlo : lo ≤ n)
    (hrip : s.rip = n)
    (h : Gets P L port lo Q (s.goto (if k.taken s.flags.zf then P.entry c else n + 1))) :
    Gets P L port lo Q s := by
  refine .cons (hrip ▸ hlo) (hrip ▸ hjcc) rfl ?_ h
  rw [exec, holds_eq_taken]
  split
  · rfl
  · rw [State.next, hrip]

/-- A division of a short dividend does not fail. -/
theorem exec_divides (hK : K.Agrees L s) {d : Reg} (h : K.divides d = true) :
    ∃ t, exec P L inp s (.div d) = some t := by
  unfold Known.divides at h
  split at h
  · rename_i hi v hhi hv
    simp only [Bool.and_eq_true, decide_eq_true_eq] at h
    obtain ⟨rfl, hne⟩ := h
    have hd : (s.gpr d).toNat ≠ 0 := by
      rw [hK d _ hv]
      exact fun he => hne (BitVec.eq_of_toNat_eq he)
    have hq : (s.gpr .rax).toNat / (s.gpr d).toNat < 2 ^ 64 :=
      Nat.lt_of_le_of_lt (Nat.div_le_self _ _) (s.gpr .rax).isLt
    have hlow : (s.gpr .rdx).toNat = 0 := by
      rw [hK .rdx _ hhi]
      rfl
    exact ⟨_, by rw [exec, if_neg (by rw [hlow, Nat.zero_mul, Nat.zero_add]; omega)]⟩
  · cases h

omit [DecidableEq C] in
theorem direct_reads (h : i.direct = true) : i.reads = false := by
  cases i <;> first | rfl | cases h

/-- **One step down**: control gets where `advance` says. -/
theorem advance_gets (h : P.advance joins s.rip = some m) (hlo : lo ≤ s.rip)
    (hK : (P.constants joins s.rip).Agrees L s) :
    Gets P L port lo (fun t => t.rip = m ∧ lo ≤ m ∧ t.log = s.log) s := by
  unfold Program.advance at h
  split at h
  · -- a comparison and its branch
    rename_i i k c hfetch hjcc
    split at h
    · rename_i zf hz
      split at h
      · cases h
      · rename_i hk
        obtain rfl := Option.some.inj h
        have hi := zero_direct hz
        obtain ⟨t, ht, hrip, hlog⟩ := exec_direct (P := P) (L := L) (s := s) hi 0
        have hzf := exec_zero hK hz ht
        refine .cons hlo hfetch (direct_reads hi) ht (.branch hjcc (by omega) hrip ?_)
        rw [hzf, if_neg hk]
        exact .now ⟨rfl, by omega, hlog⟩
    · cases h
  · rename_i d hfetch _
    split at h
    · rename_i hd
      obtain rfl := Option.some.inj h
      obtain ⟨t, ht⟩ : ∃ t, exec P L 0 s (.div d) = some t := exec_divides hK hd
      refine .cons hlo hfetch rfl ht (.now ⟨?_, by omega, exec_agree (p := .log) ht rfl⟩)
      exact List.mem_singleton.mp (exec_succ ht (by simp))
    · cases h
  · rename_i hfetch _
    split at h
    · rename_i hi
      obtain rfl := Option.some.inj h
      obtain ⟨t, ht, hrip, hlog⟩ := exec_direct (P := P) (L := L) (s := s) hi 0
      exact .cons hlo hfetch (direct_reads hi) ht (.now ⟨hrip, by omega, hlog⟩)
    · cases h
  · cases h

/-- **All the way down**, under an invariant of which the constants are a part. -/
theorem advances_gets {I : State → Prop}
    (hK : ∀ s, I s → (P.constants joins s.rip).Agrees L s)
    (hstep : ∀ t e u, I t → Steps P L t e u → I u) {k : Nat}
    (h : P.advances joins k s.rip = some m) (hlo : lo ≤ s.rip) (hs : I s) :
    Gets P L port lo (fun t => I t ∧ t.rip = m ∧ t.log = s.log) s := by
  induction k generalizing s with
  | zero => exact .now ⟨hs, Option.some.inj h, rfl⟩
  | succ k ih =>
      obtain ⟨n, hn, hrest⟩ := Option.bind_eq_some_iff.mp h
      refine ((advance_gets hn hlo (hK s hs)).keeping hs hstep).bind fun t ht => ?_
      obtain ⟨hI, rfl, hlo', hlog⟩ := ht
      exact hlog ▸ ih hrest hlo' hI

/-- A counter goes down by one, and the flag tells whether it is zero. -/
theorem dec_gets {r : Reg} (hdec : P.fetch n = some (.dec r)) (hlo : lo ≤ n)
    (hrip : s.rip = n) :
    Gets P L port lo (fun t => t.rip = n + 1 ∧ t.gpr r = s.gpr r - 1 ∧
      t.flags.zf = decide (s.gpr r - 1 = 0) ∧ t.log = s.log) s := by
  let t : State := { (s.setReg r (s.gpr r - 1)).next with
    flags := { Flags.ofSub .qword (s.gpr r) 1 with cf := s.flags.cf } }
  have ht : exec P L 0 s (.dec r) = some t := rfl
  refine .cons (by omega) (hrip ▸ hdec) rfl ht (.now ⟨?_, ?_, ?_, rfl⟩)
  · rw [← hrip]
    rfl
  · exact Function.update_self ..
  · simp [t, Flags.ofSub, BitVec.sub_eq_iff_eq_add]

/-- **A countdown ends.** -/
theorem countdown_gets {r : Reg} {c : C} (hdec : P.fetch n = some (.dec r))
    (hjcc : P.fetch (n + 1) = some (.jcc .nz c)) (hc : P.entry c = n) (hlo : lo ≤ n)
    (hrip : s.rip = n) :
    Gets P L port lo (fun t => t.rip = n + 2 ∧ t.log = s.log) s := by
  -- by the value the counter is about to take
  induction hcount : (s.gpr r - 1).toNat generalizing s with
  | zero =>
      have hzero : s.gpr r - 1 = 0 := BitVec.eq_of_toNat_eq hcount
      refine (dec_gets hdec hlo hrip).bind ?_
      rintro t ⟨hat, -, hz, hlog⟩
      refine .branch hjcc (by omega) hat ?_
      rw [hz, decide_eq_true hzero]
      exact .now ⟨rfl, hlog⟩
  | succ v ih =>
      have hne : s.gpr r - 1 ≠ 0 := by
        intro hzero
        rw [hzero] at hcount
        cases hcount
      refine (dec_gets hdec hlo hrip).bind ?_
      rintro t ⟨hat, hreg, hz, hlog⟩
      have hnext : ((t.goto n).gpr r - 1).toNat = v := by
        rw [show (t.goto n).gpr r = s.gpr r - 1 from hreg, BitVec.toNat_sub_of_le, hcount]
        · rfl
        · rw [BitVec.le_def, hcount]
          exact Nat.le_add_left 1 v
      have hrest := ih (s := t.goto n) rfl hnext
      refine .branch hjcc (by omega) hat ?_
      rw [hz, decide_eq_false hne, hc]
      exact hlog ▸ hrest

/-- The flags go over the stack to a register. -/
theorem transfer_gets {r : Reg} (hpush : P.fetch n = some .pushfq)
    (hpop : P.fetch (n + 1) = some (.pop r)) (hlo : lo ≤ n) (hrip : s.rip = n)
    (hlow : 8 ≤ (s.gpr .rsp).toNat) (hhigh : (s.gpr .rsp).toNat ≤ L.limit) :
    Gets P L port lo
      (fun t => t.rip = n + 2 ∧ t.gpr r = s.flags.image ∧ t.log = s.log) s := by
  have hslot : (s.gpr .rsp - 8).toNat + 8 ≤ L.limit := by
    rw [BitVec.toNat_sub_of_le (by rw [BitVec.le_def]; exact hlow)]
    have : BitVec.toNat (8 : BitVec 64) = 8 := rfl
    omega
  let t : State := State.next { s.setReg .rsp (s.gpr .rsp - 8) with
    mem := s.mem.store (s.gpr .rsp - 8).toNat (n := 8) s.flags.image }
  have ht : exec P L 0 s .pushfq = some t := by
    rw [exec, push_eq_some.mpr ⟨hslot, rfl⟩, Option.map_some]
  have hrsp : t.gpr .rsp = s.gpr .rsp - 8 := by
    simp [t, State.next, State.goto, State.setReg]
  have hload : t.mem.load (t.gpr .rsp).toNat 8 = s.flags.image := by
    rw [hrsp]
    exact load_store_same _ _ _
  have hu : exec P L 0 t (.pop r)
      = some ((t.setReg .rsp (t.gpr .rsp + 8)).setReg r s.flags.image).next := by
    rw [exec, pop_eq_some.mpr ⟨by rw [hrsp]; exact hslot, rfl⟩, Option.map_some, hload]
  have hat : t.rip = n + 1 := by
    rw [← hrip]
    rfl
  refine .cons (by omega) (hrip ▸ hpush) rfl ht
    (.cons (by omega) (hat ▸ hpop) rfl hu (.now ⟨?_, ?_, rfl⟩))
  · simp [State.next, State.goto, State.setReg, hat]
  · simp [State.next, State.goto, State.setReg]

/-- Bits of a register are tested, and the branch is not taken. -/
theorem bits_get {r : Reg} {x v : BitVec 64} {k : Cond} {c : C}
    (htest : P.fetch n = some (.test .qword (.reg r) (.imm v)))
    (hjcc : P.fetch (n + 1) = some (.jcc k c)) (hlo : lo ≤ n) (hrip : s.rip = n)
    (hx : s.gpr r = x) (hk : k.taken (decide (x &&& v = 0)) = false) :
    Gets P L port lo (fun t => t.rip = n + 2 ∧ t.gpr r = x ∧ t.log = s.log) s := by
  let t : State := { s.next with flags := s.flags.ofLogic .qword (s.gpr r &&& v) }
  have hat : t.rip = n + 1 := by
    rw [← hrip]
    rfl
  have hzf : t.flags.zf = decide (x &&& v = 0) := by
    rw [← hx]
    rfl
  refine .cons (t := t) (by omega) (hrip ▸ htest) rfl rfl (.branch hjcc (by omega) hat ?_)
  rw [hzf, hk]
  exact .now ⟨rfl, hx, rfl⟩

end

end X86

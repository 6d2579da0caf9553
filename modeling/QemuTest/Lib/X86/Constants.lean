import QemuTest.Lib.X86.Flow

/-!
# X86 — Constants

Constant propagation. `constants` runs down a program and records which
registers hold a value known from the text alone, forgetting what it is told
to where control joins; where the record agrees with itself along every edge
(`consistent`), it is right in every state of a run (`constants_step`).
-/

namespace X86

variable {C D : Type}

/-- A value the text determines: a constant, or an address in the data. -/
inductive Value (D : Type) where
  | imm (v : BitVec 64)
  | addr (d : D) (disp : Nat)
  deriving DecidableEq, Repr

def Value.eval (L : Layout D) : Value D → BitVec 64
  | .imm v => v
  | .addr d disp => BitVec.ofNat 64 (L.data d + disp)

/-- What is known of the registers. -/
abbrev Known (D : Type) := Reg → Option (Value D)

/-- The record holds in a state. -/
def Known.Agrees (L : Layout D) (K : Known D) (s : State) : Prop :=
  ∀ r v, K r = some v → s.gpr r = v.eval L

/-- The result of a division of known values. -/
def quotient : Option (Value D) → Option (Value D) → Option (Value D) →
    Option (BitVec 64 × BitVec 64)
  | some (.imm hi), some (.imm lo), some (.imm d) =>
      let n := hi.toNat * 2 ^ 64 + lo.toNat
      some (BitVec.ofNat 64 (n / d.toNat), BitVec.ofNat 64 (n % d.toNat))
  | _, _, _ => none

/-- What is known after an instruction. -/
def Known.transfer (K : Known D) : Instr C D → Known D
  | .mov .qword d (.imm v) => Function.update K d (some (.imm v))
  | .mov .qword d (.reg r) => Function.update K d (K r)
  | .lea d (.rel l disp) => Function.update K d (some (.addr l disp))
  | .xor d (.reg r) =>
      Function.update K d (if d = r then some (.imm 0) else none)
  | .div d =>
      Function.update
        (Function.update K .rax ((quotient (K .rdx) (K .rax) (K d)).map fun q => .imm q.1))
        .rdx ((quotient (K .rdx) (K .rax) (K d)).map fun q => .imm q.2)
  | i => fun r => if i.writesReg r then none else K r

def Known.nothing : Known D := fun _ => none

/-- Where control joins, and the registers forgotten there. -/
abbrev Joins := List (Nat × List Reg)

def Joins.forgets (joins : Joins) (n : Nat) (r : Reg) : Bool :=
  joins.any fun p => p.1 = n && p.2.contains r

/-- What is known before instruction `n`, running down from the start. -/
def Program.constants (P : Program C D) (joins : Joins) : Nat → Known D
  | 0 => .nothing
  | n + 1 => fun r =>
      if joins.forgets (n + 1) r then none
      else match P.fetch n with
        | some i => (P.constants joins n).transfer i r
        | none => none

def Reg.all : List Reg :=
  [.rax, .rbx, .rcx, .rdx, .rsi, .rdi, .rbp, .rsp,
    .r8, .r9, .r10, .r11, .r12, .r13, .r14, .r15]

theorem Reg.mem_all (r : Reg) : r ∈ Reg.all := by
  cases r <;> decide

section

variable [DecidableEq C] [DecidableEq D] {P : Program C D} {L : Layout D} {inp : Byte}
  {s t : State} {i : Instr C D} {K : Known D}

/-- Along every edge, what is known behind it follows from what is known
before it. -/
def Program.consistent (P : Program C D) (joins : Joins) : Bool :=
  P.allEdges fun n i m => Reg.all.all fun r =>
    match P.constants joins m r with
    | some v => (P.constants joins n).transfer i r = some v
    | none => true

omit [DecidableEq D] in
theorem Known.agrees_nothing : Known.Agrees L .nothing s := by
  intro r v h
  cases h

omit [DecidableEq D] in
/-- What an instruction writes is forgotten, the rest stays known. -/
theorem Known.agrees_forget (hK : K.Agrees L s) (h : exec P L inp s i = some t) :
    Known.Agrees L (fun r => if i.writesReg r then none else K r) t := by
  intro r v hr
  by_cases hw : i.writesReg r = true
  · simp [hw] at hr
  · simp only [hw, Bool.false_eq_true, if_false] at hr
    have hsame : t.gpr r = s.gpr r :=
      exec_agree (p := .gpr r) h (by simpa [Instr.writes] using hw)
    rw [hsame, hK r v hr]

omit [DecidableEq D] in
/-- A record updated at the one register that changed. -/
theorem Known.agrees_update (hK : K.Agrees L s) {d : Reg} {v : Option (Value D)}
    (hd : ∀ x, v = some x → t.gpr d = x.eval L) (hrest : ∀ r ≠ d, t.gpr r = s.gpr r) :
    Known.Agrees L (Function.update K d v) t := by
  intro r x hr
  by_cases hrd : r = d
  · subst hrd
    rw [Function.update_self] at hr
    exact hd x hr
  · rw [Function.update_of_ne hrd] at hr
    rw [hrest r hrd, hK r x hr]

omit [DecidableEq C] [DecidableEq D] in
theorem quotient_eq_some {a b c : Option (Value D)} {q : BitVec 64 × BitVec 64}
    (h : quotient a b c = some q) :
    ∃ hi lo d : BitVec 64, a = some (.imm hi) ∧ b = some (.imm lo) ∧ c = some (.imm d) ∧
      q = (BitVec.ofNat 64 ((hi.toNat * 2 ^ 64 + lo.toNat) / d.toNat),
        BitVec.ofNat 64 ((hi.toNat * 2 ^ 64 + lo.toNat) % d.toNat)) := by
  unfold quotient at h
  split at h
  · exact ⟨_, _, _, rfl, rfl, rfl, (Option.some.inj h).symm⟩
  · cases h

omit [DecidableEq D] in
/-- **The transfer function is sound.** -/
theorem Known.agrees_transfer (hK : K.Agrees L s) (h : exec P L inp s i = some t) :
    (K.transfer i).Agrees L t := by
  unfold Known.transfer
  split
  · obtain rfl := Option.some.inj h
    exact agrees_update hK (fun x hx => by cases hx; exact Function.update_self ..)
      fun r hr => Function.update_of_ne hr _ _
  · obtain rfl := Option.some.inj h
    refine agrees_update hK (fun x hx => ?_) fun r hr => Function.update_of_ne hr _ _
    rw [← hK _ x hx]
    exact Function.update_self ..
  · obtain rfl := Option.some.inj h
    exact agrees_update hK (fun x hx => by cases hx; exact Function.update_self ..)
      fun r hr => Function.update_of_ne hr _ _
  · rename_i d r
    obtain rfl := Option.some.inj h
    refine agrees_update hK (fun x hx => ?_) fun r hr => Function.update_of_ne hr _ _
    split at hx
    · rename_i hdr
      subst hdr
      cases hx
      simp [State.next, State.goto, State.setReg, Value.eval, Width.trunc]
    · cases hx
  · rename_i d
    simp only [exec] at h
    split at h
    · cases h
    obtain rfl := Option.some.inj h
    intro r x hr
    by_cases hrdx : r = .rdx
    · subst hrdx
      rw [Function.update_self] at hr
      obtain ⟨q, hq, rfl⟩ := Option.map_eq_some_iff.mp hr
      obtain ⟨hi, lo, c, ha, hb, hc, rfl⟩ := quotient_eq_some hq
      simp [State.next, State.goto, State.setReg, Value.eval, hK _ _ ha, hK _ _ hb,
        hK _ _ hc]
    rw [Function.update_of_ne hrdx] at hr
    by_cases hrax : r = .rax
    · subst hrax
      rw [Function.update_self] at hr
      obtain ⟨q, hq, rfl⟩ := Option.map_eq_some_iff.mp hr
      obtain ⟨hi, lo, c, ha, hb, hc, rfl⟩ := quotient_eq_some hq
      simp [State.next, State.goto, State.setReg, Value.eval, hK _ _ ha, hK _ _ hb,
        hK _ _ hc]
    rw [Function.update_of_ne hrax] at hr
    simp [State.next, State.goto, State.setReg, hrdx, hrax, hK r x hr]
  · exact agrees_forget hK h

/-- **Constants hold**: one step takes a state where the record holds to one
where it holds again. -/
theorem constants_step {joins : Joins} (hc : P.consistent joins = true)
    (hK : (P.constants joins s.rip).Agrees L s) (h : exec P L inp s i = some t)
    (hedge : Edge P s.rip i t.rip) : (P.constants joins t.rip).Agrees L t := by
  intro r v hr
  have hall := allEdges_spec hc hedge
  have hreg := List.all_eq_true.mp hall r (Reg.mem_all r)
  rw [hr] at hreg
  exact Known.agrees_transfer hK h r v (of_decide_eq_true hreg)

end

end X86

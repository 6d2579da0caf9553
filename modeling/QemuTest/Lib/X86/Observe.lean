import QemuTest.Lib.X86.Flow

/-!
# X86 — Observe

Where a program looks at a part of the state. `observedNext` is the next
instruction that names the part, if it is one that reads it out: from there
up to that instruction the part travels unchanged (`transport_step`), whatever
it holds.
-/

namespace X86

variable {C D : Type}

def Mem.names (r : Reg) : Mem D → Bool
  | .base b _ => b = r
  | .rel _ _ => false

def Operand.names (r : Reg) : Operand D → Bool
  | .reg a => a = r
  | .imm _ => false
  | .mem m => m.names r

/-- The general registers an instruction reads. -/
def Instr.readsReg (r : Reg) : Instr C D → Bool
  | .mov _ _ o => o.names r
  | .lea _ m | .vload _ _ m | .vstore _ m _ | .fldcw m | .fnstcw m | .fild m | .fistp m
  | .ldmxcsr m | .stmxcsr m => m.names r
  | .cmp _ a b | .test _ a b => a.names r || b.names r
  | .add d o | .sub d o | .xor d o => d = r || o.names r
  | .dec d => d = r
  | .div d => r = d || r = .rax || r = .rdx
  | .lodsb => r = .rsi || r = .rax
  | .push a => r = a || r = .rsp
  | .pop _ | .pushfq | .call _ | .ret => r = .rsp
  | .inAl | .outAl => r = .rdx || r = .rax
  | _ => false

/-- Does the instruction read the part out, to memory or into a comparison? -/
def Instr.observes (i : Instr C D) : Part → Bool
  | .gpr r =>
      match i with
      | .cmp .qword (.reg a) (.reg b) => a = r || b = r
      | _ => false
  | .vec j | .xmm j => match i with | .vstore _ _ i => i = j | _ => false
  | .cw => match i with | .fnstcw _ => true | _ => false
  | .mxcsr => match i with | .stmxcsr _ => true | _ => false
  | _ => false

/-- Does the instruction name the part, or use it unnamed? (A load onto the
x87 stack looks at the control word only when the stack is full.) -/
def Instr.uses (i : Instr C D) (p : Part) : Bool :=
  i.writes p || i.observes p ||
    match p, i with
    | .gpr r, i => i.readsReg r
    | .cw, .fistp _ => true
    | _, _ => false

/-- The next instruction from `n` on that uses the part. -/
def Program.nextUse (P : Program C D) (p : Part) (n : Nat) : Option Nat :=
  (List.range' n (P.instrs.length - n)).find? fun k =>
    match P.fetch k with
    | some i => i.uses p
    | none => false

/-- The next use of the part, if it observes it. -/
def Program.observedNext (P : Program C D) (p : Part) (n : Nat) : Option Nat :=
  (P.nextUse p n).filter fun k =>
    match P.fetch k with
    | some i => i.observes p
    | none => false

theorem observedNext_range {P : Program C D} {p : Part} {n k : Nat}
    (h : P.observedNext p n = some k) : n ≤ k ∧ k < P.instrs.length := by
  obtain ⟨hfind, -⟩ := Option.filter_eq_some_iff.mp h
  obtain ⟨j, hj, rfl⟩ := List.mem_range'.mp (List.mem_of_find?_eq_some hfind)
  omega

/-! ## All observations at once

Whoever checks a program asks for the next observation at every instruction.
The instructions with the same one form a stretch, and `stretches` finds all
of them in one pass. -/

/-- The stretches of the instructions `is`, which stand at `n`: each from
behind the last use, at first `start`, up to an observation. -/
def stretches (p : Part) : Nat → Nat → List (Instr C D) → List (Nat × Nat)
  | _, _, [] => []
  | start, n, i :: is =>
      if i.uses p then
        if i.observes p then (start, n) :: stretches p (n + 1) (n + 1) is
        else stretches p (n + 1) (n + 1) is
      else stretches p start (n + 1) is

/-- The end of the stretch with `m` in it. -/
def stretchEnd (ss : List (Nat × Nat)) (m : Nat) : Option Nat :=
  (ss.find? fun s => s.1.ble m && m.ble s.2).map Prod.snd

theorem stretchEnd_cons_of_le {a b m : Nat} {ss : List (Nat × Nat)} (ha : a ≤ m) (hb : m ≤ b) :
    stretchEnd ((a, b) :: ss) m = some b := by
  simp [stretchEnd, ha, hb]

theorem stretchEnd_cons_of_lt {a b m : Nat} {ss : List (Nat × Nat)} (hb : b < m) :
    stretchEnd ((a, b) :: ss) m = stretchEnd ss m := by
  have : ¬ m ≤ b := by omega
  simp [stretchEnd, this]

/-- In front of the stretches there is nothing. -/
theorem stretchEnd_of_lt {p : Part} {start n m : Nat} {is : List (Instr C D)}
    (h : m < start) (hn : start ≤ n) : stretchEnd (stretches p start n is) m = none := by
  induction is generalizing start n with
  | nil => rfl
  | cons i is ih =>
      unfold stretches
      split
      · split
        · have : ¬ start ≤ m := by omega
          rw [stretchEnd, List.find?_cons_of_neg (by simp [this]), ← stretchEnd]
          exact ih (by omega) (Nat.le_refl _)
        · exact ih (by omega) (Nat.le_refl _)
      · exact ih h (by omega)

theorem observedNext_of_le {P : Program C D} {p : Part} {n : Nat} (h : P.instrs.length ≤ n) :
    P.observedNext p n = none := by
  simp [Program.observedNext, Program.nextUse, Nat.sub_eq_zero_of_le h]

theorem observedNext_use {P : Program C D} {p : Part} {n : Nat} {i : Instr C D}
    (h : P.fetch n = some i) (hu : i.uses p = true) :
    P.observedNext p n = if i.observes p then some n else none := by
  have hlt : n < P.instrs.length := (List.getElem?_eq_some_iff.mp h).1
  obtain ⟨k, hk⟩ : ∃ k, P.instrs.length - n = k + 1 := ⟨P.instrs.length - n - 1, by omega⟩
  cases ho : i.observes p <;>
    simp [Program.observedNext, Program.nextUse, hk, List.range'_succ, h, hu, ho, Option.filter]

theorem observedNext_pass {P : Program C D} {p : Part} {n : Nat} {i : Instr C D}
    (h : P.fetch n = some i) (hu : i.uses p = false) :
    P.observedNext p n = P.observedNext p (n + 1) := by
  have hlt : n < P.instrs.length := (List.getElem?_eq_some_iff.mp h).1
  obtain ⟨k, hk⟩ : ∃ k, P.instrs.length - n = k + 1 := ⟨P.instrs.length - n - 1, by omega⟩
  have hk' : P.instrs.length - (n + 1) = k := by omega
  simp [Program.observedNext, Program.nextUse, hk, hk', List.range'_succ, h, hu]

theorem stretchEnd_stretches {P : Program C D} {p : Part} {start n m : Nat}
    {is : List (Instr C D)} (h : P.instrs.drop n = is) (hn : start ≤ n) (hm : start ≤ m) :
    stretchEnd (stretches p start n is) m = P.observedNext p (max m n) := by
  induction is generalizing start n with
  | nil =>
      have hlen : P.instrs.length - n = 0 := by
        rw [← List.length_drop, h, List.length_nil]
      exact (observedNext_of_le (by omega)).symm
  | cons i is ih =>
      have hfetch : P.fetch n = some i := by
        rw [Program.fetch, ← List.head?_drop, h, List.head?_cons]
      have hnext : P.instrs.drop (n + 1) = is := by
        rw [← List.tail_drop, h, List.tail_cons]
      unfold stretches
      cases hu : i.uses p with
      | true =>
          rcases Nat.lt_or_ge n m with hlt | hge
          · -- behind the use a new stretch starts
            have hrest := ih hnext (Nat.le_refl _) (by omega)
            rw [show max m (n + 1) = max m n by omega] at hrest
            cases ho : i.observes p with
            | true => rw [if_pos rfl, if_pos rfl, stretchEnd_cons_of_lt hlt, hrest]
            | false => rw [if_pos rfl, if_neg Bool.false_ne_true, hrest]
          · rw [show max m n = n by omega, observedNext_use hfetch hu]
            cases ho : i.observes p with
            | true => rw [if_pos rfl, if_pos rfl, stretchEnd_cons_of_le hm hge, if_pos rfl]
            | false =>
                rw [if_pos rfl, if_neg Bool.false_ne_true,
                  stretchEnd_of_lt (by omega) (Nat.le_refl _), if_neg Bool.false_ne_true]
      | false =>
          rw [if_neg Bool.false_ne_true, ih hnext (by omega) hm]
          rcases Nat.lt_or_ge n m with hlt | hge
          · rw [show max m (n + 1) = max m n by omega]
          · rw [show max m (n + 1) = n + 1 by omega, show max m n = n by omega,
              observedNext_pass hfetch hu]

theorem observedNext_eq (P : Program C D) (p : Part) (m : Nat) :
    P.observedNext p m = stretchEnd (stretches p 0 0 P.instrs) m := by
  rw [stretchEnd_stretches (P := P) List.drop_zero (Nat.le_refl 0) (Nat.zero_le m), Nat.max_zero]

section

variable [DecidableEq C] {P : Program C D} {L : Layout D} {inp : Byte} {s t : State}
  {i : Instr C D} {p : Part} {k : Nat}

/-- Up to its observation the part is not written, nothing is sent, and
control leaves the way there through the exits only. -/
def Program.transports (P : Program C D) (p : Part) (exits : List Nat) : Bool :=
  P.allEdges fun n i m =>
    match P.observedNext p n with
    | none => true
    | some k =>
        n = k || (!i.writes p && !i.writes .log &&
          (P.observedNext p m = some k || exits.contains m))

/-- **On the way to its observation** a part stays what it is. -/
theorem transport_step {exits : List Nat} (hc : P.transports p exits = true)
    (hobs : P.observedNext p s.rip = some k) (hne : s.rip ≠ k)
    (hedge : Edge P s.rip i t.rip) (h : exec P L inp s i = some t) :
    p.agree s t ∧ t.log = s.log ∧
      (P.observedNext p t.rip = some k ∨ t.rip ∈ exits) := by
  have hall := allEdges_spec hc hedge
  rw [hobs] at hall
  simp only [hne, decide_false, Bool.false_or, Bool.and_eq_true, Bool.not_eq_true',
    Bool.or_eq_true, decide_eq_true_eq, List.contains_eq_mem] at hall
  obtain ⟨⟨hp, hlog⟩, hgoes⟩ := hall
  exact ⟨exec_agree h hp, exec_agree (p := .log) h hlog, hgoes⟩

/-- A part that is observed next at `k` has been so since it was set at
`source`. -/
def Program.arrives (P : Program C D) (p : Part) (k source : Nat) : Bool :=
  P.allEdges fun n i m =>
    P.observedNext p m != some k || n = source ||
      (P.observedNext p n = some k && !i.writes p)

/-- **Where a part comes from**: it was just set, or it was observed next
already and has not changed. -/
theorem arrive_step {source : Nat} (hc : P.arrives p k source = true)
    (hobs : P.observedNext p t.rip = some k) (hedge : Edge P s.rip i t.rip)
    (h : exec P L inp s i = some t) :
    s.rip = source ∨ (P.observedNext p s.rip = some k ∧ p.agree s t) := by
  have hall := allEdges_spec hc hedge
  simp only [hobs, bne_self_eq_false, Bool.false_or, Bool.or_eq_true, decide_eq_true_eq,
    Bool.and_eq_true, Bool.not_eq_true'] at hall
  rcases hall with hsource | ⟨hbefore, hp⟩
  · exact .inl hsource
  · exact .inr ⟨hbefore, exec_agree h hp⟩

end

end X86

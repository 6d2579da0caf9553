import QemuTest.Lib.X86.Progress

/-!
# X86 — Straight

Straight lines through memory and the x87 unit. An instruction that is
`Operable` does not fault, and a line of them is gone down to its end
(`straight_gets`), under an invariant that says so at each of them.
-/

namespace X86

open Runs

variable {C D : Type}

/-- The memory operand an instruction reads or writes, and how many bytes. -/
def Instr.touches : Instr C D → Option (Mem D × Nat)
  | .vload w _ m | .vstore w m _ => some (m, w.bytes)
  | .fldcw m | .fnstcw m => some (m, 2)
  | .ldmxcsr m | .stmxcsr m => some (m, 4)
  | .fild m | .fistp m => some (m, 8)
  | _ => none

/-- Does it wait for a pending x87 exception to be handled? -/
def Instr.waits : Instr C D → Bool
  | .finit | .fldcw _ | .fild _ | .fistp _ => true
  | _ => false

/-- The instructions that go on to the next one, and neither send nor read
the port. -/
def Instr.steady (i : Instr C D) : Bool := i.direct || i.waits || i.touches.isSome

/-- Nothing keeps the instruction from being executed. -/
structure Operable (L : Layout D) (s : State) (i : Instr C D) : Prop where
  fits : ∀ m n, i.touches = some (m, n) → m.ea L s + n ≤ L.limit
  clear : i.waits = true → s.fpu.es = false
  reserved : ∀ m, i = .ldmxcsr m → (s.mem.load (m.ea L s) 4).toNat < 2 ^ 16

section

variable [DecidableEq C] {P : Program C D} {L : Layout D} {port : Port} {lo n m : Nat}
  {s t : State} {i : Instr C D}

theorem exec_operable (hi : i.steady = true) (h : Operable L s i) :
    ∃ t, exec P L 0 s i = some t := by
  by_cases hd : i.direct = true
  · obtain ⟨t, ht, -⟩ := exec_direct (P := P) (L := L) (s := s) hd 0
    exact ⟨t, ht⟩
  cases i <;> simp only [Instr.steady, Instr.waits, Instr.touches, hd] at hi
  case vload w j x =>
    exact ⟨_, by rw [exec, load_eq_some.mpr ⟨h.fits _ _ rfl, rfl⟩, Option.map_some]⟩
  case vstore w x j | fnstcw x | stmxcsr x =>
    exact ⟨_, by rw [exec, store_eq_some.mpr ⟨h.fits _ _ rfl, rfl⟩, Option.map_some]⟩
  case finit => exact ⟨_, by rw [exec, h.clear rfl]; rfl⟩
  case fldcw x | fild x =>
    exact ⟨_, by
      rw [exec, h.clear rfl, load_eq_some.mpr ⟨h.fits _ _ rfl, rfl⟩, if_neg Bool.false_ne_true,
        Option.map_some]⟩
  case ldmxcsr x =>
    exact ⟨_, by
      rw [exec, load_eq_some.mpr ⟨h.fits _ _ rfl, rfl⟩, Option.bind_some,
        if_pos (h.reserved x rfl)]⟩
  case fistp x =>
    rw [exec, h.clear rfl, if_neg Bool.false_ne_true]
    cases s.fpu.stored s.fpu.top with
    | none => exact ⟨_, rfl⟩
    | some v =>
        have hstore := (store_eq_some (s := s) (n := 8) (v := v)).mpr ⟨h.fits _ _ rfl, rfl⟩
        exact ⟨_, congrArg (Option.map _) hstore⟩
  all_goals cases hi

theorem steady_spec (hi : i.steady = true) (h : exec P L 0 s i = some t) :
    t.rip = s.rip + 1 ∧ t.log = s.log := by
  refine ⟨?_, exec_agree (p := .log) h (by cases i <;> first | rfl | cases hi)⟩
  have hsucc := exec_succ h (by rintro rfl; cases hi)
  cases i <;> first | exact List.mem_singleton.mp hsucc | cases hi

omit [DecidableEq C] in
theorem steady_reads (hi : i.steady = true) : i.reads = false := by
  cases i <;> first | rfl | cases hi

/-- **A straight line** is gone down to its end. -/
theorem straight_gets {I : State → Prop} (hstep : ∀ t e u, I t → Steps P L t e u → I u)
    (hline : ∀ s, I s → n ≤ s.rip → s.rip < m →
      ∃ i, P.fetch s.rip = some i ∧ i.steady = true ∧ Operable L s i)
    (hlo : lo ≤ n) (hn : n ≤ s.rip) (hm : s.rip ≤ m) (hI : I s) :
    Gets P L port lo (fun t => I t ∧ t.rip = m ∧ t.log = s.log) s := by
  -- by the instructions that are left
  induction hleft : m - s.rip generalizing s with
  | zero => exact .now ⟨hI, by omega, rfl⟩
  | succ k ih =>
      obtain ⟨i, hfetch, hi, hop⟩ := hline s hI hn (by omega)
      obtain ⟨t, ht⟩ := exec_operable (P := P) hi hop
      obtain ⟨hrip, hlog⟩ := steady_spec hi ht
      refine .cons (by omega) hfetch (steady_reads hi) ht ?_
      rw [← hlog]
      exact ih (by omega) (by omega) (hstep _ _ _ hI (steps_intro hfetch ht)) (by omega)

/-! ## By the text -/

/-- The operand lies within its data, or below `top`, as the text shows. -/
def Program.inBounds (P : Program C D) (joins : Joins) (len : D → Nat) (top n : Nat)
    (i : Instr C D) : Bool :=
  match i.touches with
  | none => true
  | some (.rel d off, k) => off + k ≤ len d
  | some (.base r off, k) =>
      match P.constants joins n r with
      | some (.imm v) => v.toNat + off + k ≤ top
      | some (.addr d disp) => disp + off + k ≤ len d
      | none => false

/-- The instructions from `n` up to `m` are a straight line within bounds. -/
def Program.tame (P : Program C D) (joins : Joins) (len : D → Nat) (top n m : Nat) : Bool :=
  (List.range' n (m - n)).all fun k =>
    match P.fetch k with
    | some i => i.steady && P.inBounds joins len top k i
    | none => false

variable {joins : Joins} {len : D → Nat} {top : Nat}

omit [DecidableEq C] in
theorem tame_spec (h : P.tame joins len top n m = true) {k : Nat} (hn : n ≤ k) (hm : k < m) :
    ∃ i, P.fetch k = some i ∧ i.steady = true ∧ P.inBounds joins len top k i = true := by
  have hk := List.all_eq_true.mp h k (List.mem_range'_1.mpr ⟨hn, by omega⟩)
  split at hk
  · rename_i i hi
    obtain ⟨hs, hb⟩ := Bool.and_eq_true_iff.mp hk
    exact ⟨i, hi, hs, hb⟩
  · cases hk

omit [DecidableEq C] in
theorem inBounds_fits (hdata : ∀ d, L.data d + len d ≤ L.limit) (htop : top ≤ L.limit)
    (hlimit : L.limit < 2 ^ 64) (hK : (P.constants joins s.rip).Agrees L s)
    (h : P.inBounds joins len top s.rip i = true) {x : Mem D} {k : Nat}
    (hx : i.touches = some (x, k)) : x.ea L s + k ≤ L.limit := by
  unfold Program.inBounds at h
  rw [hx] at h
  cases x with
  | rel d off =>
      have hd := hdata d
      have hle : off + k ≤ len d := of_decide_eq_true h
      show L.data d + off + k ≤ L.limit
      omega
  | base r off =>
      simp only at h
      split at h
      · rename_i v hv
        have hle := of_decide_eq_true h
        have hr : s.gpr r = BitVec.ofNat 64 v.toNat := by
          rw [BitVec.ofNat_toNat, BitVec.setWidth_eq]
          exact hK r _ hv
        rw [ea_base off hr (by omega)]
        omega
      · rename_i d disp hv
        have hd := hdata d
        have hle := of_decide_eq_true h
        have hr : s.gpr r = BitVec.ofNat 64 (L.data d + disp) := hK r _ hv
        rw [ea_base off hr (by omega)]
        omega
      · cases h

/-- **A line within bounds** is gone down to its end. -/
theorem tame_gets {I : State → Prop} (hstep : ∀ t e u, I t → Steps P L t e u → I u)
    (hK : ∀ s, I s → (P.constants joins s.rip).Agrees L s)
    (hdata : ∀ d, L.data d + len d ≤ L.limit) (htop : top ≤ L.limit)
    (hlimit : L.limit < 2 ^ 64) (htame : P.tame joins len top n m = true)
    (hclear : ∀ s i, I s → P.fetch s.rip = some i → i.waits = true → s.fpu.es = false)
    (hreserved : ∀ s x, I s → P.fetch s.rip = some (.ldmxcsr x) →
      (s.mem.load (x.ea L s) 4).toNat < 2 ^ 16)
    (hlo : lo ≤ n) (hn : s.rip = n) (hle : n ≤ m) (hI : I s) :
    Gets P L port lo (fun t => I t ∧ t.rip = m ∧ t.log = s.log) s := by
  refine straight_gets hstep (fun t ht hl hh => ?_) hlo (by omega) (by omega) hI
  obtain ⟨i, hfetch, hi, hb⟩ := tame_spec htame hl hh
  refine ⟨i, hfetch, hi, fun x k hx => ?_, hclear t i ht hfetch, fun x hx => ?_⟩
  · exact inBounds_fits hdata htop hlimit (hK t ht) hb hx
  · exact hreserved t x ht (hx ▸ hfetch)

end

end X86

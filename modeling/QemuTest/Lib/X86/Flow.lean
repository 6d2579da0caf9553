import QemuTest.Lib.X86.Machine

/-!
# X86 — Flow

What one step can change and where it can go. `exec_agree` is the frame rule:
an instruction leaves every part of the state alone that it does not write.
`Edge` is the control-flow graph, and `Nested` the stack discipline of a
program whose one subroutine calls nothing: with it every step follows an
edge, returns included. Claims about all edges are decided by `allEdges`.
-/

namespace X86

variable {C D : Type}

/-! ## Parts of the state -/

/-- The parts a frame rule speaks of. `xmm` is the low half of a vector
register, `tags` the shape of the x87 stack, `x87 k` the contents of one
slot. -/
inductive Part where
  | gpr (r : Reg)
  | flags
  | vec (i : Fin 16)
  | xmm (i : Fin 16)
  | mxcsr
  | cw
  | tags
  | x87 (k : Fin 8)
  | mem
  | log
  deriving DecidableEq, Repr

/-- The part is the same in both states. -/
def Part.agree (s t : State) : Part → Prop
  | .gpr r => t.gpr r = s.gpr r
  | .flags => t.flags = s.flags
  | .vec i => t.vec i = s.vec i
  | .xmm i => (t.vec i).setWidth 128 = (s.vec i).setWidth 128
  | .mxcsr => t.mxcsr = s.mxcsr
  | .cw => t.fpu.cw = s.fpu.cw
  | .tags => t.fpu.top = s.fpu.top ∧ t.fpu.full = s.fpu.full ∧ t.fpu.es = s.fpu.es
  | .x87 k => t.fpu.st k = s.fpu.st k
  | .mem => t.mem = s.mem
  | .log => t.log = s.log

/-- Two parts share some state. -/
def Part.overlaps (p q : Part) : Bool :=
  p = q ||
    match p, q with
    | .vec i, .xmm j | .xmm i, .vec j => i = j
    | _, _ => false

/-- The general registers an instruction writes. -/
def Instr.writesReg (r : Reg) : Instr C D → Bool
  | .mov _ d _ | .lea d _ | .add d _ | .sub d _ | .xor d _ | .dec d => d = r
  | .div _ => r = .rax ∨ r = .rdx
  | .lodsb => r = .rax ∨ r = .rsi
  | .push _ | .pushfq | .call _ | .ret => r = .rsp
  | .pop d => r = d ∨ r = .rsp
  | .inAl => r = .rax
  | _ => false

/-- May the instruction change the part? -/
def Instr.writes (i : Instr C D) : Part → Bool
  | .gpr r => i.writesReg r
  | .flags =>
      match i with
      | .cmp .. | .test .. | .add .. | .sub .. | .xor .. | .dec _ => true
      | _ => false
  | .vec j | .xmm j => match i with | .vload _ i _ => i = j | _ => false
  | .mxcsr => match i with | .ldmxcsr _ => true | _ => false
  | .cw => match i with | .finit | .fldcw _ => true | _ => false
  | .tags => match i with | .finit | .fild _ | .fistp _ => true | _ => false
  | .x87 _ => match i with | .fild _ => true | _ => false
  | .mem =>
      match i with
      | .push _ | .pushfq | .call _ | .vstore .. | .fnstcw _ | .fistp _ | .stmxcsr _ => true
      | _ => false
  | .log => match i with | .outAl => true | _ => false

/-- The bytes an instruction stores: address and count. -/
def Instr.target (L : Layout D) (s : State) : Instr C D → Nat × Nat
  | .push _ | .pushfq | .call _ => ((s.gpr .rsp - 8).toNat, 8)
  | .vstore w m _ => (m.ea L s, w.bytes)
  | .fnstcw m => (m.ea L s, 2)
  | .fistp m => (m.ea L s, 8)
  | .stmxcsr m => (m.ea L s, 4)
  | _ => (0, 0)

section

variable [DecidableEq C] {P : Program C D} {L : Layout D} {inp : Byte} {s t : State}
  {i : Instr C D}

/-! ## Inversion -/

theorem store_eq_some {n a : Nat} {v : BitVec (8 * n)} :
    s.store L a v = some t ↔ a + n ≤ L.limit ∧ t = { s with mem := s.mem.store a v } := by
  unfold State.store
  split <;> simp_all [eq_comm]

theorem load_eq_some {n a : Nat} {v : BitVec (8 * n)} :
    s.load L a n = some v ↔ a + n ≤ L.limit ∧ v = s.mem.load a n := by
  unfold State.load
  split <;> simp_all [eq_comm]

theorem push_eq_some {v : BitVec 64} :
    s.push L v = some t ↔
      (s.gpr .rsp - 8).toNat + 8 ≤ L.limit ∧
      t = { s.setReg .rsp (s.gpr .rsp - 8) with
        mem := s.mem.store (s.gpr .rsp - 8).toNat (n := 8) v } := by
  rw [State.push, store_eq_some]
  rfl

theorem pop_eq_some {p : BitVec 64 × State} :
    s.pop L = some p ↔
      (s.gpr .rsp).toNat + 8 ≤ L.limit ∧
      p = (s.mem.load (s.gpr .rsp).toNat 8, s.setReg .rsp (s.gpr .rsp + 8)) := by
  rw [State.pop, Option.map_eq_some_iff]
  constructor
  · rintro ⟨v, hv, rfl⟩
    obtain ⟨hle, rfl⟩ := load_eq_some.mp hv
    exact ⟨hle, rfl⟩
  · rintro ⟨hle, rfl⟩
    exact ⟨_, load_eq_some.mpr ⟨hle, rfl⟩, rfl⟩

theorem step_eq_some : step P L s inp = some t ↔
    ∃ i, P.fetch s.rip = some i ∧ exec P L inp s i = some t :=
  Option.bind_eq_some_iff

/-! ## Frames -/

@[simp] theorem Fpu.push_cw (f : Fpu) (x : Float80) : (f.push x).cw = f.cw := by
  unfold Fpu.push
  split
  · split <;> rfl
  · rfl

@[simp] theorem Fpu.afterStore_cw (f : Fpu) : f.afterStore.cw = f.cw := by
  unfold Fpu.afterStore
  split
  · rfl
  · split <;> rfl

@[simp] theorem Fpu.afterStore_st (f : Fpu) : f.afterStore.st = f.st := by
  unfold Fpu.afterStore
  split
  · rfl
  · split <;> rfl

/-- **The frame rule**: a part an instruction does not write stays. -/
theorem exec_agree (h : exec P L inp s i = some t) {p : Part} (hp : i.writes p = false) :
    p.agree s t := by
  cases i <;>
    simp only [exec, Option.map_eq_some_iff, Option.bind_eq_some_iff, push_eq_some,
      pop_eq_some, store_eq_some, load_eq_some, Option.some.injEq] at h
  case mov w d o | add d o | sub d o | xor d o =>
    obtain ⟨v, -, rfl⟩ := h
    cases p <;> simp_all [Part.agree, Instr.writes, Instr.writesReg, State.next, State.goto,
      State.setReg, Function.update_of_ne, eq_comm]
  case cmp w a b | test w a b =>
    obtain ⟨x, -, y, -, rfl⟩ := h
    cases p <;> simp_all [Part.agree, Instr.writes, State.next, State.goto]
  case lea d m | dec d | inAl | jmp c | hlt =>
    subst h
    cases p <;> simp_all [Part.agree, Instr.writes, Instr.writesReg, State.next, State.goto,
      State.setReg, Function.update_of_ne, eq_comm]
  case div r =>
    split at h
    · cases h
    · obtain rfl := Option.some.inj h
      cases p <;> simp_all [Part.agree, Instr.writes, Instr.writesReg, State.next,
        State.goto, State.setReg, Function.update_of_ne]
  case lodsb =>
    obtain ⟨v, -, rfl⟩ := h
    cases p <;> simp_all [Part.agree, Instr.writes, Instr.writesReg, State.next,
      State.goto, State.setReg, Function.update_of_ne]
  case push r | pushfq | call c =>
    obtain ⟨u, ⟨-, rfl⟩, rfl⟩ := h
    cases p <;> simp_all [Part.agree, Instr.writes, Instr.writesReg, State.next,
      State.goto, State.setReg, Function.update_of_ne]
  case pop r =>
    obtain ⟨u, ⟨-, rfl⟩, rfl⟩ := h
    cases p <;> simp_all [Part.agree, Instr.writes, Instr.writesReg, State.next,
      State.goto, State.setReg, Function.update_of_ne]
  case ret =>
    obtain ⟨u, ⟨-, rfl⟩, n, -, rfl⟩ := h
    cases p <;> simp_all [Part.agree, Instr.writes, Instr.writesReg,
      State.goto, State.setReg, Function.update_of_ne]
  case jcc k c =>
    subst h
    split <;> cases p <;> simp [Part.agree, State.next, State.goto]
  case outAl =>
    split at h <;> obtain rfl := Option.some.inj h <;>
      cases p <;> simp_all [Part.agree, Instr.writes, State.next, State.goto]
  case vload w j m =>
    obtain ⟨v, -, rfl⟩ := h
    cases p
    case vec k | xmm k =>
      have hk : k ≠ j := fun he => by simp [Instr.writes, he] at hp
      simp [Part.agree, Function.update_of_ne hk]
    all_goals simp [Part.agree, State.next, State.goto]
  case vstore w m j | fnstcw m | stmxcsr m =>
    obtain ⟨u, ⟨-, rfl⟩, rfl⟩ := h
    cases p <;> simp_all [Part.agree, Instr.writes, State.next, State.goto]
  case finit =>
    split at h
    · cases h
    · obtain rfl := Option.some.inj h
      cases p <;> simp_all [Part.agree, Instr.writes, State.next, State.goto, Fpu.init]
  case fldcw m =>
    split at h
    · cases h
    · obtain ⟨v, -, rfl⟩ := Option.map_eq_some_iff.mp h
      cases p <;> simp_all [Part.agree, Instr.writes, State.next, State.goto]
  case fild m =>
    split at h
    · cases h
    · obtain ⟨v, -, rfl⟩ := Option.map_eq_some_iff.mp h
      cases p <;> simp_all [Part.agree, Instr.writes, State.next, State.goto, Fpu.push_cw]
  case fistp m =>
    split at h
    · cases h
    · split at h
      · obtain ⟨u, hu, rfl⟩ := Option.map_eq_some_iff.mp h
        obtain ⟨-, rfl⟩ := store_eq_some.mp hu
        cases p <;> simp_all [Part.agree, Instr.writes, State.next, State.goto]
      · obtain rfl := Option.some.inj h
        cases p <;> simp_all [Part.agree, Instr.writes, State.next, State.goto]
  case ldmxcsr m =>
    obtain ⟨v, -, h⟩ := h
    split at h
    · obtain rfl := Option.some.inj h
      cases p <;> simp_all [Part.agree, Instr.writes, State.next, State.goto]
    · cases h

/-- Only the bytes an instruction stores change. -/
theorem exec_mem (h : exec P L inp s i = some t) {x : Nat}
    (hx : x < (i.target L s).1 ∨ (i.target L s).1 + (i.target L s).2 ≤ x) :
    t.mem x = s.mem x := by
  by_cases hw : i.writes .mem = false
  · exact congrFun (exec_agree h hw) x
  cases i <;> simp only [Instr.writes, not_true_eq_false, Bool.true_eq_false] at hw <;>
    simp only [exec, Option.map_eq_some_iff, push_eq_some, store_eq_some,
      Instr.target] at h hx
  case push r | pushfq | call c =>
    obtain ⟨u, ⟨-, rfl⟩, rfl⟩ := h
    exact store_outside _ _ hx
  case vstore w m j | fnstcw m | stmxcsr m =>
    obtain ⟨u, ⟨-, rfl⟩, rfl⟩ := h
    exact store_outside _ _ hx
  case fistp m =>
    split at h
    · cases h
    · split at h
      · obtain ⟨u, hu, rfl⟩ := Option.map_eq_some_iff.mp h
        obtain ⟨-, rfl⟩ := store_eq_some.mp hu
        exact store_outside _ _ hx
      · obtain rfl := Option.some.inj h
        rfl

/-! ## Operands -/

/-- The address of a memory operand whose register is known. -/
theorem ea_base (disp : Nat) {r : Reg} {x : Nat} (h : s.gpr r = BitVec.ofNat 64 x)
    (hx : x + disp < 2 ^ 64) : (Mem.base r disp).ea L s = x + disp := by
  simp only [Mem.ea, h]
  rw [BitVec.toNat_add, BitVec.toNat_ofNat, BitVec.toNat_ofNat]
  omega

/-- A vector register loaded from an address that is known. -/
theorem exec_vload {w : Lanes} {j : Fin 16} {r : Reg} {disp x : Nat}
    (h : exec P L inp s (.vload w j (.base r disp)) = some t)
    (hr : s.gpr r = BitVec.ofNat 64 x) (hx : x + disp < 2 ^ 64) :
    t.vec j = w.merge (s.vec j) (s.mem.load (x + disp) w.bytes) := by
  simp only [exec, Option.map_eq_some_iff, load_eq_some] at h
  obtain ⟨v, ⟨-, rfl⟩, rfl⟩ := h
  rw [← ea_base (L := L) disp hr hx]
  exact Function.update_self ..

/-- A vector register stored to an address that is known. -/
theorem exec_vstore {w : Lanes} {j : Fin 16} {r : Reg} {disp x : Nat}
    (h : exec P L inp s (.vstore w (.base r disp) j) = some t)
    (hr : s.gpr r = BitVec.ofNat 64 x) (hx : x + disp < 2 ^ 64) :
    t.mem.load (x + disp) w.bytes = w.low (s.vec j) := by
  simp only [exec, Option.map_eq_some_iff, store_eq_some] at h
  obtain ⟨u, ⟨-, rfl⟩, rfl⟩ := h
  rw [← ea_base (L := L) disp hr hx]
  exact load_store_same ..

/-- The control word stored. -/
theorem exec_fnstcw {x : Mem D} (h : exec P L inp s (.fnstcw x) = some t) :
    t.mem.load (x.ea L s) 2 = s.fpu.cw := by
  simp only [exec, Option.map_eq_some_iff, store_eq_some] at h
  obtain ⟨u, ⟨-, rfl⟩, rfl⟩ := h
  exact load_store_same ..

theorem exec_stmxcsr {x : Mem D} (h : exec P L inp s (.stmxcsr x) = some t) :
    t.mem.load (x.ea L s) 4 = s.mxcsr := by
  simp only [exec, Option.map_eq_some_iff, store_eq_some] at h
  obtain ⟨u, ⟨-, rfl⟩, rfl⟩ := h
  exact load_store_same ..

/-- An integer loaded onto the x87 stack. -/
theorem exec_fild {x : Mem D} (h : exec P L inp s (.fild x) = some t) :
    s.fpu.es = false ∧
      t.fpu = s.fpu.push (.ofInt (BitVec.toInt (s.mem.load (x.ea L s) 8))) := by
  simp only [exec] at h
  split at h
  · cases h
  · rename_i hes
    obtain ⟨v, hv, rfl⟩ := Option.map_eq_some_iff.mp h
    obtain ⟨-, rfl⟩ := load_eq_some.mp hv
    exact ⟨by simpa using hes, rfl⟩

/-- The top of the x87 stack stored. -/
theorem exec_fistp {x : Mem D} (h : exec P L inp s (.fistp x) = some t) :
    s.fpu.es = false ∧ t.fpu = s.fpu.afterStore ∧
      (∀ v, s.fpu.stored s.fpu.top = some v → t.mem.load (x.ea L s) 8 = v) ∧
      (s.fpu.stored s.fpu.top = none → t.mem = s.mem) := by
  simp only [exec] at h
  split at h
  · cases h
  · rename_i hes
    refine ⟨by simpa using hes, ?_⟩
    split at h
    · rename_i v hv
      obtain ⟨u, hu, rfl⟩ := Option.map_eq_some_iff.mp h
      obtain ⟨-, rfl⟩ := store_eq_some.mp hu
      refine ⟨rfl, fun v' hv' => ?_, fun hnone => by simp [hv] at hnone⟩
      obtain rfl := Option.some.inj (hv.symm.trans hv')
      exact load_store_same ..
    · rename_i hnone
      obtain rfl := Option.some.inj h
      exact ⟨rfl, fun v hv => by simp [hnone] at hv, fun _ => rfl⟩

/-! ## Control flow -/

/-- The instructions behind the calls of a program. -/
def Program.returnSites (P : Program C D) : List Nat :=
  (List.range P.instrs.length).filterMap fun n =>
    match P.fetch n with
    | some (.call _) => some (n + 1)
    | _ => none

/-- The instructions that can follow instruction `n`. -/
def Instr.succs (P : Program C D) (n : Nat) : Instr C D → List Nat
  | .jmp c => [P.entry c]
  | .jcc _ c => [n + 1, P.entry c]
  | .call c => [P.entry c]
  | .ret => P.returnSites
  | _ => [n + 1]

/-- An edge of the control-flow graph, with the instruction that takes it. -/
def Edge (P : Program C D) (n : Nat) (i : Instr C D) (m : Nat) : Prop :=
  P.fetch n = some i ∧ m ∈ i.succs P n

/-- A claim about every edge. -/
def Program.allEdges (P : Program C D) (f : Nat → Instr C D → Nat → Bool) : Bool :=
  (List.range P.instrs.length).all fun n =>
    match P.fetch n with
    | some i => (i.succs P n).all (f n i)
    | none => true

omit [DecidableEq C] in
theorem fetch_lt {n : Nat} (h : P.fetch n = some i) : n < P.instrs.length :=
  (List.getElem?_eq_some_iff.mp h).1

theorem allEdges_spec {f : Nat → Instr C D → Nat → Bool} (h : P.allEdges f = true)
    {n m : Nat} (he : Edge P n i m) : f n i m = true := by
  have hn := List.all_eq_true.mp h n (List.mem_range.mpr (fetch_lt he.1))
  rw [he.1] at hn
  exact List.all_eq_true.mp hn m he.2

omit [DecidableEq C] in
theorem mem_returnSites {n : Nat} {c : C} (h : P.fetch n = some (.call c)) :
    n + 1 ∈ P.returnSites :=
  List.mem_filterMap.mpr ⟨n, List.mem_range.mpr (fetch_lt h), by rw [h]⟩

/-- Every instruction but a return goes to one of its successors. -/
theorem exec_succ (h : exec P L inp s i = some t) (hret : i ≠ .ret) :
    t.rip ∈ i.succs P s.rip := by
  cases i <;>
    simp only [exec, Option.map_eq_some_iff, Option.bind_eq_some_iff, push_eq_some,
      pop_eq_some, store_eq_some, load_eq_some, Option.some.injEq] at h
  case ret => exact absurd rfl hret
  case mov w d o | add d o | sub d o | xor d o | lodsb | vload w j m =>
    obtain ⟨v, -, rfl⟩ := h
    exact List.mem_singleton_self _
  case cmp w a b | test w a b =>
    obtain ⟨x, -, y, -, rfl⟩ := h
    exact List.mem_singleton_self _
  case lea d m | dec d | inAl | jmp c | hlt =>
    subst h
    exact List.mem_singleton_self _
  case div r =>
    split at h
    · cases h
    · obtain rfl := Option.some.inj h
      exact List.mem_singleton_self _
  case push r | pushfq | call c | pop r | vstore w m j | fnstcw m | stmxcsr m =>
    obtain ⟨u, ⟨-, rfl⟩, rfl⟩ := h
    exact List.mem_singleton_self _
  case jcc k c =>
    subst h
    split <;> simp [Instr.succs, State.next, State.goto]
  case outAl =>
    split at h <;> obtain rfl := Option.some.inj h <;> exact List.mem_singleton_self _
  case finit =>
    split at h
    · cases h
    · obtain rfl := Option.some.inj h
      exact List.mem_singleton_self _
  case fldcw m | fild m =>
    split at h
    · cases h
    · obtain ⟨v, -, rfl⟩ := Option.map_eq_some_iff.mp h
      exact List.mem_singleton_self _
  case fistp m =>
    split at h
    · cases h
    · split at h
      · obtain ⟨u, hu, rfl⟩ := Option.map_eq_some_iff.mp h
        obtain ⟨-, rfl⟩ := store_eq_some.mp hu
        exact List.mem_singleton_self _
      · obtain rfl := Option.some.inj h
        exact List.mem_singleton_self _
  case ldmxcsr m =>
    obtain ⟨v, -, h⟩ := h
    split at h
    · obtain rfl := Option.some.inj h
      exact List.mem_singleton_self _
    · cases h

/-- The addresses of a program's instructions differ. -/
def Layout.Injective (L : Layout D) (P : Program C D) : Prop :=
  ∀ m < P.instrs.length, ∀ n < P.instrs.length, L.code m = L.code n → m = n

/-- A return to the address of instruction `n` goes there. -/
theorem exec_ret (hL : L.Injective P) (h : exec P L inp s .ret = some t) {n : Nat}
    (hn : n < P.instrs.length)
    (hslot : s.mem.load (s.gpr .rsp).toNat 8 = L.code n) :
    t = (s.setReg .rsp (s.gpr .rsp + 8)).goto n := by
  simp only [exec, Option.bind_eq_some_iff, pop_eq_some, Option.map_eq_some_iff] at h
  obtain ⟨u, ⟨-, rfl⟩, m, hm, rfl⟩ := h
  have hrange := List.mem_range.mp (List.mem_of_find?_eq_some hm)
  have hcode : L.code m = L.code n := by
    rw [← hslot]
    simpa using List.find?_some hm
  rw [hL m hrange n hn hcode]

/-! ## The stack discipline -/

def Instr.pushes : Instr C D → Bool
  | .push _ | .pushfq => true
  | _ => false

def Instr.pops : Instr C D → Bool
  | .pop _ => true
  | _ => false

/-- How many words lie on the stack before instruction `n`: those pushed and
not popped above it, and the return address inside the subroutine, which
starts at `body` and ends with the program. -/
def Program.depth (P : Program C D) (body n : Nat) : Nat :=
  ((P.instrs.take n).filter Instr.pushes).length
    - ((P.instrs.take n).filter Instr.pops).length + if body ≤ n then 1 else 0

/-- What an edge has to meet for the discipline to hold. -/
def nestOk (P : Program C D) (body n : Nat) (i : Instr C D) (m : Nat) : Bool :=
  let d := P.depth body
  match i with
  | .push _ | .pushfq => d m = d n + 1 ∧ d m ≤ 2 ∧ (body ≤ m ↔ body ≤ n)
  | .pop r => r ≠ .rsp ∧ d m + 1 = d n ∧ d n ≤ 2 ∧ (body ≤ m ↔ body ≤ n)
  | .call _ => m = body ∧ d n = 0 ∧ d m = 1
  | .ret => body ≤ n ∧ m < body ∧ d n = 1 ∧ d m = 0
  | i => ¬ i.writesReg .rsp ∧ (body ≤ n → ¬ i.writes .mem) ∧ d m = d n ∧
      (body ≤ m ↔ body ≤ n)

/-- The discipline: the stack, which starts at `top`, is as deep as `depth`
says, and under the subroutine lies the address of a return site. -/
structure Nested (P : Program C D) (L : Layout D) (body top : Nat) (s : State) : Prop where
  rsp : s.gpr .rsp = BitVec.ofNat 64 (top - 8 * P.depth body s.rip)
  site : body ≤ s.rip → ∃ n ∈ P.returnSites, s.mem.load (top - 8) 8 = L.code n

omit [DecidableEq C] in
theorem depth_pos {body n : Nat} (h : body ≤ n) : 1 ≤ P.depth body n := by
  simp [Program.depth, h]

/-- Not a stack instruction. -/
def Instr.plain : Instr C D → Bool
  | .push _ | .pushfq | .pop _ | .call _ | .ret => false
  | _ => true

omit [DecidableEq C] in
theorem nestOk_plain {body n m : Nat} (hi : i.plain = true)
    (h : nestOk P body n i m = true) :
    i.writesReg .rsp = false ∧ (body ≤ n → i.writes .mem = false) ∧
      P.depth body m = P.depth body n ∧ (body ≤ m ↔ body ≤ n) := by
  have hall : i.writesReg .rsp = false ∧ (n < body ∨ i.writes .mem = false) ∧
      P.depth body m = P.depth body n ∧ (body ≤ m ↔ body ≤ n) := by
    cases i <;> simp_all [nestOk, Instr.plain]
  obtain ⟨hrsp, hmem, hd, hside⟩ := hall
  exact ⟨hrsp, fun hle => hmem.resolve_left (by omega), hd, hside⟩

/-- The check of a whole program. -/
def wellNested (P : Program C D) (body : Nat) : Bool :=
  P.allEdges (nestOk P body) && (List.range P.instrs.length).all fun n =>
    match P.fetch n with
    | some .ret => body ≤ n
    | _ => true

theorem ofNat_sub_word {n : Nat} (h : 8 ≤ n) :
    BitVec.ofNat 64 n - 8 = BitVec.ofNat 64 (n - 8) := by
  apply BitVec.eq_of_toNat_eq
  simp
  omega

theorem ofNat_add_word (n : Nat) : BitVec.ofNat 64 n + 8 = BitVec.ofNat 64 (n + 8) := by
  apply BitVec.eq_of_toNat_eq
  simp

/-- A word pushed. -/
theorem exec_push (top d : Nat) (h : exec P L inp s i = some t) (hd : 8 * (d + 1) ≤ top)
    (htop : top < 2 ^ 64) (hrsp : s.gpr .rsp = BitVec.ofNat 64 (top - 8 * d))
    (hi : i.pushes = true ∨ ∃ c, i = .call c) :
    t.gpr .rsp = BitVec.ofNat 64 (top - 8 * (d + 1)) ∧
      ∃ v, t.mem = s.mem.store (top - 8 * (d + 1)) (n := 8) v ∧
        ∀ c, i = .call c → v = L.code (s.rip + 1) := by
  have hrsp' : s.gpr .rsp - 8 = BitVec.ofNat 64 (top - 8 * (d + 1)) := by
    rw [hrsp, ofNat_sub_word (by omega)]
    congr 1
  have haddr : (BitVec.ofNat 64 (top - 8 * (d + 1))).toNat = top - 8 * (d + 1) := by
    rw [BitVec.toNat_ofNat, Nat.mod_eq_of_lt (by omega)]
  cases i
  case push r | pushfq | call c =>
    simp only [exec, Option.map_eq_some_iff, push_eq_some, hrsp', haddr] at h
    obtain ⟨u, ⟨-, rfl⟩, rfl⟩ := h
    exact ⟨by simp [State.next, State.goto, State.setReg], _, rfl, by simp⟩
  all_goals simp [Instr.pushes] at hi

/-- **The discipline is kept, and control follows the graph**, returns
included. -/
theorem nested_step {body top : Nat} (hok : wellNested P body = true)
    (hL : L.Injective P) (hlow : 24 ≤ top) (htop : top < 2 ^ 64)
    (hs : Nested P L body top s) (hfetch : P.fetch s.rip = some i)
    (h : exec P L inp s i = some t) :
    Nested P L body top t ∧ Edge P s.rip i t.rip := by
  obtain ⟨hedges, hrets⟩ := Bool.and_eq_true_iff.mp hok
  have hcheck : ∀ m, Edge P s.rip i m → nestOk P body s.rip i m = true :=
    fun m he => allEdges_spec hedges he
  by_cases hret : i = .ret
  · subst hret
    have hbody : body ≤ s.rip := by
      have := List.all_eq_true.mp hrets s.rip (List.mem_range.mpr (fetch_lt hfetch))
      simpa [hfetch] using this
    obtain ⟨n, hn, hslot⟩ := hs.site hbody
    have hedge : Edge P s.rip .ret n := ⟨hfetch, hn⟩
    obtain ⟨-, hnb, hdepth, hdepth'⟩ : body ≤ s.rip ∧ n < body ∧
        P.depth body s.rip = 1 ∧ P.depth body n = 0 := by
      simpa [nestOk] using hcheck n hedge
    have hrsp := hs.rsp
    rw [hdepth, Nat.mul_one] at hrsp
    have haddr : (s.gpr .rsp).toNat = top - 8 := by
      rw [hrsp, BitVec.toNat_ofNat, Nat.mod_eq_of_lt (by omega)]
    obtain rfl := exec_ret hL h (by have := fetch_lt hfetch; omega) (haddr ▸ hslot)
    refine ⟨⟨?_, fun hle => ?_⟩, hedge⟩
    · simp only [State.goto, State.setReg, Function.update_self, hdepth', hrsp,
        ofNat_add_word]
      congr 1
      omega
    · exact absurd hle (by simp only [State.goto]; omega)
  have hedge : Edge P s.rip i t.rip := ⟨hfetch, exec_succ h hret⟩
  have hck := hcheck _ hedge
  refine ⟨?_, hedge⟩
  by_cases hplain : i.plain = true
  · obtain ⟨hrsp, hmem, hd, hside⟩ := nestOk_plain hplain hck
    have hrsp' : t.gpr .rsp = s.gpr .rsp := exec_agree (p := .gpr .rsp) h hrsp
    refine ⟨by rw [hrsp', hs.rsp, hd], fun hle => ?_⟩
    obtain ⟨n, hn, hslot⟩ := hs.site (hside.mp hle)
    have hmem' : t.mem = s.mem := exec_agree (p := .mem) h (hmem (hside.mp hle))
    exact ⟨n, hn, by rw [hmem', hslot]⟩
  cases i
  case ret => exact absurd rfl hret
  case push r | pushfq =>
    obtain ⟨hd, hd2, hside⟩ : P.depth body t.rip = P.depth body s.rip + 1 ∧
        P.depth body t.rip ≤ 2 ∧ (body ≤ t.rip ↔ body ≤ s.rip) := by
      simpa [nestOk] using hck
    obtain ⟨hrsp, v, hmem, -⟩ := exec_push top _ h (by omega) htop hs.rsp (.inl rfl)
    refine ⟨by rw [hd, hrsp], fun hle => ?_⟩
    obtain ⟨n, hn, hslot⟩ := hs.site (hside.mp hle)
    have hpos := depth_pos (P := P) (hside.mp hle)
    -- the return address lies above the pushed word
    exact ⟨n, hn, by rw [hmem, load_store_disjoint _ _ (by omega), hslot]⟩
  case call c =>
    obtain ⟨rfl, hd, hd'⟩ : t.rip = body ∧ P.depth body s.rip = 0 ∧
        P.depth body t.rip = 1 := by
      simpa [nestOk] using hck
    obtain ⟨hrsp, v, hmem, hv⟩ := exec_push top _ h (by omega) htop hs.rsp (.inr ⟨c, rfl⟩)
    obtain rfl := hv c rfl
    rw [hd] at hrsp hmem
    refine ⟨by rw [hd', hrsp], fun _ => ⟨_, mem_returnSites hfetch, ?_⟩⟩
    rw [hmem]
    exact load_store_same _ _ _
  case pop r =>
    obtain ⟨hr, hd, hd2, hside⟩ : ¬ r = .rsp ∧
        P.depth body t.rip + 1 = P.depth body s.rip ∧ P.depth body s.rip ≤ 2 ∧
        (body ≤ t.rip ↔ body ≤ s.rip) := by
      simpa [nestOk] using hck
    have hmem : t.mem = s.mem := exec_agree (p := .mem) h rfl
    refine ⟨?_, fun hle => ?_⟩
    · simp only [exec, Option.map_eq_some_iff, pop_eq_some] at h
      obtain ⟨u, ⟨-, rfl⟩, rfl⟩ := h
      simp only [State.next, State.goto, State.setReg] at hd ⊢
      rw [Function.update_of_ne (Ne.symm hr), Function.update_self, hs.rsp, ofNat_add_word]
      congr 1
      omega
    · obtain ⟨n, hn, hslot⟩ := hs.site (hside.mp hle)
      exact ⟨n, hn, by rw [hmem, hslot]⟩
  all_goals exact absurd rfl hplain

/-- Calls and pushes change nothing from the top of the stack on. -/
theorem push_below {body top : Nat} (hok : wellNested P body = true) (hlow : 24 ≤ top)
    (htop : top < 2 ^ 64) (hs : Nested P L body top s) (hfetch : P.fetch s.rip = some i)
    (h : exec P L inp s i = some t) (hi : i.pushes = true ∨ ∃ c, i = .call c) {x : Nat}
    (hx : top ≤ x) : t.mem x = s.mem x := by
  have hret : i ≠ .ret := by
    rintro rfl
    simp [Instr.pushes] at hi
  have hck := allEdges_spec (Bool.and_eq_true_iff.mp hok).1
    (⟨hfetch, exec_succ h hret⟩ : Edge P s.rip i t.rip)
  have hdepth : P.depth body s.rip ≤ 1 := by
    cases i <;> simp [Instr.pushes] at hi <;> simp [nestOk] at hck <;> omega
  obtain ⟨-, v, hv, -⟩ := exec_push top _ h (by omega) htop hs.rsp hi
  rw [hv, store_outside _ _ (by omega)]

end

end X86

import QemuTest.Lib.X86.ProtectedRuns

/-!
# Asm — Pm32

`pm32.inc` and what the 32-bit boot sectors share: where `ENTER_PMODE32` leaves
them, the code lies in a page that is mapped to itself and holds their stack
below it (`Settled`, `Stack`). The rules say what a line of arithmetic, a loop, a
repeated instruction, or a push does there.
-/

namespace QemuTest.Asm32

open X86 (Byte Flags Memory Port PageMap byteAt byteAt_zero)
open X86.Protected

/-! ## Instructions by their usual names -/

section

variable {C D : Type}

/-- `mov r, v`. -/
def mov (r : Reg) (v : Word) : Item C D := .ins (.mov .dword r (.imm v))

/-- `mov r, d`: the address of a label. -/
def movOffset (r : Reg) (d : D) : Item C D := .ins (.mov .dword r (.offset d))

/-- `mov dx, v`. -/
def movDx (v : Word) : Item C D := .ins (.mov .word .edx (.imm v))

/-- `mov al, c`. -/
def movAl (c : Char) : Item C D := .ins (.mov .byte .eax (.imm (BitVec.ofNat 32 c.toNat)))

/-- `mov r, [a]`. -/
def load (r : Reg) (m : Mem D) : Item C D := .ins (.mov .dword r (.mem m))

/-- `mov [a], r`. -/
def store (m : Mem D) (r : Reg) : Item C D := .ins (.store m (.reg r))

def cmp (r : Reg) (v : Word) : Item C D := .ins (.cmp r (.imm v))

def dec (r : Reg) : Item C D := .ins (.dec r)

def rep (op : StringOp) : Item C D := .ins (.rep op)

def jmp (c : C) : Item C D := .ins (.jmp c)

def jz (c : C) : Item C D := .ins (.jcc .z c)

/-- `jnz`, `jne`. -/
def jne (c : C) : Item C D := .ins (.jcc .nz c)

def call (c : C) : Item C D := .ins (.call c)

end

variable {C D σ : Type}

/-- A boot sector: the code lies in the 512 bytes at `0x7c00`, in memory. -/
structure Sector (P : Program C D) (L : Layout D) : Prop where
  injective : ∀ m < P.instrs.length, ∀ n < P.instrs.length, L.code m = L.code n → m = n
  low : ∀ n < P.instrs.length, 0x7c00 ≤ (L.code n).toNat
  high : ∀ n < P.instrs.length, (L.code n).toNat < 0x7e00
  limit : 0x8000 ≤ L.limit

/-- A layout with four bytes for each instruction. -/
def slotLayout (data : D → Nat) (limit : Nat) : Layout D where
  code n := BitVec.ofNat 32 (0x7c00 + 4 * n)
  data := data
  limit := limit

theorem sector_slots {P : Program C D} {data : D → Nat} {limit : Nat}
    (h : P.instrs.length ≤ 128) (hlimit : 0x8000 ≤ limit) : Sector P (slotLayout data limit) := by
  have hcode : ∀ n < P.instrs.length, ((slotLayout data limit).code n).toNat = 0x7c00 + 4 * n :=
    fun n hn => Nat.mod_eq_of_lt (by omega)
  refine ⟨fun m hm n hn he => ?_, fun n hn => ?_, fun n hn => ?_, hlimit⟩
  · have hnat := congrArg BitVec.toNat he
    rw [hcode m hm, hcode n hn] at hnat
    omega
  · rw [hcode n hn]
    omega
  · rw [hcode n hn]
    omega

/-- An instruction of an included routine by its number in the program. -/
theorem fetch_of_eq {P Q : Program C D} {body n m : Nat}
    (h : P.fetch (body + n) = Q.instrs[n]?) (hm : m = body + n) : P.fetch m = Q.instrs[n]? :=
  hm ▸ h

/-- A line of instructions as it stands in the program. -/
theorem line_at {P : Program C D} {n m : Nat} {l : List (Instr C D)}
    (h : (P.instrs.drop n).take l.length = l) (hm : m = n) :
    ∀ k < l.length, P.fetch (m + k) = l[k]? := by
  intro k hk
  rw [hm, Program.fetch, ← List.getElem?_drop, ← List.getElem?_take_of_lt hk, h]

theorem fetch_some_lt {P : Program C D} {i : Instr C D} {n : Nat} (h : P.fetch n = some i) :
    n < P.instrs.length :=
  (List.getElem?_eq_some_iff.mp h).1

/-! ## Words -/

theorem toNat_word {e : Nat} (he : e < 2 ^ 32) : (BitVec.ofNat 32 e).toNat = e := by
  rw [BitVec.toNat_ofNat, Nat.mod_eq_of_lt he]

theorem word_sub {e : Nat} (hlo : 4 ≤ e) : BitVec.ofNat 32 e - 4 = BitVec.ofNat 32 (e - 4) := by
  apply BitVec.eq_of_toNat_eq
  simp
  omega

theorem word_pred (e : Nat) : BitVec.ofNat 32 (e + 1) - 1 = BitVec.ofNat 32 e := by
  apply BitVec.eq_of_toNat_eq
  simp
  omega

theorem word_add (e k : Nat) :
    BitVec.ofNat 32 e + BitVec.ofNat 32 k = BitVec.ofNat 32 (e + k) := by
  apply BitVec.eq_of_toNat_eq
  simp

variable [DecidableEq C]

/-- The low part of a register behind a move to it. -/
theorem merge_byte (old v : Word) : (Size.byte.merge old v).setWidth 8 = v.setWidth 8 :=
  BitVec.setWidth_append_eq_right (a := old.extractLsb' 8 24)

theorem merge_word (old v : Word) : (Size.word.merge old v).setWidth 16 = v.setWidth 16 :=
  BitVec.setWidth_append_eq_right (a := old.extractLsb' 16 16)

/-! ## The page of the boot sector

It holds the code, and below it the stack. -/

/-- The page is mapped to itself, whatever the stack holds. -/
structure Settled (s : State σ) : Prop where
  home : s.tables 7 = some 7
  calm : ∀ m : Memory, (∀ x, x < 0x7000 ∨ 0x7c00 ≤ x → m x = s.mem x) →
    s.control.tables m = s.tables

variable {P : Program C D} {L : Layout D} {H : Host D σ} {e : Nat}
  {s t : State σ} {i : Instr C D} {Q : State σ → Prop}

omit [DecidableEq C] in
theorem byte_home (hs : s.tables 7 = some 7) (hlimit : 0x8000 ≤ L.limit) {a : Nat}
    (hlo : 0x7000 ≤ a) (hhi : a < 0x8000) : byte? L s.tables a = some a := by
  have haddr : address s.tables a = some a := by
    rw [address, if_pos (by omega), PageMap.address, show a / 2 ^ 12 = 7 by omega, hs,
      Option.map_some]
    congr 1
    omega
  rw [byte?, haddr, Option.filter_some, if_pos (by simpa using by omega)]

omit [DecidableEq C] in
theorem fetch_home (hL : Sector P L) (hs : s.tables 7 = some 7)
    (h : P.fetch s.eip = some i) : X86.Protected.fetch P L s.tables s = some i := by
  have hlt : s.eip < P.instrs.length := (List.getElem?_eq_some_iff.mp h).1
  have hlo := hL.low _ hlt
  have hhi := hL.high _ hlt
  rw [X86.Protected.fetch, if_pos, h]
  rw [address, if_pos (by omega), PageMap.address,
    show (L.code s.eip).toNat / 2 ^ 12 = 7 by omega, hs, Option.map_some]
  congr 1
  omega

omit [DecidableEq C] in
/-- The page stays settled as long as only the stack changes. -/
theorem Settled.of_stack (h : Settled s) (hc : t.control = s.control)
    (hm : ∀ x, x < 0x7000 ∨ 0x7c00 ≤ x → t.mem x = s.mem x) :
    t.tables = s.tables ∧ Settled t := by
  have htables : t.tables = s.tables := by
    rw [State.tables, hc]
    exact h.calm t.mem hm
  refine ⟨htables, htables ▸ h.home, fun m hmm => ?_⟩
  rw [htables, hc]
  exact h.calm m fun x hx => (hmm x hx).trans (hm x hx)

omit [DecidableEq C] in
theorem Settled.goto (h : Settled s) (n : Nat) : Settled (s.goto n) := ⟨h.home, h.calm⟩

/-- What an instruction leaves that only computes or sends. -/
structure Kept (s t : State σ) : Prop where
  dev : t.dev = s.dev
  df : t.df = s.df
  control : t.control = s.control

omit [DecidableEq C] in
theorem Kept.trans {u : State σ} (h : Kept s t) (h' : Kept t u) : Kept s u :=
  ⟨h'.dev.trans h.dev, h'.df.trans h.df, h'.control.trans h.control⟩

/-! ### In the registers -/

/-- Only registers and flags have changed. -/
structure Calculated (s : State σ) (x : Gprs × Flags) (t : State σ) : Prop extends Kept s t where
  gpr : t.gpr = x.1
  flags : t.flags = x.2
  mem : t.mem = s.mem
  port : t.port = s.port
  log : t.log = s.log

section

variable (hL : Sector P L) (hs : Settled s)

include hL hs

/-- An instruction that leaves memory and the control registers. -/
theorem gets_calm (hf : P.fetch s.eip = some i) (hexec : exec P L H s.tables s i = some t)
    (hm : t.mem = s.mem) (hc : t.control = s.control) (h : Settled t → Gets P L H Q t) :
    Gets P L H Q s := by
  obtain ⟨htables, ht⟩ := hs.of_stack hc fun x _ => congrFun hm x
  exact .cons (fetch_home hL hs.home hf) hexec htables (h ht)

theorem gets_jmp {c : C} (hf : P.fetch s.eip = some (.jmp c))
    (h : Settled (s.goto (P.entry c)) → Gets P L H Q (s.goto (P.entry c))) : Gets P L H Q s :=
  gets_calm hL hs (t := s.goto (P.entry c)) hf rfl rfl rfl h

theorem gets_jcc {k : Cond} {c : C} {n : Nat} (hf : P.fetch s.eip = some (.jcc k c))
    (hn : (if k.holds s.flags then P.entry c else s.eip + 1) = n)
    (h : Settled (s.goto n) → Gets P L H Q (s.goto n)) : Gets P L H Q s := by
  refine gets_calm hL hs (t := s.goto n) hf ?_ rfl rfl h
  rw [exec, ← hn]
  split <;> rfl

/-- A status read. -/
theorem gets_inAl (hf : P.fetch s.eip = some .inAl)
    (h : ∀ t, t.eip = s.eip + 1 → Kept s t → Settled t → t.mem = s.mem → t.log = s.log →
      (t.port = fun n => s.port (n + 1)) →
      t.gpr = Function.update s.gpr .eax (Size.byte.merge (s.gpr .eax) ((s.port 0).setWidth 32)) →
      Gets P L H Q t) : Gets P L H Q s :=
  gets_calm hL hs hf rfl rfl rfl fun ht => h _ rfl ⟨rfl, rfl, rfl⟩ ht rfl rfl rfl rfl

/-- A byte sent. -/
theorem gets_outAl (hf : P.fetch s.eip = some .outAl) (hdx : s.dx = com1)
    (h : ∀ t, t.eip = s.eip + 1 → Kept s t → Settled t → t.mem = s.mem → t.port = s.port →
      t.gpr = s.gpr → t.log = s.log ++ [s.al] → Gets P L H Q t) : Gets P L H Q s := by
  have hexec : exec P L H s.tables s .outAl = some { s.next with log := s.log ++ [s.al] } := by
    rw [exec, if_pos hdx]
  exact gets_calm hL hs hf hexec rfl rfl fun ht => h _ rfl ⟨rfl, rfl, rfl⟩ ht rfl rfl rfl rfl

/-- An instruction of arithmetic. -/
theorem gets_calc {x : Gprs × Flags} (hf : P.fetch s.eip = some i)
    (hcalc : i.calc L (s.gpr, s.flags) = some x)
    (h : ∀ t, t.eip = s.eip + 1 → Calculated s x t → Settled t → Gets P L H Q t) :
    Gets P L H Q s := by
  refine gets_calm hL hs hf (exec_calc hcalc) rfl rfl fun ht => h _ rfl ?_ ht
  exact ⟨⟨rfl, rfl, rfl⟩, rfl, rfl, rfl, rfl, rfl⟩

/-- **A line of it.** -/
theorem gets_line {l : List (Instr C D)} {x : Gprs × Flags}
    (hline : ∀ k < l.length, P.fetch (s.eip + k) = l[k]?)
    (hcalc : calcs L l (s.gpr, s.flags) = some x)
    (h : ∀ t, t.eip = s.eip + l.length → Calculated s x t → Settled t → Gets P L H Q t) :
    Gets P L H Q s := by
  induction l generalizing s with
  | nil =>
      obtain rfl := Option.some.inj hcalc
      exact h s rfl ⟨⟨rfl, rfl, rfl⟩, rfl, rfl, rfl, rfl, rfl⟩ hs
  | cons i l ih =>
      obtain ⟨y, hy, hrest⟩ := Option.bind_eq_some_iff.mp hcalc
      refine gets_calm hL hs (hline 0 (Nat.succ_pos _)) (exec_calc hy) rfl rfl fun hu => ?_
      refine ih hu (fun k hk => ?_) hrest fun t ht hcalcd hst => h t ?_ ?_ hst
      · have htail := hline (k + 1) (Nat.succ_lt_succ hk)
        rw [Nat.add_comm k, ← Nat.add_assoc, Nat.add_comm 1 k, List.getElem?_cons_succ] at htail
        exact htail
      · rw [ht, List.length_cons, Nat.add_assoc, Nat.add_comm 1]
      · exact ⟨⟨hcalcd.dev, hcalcd.df, hcalcd.control⟩, hcalcd.gpr, hcalcd.flags, hcalcd.mem,
          hcalcd.port, hcalcd.log⟩

end

theorem gets_cld (hL : Sector P L) (hhome : s.tables 7 = some 7)
    (hf : P.fetch s.eip = some .cld) (h : Gets P L H Q { s.next with df := false }) :
    Gets P L H Q s :=
  .cons (fetch_home hL hhome hf) rfl rfl h

/-- A move to a control register. -/
theorem gets_toControl {k : ControlReg} (hL : Sector P L) (hs : Settled s)
    (hf : P.fetch s.eip = some (.toControl k))
    (hallowed : (s.control.set (s.gpr .eax) k).allowed = true)
    (hQ : ∀ t, t.eip = s.eip + 1 → t.gpr = s.gpr → t.mem = s.mem → t.port = s.port →
      t.log = s.log → t.control = s.control.set (s.gpr .eax) k → Gets P L H Q t) :
    Gets P L H Q s := by
  have hexec : exec P L H s.tables s (.toControl k)
      = some { s.next with control := s.control.set (s.gpr .eax) k } := if_pos hallowed
  exact .control (fetch_home hL hs.home hf) hexec (hQ _ rfl rfl rfl rfl rfl rfl)

/-- A move from one. -/
theorem gets_fromControl {k : ControlReg} (hL : Sector P L) (hs : Settled s)
    (hf : P.fetch s.eip = some (.fromControl k))
    (hQ : ∀ t, t.eip = s.eip + 1 → Kept s t → Settled t → t.mem = s.mem → t.port = s.port →
      t.log = s.log → t.gpr = Function.update s.gpr .eax (s.control.get k) → Gets P L H Q t) :
    Gets P L H Q s :=
  gets_calm hL hs hf rfl rfl rfl fun ht => hQ _ rfl ⟨rfl, rfl, rfl⟩ ht rfl rfl rfl rfl

/-- **A repeated instruction**, by the rounds that are left. -/
theorem gets_rep {op : StringOp} {I : Nat → State σ → Prop} (hL : Sector P L)
    (hI : ∀ n u, I n u → P.fetch u.eip = some (.rep op) ∧ u.gpr .ecx = BitVec.ofNat 32 n ∧
      n < 2 ^ 32 ∧ u.tables 7 = some 7)
    (hround : ∀ n u, I (n + 1) u → ∃ t, op.exec L H u.tables u = some t ∧ t.tables = u.tables ∧
      I n (t.setReg .ecx (BitVec.ofNat 32 n))) {n : Nat} (h : I n s)
    (hQ : ∀ u, I 0 u → Gets P L H Q u.next) : Gets P L H Q s := by
  induction n generalizing s with
  | zero =>
      obtain ⟨hf, hecx, -, hhome⟩ := hI 0 s h
      have hexec : exec P L H s.tables s (.rep op) = some s.next := by
        rw [exec, if_pos (show s.gpr .ecx = 0 from hecx)]
      exact .cons (fetch_home hL hhome hf) hexec rfl (hQ s h)
  | succ n ih =>
      obtain ⟨hf, hecx, hlt, hhome⟩ := hI (n + 1) s h
      obtain ⟨t, ht, htables, hIt⟩ := hround n s h
      have hne : s.gpr .ecx ≠ 0 := by
        rw [hecx]
        intro he
        have := congrArg BitVec.toNat he
        rw [toNat_word hlt] at this
        exact absurd this (Nat.succ_ne_zero n)
      have hpred : s.gpr .ecx - 1 = BitVec.ofNat 32 n := by rw [hecx, word_pred]
      have hexec : exec P L H s.tables s (.rep op)
          = some (t.setReg .ecx (BitVec.ofNat 32 n)) := by
        rw [exec, if_neg hne, ht, Option.map_some, hpred]
      exact .cons (fetch_home hL hhome hf) hexec htables (ih hIt)

/-- A repeated instruction with one round. -/
theorem gets_rep_one {op : StringOp} (hL : Sector P L) (hf : P.fetch s.eip = some (.rep op))
    (hhome : s.tables 7 = some 7) (hecx : s.gpr .ecx = 1)
    (hexec : op.exec L H s.tables s = some t) (heip : t.eip = s.eip)
    (htables : t.tables = s.tables) (h : Gets P L H Q (t.setReg .ecx 0).next) :
    Gets P L H Q s := by
  have hround : exec P L H s.tables s (.rep op) = some (t.setReg .ecx 0) := by
    rw [exec, if_neg (by rw [hecx]; decide), hexec, Option.map_some, hecx]
    rfl
  have hdone : exec P L H (t.setReg .ecx 0).tables (t.setReg .ecx 0) (.rep op)
      = some (t.setReg .ecx 0).next := by
    rw [exec, if_pos (State.setReg_self ..)]
  refine .cons (fetch_home hL hhome hf) hround htables (.cons (fetch_home hL ?_ ?_) hdone rfl h)
  · exact (congrFun htables 7).trans hhome
  · exact (congrArg P.fetch heip).trans hf

theorem subFlags_zf (x y : Word) : (subFlags x y).zf = decide (x = y) := by
  have heq : x.setWidth 64 = y.setWidth 64 ↔ x = y := by
    constructor
    · intro he
      simpa using congrArg (BitVec.setWidth 32) he
    · intro he
      rw [he]
  simp only [subFlags, X86.Flags.ofSub, heq]

/-- The zero flag behind a countdown. -/
theorem dec_zf {n : Nat} (h : n + 1 < 2 ^ 32) :
    (subFlags (BitVec.ofNat 32 (n + 1)) 1).zf = decide (n = 0) := by
  have heq : BitVec.ofNat 32 (n + 1) = 1 ↔ n = 0 := by
    constructor
    · intro he
      have := congrArg BitVec.toNat he
      rw [toNat_word h] at this
      exact Nat.succ.inj this
    · rintro rfl
      rfl
  rw [subFlags_zf, decide_eq_decide.mpr heq]

/-- The end of a loop: ECX is counted down, and as long as something is left the
program goes back to `c`. -/
theorem gets_count {c : C} {n k : Nat} (hL : Sector P L) (hs : Settled s) (heip : s.eip = n)
    (hdec : P.fetch n = some (.dec .ecx)) (hjne : P.fetch (n + 1) = some (.jcc .nz c))
    (hecx : s.gpr .ecx = BitVec.ofNat 32 (k + 1)) (hk : k + 1 < 2 ^ 32)
    (hQ : ∀ t, t.eip = (if k = 0 then n + 2 else P.entry c) → Kept s t → Settled t →
      t.mem = s.mem → t.port = s.port → t.log = s.log →
      t.gpr = Function.update s.gpr .ecx (BitVec.ofNat 32 k) → Gets P L H Q t) :
    Gets P L H Q s := by
  refine gets_calc hL hs (i := .dec .ecx) (heip ▸ hdec) rfl fun t ht hcalc hst => ?_
  have heipt : t.eip = n + 1 := by rw [ht, heip]
  have hzf : t.flags.zf = decide (k = 0) := by
    rw [hcalc.flags]
    show (subFlags (s.gpr .ecx) 1).zf = _
    rw [hecx, dec_zf hk]
  have hgpr : t.gpr = Function.update s.gpr .ecx (BitVec.ofNat 32 k) := by
    rw [hcalc.gpr]
    show Function.update s.gpr .ecx (s.gpr .ecx - 1) = _
    rw [hecx, word_pred]
  have htarget : (if Cond.nz.holds t.flags then P.entry c else t.eip + 1)
      = if k = 0 then n + 2 else P.entry c := by
    rw [Cond.holds, hzf, heipt]
    by_cases hzero : k = 0 <;> simp [hzero]
  exact gets_jcc hL hst (heipt ▸ hjne) htarget fun hst' =>
    hQ _ rfl ⟨hcalc.dev, hcalc.df, hcalc.control⟩ hst' hcalc.mem hcalc.port hcalc.log hgpr

/-- A delay. -/
theorem gets_spin {c : C} {n k : Nat} (hL : Sector P L) (hs : Settled s) (heip : s.eip = n)
    (hdec : P.fetch n = some (.dec .ecx)) (hjne : P.fetch (n + 1) = some (.jcc .nz c))
    (hc : P.entry c = n) (hecx : s.gpr .ecx = BitVec.ofNat 32 (k + 1)) (hk : k + 1 < 2 ^ 32)
    (hQ : ∀ t, t.eip = n + 2 → Kept s t → Settled t → t.mem = s.mem → t.port = s.port →
      t.log = s.log → (∀ r, r ≠ .ecx → t.gpr r = s.gpr r) → Gets P L H Q t) :
    Gets P L H Q s := by
  induction k generalizing s with
  | zero =>
      refine gets_count hL hs heip hdec hjne hecx hk
        fun t ht hkept hst hm hport hlog hg => hQ t ht hkept hst hm hport hlog fun r hr => ?_
      rw [hg, Function.update_of_ne hr]
  | succ k ih =>
      refine gets_count hL hs heip hdec hjne hecx hk fun t ht hkept hst hm hport hlog hg => ?_
      refine ih hst (ht.trans hc) (by rw [hg, Function.update_self]) (by omega)
        fun u hu hkept' hsu hm' hport' hlog' hg' => hQ u hu (hkept.trans hkept') hsu
          (hm'.trans hm) (hport'.trans hport) (hlog'.trans hlog) fun r hr => ?_
      rw [hg' r hr, hg, Function.update_of_ne hr]

/-! ### In memory -/

/-- The `n` bytes from `a` on, at `x` in memory: they are different ones, and no
tables lie there. -/
structure Target (L : Layout D) (s : State σ) (a n : Nat) (x : Nat → Nat) : Prop where
  byte : ∀ k < n, byte? L s.tables (a + k) = some (x k)
  injective : ∀ j < n, ∀ k < n, x j = x k → j = k
  calm : ∀ m : Memory, (∀ y, (∀ k < n, x k ≠ y) → m y = s.mem y) → s.control.tables m = s.tables

/-- The first `d` of them are written. -/
structure Written (s : State σ) (x : Nat → Nat) (value : Nat → Byte) (d : Nat) (t : State σ) :
    Prop extends Kept s t where
  port : t.port = s.port
  log : t.log = s.log
  inside : ∀ k < d, t.mem (x k) = value k
  outside : ∀ y, (∀ k < d, x k ≠ y) → t.mem y = s.mem y

section

variable {a n d w : Nat} {x : Nat → Nat} {value : Nat → Byte} {u : State σ}

omit [DecidableEq C] in
theorem Written.zero : Written s x value 0 s :=
  ⟨⟨rfl, rfl, rfl⟩, rfl, rfl, fun _ hk => absurd hk (Nat.not_lt_zero _), fun _ _ => rfl⟩

omit [DecidableEq C] in
/-- Registers do not matter to it. -/
theorem Written.congr (h : Written s x value d u) (hkept : Kept u t) (hm : t.mem = u.mem)
    (hport : t.port = u.port) (hlog : t.log = u.log) : Written s x value d t :=
  ⟨h.toKept.trans hkept, hport.trans h.port, hlog.trans h.log, fun k hk => hm ▸ h.inside k hk,
    fun y hy => hm ▸ h.outside y hy⟩

omit [DecidableEq C] in
theorem Written.tables (h : Written s x value d u) (T : Target L s a n x) (hd : d ≤ n) :
    u.tables = s.tables := by
  rw [State.tables, h.control]
  exact T.calm u.mem fun y hy => h.outside y fun k hk => hy k (by omega)

omit [DecidableEq C] in
/-- The next bytes are stored. -/
theorem Written.store (h : Written s x value d u) (T : Target L s a n x) (hd : d + w ≤ n)
    {v : BitVec (8 * w)} (hv : ∀ j < w, byteAt v j = value (d + j)) :
    ∃ m, u.store L u.tables (a + d) v = some { u with mem := m } ∧
      Written s x value (d + w) { u with mem := m } := by
  have hbyte : ∀ j < w, byte? L u.tables (a + d + j) = some (x (d + j)) := by
    intro j hj
    rw [h.tables T (by omega), Nat.add_assoc]
    exact T.byte _ (by omega)
  obtain ⟨m, hm, hout, hin⟩ := storeBytes_eq (m := u.mem) (v := v) (Nat.le_refl w) hbyte
  refine ⟨m, by rw [State.store, hm]; rfl, ⟨h.dev, h.df, h.control⟩, h.port, h.log, ?_, ?_⟩
  · intro k hk
    by_cases hlow : k < d
    · have hsame : m (x k) = u.mem (x k) := hout _ fun j hj he => by
        have := T.injective (d + j) (by omega) k (by omega) he
        omega
      exact hsame.trans (h.inside k hlow)
    · obtain ⟨j, rfl⟩ := Nat.exists_eq_add_of_le (Nat.le_of_not_lt hlow)
      rw [← hv j (by omega)]
      refine hin (fun i hi j hj he => ?_) j (by omega)
      have := T.injective (d + i) (by omega) (d + j) (by omega) he
      omega
  · intro y hy
    exact (hout y fun j hj => hy (d + j) (by omega)).trans (h.outside y fun k hk => hy k (by omega))

omit [DecidableEq C] in
theorem Target.low (T : Target L s a n x) {k : Nat} (hk : k < n) : a + k < 2 ^ 32 := by
  have hbyte := T.byte k hk
  by_contra hno
  rw [byte?, address, if_neg hno] at hbyte
  simp at hbyte

/-- A store to memory. -/
theorem gets_store {m : Mem D} {o : Operand D} {v : Word} (hL : Sector P L)
    (hf : P.fetch s.eip = some (.store m o)) (hhome : s.tables 7 = some 7)
    (hea : s.ea L m = a) (ho : o.value L s.gpr = some v) (T : Target L s a 4 x)
    (hQ : ∀ t, t.eip = s.eip + 1 → t.gpr = s.gpr →
      Written s x (byteAt v) 4 t → Gets P L H Q t) : Gets P L H Q s := by
  obtain ⟨m', hstore, hw⟩ := (Written.zero : Written s x (byteAt v) 0 s).store (w := 4) T
    (Nat.le_refl _) (v := v) fun j _ => by rw [Nat.zero_add]
  have hexec : exec P L H s.tables s (.store m o) = some { s with mem := m' }.next := by
    rw [Nat.add_zero] at hstore
    rw [exec, ho, Option.bind_some, hea, hstore]
  exact .cons (fetch_home hL hhome hf) hexec (hw.tables T (Nat.le_refl _)) (hQ _ rfl rfl
    (hw.congr ⟨rfl, rfl, rfl⟩ rfl rfl rfl))

/-- Inside a repeated instruction that writes `w` bytes a round, with `d` rounds
done of `d + m`; its source register is then at `src d`. -/
structure Filling (s : State σ) (a w : Nat) (x : Nat → Nat) (value : Nat → Byte)
    (src : Nat → Word) (d m : Nat) (u : State σ) : Prop where
  eip : u.eip = s.eip
  ecx : u.gpr .ecx = BitVec.ofNat 32 m
  edi : u.gpr .edi = BitVec.ofNat 32 (a + w * d)
  esi : u.gpr .esi = src d
  gpr : ∀ r, r ≠ .ecx → r ≠ .edi → r ≠ .esi → u.gpr r = s.gpr r
  written : Written s x value (w * d) u

/-- What a round does that stores `v` and moves its registers. -/
def fillRound (L : Layout D) (w : Nat) (v : BitVec (8 * w)) (esi : Word) (u : State σ) :
    Option (State σ) :=
  (u.store L u.tables (u.gpr .edi).toNat v).map fun t =>
    (t.setReg .esi esi).setReg .edi (u.gpr .edi + BitVec.ofNat 32 w)

/-- **A filled range**: a repeated instruction that goes upwards and writes the
next bytes each round. -/
theorem gets_fill {op : StringOp} (src : Nat → Word) (hL : Sector P L)
    (hf : P.fetch s.eip = some (.rep op)) (hhome : s.tables 7 = some 7) (hn : n < 2 ^ 32)
    (hecx : s.gpr .ecx = BitVec.ofNat 32 n) (hedi : s.gpr .edi = BitVec.ofNat 32 a)
    (hesi : s.gpr .esi = src 0) (T : Target L s a (w * n) x) (hw : 0 < w)
    (hround : ∀ d m u, d + (m + 1) = n → Filling s a w x value src d (m + 1) u →
      ∃ v : BitVec (8 * w), (∀ j < w, byteAt v j = value (w * d + j)) ∧
        op.exec L H u.tables u = fillRound L w v (src (d + 1)) u)
    (hQ : ∀ t, t.eip = s.eip + 1 → (∀ r, r ≠ .ecx → r ≠ .edi → r ≠ .esi → t.gpr r = s.gpr r) →
      Written s x value (w * n) t → Gets P L H Q t) : Gets P L H Q s := by
  have htables : ∀ d m u, d + m = n → Filling s a w x value src d m u → u.tables = s.tables :=
    fun d m u hd hu => hu.written.tables T (Nat.mul_le_mul_left w (by omega))
  have hI : ∀ m u, (∃ d, d + m = n ∧ Filling s a w x value src d m u) →
      P.fetch u.eip = some (.rep op) ∧ u.gpr .ecx = BitVec.ofNat 32 m ∧ m < 2 ^ 32 ∧
        u.tables 7 = some 7 := by
    rintro m u ⟨d, hd, hu⟩
    exact ⟨hu.eip ▸ hf, hu.ecx, by omega, htables d m u hd hu ▸ hhome⟩
  have hstep : ∀ m u, (∃ d, d + (m + 1) = n ∧ Filling s a w x value src d (m + 1) u) →
      ∃ t, op.exec L H u.tables u = some t ∧ t.tables = u.tables ∧
        ∃ d, d + m = n ∧ Filling s a w x value src d m (t.setReg .ecx (BitVec.ofNat 32 m)) := by
    rintro m u ⟨d, hd, hu⟩
    obtain ⟨v, hv, hexec⟩ := hround d m u hd hu
    have hroom : w * d + w ≤ w * n := by
      rw [← Nat.mul_succ]
      exact Nat.mul_le_mul_left w (by omega)
    obtain ⟨m', hstore, hwritten⟩ := hu.written.store T hroom hv
    have haddr : (u.gpr .edi).toNat = a + w * d := by
      have := T.low (k := w * d) (by omega)
      rw [hu.edi, toNat_word this]
    have hround' : op.exec L H u.tables u = some (({ u with mem := m' }.setReg .esi
        (src (d + 1))).setReg .edi (u.gpr .edi + BitVec.ofNat 32 w)) := by
      rw [hexec, fillRound, haddr, hstore, Option.map_some]
    refine ⟨_, hround', ?_, d + 1, by omega, ?_⟩
    · show State.tables { u with mem := m' } = u.tables
      rw [hwritten.tables T hroom, htables d (m + 1) u hd hu]
    exact {
      eip := hu.eip
      ecx := State.setReg_self ..
      edi := by
        rw [State.setReg_of_ne _ _ (by decide), State.setReg_self, hu.edi, word_add,
          Nat.add_assoc, Nat.mul_succ]
      esi := by
        rw [State.setReg_of_ne _ _ (by decide), State.setReg_of_ne _ _ (by decide),
          State.setReg_self]
      gpr := fun r hc hd hs => by
        rw [State.setReg_of_ne _ _ hc, State.setReg_of_ne _ _ hd, State.setReg_of_ne _ _ hs]
        exact hu.gpr r hc hd hs
      written := hwritten.congr ⟨rfl, rfl, rfl⟩ rfl rfl rfl }
  have hstart : ∃ d, d + n = n ∧ Filling s a w x value src d n s :=
    ⟨0, Nat.zero_add n, rfl, hecx, hedi, hesi, fun _ _ _ _ => rfl, Written.zero⟩
  refine gets_rep hL hI hstep hstart ?_
  rintro u ⟨d, hd, hu⟩
  obtain rfl : d = n := by omega
  exact hQ _ (congrArg (· + 1) hu.eip) hu.gpr (hu.written.congr ⟨rfl, rfl, rfl⟩ rfl rfl rfl)

omit [DecidableEq C] in
/-- A round that leaves ESI. -/
theorem fillRound_esi {v : BitVec (8 * w)} : fillRound L w v (u.gpr .esi) u
    = (u.store L u.tables (u.gpr .edi).toNat v).map fun t =>
        t.setReg .edi (u.gpr .edi + BitVec.ofNat 32 w) := by
  have hsame : ∀ m, ({ u with mem := m } : State σ).setReg .esi (u.gpr .esi)
      = { u with mem := m } := by
    intro m
    rw [State.setReg, Function.update_eq_self (β := fun _ => Word)]
  rw [fillRound, State.store, Option.map_map, Option.map_map]
  congr 1
  funext m
  exact congrArg (fun t => State.setReg t .edi _) (hsame m)

section

variable (hL : Sector P L) (hhome : s.tables 7 = some 7) (hdf : s.df = false) (hn : n < 2 ^ 32)
  (hecx : s.gpr .ecx = BitVec.ofNat 32 n) (hedi : s.gpr .edi = BitVec.ofNat 32 a)

include hL hhome hdf hn hecx hedi

/-- `rep stosb`. -/
theorem gets_stosb (hf : P.fetch s.eip = some (.rep .stosb)) (T : Target L s a n x)
    (hQ : ∀ t, t.eip = s.eip + 1 → (∀ r, r ≠ .ecx → r ≠ .edi → r ≠ .esi → t.gpr r = s.gpr r) →
      Written s x (fun _ => s.al) n t → Gets P L H Q t) : Gets P L H Q s := by
  rw [← Nat.one_mul n] at T
  refine gets_fill (fun _ => s.gpr .esi) hL hf hhome hn hecx hedi (w := 1) rfl T
    Nat.one_pos (fun d m u _ hu => ⟨s.al, fun j hj => ?_, ?_⟩) fun t ht hg hw =>
      hQ t ht hg (Nat.one_mul n ▸ hw)
  · obtain rfl : j = 0 := by omega
    rw [byteAt_zero]
    exact BitVec.setWidth_eq _
  · have hal : u.al = s.al := by
      rw [State.al, State.al, hu.gpr .eax (by decide) (by decide) (by decide)]
    have hstride : u.stride .byte = BitVec.ofNat 32 1 := by
      rw [State.stride, hu.written.df, hdf]
      rfl
    rw [← hu.esi, fillRound_esi, ← hstride, ← hal]
    rfl

/-- `rep stosd`. -/
theorem gets_stosd (value : Nat → Byte) (hf : P.fetch s.eip = some (.rep .stosd)) (T : Target L s a (4 * n) x)
    (hvalue : ∀ d j, j < 4 → byteAt (s.gpr .eax) j = value (4 * d + j))
    (hQ : ∀ t, t.eip = s.eip + 1 → (∀ r, r ≠ .ecx → r ≠ .edi → r ≠ .esi → t.gpr r = s.gpr r) →
      Written s x value (4 * n) t → Gets P L H Q t) : Gets P L H Q s := by
  refine gets_fill (fun _ => s.gpr .esi) hL hf hhome hn hecx hedi (w := 4) rfl T
    (by decide) (fun d m u _ hu => ⟨s.gpr .eax, hvalue d, ?_⟩) hQ
  have heax : u.gpr .eax = s.gpr .eax := hu.gpr .eax (by decide) (by decide) (by decide)
  have hstride : u.stride .dword = BitVec.ofNat 32 4 := by
    rw [State.stride, hu.written.df, hdf]
    rfl
  rw [← hu.esi, fillRound_esi, ← hstride, ← heax]
  rfl

/-- `rep movsb`, from `n` bytes at `y` in memory that are not overwritten. -/
theorem gets_movsb {b : Nat} {y : Nat → Nat} (hf : P.fetch s.eip = some (.rep .movsb))
    (hesi : s.gpr .esi = BitVec.ofNat 32 b) (T : Target L s a n x)
    (hfrom : ∀ k < n, byte? L s.tables (b + k) = some (y k))
    (hapart : ∀ j < n, ∀ k < n, x j ≠ y k)
    (hQ : ∀ t, t.eip = s.eip + 1 → (∀ r, r ≠ .ecx → r ≠ .edi → r ≠ .esi → t.gpr r = s.gpr r) →
      Written s x (fun k => s.mem (y k)) n t → Gets P L H Q t) : Gets P L H Q s := by
  rw [← Nat.one_mul n] at T
  refine gets_fill (fun d => BitVec.ofNat 32 (b + d)) hL hf hhome hn hecx hedi (w := 1)
    hesi T Nat.one_pos (fun d m u hd hu => ?_) fun t ht hg hw => hQ t ht hg (Nat.one_mul n ▸ hw)
  have hlow : b + d < 2 ^ 32 := by
    have hbyte := hfrom d (by omega)
    by_contra hno
    rw [byte?, address, if_neg hno] at hbyte
    simp at hbyte
  have haddr : (u.gpr .esi).toNat = b + d := by rw [hu.esi, toNat_word hlow]
  have htables : u.tables = s.tables := hu.written.tables T (by omega)
  obtain ⟨v, hload, hv⟩ := loadBytes_eq (L := L) (f := u.tables) (m := u.mem) (n := 1)
    (a := b + d) (x := fun _ => y d) fun j hj => by
      obtain rfl : j = 0 := by omega
      rw [htables]
      exact hfrom d (by omega)
  have hsame : u.mem (y d) = s.mem (y d) := hu.written.outside _ fun k hk =>
    hapart k (by omega) d (by omega)
  refine ⟨v, fun j hj => ?_, ?_⟩
  · obtain rfl : j = 0 := by omega
    rw [hv 0 hj, hsame, Nat.add_zero, Nat.one_mul]
  · have hstride : u.stride .byte = BitVec.ofNat 32 1 := by
      rw [State.stride, hu.written.df, hdf]
      rfl
    have hnext : u.gpr .esi + u.stride .byte = BitVec.ofNat 32 (b + (d + 1)) := by
      rw [hstride, hu.esi, word_add, Nat.add_assoc]
    rw [StringOp.exec, State.load, haddr, hload, Option.bind_some, hnext, hstride]
    rfl

end

end

/-! ### Without paging -/

/-- Paging is off. -/
structure Unpaged (s : State σ) : Prop where
  paging : s.control.paging = false

namespace Unpaged

omit [DecidableEq C] in
theorem tables (h : Unpaged s) (m : Memory) : s.control.tables m = some := by
  rw [Control.tables, if_neg (by rw [h.paging]; decide)]

omit [DecidableEq C] in
theorem settled (h : Unpaged s) : Settled s where
  home := congrFun (h.tables s.mem) 7
  calm m _ := (h.tables m).trans (h.tables s.mem).symm

omit [DecidableEq C] in
theorem of (h : Unpaged s) (hc : t.control = s.control) : Unpaged t := ⟨hc ▸ h.paging⟩

omit [DecidableEq C] in
/-- Every address is its own. -/
theorem address (h : Unpaged s) {a : Nat} (ha : a < 2 ^ 32) :
    X86.Protected.address s.tables a = some a := by
  rw [X86.Protected.address, if_pos ha, PageMap.address, State.tables, h.tables, Option.map_some,
    Nat.div_add_mod]

omit [DecidableEq C] in
theorem target (h : Unpaged s) {a n : Nat} (hlimit : a + n ≤ L.limit) (hhi : a + n ≤ 2 ^ 32) :
    Target L s a n fun k => a + k where
  byte k hk := by
    rw [byte?, h.address (by omega), Option.filter_some, if_pos (decide_eq_true (by omega))]
  injective j _ k _ he := by simpa using he
  calm m _ := (h.tables m).trans (h.tables s.mem).symm

end Unpaged

/-! ### On the stack -/

/-- The stack at `e`, with room below it. -/
structure Stack (s : State σ) (e : Nat) : Prop where
  settled : Settled s
  esp : s.gpr .esp = BitVec.ofNat 32 e
  low : 0x7004 ≤ e
  high : e ≤ 0x7c00

/-- With a word pushed. -/
structure Pushed (s : State σ) (e : Nat) (v : Word) (t : State σ) : Prop extends Kept s t where
  settled : Settled t
  gpr : t.gpr = Function.update s.gpr .esp (BitVec.ofNat 32 (e - 4))
  mem : t.mem = s.mem.store (e - 4) (n := 4) v
  port : t.port = s.port
  log : t.log = s.log

/-- With the word on top popped. -/
structure Popped (s t : State σ) : Prop extends Kept s t where
  settled : Settled t
  mem : t.mem = s.mem
  port : t.port = s.port
  log : t.log = s.log

namespace Stack

variable (h : Stack s e)

include h

omit [DecidableEq C] in
theorem byte (hL : Sector P L) {a : Nat} (hlo : 0x7000 ≤ a) (hhi : a < 0x8000) :
    byte? L s.tables a = some a := byte_home h.settled.home hL.limit hlo hhi

omit [DecidableEq C] in
theorem push (hL : Sector P L) (v : Word) :
    ∃ t, s.push L s.tables v = some t ∧ t.eip = s.eip ∧ t.tables = s.tables ∧
      Pushed s e v t := by
  obtain ⟨hs, he, hlo, hhi⟩ := h
  have haddr : (s.gpr .esp - 4).toNat = e - 4 := by
    rw [he, word_sub (by omega), toNat_word (by omega)]
  have hbytes : ∀ k < 4, byte? L s.tables ((s.gpr .esp - 4).toNat + k)
      = some ((s.gpr .esp - 4).toNat + k) := by
    intro k hk
    rw [haddr]
    exact byte_home hs.home hL.limit (by omega) (by omega)
  have hpush : s.push L s.tables v = some { s.setReg .esp (s.gpr .esp - 4) with
      mem := s.mem.store (s.gpr .esp - 4).toNat (n := 4) v } := by
    rw [State.push, State.store]
    exact congrArg (Option.map _) (storeBytes_at hbytes)
  have hmem : ∀ x, x < 0x7000 ∨ 0x7c00 ≤ x →
      s.mem.store (s.gpr .esp - 4).toNat (n := 4) v x = s.mem x := by
    intro x hx
    rw [haddr]
    exact X86.store_outside _ _ (by omega)
  obtain ⟨htables, ht⟩ := hs.of_stack (t := { s.setReg .esp (s.gpr .esp - 4) with
    mem := s.mem.store (s.gpr .esp - 4).toNat (n := 4) v }) rfl hmem
  refine ⟨_, hpush, rfl, htables, ⟨rfl, rfl, rfl⟩, ht, ?_, ?_, rfl, rfl⟩
  · show Function.update _ _ _ = _
    rw [he, word_sub (by omega)]
  · rw [haddr]

omit [DecidableEq C] in
theorem pop (hL : Sector P L) :
    s.pop L s.tables = some (s.mem.load e 4, s.setReg .esp (BitVec.ofNat 32 (e + 4))) := by
  have haddr : (s.gpr .esp).toNat = e := by
    rw [h.esp, toNat_word (by have := h.high; omega)]
  have hbytes : ∀ k < 4, byte? L s.tables (e + k) = some (e + k) := fun k hk =>
    h.byte hL (by have := h.low; omega) (by have := h.high; omega)
  rw [State.pop, State.load, haddr, loadBytes_at hbytes, Option.map_some, h.esp]
  congr 3
  exact word_add e 4

/-- A word pushed in the sector. -/
theorem gets_push {r : Reg} (hL : Sector P L) (hf : P.fetch s.eip = some (.push r))
    (hQ : ∀ t, t.eip = s.eip + 1 → Pushed s e (s.gpr r) t → Gets P L H Q t) :
    Gets P L H Q s := by
  obtain ⟨t, hpush, heip, htables, ht⟩ := h.push hL (s.gpr r)
  have hexec : exec P L H s.tables s (.push r) = some t.next := by
    rw [exec, hpush, Option.map_some]
  refine .cons (fetch_home hL h.settled.home hf) hexec htables (hQ _ (congrArg (· + 1) heip) ?_)
  exact ⟨⟨ht.dev, ht.df, ht.control⟩, ht.settled.goto _, ht.gpr, ht.mem, ht.port, ht.log⟩

/-- A word popped. -/
theorem gets_pop {r : Reg} (hL : Sector P L) (hf : P.fetch s.eip = some (.pop r))
    (hQ : ∀ t, t.eip = s.eip + 1 → Popped s t →
      t.gpr = Function.update (Function.update s.gpr .esp (BitVec.ofNat 32 (e + 4))) r
        (s.mem.load e 4) → Gets P L H Q t) : Gets P L H Q s := by
  have hexec : exec P L H s.tables s (.pop r)
      = some ((s.setReg .esp (BitVec.ofNat 32 (e + 4))).setReg r (s.mem.load e 4)).next := by
    rw [exec, h.pop hL, Option.map_some]
  exact gets_calm hL h.settled hf hexec rfl rfl fun ht =>
    hQ _ rfl ⟨⟨rfl, rfl, rfl⟩, ht, rfl, rfl, rfl⟩ rfl

/-- A call. -/
theorem gets_call {c : C} (hL : Sector P L) (hf : P.fetch s.eip = some (.call c))
    (hQ : ∀ t, t.eip = P.entry c → Pushed s e (L.code (s.eip + 1)) t → Gets P L H Q t) :
    Gets P L H Q s := by
  obtain ⟨t, hpush, -, htables, ht⟩ := h.push hL (L.code (s.eip + 1))
  have hexec : exec P L H s.tables s (.call c) = some (t.goto (P.entry c)) := by
    rw [exec, hpush, Option.map_some]
  refine .cons (fetch_home hL h.settled.home hf) hexec htables (hQ _ rfl ?_)
  exact ⟨⟨ht.dev, ht.df, ht.control⟩, ht.settled.goto _, ht.gpr, ht.mem, ht.port, ht.log⟩

/-- A return to the address of instruction `n`. -/
theorem gets_ret {n : Nat} (hL : Sector P L) (hf : P.fetch s.eip = some .ret)
    (hn : n < P.instrs.length) (htop : s.mem.load e 4 = L.code n)
    (hQ : ∀ t, t.eip = n → Popped s t →
      t.gpr = Function.update s.gpr .esp (BitVec.ofNat 32 (e + 4)) → Gets P L H Q t) :
    Gets P L H Q s := by
  have hlocate : P.locate L (L.code n) = some n := by
    have hsome : (P.locate L (L.code n)).isSome :=
      List.find?_isSome.mpr ⟨n, List.mem_range.mpr hn, by simp⟩
    obtain ⟨m, hm⟩ := Option.isSome_iff_exists.mp hsome
    have hrange := List.mem_range.mp (List.mem_of_find?_eq_some hm)
    rw [hm, hL.injective m hrange n hn (by simpa using List.find?_some hm)]
  have hexec : exec P L H s.tables s .ret
      = some ((s.setReg .esp (BitVec.ofNat 32 (e + 4))).goto n) := by
    rw [exec, h.pop hL, Option.bind_some, htop, hlocate, Option.map_some]
  exact gets_calm hL h.settled hf hexec rfl rfl fun ht =>
    hQ _ rfl ⟨⟨rfl, rfl, rfl⟩, ht, rfl, rfl, rfl⟩ rfl

end Stack

end QemuTest.Asm32

import QemuTest.Lib.X86.Flow
import QemuTest.Lib.Text

/-!
# Asm — Serial64

`serial64.inc`: the routine that sends a NUL-terminated string to COM1, and
what every step of it does (`sending_step`): whatever the line status port
answers, the characters go out in order, each once, and nothing else does.
-/

namespace QemuTest.Asm

open X86

/-! ## Data directives -/

/-- The characters of a string literal. -/
def ascii (s : String) : List Byte := (Text.lit s).map fun c => BitVec.ofNat 8 c.toNat

/-- A message line: `db "...", 13, 10`. -/
def msgLine (s : String) : List Byte := ascii s ++ [13, 10]

/-- `db "...", 13, 10, 0`. -/
def db (s : String) : List Byte := msgLine s ++ [0]

/-- `dw`. -/
def dw (v : BitVec 16) : List Byte := (List.range 2).map (byteAt v)

/-- `dd`. -/
def dd (v : BitVec 32) : List Byte := (List.range 4).map (byteAt v)

/-- `dq`. -/
def dq (v : BitVec 64) : List Byte := (List.range 8).map (byteAt v)

/-! ## Instructions by their usual names -/

section

variable {C D : Type}

def mov (r : Reg) (v : BitVec 64) : Item C D := .ins (.mov .qword r (.imm v))

/-- `lea r, [rel d]`. -/
def lea (r : Reg) (d : D) : Item C D := .ins (.lea r (.rel d 0))

def cmp (a b : Reg) : Item C D := .ins (.cmp .qword (.reg a) (.reg b))

def test (a : Reg) (b : Operand D) : Item C D := .ins (.test .qword (.reg a) b)

def jz (c : C) : Item C D := .ins (.jcc .z c)

/-- `jnz`, `jne`. -/
def jne (c : C) : Item C D := .ins (.jcc .nz c)

def jmp (c : C) : Item C D := .ins (.jmp c)

def call (c : C) : Item C D := .ins (.call c)

/-- All vector registers loaded one behind the other from `[rsi]`. -/
def loadVecs (w : Lanes) : Program C D :=
  (List.finRange 16).map fun i => .ins (.vload w i (.base .rsi (i.val * w.bytes)))

/-- All vector registers stored one behind the other to `[rdi]`. -/
def storeVecs (w : Lanes) : Program C D :=
  (List.finRange 16).map fun i => .ins (.vstore w (.base .rdi (i.val * w.bytes)) i)

end

/-! ## The routine -/

inductive SerialLabel where
  | serial_print | next | wait_tx | done
  deriving DecidableEq, Repr

variable {C D : Type}

/-- `SERIAL64`, with its labels as those of the including program. -/
def serial64 (f : SerialLabel → C) : Program C D :=
  [ .label (f .serial_print),
    .label (f .next),
    .ins .lodsb,
    .ins (.test .byte (.reg .rax) (.reg .rax)),
    jz (f .done),
    .label (f .wait_tx),
    .ins (.mov .word .rdx (.imm 0x3fd)),
    .ins (.push .rax),
    .ins .inAl,
    .ins (.test .byte (.reg .rax) (.imm 0x20)),
    .ins (.pop .rax),
    jz (f .wait_tx),
    .ins (.mov .word .rdx (.imm 0x3f8)),
    .ins .outAl,
    jmp (f .next),
    .label (f .done),
    .ins .ret ]

variable [DecidableEq C] {P : Program C D} {f : SerialLabel → C} {L : Layout D}
  {inp : Byte} {body top a k : Nat} {full : List Byte} {s t : State} {i : Instr C D}

/-- The program ends with the routine, which starts at instruction `body`. -/
structure Includes (P : Program C D) (f : SerialLabel → C) (body : Nat) : Prop where
  size : P.instrs.length = body + 13
  fetch : ∀ n < 13, P.fetch (body + n) = (serial64 f).instrs[n]?
  next : P.entry (f .next) = body
  wait_tx : P.entry (f .wait_tx) = body + 3
  done : P.entry (f .done) = body + 12
  depth_push : P.depth body (body + 4) = 1
  depth_pop : P.depth body (body + 7) = 2

/-- A NUL-terminated string within the loaded image. -/
structure CString (m : Memory) (a : Nat) (full : List Byte) : Prop where
  low : 0x7e00 ≤ a
  high : a + full.length < 0x9c00
  chars : ∀ k ≤ full.length, m (a + k) = full.getD k 0
  nonzero : 0 ∉ full

/-- Where the routine stands with the string at `a`: `k` characters are sent.
The character at hand is in AL, and on the stack while AL holds the status. -/
inductive Sending (body top a : Nat) (full : List Byte) (s : State) (k : Nat) : Prop where
  | next (rip : s.rip = body ∨ s.rip = body + 11)
      (rsi : s.gpr .rsi = BitVec.ofNat 64 (a + k)) (le : k ≤ full.length)
  | loaded (rip : s.rip = body + 1 ∨ (s.rip = body + 2 ∧ s.flags.zf = decide (s.al = 0)))
      (rsi : s.gpr .rsi = BitVec.ofNat 64 (a + k + 1)) (le : k ≤ full.length)
      (al : s.al = full.getD k 0)
  | waiting (rip : s.rip = body + 3 ∨ s.rip = body + 4 ∨ s.rip = body + 8 ∨ s.rip = body + 9)
      (rsi : s.gpr .rsi = BitVec.ofNat 64 (a + k + 1)) (lt : k < full.length)
      (al : s.al = full.getD k 0)
  | polling (rip : s.rip = body + 5 ∨ s.rip = body + 6 ∨ s.rip = body + 7)
      (rsi : s.gpr .rsi = BitVec.ofNat 64 (a + k + 1)) (lt : k < full.length)
      (saved : s.mem (top - 16) = full.getD k 0)
  | ready (rip : s.rip = body + 10) (port : (s.gpr .rdx).setWidth 16 = com1)
      (rsi : s.gpr .rsi = BitVec.ofNat 64 (a + k + 1)) (lt : k < full.length)
      (al : s.al = full.getD k 0)
  | done (rip : s.rip = body + 12) (eq : k = full.length)

/-! ## Bytes and registers -/

theorem setWidth_merge_byte (old v : BitVec 64) :
    (Width.byte.merge old v).setWidth 8 = v.setWidth 8 :=
  BitVec.setWidth_append_eq_right (a := old.extractLsb' 8 56)

theorem setWidth_merge_word (old v : BitVec 64) :
    (Width.word.merge old v).setWidth 16 = v.setWidth 16 :=
  BitVec.setWidth_append_eq_right (a := old.extractLsb' 16 48)

/-- The low byte of a loaded word. -/
theorem setWidth_load (m : Memory) (a : Nat) :
    (m.load a 8 : BitVec 64).setWidth 8 = m a := by
  have h := byteAt_load m a (n := 8) (k := 0) (by omega)
  rw [byteAt_zero] at h
  exact h

/-- The low byte of a stored word. -/
theorem store_low (m : Memory) (a : Nat) (v : BitVec 64) :
    m.store a (n := 8) v a = v.setWidth 8 := by
  have h := store_inside m a (n := 8) v (k := 0) (by omega)
  rw [byteAt_zero] at h
  exact h

/-- `test al, al` sets the zero flag for a NUL. -/
theorem trunc_byte_and_self (v : BitVec 64) :
    Width.byte.trunc v &&& Width.byte.trunc v = 0 ↔ v.setWidth 8 = (0 : Byte) := by
  simp only [BitVec.and_self, Width.trunc]
  constructor
  · intro h
    simpa using congrArg (BitVec.setWidth 8) h
  · intro h
    rw [h]
    rfl

theorem toNat_ofNat_addr {n : Nat} (h : n < 0x9c00) : (BitVec.ofNat 64 n).toNat = n := by
  rw [BitVec.toNat_ofNat, Nat.mod_eq_of_lt (by omega)]

theorem ofNat_succ (n : Nat) : BitVec.ofNat 64 n + 1 = BitVec.ofNat 64 (n + 1) := by
  apply BitVec.eq_of_toNat_eq
  simp

/-! ## One step -/

/-- A string in the image is out of the stack's reach. -/
theorem CString.of_store {m : Memory} (h : CString m a full) {x : Nat}
    (hx : x + 8 ≤ 0x7e00) (v : BitVec 64) : CString (m.store x (n := 8) v) a full where
  low := h.low
  high := h.high
  nonzero := h.nonzero
  chars := by
    intro k hk
    have := h.low
    rw [store_outside _ _ (by omega), h.chars k hk]

theorem CString.getD_ne_zero {m : Memory} (h : CString m a full) (hk : k < full.length) :
    full.getD k 0 ≠ 0 := by
  rw [List.getD_eq_getElem?_getD, List.getElem?_eq_getElem hk, Option.getD_some]
  exact fun he => h.nonzero (he ▸ List.getElem_mem hk)

theorem CString.getD_eq_zero {m : Memory} (_ : CString m a full) (hk : full.length ≤ k) :
    full.getD k 0 = 0 := by
  rw [List.getD_eq_getElem?_getD, List.getElem?_eq_none hk, Option.getD_none]

/-- The instruction `n` of the routine. -/
theorem Includes.instr (hP : Includes P f body) (hfetch : P.fetch s.rip = some i) {n : Nat}
    (hn : n < 13) (rip : s.rip = body + n) : (serial64 f).instrs[n]? = some i := by
  rw [← hP.fetch n hn, ← rip, hfetch]

/-- **One step of the routine**: it goes on with the same character at hand,
has sent that character, or returns with all of them sent. -/
theorem sending_step (hP : Includes P f body) (hs : Nested P L body top s)
    (htop : 24 ≤ top) (htop' : top ≤ 0x7e00) (hstr : CString s.mem a full)
    (hsend : Sending body top a full s k)
    (hfetch : P.fetch s.rip = some i) (h : exec P L inp s i = some t) :
    (Sending body top a full t k ∧ t.log = s.log) ∨
    (Sending body top a full t (k + 1) ∧ t.log = s.log ++ [full.getD k 0]) ∨
    (i = .ret ∧ k = full.length ∧ t.log = s.log) := by
  have haddr : a + full.length < 0x9c00 := hstr.high
  cases hsend with
  | next rip rsi le =>
      rcases rip with rip | rip
      · -- `lodsb`
        obtain rfl := Option.some.inj
          (show some Instr.lodsb = some i from hP.instr hfetch (n := 0) (by omega) rip)
        simp only [exec, Option.map_eq_some_iff, load_eq_some] at h
        obtain ⟨v, ⟨-, rfl⟩, rfl⟩ := h
        refine .inl ⟨.loaded (.inl ?_) ?_ le ?_, rfl⟩
        · simp [State.next, State.goto, State.setReg, rip]
        · simp only [State.next, State.goto, State.setReg, Function.update_self, rsi]
          exact ofNat_succ _
        · simp only [State.al, State.next, State.goto, State.setReg]
          rw [Function.update_of_ne (by decide), Function.update_self, setWidth_merge_byte,
            rsi, toNat_ofNat_addr (by omega), load_byte, hstr.chars k le]
          simp
      · -- `jmp .next`
        obtain rfl := Option.some.inj
          (show some (Instr.jmp (f .next)) = some i from
            hP.instr hfetch (n := 11) (by omega) rip)
        obtain rfl := Option.some.inj h
        exact .inl ⟨.next (.inl hP.next) rsi le, rfl⟩
  | loaded rip rsi le al =>
      rcases rip with rip | ⟨rip, zf⟩
      · -- `test al, al`
        obtain rfl := Option.some.inj
          (show some (Instr.test .byte (.reg .rax) (.reg .rax)) = some i from
            hP.instr hfetch (n := 1) (by omega) rip)
        obtain rfl := Option.some.inj h
        refine .inl ⟨.loaded (.inr ⟨by simp [State.next, State.goto, rip], ?_⟩) rsi le al, rfl⟩
        exact decide_eq_decide.mpr (trunc_byte_and_self _)
      · -- `jz .done`
        obtain rfl := Option.some.inj
          (show some (Instr.jcc .z (f .done)) = some i from
            hP.instr hfetch (n := 2) (by omega) rip)
        obtain rfl := Option.some.inj h
        by_cases hk : k < full.length
        · have hz : s.flags.zf = false := by
            rw [zf, al, decide_eq_false (hstr.getD_ne_zero hk)]
          simp only [Cond.holds, hz, Bool.false_eq_true, if_false]
          exact .inl ⟨.waiting (.inl (by simp [State.next, State.goto, rip])) rsi hk al, rfl⟩
        · have hz : s.flags.zf = true := by
            rw [zf, al, decide_eq_true (hstr.getD_eq_zero (by omega))]
          simp only [Cond.holds, hz, if_true]
          exact .inl ⟨.done hP.done (by omega), rfl⟩
  | waiting rip rsi lt al =>
      rcases rip with rip | rip | rip | rip
      · -- `mov dx, 0x3fd`
        obtain rfl := Option.some.inj
          (show some (Instr.mov .word .rdx (.imm 0x3fd)) = some i from
            hP.instr hfetch (n := 3) (by omega) rip)
        obtain rfl := Option.some.inj h
        exact .inl ⟨.waiting (.inr (.inl (by simp [State.next, State.goto, State.setReg, rip])))
          rsi lt al, rfl⟩
      · -- `push rax`
        obtain rfl := Option.some.inj
          (show some (Instr.push .rax) = some i from hP.instr hfetch (n := 4) (by omega) rip)
        have hrsp := hs.rsp
        rw [rip, hP.depth_push] at hrsp
        have haddr' : (s.gpr .rsp - 8).toNat = top - 16 := by
          rw [hrsp, ofNat_sub_word (by omega), BitVec.toNat_ofNat,
            Nat.mod_eq_of_lt (by omega)]
          omega
        simp only [exec, Option.map_eq_some_iff, push_eq_some, haddr'] at h
        obtain ⟨u, ⟨-, rfl⟩, rfl⟩ := h
        refine .inl ⟨.polling (.inl (by simp [State.next, State.goto, State.setReg, rip]))
          rsi lt ?_, rfl⟩
        rw [← al]
        exact store_low _ _ _
      · -- `jz .wait_tx`
        obtain rfl := Option.some.inj
          (show some (Instr.jcc .z (f .wait_tx)) = some i from
            hP.instr hfetch (n := 8) (by omega) rip)
        obtain rfl := Option.some.inj h
        by_cases hz : Cond.holds s.flags .z = true
        · rw [if_pos hz]
          exact .inl ⟨.waiting (.inl hP.wait_tx) rsi lt al, rfl⟩
        · rw [if_neg hz]
          exact .inl ⟨.waiting (.inr (.inr (.inr (by simp [State.next, State.goto, rip]))))
            rsi lt al, rfl⟩
      · -- `mov dx, 0x3f8`
        obtain rfl := Option.some.inj
          (show some (Instr.mov .word .rdx (.imm 0x3f8)) = some i from
            hP.instr hfetch (n := 9) (by omega) rip)
        obtain rfl := Option.some.inj h
        refine .inl ⟨.ready (by simp [State.next, State.goto, State.setReg, rip]) ?_ rsi lt al,
          rfl⟩
        simp only [State.next, State.goto, State.setReg, Function.update_self]
        exact setWidth_merge_word _ _
  | polling rip rsi lt saved =>
      rcases rip with rip | rip | rip
      · -- `in al, dx`
        obtain rfl := Option.some.inj
          (show some Instr.inAl = some i from hP.instr hfetch (n := 5) (by omega) rip)
        obtain rfl := Option.some.inj h
        exact .inl ⟨.polling (.inr (.inl (by simp [State.next, State.goto, State.setReg, rip])))
          rsi lt saved, rfl⟩
      · -- `test al, 0x20`
        obtain rfl := Option.some.inj
          (show some (Instr.test .byte (.reg .rax) (.imm 0x20)) = some i from
            hP.instr hfetch (n := 6) (by omega) rip)
        obtain rfl := Option.some.inj h
        exact .inl ⟨.polling (.inr (.inr (by simp [State.next, State.goto, rip])))
          rsi lt saved, rfl⟩
      · -- `pop rax`
        obtain rfl := Option.some.inj
          (show some (Instr.pop .rax) = some i from hP.instr hfetch (n := 7) (by omega) rip)
        have hrsp := hs.rsp
        rw [rip, hP.depth_pop] at hrsp
        have haddr' : (s.gpr .rsp).toNat = top - 16 := by
          rw [hrsp, BitVec.toNat_ofNat, Nat.mod_eq_of_lt (by omega)]
        simp only [exec, Option.map_eq_some_iff, pop_eq_some, haddr'] at h
        obtain ⟨u, ⟨-, rfl⟩, rfl⟩ := h
        refine .inl ⟨.waiting (.inr (.inr (.inl
          (by simp [State.next, State.goto, State.setReg, rip])))) rsi lt ?_, rfl⟩
        simp only [State.al, State.next, State.goto, State.setReg, Function.update_self]
        rw [setWidth_load, saved]
  | ready rip port rsi lt al =>
      obtain rfl := Option.some.inj
        (show some Instr.outAl = some i from hP.instr hfetch (n := 10) (by omega) rip)
      simp only [exec, port, if_true] at h
      obtain rfl := Option.some.inj h
      refine .inr (.inl ⟨.next (.inr (by simp [State.next, State.goto, rip])) rsi lt, ?_⟩)
      rw [← al]
  | done rip eq =>
      obtain rfl := Option.some.inj
        (show some Instr.ret = some i from hP.instr hfetch (n := 12) (by omega) rip)
      exact .inr (.inr ⟨rfl, eq, exec_agree (p := .log) h rfl⟩)

/-! ## A call of the routine -/

/-- A call with the string at `a` that will return to instruction `ret`. -/
structure Printing (L : Layout D) (body top a : Nat) (full : List Byte) (ret : Nat)
    (s : State) (k : Nat) : Prop where
  sending : Sending body top a full s k
  site : s.mem.load (top - 8) 8 = L.code ret
  str : CString s.mem a full

theorem Sending.le_rip (h : Sending body top a full s k) : body ≤ s.rip := by
  cases h <;> omega

/-- The routine with no character of its string out yet. -/
theorem Sending.start (hne : full ≠ [])
    (h : Sending body top a full s 0) :
    ((s.rip = body ∨ s.rip = body + 11) ∧ s.gpr .rsi = BitVec.ofNat 64 a) ∨
    (body < s.rip ∧ s.rip ≤ body + 10 ∧ s.gpr .rsi = BitVec.ofNat 64 (a + 1)) := by
  cases h with
  | next rip rsi le => exact .inl ⟨rip, rsi⟩
  | loaded rip rsi le al => exact .inr ⟨by omega, by omega, rsi⟩
  | waiting rip rsi lt al => exact .inr ⟨by omega, by omega, rsi⟩
  | polling rip rsi lt saved => exact .inr ⟨by omega, by omega, rsi⟩
  | ready rip port rsi lt al => exact .inr ⟨by omega, by omega, rsi⟩
  | done rip eq => exact absurd (List.length_eq_zero_iff.mp eq.symm) hne

/-- The routine stores nothing but one word under its return address. -/
theorem serial_mem (hP : Includes P f body) (hok : wellNested P body = true)
    (hs : Nested P L body top s) (htop : 24 ≤ top) (htop' : top ≤ 0x7e00)
    (hrip : body ≤ s.rip) (hfetch : P.fetch s.rip = some i)
    (h : exec P L inp s i = some t) :
    t.mem = s.mem ∨ ∃ v : BitVec 64, t.mem = s.mem.store (top - 16) (n := 8) v := by
  have hlt := fetch_lt hfetch
  rw [hP.size] at hlt
  have hinstr : (serial64 f).instrs[s.rip - body]? = some i :=
    hP.instr hfetch (n := s.rip - body) (by omega) (by omega)
  have hmem : i ∈ (serial64 f).instrs := List.mem_of_getElem? hinstr
  have hclass : i.writes .mem = false ∨ i = .push .rax := by
    simp only [serial64, jz, jmp, Program.instrs, List.filterMap_cons, Item.instr?, List.mem_cons,
      List.filterMap_nil, List.not_mem_nil, or_false] at hmem
    rcases hmem with rfl | rfl | rfl | rfl | rfl | rfl | rfl | rfl | rfl | rfl | rfl | rfl | rfl
      <;> simp [Instr.writes]
  rcases hclass with hquiet | rfl
  · exact .inl (exec_agree (p := .mem) h hquiet)
  · -- one deeper is at most two deep, and the routine itself is one deep
    have hedge : Edge P s.rip (.push .rax) t.rip := ⟨hfetch, exec_succ h (by simp)⟩
    have hck := allEdges_spec (Bool.and_eq_true_iff.mp hok).1 hedge
    obtain ⟨hd, hd2, -⟩ : P.depth body t.rip = P.depth body s.rip + 1 ∧
        P.depth body t.rip ≤ 2 ∧ (body ≤ t.rip ↔ body ≤ s.rip) := by
      simpa [nestOk] using hck
    have hpos := depth_pos (P := P) hrip
    obtain ⟨-, v, hv, -⟩ := exec_push top 1 h (by omega) (by omega)
      (by rw [hs.rsp]; congr 3; omega) (.inl rfl)
    exact .inr ⟨v, hv⟩

/-- At the return the stack pointer stands on the return address. -/
theorem ret_rsp (hok : wellNested P body = true) (hs : Nested P L body top s)
    (htop' : top ≤ 0x7e00) (hrip : body ≤ s.rip) (hfetch : P.fetch s.rip = some .ret) :
    (s.gpr .rsp).toNat = top - 8 := by
  have hcheck := (Bool.and_eq_true_iff.mp hok).1
  obtain ⟨n, hn, -⟩ := hs.site hrip
  obtain ⟨-, -, hdepth, -⟩ : body ≤ s.rip ∧ n < body ∧
      P.depth body s.rip = 1 ∧ P.depth body n = 0 := by
    simpa [nestOk] using allEdges_spec hcheck (m := n) ⟨hfetch, hn⟩
  rw [hs.rsp, hdepth, BitVec.toNat_ofNat, Nat.mod_eq_of_lt (by omega)]

/-- **A call goes its way**: each step keeps the character at hand, sends it,
or returns behind the call once all are sent. -/
theorem printing_step (hP : Includes P f body) (hok : wellNested P body = true)
    (hL : L.Injective P) (hs : Nested P L body top s) (htop : 24 ≤ top)
    (htop' : top ≤ 0x7e00) {ret : Nat} (hret : ret < P.instrs.length)
    (hpr : Printing L body top a full ret s k)
    (hfetch : P.fetch s.rip = some i) (h : exec P L inp s i = some t) :
    (Printing L body top a full ret t k ∧ t.log = s.log) ∨
    (k < full.length ∧ Printing L body top a full ret t (k + 1) ∧
      t.log = s.log ++ [full.getD k 0]) ∨
    (k = full.length ∧ t.rip = ret ∧ t.mem = s.mem ∧ t.log = s.log) := by
  have hkeep : t.mem.load (top - 8) 8 = L.code ret ∧ CString t.mem a full := by
    rcases serial_mem hP hok hs htop htop' hpr.sending.le_rip hfetch h with hm | ⟨v, hm⟩
    · rw [hm]
      exact ⟨hpr.site, hpr.str⟩
    · rw [hm, load_store_disjoint _ _ (by omega)]
      exact ⟨hpr.site, hpr.str.of_store (by omega) v⟩
  rcases sending_step hP hs htop htop' hpr.str hpr.sending hfetch h with
    ⟨hsend, hlog⟩ | ⟨hsend, hlog⟩ | ⟨rfl, hk, hlog⟩
  · exact .inl ⟨⟨hsend, hkeep.1, hkeep.2⟩, hlog⟩
  · refine .inr (.inl ⟨?_, ⟨hsend, hkeep.1, hkeep.2⟩, hlog⟩)
    cases hsend <;> omega
  · refine .inr (.inr ⟨hk, ?_, exec_agree (p := .mem) h rfl, hlog⟩)
    have haddr := ret_rsp hok hs htop' hpr.sending.le_rip hfetch
    obtain rfl := exec_ret hL h hret (haddr ▸ hpr.site)
    rfl

/-- The call itself. -/
theorem printing_call (hs : Nested P L body top s)
    (htop : 24 ≤ top) (htop' : top ≤ 0x7e00) (hprint : P.entry (f .serial_print) = body)
    (hdepth : P.depth body s.rip = 0) (hstr : CString s.mem a full)
    (hrsi : s.gpr .rsi = BitVec.ofNat 64 a)
    (h : exec P L inp s (.call (f .serial_print)) = some t) :
    Printing L body top a full (s.rip + 1) t 0 ∧ t.log = s.log := by
  obtain ⟨-, v, hmem, hv⟩ := exec_push top 0 h (by omega) (by omega)
    (by rw [hs.rsp, hdepth]) (.inr ⟨_, rfl⟩)
  obtain rfl := hv _ rfl
  have hrip : t.rip = body := by
    rw [← hprint]
    exact List.mem_singleton.mp (exec_succ h (by simp))
  have hrsi' : t.gpr .rsi = s.gpr .rsi := exec_agree (p := .gpr .rsi) h rfl
  refine ⟨⟨.next (.inl hrip) (by rw [hrsi', hrsi, Nat.add_zero]) (Nat.zero_le _), ?_, ?_⟩,
    exec_agree (p := .log) h rfl⟩
  · rw [hmem]
    exact load_store_same _ _ _
  · rw [hmem]
    exact hstr.of_store (by omega) _

end QemuTest.Asm

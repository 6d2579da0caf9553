import QemuTest.Asm.Pm32

/-!
# Asm — Serial32

`serial32.inc`: the routines of the boot sectors that send a byte and a
NUL-terminated string to COM1. `call_serial_out` says that a call sends the byte
in AL and comes back with every register as it was, however often the line
status port has to be asked.
-/

namespace QemuTest.Asm32

open X86 (Byte Flags Memory Port PageMap)
open X86.Protected

/-! ## The routines -/

inductive Serial32Label where
  | serial_out | wait | serial_out_string | next | done
  deriving DecidableEq, Repr

variable {C D σ : Type}

/-- `SERIAL32`, with its labels as those of the including program. -/
def serial32 (f : Serial32Label → C) : Program C D :=
  [ .label (f .serial_out),
    .ins (.push .eax),
    .ins (.push .edx),
    .label (f .wait),
    movDx 0x3fd,
    .ins .inAl,
    .ins (.test .byte .eax (.imm 0x20)),
    jz (f .wait),
    .ins (.pop .edx),
    .ins (.pop .eax),
    .ins (.push .edx),
    movDx 0x3f8,
    .ins .outAl,
    .ins (.pop .edx),
    .ins .ret,
    .label (f .serial_out_string),
    .ins (.push .esi),
    .label (f .next),
    .ins .lodsb,
    .ins (.test .byte .eax (.reg .eax)),
    jz (f .done),
    call (f .serial_out),
    jmp (f .next),
    .label (f .done),
    .ins (.pop .esi),
    .ins .ret ]

variable [DecidableEq C]

/-- The program contains the routines, from instruction `body` on. -/
structure Includes (P : Program C D) (f : Serial32Label → C) (body : Nat) : Prop where
  fetch : ∀ n < 21, P.fetch (body + n) = (serial32 f : Program C D).instrs[n]?
  serial_out : P.entry (f .serial_out) = body
  wait : P.entry (f .wait) = body + 2
  serial_out_string : P.entry (f .serial_out_string) = body + 13
  next : P.entry (f .next) = body + 14
  done : P.entry (f .done) = body + 19

variable {P : Program C D} {f : Serial32Label → C} {L : Layout D} {H : Host D σ} {body e : Nat}
  {s t : State σ}

/-! ## One byte -/

/-- What a called routine has sent is all that shows of it. -/
structure Sent (s t : State σ) (l : List Byte) : Prop extends Kept s t where
  gpr : t.gpr = s.gpr
  mem : ∀ x, x < 0x7000 ∨ (s.gpr .esp).toNat ≤ x → t.mem x = s.mem x
  port : ∃ k, t.port = fun n => s.port (k + n)
  log : t.log = s.log ++ l

/-- Inside `serial_out`, called from `s` with the stack at `e`: both registers
it uses are saved. -/
structure Polling (L : Layout D) (s : State σ) (e : Nat) (t : State σ) : Prop extends
    Kept s t where
  settled : Settled t
  gpr : ∀ r, r ≠ .eax → r ≠ .edx → r ≠ .esp → t.gpr r = s.gpr r
  esp : t.gpr .esp = BitVec.ofNat 32 (e - 12)
  ret : t.mem.load (e - 4) 4 = L.code (s.eip + 1)
  eax : t.mem.load (e - 8) 4 = s.gpr .eax
  edx : t.mem.load (e - 12) 4 = s.gpr .edx
  mem : ∀ x, x < e - 12 ∨ e ≤ x → t.mem x = s.mem x
  port : ∃ k, t.port = fun n => s.port (k + n)
  log : t.log = s.log

/-- The call, with both registers saved. -/
theorem polling_enter (inc : Includes P f body) (hL : Sector P L) (hs : Stack s e)
    (hroom : 0x7010 ≤ e) (hf : P.fetch s.eip = some (.call (f .serial_out))) :
    Gets P L H (fun t => t.eip = body + 2 ∧ Polling L s e t) s := by
  have hhi := hs.high
  refine hs.gets_call hL hf fun t ht h1 => ?_
  rw [inc.serial_out] at ht
  have hs1 : Stack t (e - 4) := ⟨h1.settled, by rw [h1.gpr, Function.update_self], by omega, by omega⟩
  refine hs1.gets_push hL (ht ▸ inc.fetch 0 (by omega)) fun u hu h2 => ?_
  have hs2 : Stack u (e - 4 - 4) :=
    ⟨h2.settled, by rw [h2.gpr, Function.update_self], by omega, by omega⟩
  refine hs2.gets_push hL (hu ▸ ht ▸ inc.fetch 1 (by omega)) fun v hv h3 => .now ⟨by omega, ?_⟩
  have hregs : ∀ r, r ≠ .esp → v.gpr r = s.gpr r ∧ u.gpr r = s.gpr r ∧ t.gpr r = s.gpr r :=
    fun r hr => by simp [h3.gpr, h2.gpr, h1.gpr, hr]
  have hm : v.mem = ((s.mem.store (e - 4) (n := 4) (L.code (s.eip + 1))).store (e - 8) (n := 4)
      (s.gpr .eax)).store (e - 12) (n := 4) (s.gpr .edx) := by
    rw [h3.mem, h2.mem, h1.mem, (hregs .edx (by decide)).2.1, (hregs .eax (by decide)).2.2]
    rfl
  have hkept : Kept s v := (h1.toKept.trans h2.toKept).trans h3.toKept
  exact {
    settled := h3.settled
    gpr := fun r _ _ hr => (hregs r hr).1
    esp := by rw [h3.gpr, Function.update_self, Nat.sub_sub, Nat.sub_sub]
    ret := by
      rw [hm, X86.load_store_disjoint _ _ (by omega), X86.load_store_disjoint _ _ (by omega),
        X86.load_store_same]
    eax := by rw [hm, X86.load_store_disjoint _ _ (by omega), X86.load_store_same]
    edx := by rw [hm, X86.load_store_same]
    toKept := hkept
    mem := fun x hx => by
      rw [hm, X86.store_outside _ _ (by omega), X86.store_outside _ _ (by omega),
        X86.store_outside _ _ (by omega)]
    port := ⟨0, by simp [h3.port, h2.port, h1.port]⟩
    log := by rw [h3.log, h2.log, h1.log] }

omit [DecidableEq C] in
theorem trunc_merge_byte (old v : Word) :
    Size.byte.trunc (Size.byte.merge old v) = Size.byte.trunc v := by
  rw [Size.trunc, Size.trunc, merge_byte]

/-- `test al, 0x20` clears the zero flag for an answer that is ready. -/
theorem zf_ready (flags : Flags) (old : Word) (b : Byte) :
    (logicFlags flags .byte (Size.byte.trunc (Size.byte.merge old (b.setWidth 32)) &&&
      Size.byte.trunc 0x20)).zf = !X86.ready b := by
  have hand : (Size.byte.trunc (Size.byte.merge old (b.setWidth 32)) &&& Size.byte.trunc 0x20)
      = (b &&& 0x20).setWidth 32 := by
    rw [trunc_merge_byte, Size.trunc, BitVec.setWidth_and]
    simp
    rfl
  have hzero : ((b &&& 0x20).setWidth 32).setWidth 64 = 0 ↔ b &&& 0x20 = 0 := by
    constructor
    · intro he
      simpa using congrArg (BitVec.setWidth 8) he
    · intro he
      rw [he]
      rfl
  simp only [logicFlags, X86.Flags.ofLogic, hand, hzero, X86.ready]
  simp

omit [DecidableEq C] in
theorem Polling.goto (h : Polling L s e t) (n : Nat) : Polling L s e (t.goto n) :=
  ⟨⟨h.dev, h.df, h.control⟩, h.settled.goto n, h.gpr, h.esp, h.ret, h.eax, h.edx, h.mem, h.port,
    h.log⟩

/-- The status is asked for once. -/
theorem polling_round (inc : Includes P f body) (hL : Sector P L) (ht : t.eip = body + 2)
    (h : Polling L s e t) :
    Gets P L H (fun u => u.eip = body + 5 ∧ u.flags.zf = !X86.ready (t.port 0) ∧
      (u.port = fun n => t.port (n + 1)) ∧ Polling L s e u) t := by
  refine gets_calc hL h.settled (i := .mov .word .edx (.imm 0x3fd))
    (fetch_of_eq (inc.fetch 2 (by omega)) ht) rfl fun t1 ht1 h1 hst1 => ?_
  refine gets_inAl hL hst1 (fetch_of_eq (inc.fetch 3 (by omega)) (by simp [ht1, ht]))
    fun t2 ht2 hk2 hst2 hm2 hlog2 hport2 hg2 => ?_
  refine gets_calc hL hst2 (i := .test .byte .eax (.imm 0x20))
    (fetch_of_eq (inc.fetch 4 (by omega)) (by simp [ht2, ht1, ht])) rfl
    fun t3 ht3 h3 hst3 => .now ?_
  obtain ⟨k, hk⟩ := h.port
  have hregs : ∀ r, r ≠ .eax → r ≠ .edx → t3.gpr r = t.gpr r := fun r ha hd => by
    simp [h3.gpr, hg2, h1.gpr, ha, hd]
  refine ⟨by simp [ht3, ht2, ht1, ht], ?_, by rw [h3.port, hport2, h1.port], ?_⟩
  · rw [h3.flags]
    simp only [hg2, Function.update_self, h1.port]
    exact zf_ready ..
  exact {
    toKept := ((h.toKept.trans h1.toKept).trans hk2).trans h3.toKept
    settled := hst3
    gpr := fun r ha hd hr => (hregs r ha hd).trans (h.gpr r ha hd hr)
    esp := (hregs _ (by decide) (by decide)).trans h.esp
    ret := by rw [h3.mem, hm2, h1.mem, h.ret]
    eax := by rw [h3.mem, hm2, h1.mem, h.eax]
    edx := by rw [h3.mem, hm2, h1.mem, h.edx]
    mem := fun x hx => by rw [h3.mem, hm2, h1.mem, h.mem x hx]
    port := ⟨k + 1, by
      rw [h3.port, hport2, h1.port, hk]
      funext n
      rw [Nat.add_assoc, Nat.add_comm 1]⟩
    log := by rw [h3.log, hlog2, h1.log, h.log] }

/-- The status is asked for until it is ready. -/
theorem polling_wait (inc : Includes P f body) (hL : Sector P L) (hfair : Port.Fair s.port)
    (ht : t.eip = body + 2) (h : Polling L s e t) :
    Gets P L H (fun u => u.eip = body + 6 ∧ Polling L s e u) t := by
  obtain ⟨rank, hrank⟩ := hfair.rank
  obtain ⟨k, hk⟩ := h.port
  -- by how far off the next ready answer is
  induction hr : rank k using Nat.strong_induction_on generalizing t k with
  | _ r ih =>
      refine (polling_round inc hL ht h).bind fun u ⟨hu, hzf, hport, hpoll⟩ => ?_
      have hanswer : t.port 0 = s.port k := congrFun hk 0
      have hf := fetch_of_eq (inc.fetch 5 (by omega)) hu
      cases hready : X86.ready (t.port 0) with
      | true =>
          have hz : (if Cond.z.holds u.flags then P.entry (f .wait) else u.eip + 1) = body + 6 := by
            rw [Cond.holds, hzf, hready, hu]
            rfl
          exact gets_jcc hL hpoll.settled hf hz fun _ => .now ⟨rfl, hpoll.goto _⟩
      | false =>
          have hz : (if Cond.z.holds u.flags then P.entry (f .wait) else u.eip + 1) = body + 2 := by
            rw [Cond.holds, hzf, hready, inc.wait]
            rfl
          have hnear : rank (k + 1) < r := by
            have := hrank k
            rw [← hanswer, hready] at this
            exact hr ▸ this.resolve_left Bool.false_ne_true
          refine gets_jcc hL hpoll.settled hf hz fun _ =>
            ih _ hnear rfl (hpoll.goto _) (k + 1) ?_ rfl
          show u.port = _
          rw [hport, hk]
          funext n
          rw [Nat.add_assoc, Nat.add_comm 1]

/-- The byte is sent, and every register is as it was. -/
theorem polling_leave (inc : Includes P f body) (hL : Sector P L) (hs : Stack s e)
    (hroom : 0x7010 ≤ e) (hsite : s.eip + 1 < P.instrs.length) (ht : t.eip = body + 6)
    (h : Polling L s e t) :
    Gets P L H (fun u => u.eip = s.eip + 1 ∧ Settled u ∧ Sent s u [s.al]) t := by
  have hhi := hs.high
  have hs0 : Stack t (e - 12) := ⟨h.settled, h.esp, by omega, by omega⟩
  -- `pop edx`, `pop eax`, `push edx`
  refine hs0.gets_pop hL (fetch_of_eq (inc.fetch 6 (by omega)) ht) fun t1 ht1 h1 hg1 => ?_
  have hs1 : Stack t1 (e - 12 + 4) := ⟨h1.settled, by simp [hg1], by omega, by omega⟩
  refine hs1.gets_pop hL (fetch_of_eq (inc.fetch 7 (by omega)) (by omega))
    fun t2 ht2 h2 hg2 => ?_
  have hs2 : Stack t2 (e - 12 + 4 + 4) := ⟨h2.settled, by simp [hg2], by omega, by omega⟩
  refine hs2.gets_push hL (fetch_of_eq (inc.fetch 8 (by omega)) (by omega)) fun t3 ht3 h3 => ?_
  have hm2 : t2.mem = t.mem := h2.mem.trans h1.mem
  have heax : t2.gpr .eax = s.gpr .eax := by
    rw [hg2, Function.update_self, h1.mem, show e - 12 + 4 = e - 8 by omega, h.eax]
  have hedx : t2.gpr .edx = s.gpr .edx := by simp [hg2, hg1, h.edx]
  -- `mov dx, 0x3f8`, `out dx, al`
  refine gets_calc hL h3.settled (i := .mov .word .edx (.imm 0x3f8))
    (fetch_of_eq (inc.fetch 9 (by omega)) (by omega)) rfl fun t4 ht4 h4 hst4 => ?_
  have hdx : t4.dx = com1 := by
    simp only [State.dx, h4.gpr, Function.update_self]
    exact merge_word ..
  refine gets_outAl hL hst4 (fetch_of_eq (inc.fetch 10 (by omega)) (by omega)) hdx
    fun t5 ht5 hk5 hst5 hm5 hport5 hg5 hlog5 => ?_
  -- `pop edx`, `ret`
  have hs5 : Stack t5 (e - 8) :=
    ⟨hst5, by rw [hg5, h4.gpr]; simp [h3.gpr]; congr 1; omega, by omega, by omega⟩
  refine hs5.gets_pop hL (fetch_of_eq (inc.fetch 11 (by omega)) (by omega)) fun t6 ht6 h6 hg6 => ?_
  have hs6 : Stack t6 (e - 8 + 4) := ⟨h6.settled, by simp [hg6], by omega, by omega⟩
  have hm6 : t6.mem = t.mem.store (e - 8) (n := 4) (s.gpr .edx) := by
    rw [h6.mem, hm5, h4.mem, h3.mem, hm2, hedx, show e - 12 + 4 + 4 - 4 = e - 8 by omega]
  have hret : t6.mem.load (e - 8 + 4) 4 = L.code (s.eip + 1) := by
    rw [hm6, X86.load_store_disjoint _ _ (by omega), show e - 8 + 4 = e - 4 by omega, h.ret]
  refine hs6.gets_ret hL (fetch_of_eq (inc.fetch 12 (by omega)) (by omega)) hsite hret
    fun t7 ht7 h7 hg7 => .now ⟨ht7, h7.settled, ?_⟩
  have hregs : ∀ r, r ≠ .edx → r ≠ .esp → t4.gpr r = t2.gpr r ∧ t7.gpr r = t2.gpr r :=
    fun r hd hr => by simp [hg7, hg6, hg5, h4.gpr, h3.gpr, hd, hr]
  have hmem7 : t7.mem = t.mem.store (e - 8) (n := 4) (s.gpr .edx) := h7.mem.trans hm6
  exact {
    toKept := by
      have hk1 := ((h.toKept.trans h1.toKept).trans h2.toKept).trans h3.toKept
      exact (((hk1.trans h4.toKept).trans hk5).trans h6.toKept).trans h7.toKept
    gpr := by
      funext r
      by_cases hr : r = .esp
      · rw [hr, hg7, Function.update_self, hs.esp]
        congr 1
        omega
      by_cases hd : r = .edx
      · rw [hd, hg7, Function.update_of_ne (by decide), hg6, Function.update_self, hm5, h4.mem,
          h3.mem, show e - 12 + 4 + 4 - 4 = e - 8 by omega, X86.load_store_same, hedx]
      rw [(hregs r hd hr).2]
      by_cases ha : r = .eax
      · rw [ha, heax]
      · simp [hg2, hg1, ha, hd, hr, h.gpr r ha hd hr]
    mem := fun x hx => by
      rw [hs.esp, toNat_word (by omega)] at hx
      rw [hmem7, X86.store_outside _ _ (by omega), h.mem x (by omega)]
    port := by
      obtain ⟨k, hk⟩ := h.port
      exact ⟨k, by rw [h7.port, h6.port, hport5, h4.port, h3.port, h2.port, h1.port, hk]⟩
    log := by
      have hal : t4.al = s.al := by
        rw [State.al, (hregs .eax (by decide) (by decide)).1, heax, State.al]
      rw [h7.log, h6.log, hlog5, h4.log, h3.log, h2.log, h1.log, h.log, hal] }

/-- **One byte**: a call of `serial_out` sends AL and nothing else shows. -/
theorem call_serial_out (inc : Includes P f body) (hL : Sector P L) (hs : Stack s e)
    (hroom : 0x7010 ≤ e) (hfair : Port.Fair s.port) (hsite : s.eip + 1 < P.instrs.length)
    (hf : P.fetch s.eip = some (.call (f .serial_out))) :
    Gets P L H (fun u => u.eip = s.eip + 1 ∧ Settled u ∧ Sent s u [s.al]) s :=
  (polling_enter inc hL hs hroom hf).bind fun _ ⟨ht, h⟩ =>
    (polling_wait inc hL hfair ht h).bind fun _ ⟨hu, h'⟩ =>
      polling_leave inc hL hs hroom hsite hu h'

/-! ## A string -/

/-- A NUL-terminated string in the page of the boot sector. -/
structure CString (m : Memory) (a : Nat) (full : List Byte) : Prop where
  low : 0x7c00 ≤ a
  high : a + full.length < 0x8000
  chars : ∀ k ≤ full.length, m (a + k) = full.getD k 0
  nonzero : 0 ∉ full

/-- What is left of a call of `serial_out_string`: it uses EAX. -/
structure SentString (s t : State σ) (l : List Byte) : Prop extends Kept s t where
  gpr : ∀ r, r ≠ .eax → t.gpr r = s.gpr r
  mem : ∀ x, x < 0x7000 ∨ (s.gpr .esp).toNat ≤ x → t.mem x = s.mem x
  port : ∃ k, t.port = fun n => s.port (k + n)
  log : t.log = s.log ++ l

/-- Inside `serial_out_string`, called from `s`, with `k` characters sent. -/
structure Printing (L : Layout D) (s : State σ) (e : Nat) (full : List Byte) (k : Nat)
    (t : State σ) : Prop extends Kept s t where
  settled : Settled t
  gpr : ∀ r, r ≠ .eax → r ≠ .esi → r ≠ .esp → t.gpr r = s.gpr r
  esp : t.gpr .esp = BitVec.ofNat 32 (e - 8)
  ret : t.mem.load (e - 4) 4 = L.code (s.eip + 1)
  saved : t.mem.load (e - 8) 4 = s.gpr .esi
  mem : ∀ x, x < 0x7000 ∨ e ≤ x → t.mem x = s.mem x
  port : ∃ j, t.port = fun n => s.port (j + n)
  log : t.log = s.log ++ full.take k

variable {a k : Nat} {full : List Byte}

/-- The call, with ESI saved. -/
theorem printing_enter (inc : Includes P f body) (hL : Sector P L) (hs : Stack s e)
    (hroom : 0x7020 ≤ e) (hesi : s.gpr .esi = BitVec.ofNat 32 a)
    (hf : P.fetch s.eip = some (.call (f .serial_out_string))) :
    Gets P L H (fun t => t.eip = body + 14 ∧ t.gpr .esi = BitVec.ofNat 32 a ∧
      Printing L s e full 0 t) s := by
  have hhi := hs.high
  refine hs.gets_call hL hf fun t ht h1 => ?_
  rw [inc.serial_out_string] at ht
  have hs1 : Stack t (e - 4) :=
    ⟨h1.settled, by rw [h1.gpr, Function.update_self], by omega, by omega⟩
  refine hs1.gets_push hL (fetch_of_eq (inc.fetch 13 (by omega)) ht) fun u hu h2 =>
    .now ?_
  have hregs : ∀ r, r ≠ .esp → u.gpr r = s.gpr r ∧ t.gpr r = s.gpr r :=
    fun r hr => by simp [h2.gpr, h1.gpr, hr]
  have hm : u.mem = (s.mem.store (e - 4) (n := 4) (L.code (s.eip + 1))).store (e - 8) (n := 4)
      (s.gpr .esi) := by
    rw [h2.mem, h1.mem, (hregs .esi (by decide)).2]
    rfl
  refine ⟨by omega, (hregs .esi (by decide)).1.trans hesi, ?_⟩
  exact {
    toKept := h1.toKept.trans h2.toKept
    settled := h2.settled
    gpr := fun r _ _ hr => (hregs r hr).1
    esp := by rw [h2.gpr, Function.update_self, Nat.sub_sub]
    ret := by rw [hm, X86.load_store_disjoint _ _ (by omega), X86.load_store_same]
    saved := by rw [hm, X86.load_store_same]
    mem := fun x hx => by
      rw [hm, X86.store_outside _ _ (by omega), X86.store_outside _ _ (by omega)]
    port := ⟨0, by simp [h2.port, h1.port]⟩
    log := by rw [h2.log, h1.log, List.take_zero, List.append_nil] }

/-- The next character is loaded. -/
theorem printing_load (inc : Includes P f body) (hL : Sector P L) (hdf : s.df = false)
    (hstr : CString s.mem a full) (hhi : e ≤ 0x7c00) (ht : t.eip = body + 14)
    (hesi : t.gpr .esi = BitVec.ofNat 32 (a + k)) (hle : k ≤ full.length)
    (h : Printing L s e full k t) :
    Gets P L H (fun u => u.eip = body + 15 ∧ u.al = full.getD k 0 ∧
      u.gpr .esi = BitVec.ofNat 32 (a + k + 1) ∧ u.port = t.port ∧
      Printing L s e full k u) t := by
  have hlo := hstr.low
  have hend := hstr.high
  have haddr : (t.gpr .esi).toNat = a + k := by rw [hesi, toNat_word (by omega)]
  have hbyte : ∀ j < 1, byte? L t.tables (a + k + j) = some (a + k + j) := fun j _ =>
    byte_home h.settled.home hL.limit (by omega) (by omega)
  have hload : t.load L t.tables (t.gpr .esi).toNat 1 = some (t.mem.load (a + k) 1) := by
    rw [State.load, haddr, loadBytes_at hbyte]
  have hnext : t.gpr .esi + t.stride .byte = BitVec.ofNat 32 (a + k + 1) := by
    rw [hesi, State.stride, h.df, hdf, if_neg Bool.false_ne_true]
    exact word_add (a + k) 1
  have hexec : exec P L H t.tables t .lodsb = some ((t.setReg .eax (Size.byte.merge (t.gpr .eax)
      ((t.mem.load (a + k) 1).setWidth 32))).setReg .esi (t.gpr .esi + t.stride .byte)).next := by
    rw [exec, hload, Option.map_some]
  refine gets_calm hL h.settled (fetch_of_eq (inc.fetch 14 (by omega)) ht) hexec rfl rfl
    fun hst => .now ⟨congrArg (· + 1) ht, ?_, (State.setReg_self ..).trans hnext, rfl, ?_⟩
  · have hal : (((t.setReg .eax (Size.byte.merge (t.gpr .eax)
        ((t.mem.load (a + k) 1).setWidth 32))).setReg .esi (t.gpr .esi + t.stride .byte)).next).al
          = ((t.mem.load (a + k) 1).setWidth 32).setWidth 8 :=
      merge_byte ..
    rw [hal, X86.load_byte, h.mem _ (by omega), hstr.chars k hle]
    exact BitVec.setWidth_setWidth_of_le _ (by decide)
  have hregs : ∀ (x y : Word) r, r ≠ .eax → r ≠ .esi →
      ((t.setReg .eax x).setReg .esi y).gpr r = t.gpr r := fun x y r ha hs => by
    rw [State.setReg_of_ne _ _ hs, State.setReg_of_ne _ _ ha]
  exact { h with
    settled := hst
    gpr := fun r ha hs hr => (hregs _ _ r ha hs).trans (h.gpr r ha hs hr)
    esp := by
      rw [← h.esp]
      exact hregs _ _ .esp (by decide) (by decide) }

/-- `test al, al`. -/
theorem zf_al (flags : Flags) (x : Word) :
    (logicFlags flags .byte (Size.byte.trunc x &&& Size.byte.trunc x)).zf
      = decide (x.setWidth 8 = 0) := by
  have hzero : ((x.setWidth 8).setWidth 32).setWidth 64 = 0 ↔ x.setWidth 8 = 0 := by
    constructor
    · intro he
      have hlow := congrArg (BitVec.setWidth 8) he
      rwa [BitVec.setWidth_setWidth_of_le _ (by decide),
        BitVec.setWidth_setWidth_of_le _ (by decide), BitVec.setWidth_eq] at hlow
    · intro he
      rw [he]
      rfl
  simp only [logicFlags, X86.Flags.ofLogic, BitVec.and_self, Size.trunc, hzero]

/-- One character, or the end of the string. -/
theorem printing_round (inc : Includes P f body) (hL : Sector P L) (hdf : s.df = false)
    (hstr : CString s.mem a full) (hs : Stack s e) (hroom : 0x7020 ≤ e)
    (hfair : Port.Fair s.port) (ht : t.eip = body + 14)
    (hesi : t.gpr .esi = BitVec.ofNat 32 (a + k)) (hle : k ≤ full.length)
    (h : Printing L s e full k t) :
    Gets P L H (fun u => (k = full.length ∧ u.eip = body + 19 ∧ Printing L s e full k u) ∨
      (k < full.length ∧ u.eip = body + 14 ∧ u.gpr .esi = BitVec.ofNat 32 (a + k + 1) ∧
        Printing L s e full (k + 1) u)) t := by
  have hhi := hs.high
  refine (printing_load inc hL hdf hstr hhi ht hesi hle h).bind fun u hloaded => ?_
  obtain ⟨hu, hal, hesiu, -, hpu⟩ := hloaded
  refine gets_calc hL hpu.settled (i := .test .byte .eax (.reg .eax))
    (fetch_of_eq (inc.fetch 15 (by omega)) hu) rfl fun v hv hcv hst => ?_
  have hgv : v.gpr = u.gpr := hcv.gpr
  have heipv : v.eip = body + 16 := by rw [hv, hu]
  have hpv : Printing L s e full k v := {
    toKept := hpu.toKept.trans hcv.toKept
    settled := hst
    gpr := fun r ha hs hr => by rw [hgv, hpu.gpr r ha hs hr]
    esp := by rw [hgv, hpu.esp]
    ret := by rw [hcv.mem, hpu.ret]
    saved := by rw [hcv.mem, hpu.saved]
    mem := fun x hx => by rw [hcv.mem, hpu.mem x hx]
    port := by rw [hcv.port]; exact hpu.port
    log := by rw [hcv.log, hpu.log] }
  have hzf : v.flags.zf = decide (full.getD k 0 = 0) := by
    rw [← hal, hcv.flags]
    exact zf_al ..
  have hf := fetch_of_eq (inc.fetch 16 (by omega)) heipv
  rcases Nat.lt_or_eq_of_le hle with hlt | rfl
  · have hchar : full.getD k 0 ≠ 0 := by
      rw [List.getD_eq_getElem?_getD, List.getElem?_eq_getElem hlt, Option.getD_some]
      exact fun he => hstr.nonzero (he ▸ List.getElem_mem hlt)
    have hz : (if Cond.z.holds v.flags then P.entry (f .done) else v.eip + 1) = body + 17 := by
      rw [Cond.holds, hzf, decide_eq_false hchar, heipv]
      rfl
    refine gets_jcc hL hst hf hz fun hst' => ?_
    obtain ⟨j, hj⟩ := hpv.port
    have hstack : Stack (v.goto (body + 17)) (e - 8) := ⟨hst', hpv.esp, by omega, by omega⟩
    have hfair' : Port.Fair v.port := by
      rw [hj]
      exact hfair.shift j
    have hsite : body + 17 + 1 < P.instrs.length := fetch_some_lt (i := .jmp (f .next))
      (inc.fetch 18 (by omega))
    refine (call_serial_out inc hL hstack (by omega) hfair' hsite (inc.fetch 17 (by omega))).bind
      fun w hcalled => ?_
    obtain ⟨hw, hstw, hsent⟩ := hcalled
    refine gets_jmp hL hstw (fetch_of_eq (inc.fetch 18 (by omega)) hw) fun hst'' =>
      .now (.inr ⟨hlt, inc.next, ?_, ?_⟩)
    · show w.gpr .esi = _
      rw [hsent.gpr]
      exact hgv ▸ hesiu
    have hesp : (v.gpr .esp).toNat = e - 8 := by rw [hpv.esp, toNat_word (by omega)]
    have hmem : ∀ x, x < 0x7000 ∨ e - 8 ≤ x → w.mem x = v.mem x := fun x hx =>
      hsent.mem x (hesp ▸ hx)
    exact {
      toKept := hpv.toKept.trans ⟨hsent.dev, hsent.df, hsent.control⟩
      settled := hst''
      gpr := fun r ha hs hr => (congrFun hsent.gpr r).trans (hpv.gpr r ha hs hr)
      esp := (congrFun hsent.gpr .esp).trans hpv.esp
      ret := (X86.load_congr fun j _ => hmem _ (by omega)).trans hpv.ret
      saved := (X86.load_congr fun j _ => hmem _ (by omega)).trans hpv.saved
      mem := fun x hx => (hmem x (by omega)).trans (hpv.mem x hx)
      port := by
        obtain ⟨j', hj'⟩ := hsent.port
        refine ⟨j + j', ?_⟩
        show w.port = _
        rw [hj']
        simp only [State.goto_port, hj, Nat.add_assoc]
      log := by
        have halv : (v.goto (body + 17)).al = full.getD k 0 := by
          show (v.gpr .eax).setWidth 8 = _
          rw [hgv]
          exact hal
        show w.log = _
        rw [hsent.log, State.goto_log, hpv.log, halv, List.append_assoc, List.getD_eq_getElem?_getD,
          List.getElem?_eq_getElem hlt, Option.getD_some, ← List.take_succ_eq_append_getElem hlt] }
  · have hchar : full.getD full.length 0 = 0 := by simp [List.getD_eq_getElem?_getD]
    have hz : (if Cond.z.holds v.flags then P.entry (f .done) else v.eip + 1) = body + 19 := by
      rw [Cond.holds, hzf, decide_eq_true hchar, inc.done]
      rfl
    refine gets_jcc hL hst hf hz fun hst' => .now (.inl ⟨rfl, rfl, ?_⟩)
    exact ⟨⟨hpv.dev, hpv.df, hpv.control⟩, hst', hpv.gpr, hpv.esp, hpv.ret, hpv.saved, hpv.mem,
      hpv.port, hpv.log⟩

/-- The whole string, by the characters that are left. -/
theorem printing_rounds (inc : Includes P f body) (hL : Sector P L) (hdf : s.df = false)
    (hstr : CString s.mem a full) (hs : Stack s e) (hroom : 0x7020 ≤ e)
    (hfair : Port.Fair s.port) (ht : t.eip = body + 14)
    (hesi : t.gpr .esi = BitVec.ofNat 32 (a + k)) (hle : k ≤ full.length)
    (h : Printing L s e full k t) :
    Gets P L H (fun u => u.eip = body + 19 ∧ Printing L s e full full.length u) t := by
  induction hleft : full.length - k generalizing t k with
  | zero =>
      obtain rfl : k = full.length := by omega
      refine (printing_round inc hL hdf hstr hs hroom hfair ht hesi hle h).bind fun u hu => ?_
      rcases hu with ⟨-, heip, hp⟩ | ⟨hlt, -⟩
      · exact .now ⟨heip, hp⟩
      · exact absurd hlt (Nat.lt_irrefl _)
  | succ n ih =>
      refine (printing_round inc hL hdf hstr hs hroom hfair ht hesi hle h).bind fun u hu => ?_
      rcases hu with ⟨rfl, heip, hp⟩ | ⟨hlt, heip, hesi', hp⟩
      · exact .now ⟨heip, hp⟩
      · exact ih heip hesi' hlt hp (by omega)

/-- **A string**: a call of `serial_out_string` sends it. -/
theorem call_serial_out_string (inc : Includes P f body) (hL : Sector P L) (hdf : s.df = false)
    (hstr : CString s.mem a full) (hs : Stack s e) (hroom : 0x7020 ≤ e)
    (hfair : Port.Fair s.port) (hsite : s.eip + 1 < P.instrs.length)
    (hesi : s.gpr .esi = BitVec.ofNat 32 a)
    (hf : P.fetch s.eip = some (.call (f .serial_out_string))) :
    Gets P L H (fun u => u.eip = s.eip + 1 ∧ Settled u ∧ SentString s u full) s := by
  have hhi := hs.high
  have henter : Gets P L H (fun t => t.eip = body + 14 ∧ t.gpr .esi = BitVec.ofNat 32 a ∧
      Printing L s e full 0 t) s := printing_enter inc hL hs hroom hesi hf
  refine henter.bind fun t ⟨ht, hesit, h⟩ => ?_
  refine (printing_rounds (k := 0) inc hL hdf hstr hs hroom hfair ht hesit (Nat.zero_le _) h).bind
    fun u ⟨hu, h⟩ => ?_
  -- `pop esi`, `ret`
  have hsu : Stack u (e - 8) := ⟨h.settled, h.esp, by omega, by omega⟩
  refine hsu.gets_pop hL (fetch_of_eq (inc.fetch 19 (by omega)) hu) fun v hv hpv hgv => ?_
  have hsv : Stack v (e - 8 + 4) := ⟨hpv.settled, by simp [hgv], by omega, by omega⟩
  have hret : v.mem.load (e - 8 + 4) 4 = L.code (s.eip + 1) := by
    rw [hpv.mem, show e - 8 + 4 = e - 4 by omega, h.ret]
  refine hsv.gets_ret hL (fetch_of_eq (inc.fetch 20 (by omega)) (by omega)) hsite hret
    fun w hw hpw hgw => .now ⟨hw, hpw.settled, ?_⟩
  exact {
    toKept := (h.toKept.trans hpv.toKept).trans hpw.toKept
    gpr := fun r hr => by
      by_cases hsp : r = .esp
      · rw [hsp, hgw, Function.update_self, hs.esp]
        congr 1
        omega
      by_cases hsi : r = .esi
      · rw [hsi, hgw, Function.update_of_ne (by decide), hgv, Function.update_self, h.saved]
      simp [hgw, hgv, hsp, hsi, h.gpr r hr hsi hsp]
    mem := fun x hx => by
      rw [hs.esp, toNat_word (by omega)] at hx
      rw [hpw.mem, hpv.mem, h.mem x hx]
    port := by
      obtain ⟨j, hj⟩ := h.port
      exact ⟨j, by rw [hpw.port, hpv.port, hj]⟩
    log := by rw [hpw.log, hpv.log, h.log, List.take_length] }

end QemuTest.Asm32

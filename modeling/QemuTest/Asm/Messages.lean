import QemuTest.Asm.Guest
import QemuTest.Lib.X86.Progress
import Mathlib.Data.Prod.Lex

/-!
# Asm — Messages

What the serial routine gets done: with a line status that says ready again and
again, however often it does not in between, a call with a message of the image
sends all of it and returns (`message_gets`).
-/

namespace QemuTest.Asm

open X86 Runs

namespace Guest

variable {g : Guest} {L : Layout g.Data} {f : SerialLabel → g.Label} {body : Nat}
  {s t : State} {i : Instr g.Label g.Data} {a ret k j : Nat} {full : List Byte}
  {port : Port} {rank : Nat → Nat} {lo : Nat}

/-- Once an answer is read, it is the port's last one. -/
def Answered (port : Port) (body : Nat) (s : State) (k : Nat) : Prop :=
  (s.rip = body + 6 → s.al = port (k - 1)) ∧
  (s.rip = body + 7 ∨ s.rip = body + 8 → s.flags.zf = !ready (port (k - 1)))

theorem answered_away (h : s.rip ≠ body + 6 ∧ s.rip ≠ body + 7 ∧ s.rip ≠ body + 8) :
    Answered port body s k :=
  ⟨fun he => absurd he h.1, fun he => he.elim (absurd · h.2.1) (absurd · h.2.2)⟩

/-- How far instruction `n` of the routine is from the end of a poll or of a
character. -/
def place (n : Nat) : Nat := [8, 7, 6, 3, 2, 1, 6, 5, 4, 3, 2, 9, 0].getD n 0

/-- How long it still waits for the port, by the rank of the next answer. -/
def wait (port : Port) (rank : Nat → Nat) (n k : Nat) : Nat :=
  if 6 ≤ n ∧ n ≤ 10 ∧ ready (port (k - 1)) = true then 0 else rank k + 1

/-- How long it is busy with its character: first by the wait. -/
def pace (port : Port) (rank : Nat → Nat) (n k : Nat) : Nat ×ₗ Nat :=
  toLex (wait port rank n k, place n)

theorem pace_lt {m n j k : Nat} (h : wait port rank m j < wait port rank n k ∨
    wait port rank m j = wait port rank n k ∧ place m < place n) :
    pace port rank m j < pace port rank n k :=
  Prod.Lex.toLex_lt_toLex.mpr h

theorem wait_eq {m n : Nat} (h : (6 ≤ m ∧ m ≤ 10) ↔ (6 ≤ n ∧ n ≤ 10)) (k : Nat) :
    wait port rank m k = wait port rank n k := by
  simp only [wait, ← and_assoc, h]

theorem wait_of_not_ready (h : ready (port (k - 1)) = false) (n : Nat) :
    wait port rank n k = rank k + 1 := by
  simp [wait, h]

/-- `test al, 0x20` clears the zero flag for an answer that is ready. -/
theorem zf_ready {s : State} {b : Byte} (h : s.al = b) :
    (s.flags.ofLogic .byte (Width.byte.trunc (s.gpr .rax) &&& Width.byte.trunc 0x20)).zf
      = !ready b := by
  have hand : Width.byte.trunc (s.gpr .rax) &&& Width.byte.trunc 0x20
      = (b &&& 0x20).setWidth 64 := by
    rw [BitVec.setWidth_and, ← h]
    rfl
  have hzero : (b &&& 0x20).setWidth 64 = 0 ↔ b &&& 0x20 = 0 := by
    constructor
    · intro he
      simpa using congrArg (BitVec.setWidth 8) he
    · intro he
      rw [he]
      rfl
  simp only [Flags.ofLogic, hand, hzero, ready]
  simp

/-! ### The routine does not fault -/

/-- There is room on the stack for the character while its poll is under way. -/
theorem push_isSome (hw : g.Wired f body) (hL : g.Fits L) (inp : Byte)
    (hs : Nested g.program L body g.stackTop s) (hrip : s.rip = body + 4) :
    ∃ t, exec g.program L inp s (.push .rax) = some t := by
  have hlow := hw.top_low
  have hhigh := hw.top_high
  have hslot : (s.gpr .rsp - 8).toNat + 8 ≤ L.limit := by
    rw [hs.rsp, hrip, hw.includes.depth_push, ofNat_sub_word (by omega),
      BitVec.toNat_ofNat, Nat.mod_eq_of_lt (by omega), hL.limit]
    omega
  exact ⟨_, by rw [exec, push_eq_some.mpr ⟨hslot, rfl⟩, Option.map_some]⟩

theorem pop_isSome (hw : g.Wired f body) (hL : g.Fits L) (inp : Byte)
    (hs : Nested g.program L body g.stackTop s) (hrip : s.rip = body + 7) :
    ∃ t, exec g.program L inp s (.pop .rax) = some t := by
  have hlow := hw.top_low
  have hhigh := hw.top_high
  have hslot : (s.gpr .rsp).toNat + 8 ≤ L.limit := by
    rw [hs.rsp, hrip, hw.includes.depth_pop, BitVec.toNat_ofNat,
      Nat.mod_eq_of_lt (by omega), hL.limit]
    omega
  exact ⟨_, by rw [exec, pop_eq_some.mpr ⟨hslot, rfl⟩, Option.map_some]⟩

/-- The return finds the instruction behind the call. -/
theorem ret_isSome (hw : g.Wired f body) (hL : g.Fits L) (inp : Byte)
    (hret : ret < g.program.instrs.length)
    (hs : Nested g.program L body g.stackTop s)
    (hpr : Printing L body g.stackTop a full ret s k)
    (hfetch : g.program.fetch s.rip = some .ret) :
    ∃ t, exec g.program L inp s .ret = some t := by
  have hlow := hw.top_low
  have hhigh := hw.top_high
  have hlimit := hL.limit
  have hrsp := ret_rsp hw.nested hs hhigh hpr.sending.le_rip hfetch
  have hload : s.pop L = some (L.code ret, s.setReg .rsp (s.gpr .rsp + 8)) :=
    pop_eq_some.mpr ⟨by omega, by rw [hrsp, hpr.site]⟩
  obtain ⟨n, hn⟩ : ∃ n, g.program.locate L (L.code ret) = some n := by
    refine Option.isSome_iff_exists.mp (List.find?_isSome.mpr ?_)
    exact ⟨ret, List.mem_range.mpr hret, decide_eq_true rfl⟩
  exact ⟨_, by rw [exec, hload, Option.bind_some, hn, Option.map_some]⟩

theorem exec_isSome (hw : g.Wired f body) (hL : g.Fits L) (inp : Byte)
    (hret : ret < g.program.instrs.length)
    (hs : Nested g.program L body g.stackTop s)
    (hpr : Printing L body g.stackTop a full ret s k)
    (hfetch : g.program.fetch s.rip = some i) : ∃ t, exec g.program L inp s i = some t := by
  have hlimit := hL.limit
  have hstr := hpr.str.high
  have hinstr := fun n hn => hw.includes.instr (s := s) hfetch (n := n) hn
  cases hpr.sending with
  | next rip rsi le =>
      rcases rip with rip | rip
      · obtain rfl := Option.some.inj
          (show some Instr.lodsb = some i from hinstr 0 (by omega) rip)
        have haddr : (s.gpr .rsi).toNat + 1 ≤ L.limit := by
          rw [rsi, toNat_ofNat_addr (by omega)]
          omega
        exact ⟨_, by rw [exec, load_eq_some.mpr ⟨haddr, rfl⟩, Option.map_some]⟩
      · obtain rfl := Option.some.inj
          (show some (Instr.jmp (f .next)) = some i from hinstr 11 (by omega) rip)
        exact ⟨_, rfl⟩
  | loaded rip rsi le al =>
      rcases rip with rip | ⟨rip, -⟩
      · obtain rfl := Option.some.inj
          (show some (Instr.test .byte (.reg .rax) (.reg .rax)) = some i from
            hinstr 1 (by omega) rip)
        exact ⟨_, rfl⟩
      · obtain rfl := Option.some.inj
          (show some (Instr.jcc .z (f .done)) = some i from hinstr 2 (by omega) rip)
        exact ⟨_, rfl⟩
  | waiting rip rsi lt al =>
      rcases rip with rip | rip | rip | rip
      · obtain rfl := Option.some.inj
          (show some (Instr.mov .word .rdx (.imm 0x3fd)) = some i from
            hinstr 3 (by omega) rip)
        exact ⟨_, rfl⟩
      · obtain rfl := Option.some.inj
          (show some (Instr.push .rax) = some i from hinstr 4 (by omega) rip)
        exact push_isSome hw hL inp hs rip
      · obtain rfl := Option.some.inj
          (show some (Instr.jcc .z (f .wait_tx)) = some i from hinstr 8 (by omega) rip)
        exact ⟨_, rfl⟩
      · obtain rfl := Option.some.inj
          (show some (Instr.mov .word .rdx (.imm 0x3f8)) = some i from
            hinstr 9 (by omega) rip)
        exact ⟨_, rfl⟩
  | polling rip rsi lt saved =>
      rcases rip with rip | rip | rip
      · obtain rfl := Option.some.inj
          (show some Instr.inAl = some i from hinstr 5 (by omega) rip)
        exact ⟨_, rfl⟩
      · obtain rfl := Option.some.inj
          (show some (Instr.test .byte (.reg .rax) (.imm 0x20)) = some i from
            hinstr 6 (by omega) rip)
        exact ⟨_, rfl⟩
      · obtain rfl := Option.some.inj
          (show some (Instr.pop .rax) = some i from hinstr 7 (by omega) rip)
        exact pop_isSome hw hL inp hs rip
  | ready rip port rsi lt al =>
      obtain rfl := Option.some.inj
        (show some Instr.outAl = some i from hinstr 10 (by omega) rip)
      exact ⟨_, by rw [exec, if_pos port]⟩
  | done rip eq =>
      obtain rfl := Option.some.inj
        (show some Instr.ret = some i from hinstr 12 (by omega) rip)
      exact ret_isSome hw hL inp hret hs hpr hfetch

/-! ### A character -/

/-- Neither a send nor the return: the routine goes on with its character. -/
theorem answered_step (hw : g.Wired f body)
    (hrank : ∀ n, ready (port n) = true ∨ rank (n + 1) < rank n) {n : Nat} (hn : n < 13)
    (hrip : s.rip = body + n) (ha : Answered port body s k)
    (hfetch : g.program.fetch s.rip = some i) (h : exec g.program L (port k) s i = some t)
    (hj : j = if i.reads then k + 1 else k) (hsend : n ≠ 10) (hret : n ≠ 12) :
    Answered port body t j ∧
      ∃ m, t.rip = body + m ∧ pace port rank m j < pace port rank n k := by
  have hinstr := hw.includes.instr hfetch hn hrip
  -- on to an instruction behind no read of the status
  have hnear : ∀ m, t.rip = body + m → j = k → wait port rank m k = wait port rank n k →
      place m < place n → (m ≠ 6 ∧ m ≠ 7 ∧ m ≠ 8) → Answered port body t j ∧
        ∃ m, t.rip = body + m ∧ pace port rank m j < pace port rank n k := by
    rintro m hm rfl hwait hplace hno
    exact ⟨answered_away (by omega), m, hm, pace_lt (.inr ⟨hwait, hplace⟩)⟩
  have hsucc : i ≠ .ret → t.rip ∈ i.succs g.program s.rip := exec_succ h
  rw [hrip] at hsucc
  match n, hn with
  | 0, _ =>
      obtain rfl := Option.some.inj (show some Instr.lodsb = some i from hinstr)
      exact hnear 1 (List.mem_singleton.mp (hsucc (by simp))) hj (wait_eq (by omega) k)
        (by decide) (by omega)
  | 1, _ =>
      obtain rfl := Option.some.inj
        (show some (Instr.test .byte (.reg .rax) (.reg .rax)) = some i from hinstr)
      exact hnear 2 (List.mem_singleton.mp (hsucc (by simp))) hj (wait_eq (by omega) k)
        (by decide) (by omega)
  | 2, _ =>
      obtain rfl := Option.some.inj (show some (Instr.jcc .z (f .done)) = some i from hinstr)
      rcases List.mem_pair.mp (hsucc (by simp)) with hat | hat
      · exact hnear 3 hat hj (wait_eq (by omega) k) (by decide) (by omega)
      · exact hnear 12 (hat.trans hw.includes.done) hj (wait_eq (by omega) k) (by decide)
          (by omega)
  | 3, _ =>
      obtain rfl := Option.some.inj
        (show some (Instr.mov .word .rdx (.imm 0x3fd)) = some i from hinstr)
      exact hnear 4 (List.mem_singleton.mp (hsucc (by simp))) hj (wait_eq (by omega) k)
        (by decide) (by omega)
  | 4, _ =>
      obtain rfl := Option.some.inj (show some (Instr.push .rax) = some i from hinstr)
      exact hnear 5 (List.mem_singleton.mp (hsucc (by simp))) hj (wait_eq (by omega) k)
        (by decide) (by omega)
  | 5, _ =>
      -- the status is read: it is ready, or the next ready one is nearer
      obtain rfl := Option.some.inj (show some Instr.inAl = some i from hinstr)
      have hat : t.rip = body + 6 := List.mem_singleton.mp (hsucc (by simp))
      obtain rfl : j = k + 1 := hj
      obtain rfl := Option.some.inj h
      refine ⟨⟨fun _ => ?_, fun he => by omega⟩, 6, hat, pace_lt (.inl ?_)⟩
      · simp only [State.al, State.next, State.goto, State.setReg, Function.update_self,
          setWidth_merge_byte]
        exact BitVec.setWidth_setWidth_of_le _ (by decide)
      · have hold : wait port rank 5 k = rank k + 1 := if_neg (by omega)
        rw [hold, wait]
        split
        · exact Nat.succ_pos _
        · rename_i hno
          have := (hrank k).resolve_left fun hr => hno ⟨by omega, by omega, hr⟩
          omega
  | 6, _ =>
      -- its bit is tested
      obtain rfl := Option.some.inj
        (show some (Instr.test .byte (.reg .rax) (.imm 0x20)) = some i from hinstr)
      have hat : t.rip = body + 7 := List.mem_singleton.mp (hsucc (by simp))
      obtain rfl : j = k := hj
      obtain rfl := Option.some.inj h
      exact ⟨⟨fun he => by omega, fun _ => zf_ready (ha.1 hrip)⟩, 7, hat,
        pace_lt (.inr ⟨wait_eq (by omega) j, by decide⟩)⟩
  | 7, _ =>
      -- the flags outlive the pop
      obtain rfl := Option.some.inj (show some (Instr.pop .rax) = some i from hinstr)
      have hat : t.rip = body + 8 := List.mem_singleton.mp (hsucc (by simp))
      have hflags : t.flags = s.flags := exec_agree (p := .flags) h rfl
      obtain rfl : j = k := hj
      refine ⟨⟨fun he => by omega, fun _ => ?_⟩, 8, hat,
        pace_lt (.inr ⟨wait_eq (by omega) j, by decide⟩)⟩
      rw [hflags]
      exact ha.2 (.inl hrip)
  | 8, _ =>
      -- back to the status, unless it was ready
      obtain rfl := Option.some.inj (show some (Instr.jcc .z (f .wait_tx)) = some i from hinstr)
      have hz := ha.2 (.inr hrip)
      cases hready : ready (port (k - 1)) with
      | true =>
          have hat : t.rip = body + 9 := by
            rw [exec_pass (by rw [hz, hready]; rfl)] at h
            obtain rfl := Option.some.inj h
            rw [State.next, State.goto, hrip]
          exact hnear 9 hat hj (wait_eq (by omega) k) (by decide) (by omega)
      | false =>
          have hat : t.rip = body + 3 := by
            rw [exec, holds_eq_taken, hz, hready] at h
            obtain rfl := Option.some.inj h
            exact hw.includes.wait_tx
          exact hnear 3 hat hj (by rw [wait_of_not_ready hready, wait_of_not_ready hready])
            (by decide) (by omega)
  | 9, _ =>
      obtain rfl := Option.some.inj
        (show some (Instr.mov .word .rdx (.imm 0x3f8)) = some i from hinstr)
      exact hnear 10 (List.mem_singleton.mp (hsucc (by simp))) hj (wait_eq (by omega) k)
        (by decide) (by omega)
  | 10, _ => exact absurd rfl hsend
  | 12, _ => exact absurd rfl hret
  | 11, _ =>
      obtain rfl := Option.some.inj (show some (Instr.jmp (f .next)) = some i from hinstr)
      exact hnear 0 ((List.mem_singleton.mp (hsucc (by simp))).trans hw.includes.next) hj
        (wait_eq (by omega) k) (by decide) (by omega)

/-- The routine stands at one of its instructions. -/
theorem sending_within {b top : Nat} (h : Sending b top a full s k) : s.rip < b + 13 := by
  cases h <;> omega

/-- The routine is busy with its string: `rest` of it is still to be sent. -/
structure Busy (g : Guest) (L : Layout g.Data) (port : Port) (body a : Nat) (full : List Byte)
    (ret : Nat) (rest : List Byte) (x : State × Nat) : Prop where
  nested : Nested g.program L body g.stackTop x.1
  answered : Answered port body x.1 x.2
  printing : ∃ k, Printing L body g.stackTop a full ret x.1 k ∧ full.drop k = rest

/-- The string is over, and the routine has returned; or its next character is
sent. -/
def Sent (g : Guest) (L : Layout g.Data) (port : Port) (body a : Nat) (full : List Byte)
    (ret : Nat) (log rest : List Byte) (y : State × Nat) : Prop :=
  (rest = [] ∧ y.1.rip = ret ∧ y.1.log = log) ∨
  ∃ c rest', rest = c :: rest' ∧ Busy g L port body a full ret rest' y ∧ y.1.log = log ++ [c]

/-- From its last instruction the routine leaves. -/
theorem return_leaves (hw : g.Wired f body) (hrip : s.rip = body + 12)
    (hedge : Edge g.program s.rip i t.rip) : t.rip < body := by
  obtain rfl := Option.some.inj
    (show some Instr.ret = some i from hw.includes.instr hedge.1 (by omega) hrip)
  have hck := allEdges_spec (Bool.and_eq_true_iff.mp hw.nested).1 hedge
  simp only [nestOk, decide_eq_true_eq] at hck
  exact hck.2.1

/-- With the same character at hand, the step was no send. -/
theorem same_character (hw : g.Wired f body)
    (hpr : Printing L body g.stackTop a full ret s k) (hlog : t.log = s.log)
    (hfetch : g.program.fetch s.rip = some i) {inp : Byte}
    (h : exec g.program L inp s i = some t) : s.rip ≠ body + 10 := by
  intro hrip
  obtain rfl := Option.some.inj
    (show some Instr.outAl = some i from hw.includes.instr hfetch (by omega) hrip)
  have hport : (s.gpr .rdx).setWidth 16 = com1 := by
    cases hpr.sending with
    | ready rip port rsi lt al => exact port
    | next | loaded | waiting | polling | done => omega
  rw [exec, if_pos hport] at h
  obtain rfl := Option.some.inj h
  simp at hlog

/-- **One step of a busy routine**: it returns, sends a character, or keeps its
pace. -/
theorem busy_step (hw : g.Wired f body) (hL : g.Fits L)
    (hrank : ∀ n, ready (port n) = true ∨ rank (n + 1) < rank n) (hlo : lo ≤ body)
    (hret : ret < body) {rest : List Byte} {x : State × Nat}
    (hx : Busy g L port body a full ret rest x) :
    ∃ e y, Ticks g.program L port lo x e y ∧ (Sent g L port body a full ret x.1.log rest y ∨
      Busy g L port body a full ret rest y ∧ y.1.log = x.1.log ∧
        pace port rank (y.1.rip - body) y.2 < pace port rank (x.1.rip - body) x.2) := by
  obtain ⟨s, r⟩ := x
  obtain ⟨hnest, hans, k, hpr, rfl⟩ := hx
  dsimp only at hnest hans hpr
  have hlen : ret < g.program.instrs.length := by
    rw [hw.includes.size]
    omega
  obtain ⟨n, hrip⟩ : ∃ n, s.rip = body + n := ⟨s.rip - body, by
    have := hpr.sending.le_rip
    omega⟩
  have hn : n < 13 := by
    have := sending_within hpr.sending
    omega
  obtain ⟨i, hfetch⟩ : ∃ i, g.program.fetch s.rip = some i :=
    ⟨_, List.getElem?_eq_getElem (by rw [hw.includes.size]; omega)⟩
  obtain ⟨u, hu⟩ := exec_isSome hw hL (port r) hlen hnest hpr hfetch
  obtain ⟨hnest', hedge⟩ := hw.nested_step hL hnest hfetch hu
  have hback : n = 12 → u.rip < body := fun h12 => return_leaves hw (h12 ▸ hrip) hedge
  refine ⟨port r, _, ticks_intro (by omega) hfetch hu, ?_⟩
  rcases printing_step hw.includes hw.nested hL.code hnest hw.top_low hw.top_high hlen hpr hfetch
    hu with ⟨hpr', hlog⟩ | ⟨hk, hpr', hlog⟩ | ⟨hk, hat, -, hlog⟩
  · -- the same character at hand, so neither sent nor returned
    have h10 := same_character hw hpr hlog hfetch hu
    have hin := hpr'.sending.le_rip
    obtain ⟨hans', m, hm, hpace⟩ :=
      answered_step hw hrank hn hrip hans hfetch hu rfl (by omega) (by omega)
    refine .inr ⟨⟨hnest', hans', k, hpr', rfl⟩, hlog, ?_⟩
    dsimp only
    rwa [hm, hrip, Nat.add_sub_cancel_left, Nat.add_sub_cancel_left]
  · have hans' : Answered port body u (if i.reads then r + 1 else r) := by
      by_cases h10 : n = 10
      · obtain rfl := h10
        obtain rfl := Option.some.inj
          (show some Instr.outAl = some i from hw.includes.instr hfetch hn hrip)
        have hat := List.mem_singleton.mp (exec_succ hu (by simp))
        exact answered_away (by omega)
      · have hin := hpr'.sending.le_rip
        exact (answered_step hw hrank hn hrip hans hfetch hu rfl h10 (by omega)).1
    refine .inl (.inr ⟨_, _, ?_, ⟨hnest', hans', k + 1, hpr', rfl⟩, hlog⟩)
    rw [List.drop_eq_getElem_cons hk, List.getD_eq_getElem?_getD, List.getElem?_eq_getElem hk,
      Option.getD_some]
  · exact .inl (.inl ⟨by rw [hk, List.drop_length], hat, hlog⟩)

/-- The next character goes out, or the routine returns. -/
theorem character_leads (hw : g.Wired f body) (hL : g.Fits L) (hport : port.Fair)
    (hlo : lo ≤ body) (hret : ret < body) {rest : List Byte} {x : State × Nat}
    (hx : Busy g L port body a full ret rest x) :
    Leads (Ticks g.program L port lo) (Sent g L port body a full ret x.1.log rest) x := by
  obtain ⟨rank, hrank⟩ := hport.rank
  refine Leads.of_measure (I := fun y => Busy g L port body a full ret rest y ∧
    y.1.log = x.1.log) (fun y => pace port rank (y.1.rip - body) y.2) ?_ ⟨hx, rfl⟩
  rintro y ⟨hy, hlog⟩
  obtain ⟨e, z, hstep, hz | ⟨hz, hlog', hpace⟩⟩ := busy_step hw hL hrank hlo hret hy
  · exact ⟨e, z, hstep, .inl (hlog ▸ hz)⟩
  · exact ⟨e, z, hstep, .inr ⟨⟨hz, hlog'.trans hlog⟩, hpace⟩⟩

/-- **A message goes out**: the routine sends the rest of it and returns. -/
theorem busy_leads (hw : g.Wired f body) (hL : g.Fits L) (hport : port.Fair)
    (hlo : lo ≤ body) (hret : ret < body) {rest : List Byte} {x : State × Nat}
    (hx : Busy g L port body a full ret rest x) :
    Leads (Ticks g.program L port lo)
      (fun y => y.1.rip = ret ∧ y.1.log = x.1.log ++ rest) x := by
  induction rest generalizing x with
  | nil =>
      refine (character_leads hw hL hport hlo hret hx).bind fun y hy => ?_
      rcases hy with ⟨-, hrip, hlog⟩ | ⟨c, rest, hrest, -⟩
      · exact .now ⟨hrip, by rw [hlog, List.append_nil]⟩
      · cases hrest
  | cons c rest ih =>
      refine (character_leads hw hL hport hlo hret hx).bind fun y hy => ?_
      rcases hy with ⟨hrest, -⟩ | ⟨c', rest', hrest, hy, hlog⟩
      · cases hrest
      · obtain ⟨rfl, rfl⟩ := List.cons.inj hrest
        refine (ih hy).bind fun z hz => .now ⟨hz.1, ?_⟩
        rw [hz.2, hlog, List.append_assoc, List.singleton_append]

/-- **A message is sent**: `lea rsi, [x]` and the call of the routine. -/
theorem message_gets (hw : g.Wired f body) (hL : g.Fits L) (hport : port.Fair) {x : g.Data}
    (hx : g.contents x = full ++ [0]) (h0 : 0 ∉ full) {n : Nat}
    (hlea : g.program.fetch n = some (.lea .rsi (.rel x 0)))
    (hcall : g.program.fetch (n + 1) = some (.call (f .serial_print)))
    (hdepth : g.program.depth body (n + 1) = 0) (hlo : lo ≤ n) (hn : n + 2 < body)
    (hrip : s.rip = n) (hs : Nested g.program L body g.stackTop s) (hm : g.Holds L s.mem x) :
    Gets g.program L port lo (fun t => t.rip = n + 2 ∧ t.log = s.log ++ full) s := by
  have hlow := hw.top_low
  have hhigh := hw.top_high
  -- the address of the message
  let t : State := (s.setReg .rsi (BitVec.ofNat 64 (L.data x))).next
  have ht : exec g.program L 0 s (.lea .rsi (.rel x 0)) = some t := rfl
  have hat : t.rip = n + 1 := by
    rw [← hrip]
    rfl
  obtain ⟨hs', -⟩ := hw.nested_step hL hs (hrip ▸ hlea) ht
  -- the call
  have hrsp : t.gpr .rsp = BitVec.ofNat 64 g.stackTop := by
    rw [hs'.rsp, hat, hdepth, Nat.mul_zero, Nat.sub_zero]
  have hslot : (t.gpr .rsp - 8).toNat + 8 ≤ L.limit := by
    rw [hrsp, ofNat_sub_word (by omega), BitVec.toNat_ofNat, Nat.mod_eq_of_lt (by omega),
      hL.limit]
    omega
  obtain ⟨u, hu⟩ : ∃ u, exec g.program L 0 t (.call (f .serial_print)) = some u :=
    ⟨_, by rw [exec, push_eq_some.mpr ⟨hslot, rfl⟩, Option.map_some]⟩
  have hfetch : g.program.fetch t.rip = some (.call (f .serial_print)) := hat ▸ hcall
  obtain ⟨hpr, hlog⟩ := printing_call hs' hlow hhigh hw.entry (hat ▸ hdepth)
    (cstring_of_holds hL (hm : g.Holds L t.mem x) hx h0)
    (by simp [t, State.next, State.goto, State.setReg]) hu
  obtain ⟨hs'', hedge⟩ := hw.nested_step hL hs' hfetch hu
  have hin : u.rip = body := by
    rw [← hw.entry]
    exact List.mem_singleton.mp hedge.2
  rw [hat] at hpr
  have hlog' : u.log = s.log := hlog
  refine .cons (by omega) (hrip ▸ hlea) rfl ht (.cons (by omega) hfetch rfl hu fun r => ?_)
  have hbusy : Busy g L port body (L.data x) full (n + 2) full (u, r) :=
    ⟨hs'', answered_away (by dsimp only; omega), 0, hpr, List.drop_zero⟩
  exact hlog' ▸ busy_leads hw hL hport (by omega) hn hbusy

end Guest

end QemuTest.Asm

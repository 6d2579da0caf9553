import QemuTest.Asm.Guest
import QemuTest.Lib.X86.Observe

/-!
# Asm — BootScalar

`boot_scalar.asm`: the payload that loads twelve general registers, spins, and
compares them and the results of some arithmetic with what they have to be.

A register travels from its load to its comparison; `Scalar.detects` says that
a destination on which a register differs on its way never sends anything but
the failure line.
-/

namespace QemuTest.Asm

open X86 Runs

namespace Scalar

/-! ## The program -/

inductive Label where
  | state_loop | spin | fail | halt
  | serial (l : SerialLabel)
  deriving DecidableEq, Repr

inductive Data where
  | msg_ready | msg_ok | msg_fail
  deriving DecidableEq, Repr

/-- `mov rax, v`, `cmp r, rax`, `jne fail`. -/
def expect (r : Reg) (v : BitVec 64) : Program Label Data :=
  [mov .rax v, cmp r .rax, jne .fail]

/-- The program from `start64` on, once the segments and the stack are set up. -/
def program : Program Label Data :=
  ([ lea .rsi .msg_ready,
    call (.serial .serial_print),
    .label .state_loop,
    mov .rbx 0x1122334455667788,
    mov .rbp 0x8877665544332211,
    mov .rsi 0x0102030405060708,
    mov .rdi 0x0807060504030201,
    mov .r8 0x1111111122222222,
    mov .r9 0x3333333344444444,
    mov .r10 0x5555555566666666,
    mov .r11 0x7777777788888888,
    mov .r12 0x99999999aaaaaaaa,
    mov .r13 0xbbbbbbbbcccccccc,
    mov .r14 0xddddddddeeeeeeee,
    mov .r15 0xffff00000000ffff,
    mov .rcx 0x3000000,
    .label .spin,
    .ins (.dec .rcx),
    jne .spin ] : Program Label Data)
  ++ expect .rbx 0x1122334455667788
  ++ expect .rbp 0x8877665544332211
  ++ expect .rsi 0x0102030405060708
  ++ expect .rdi 0x0807060504030201
  ++ expect .r8 0x1111111122222222
  ++ expect .r9 0x3333333344444444
  ++ expect .r10 0x5555555566666666
  ++ expect .r11 0x7777777788888888
  ++ expect .r12 0x99999999aaaaaaaa
  ++ expect .r13 0xbbbbbbbbcccccccc
  ++ expect .r14 0xddddddddeeeeeeee
  ++ expect .r15 0xffff00000000ffff
  ++ ([ -- division
    mov .rax 0x123456789abcdef0,
    .ins (.xor .rdx (.reg .rdx)),
    mov .rcx 0x10,
    test .rcx (.reg .rcx),
    jz .fail,
    .ins (.div .rcx),
    mov .r8 0x0123456789abcdef,
    cmp .rax .r8,
    jne .fail,
    test .rdx (.reg .rdx),
    jne .fail,
    -- carry clear, zero set
    .ins (.mov .qword .rax (.reg .rbx)),
    cmp .rax .rbx,
    .ins .pushfq,
    .ins (.pop .rax),
    test .rax (.imm 1),
    jne .fail,
    test .rax (.imm 0x40),
    jz .fail,
    -- carry and sign set
    mov .rax 1,
    .ins (.sub .rax (.imm 2)),
    .ins .pushfq,
    .ins (.pop .rax),
    test .rax (.imm 1),
    jz .fail,
    test .rax (.imm 0x80),
    jz .fail,
    lea .rsi .msg_ok,
    call (.serial .serial_print),
    jmp .state_loop,
    .label .fail,
    lea .rsi .msg_fail,
    call (.serial .serial_print),
    .label .halt,
    .ins .hlt,
    jmp .halt ] : Program Label Data)
  ++ serial64 .serial

def contents : Data → List Byte
  | .msg_ready => db "SCALAR:READY"
  | .msg_ok => db "SCALAR:OK"
  | .msg_fail => db "SCALAR:FAIL"

/-- The registers the loop verifies. -/
def verifiedRegs : List Reg :=
  [.rbx, .rbp, .rsi, .rdi, .r8, .r9, .r10, .r11, .r12, .r13, .r14, .r15]

end Scalar

/-- The payload. -/
def scalarGuest : Guest where
  Label := Scalar.Label
  Data := Scalar.Data
  program := Scalar.program
  contents := Scalar.contents
  stackTop := 0x7000
  verified := Scalar.verifiedRegs.map Part.gpr

namespace Scalar

/-! ## What the text shows -/

-- the checks walk down the whole program
set_option maxRecDepth 20000

/-- The first instruction of the serial routine. -/
def body : Nat := 87

/-- The call that sends the failure message. -/
def failCall : Nat := 84

/-- Where control joins: the loops, the failing branch, and behind the calls. -/
def joins : Joins :=
  [(2, Reg.all), (15, [.rcx]), (82, Reg.all), (83, Reg.all), (85, Reg.all),
    (87, Reg.all), (90, Reg.all), (99, Reg.all)]

/-- Instruction `k` compares `r` with RAX. -/
def comparesRax (r : Reg) (k : Nat) : Bool :=
  program.fetch k = some (.cmp .qword (.reg r) (.reg .rax))
    || program.fetch k = some (.cmp .qword (.reg .rax) (.reg r))

/-- The last check: the flags of a comparison through the stack. -/
def flagCheck : List (Instr Label Data) :=
  [.pushfq, .pop .rax, .test .qword (.reg .rax) (.imm 1), .jcc .nz .fail,
    .test .qword (.reg .rax) (.imm 0x40), .jcc .z .fail]

/-- The instructions `is` stand at `n`. -/
def codeAt (n : Nat) (is : List (Instr Label Data)) : Bool :=
  (program.instrs.drop n).take is.length = is

theorem codeAt_fetch {n j : Nat} {is : List (Instr Label Data)} (h : codeAt n is = true)
    (hj : j < is.length) : program.fetch (n + j) = is[j]? := by
  have heq : (program.instrs.drop n).take is.length = is := of_decide_eq_true h
  rw [← heq, List.getElem?_take_of_lt hj, List.getElem?_drop]
  rfl

/-- A register on its way holds a constant, and it is compared with RAX, which
holds the same one by then; then the flags decide. -/
def checked (r : Reg) (n : Nat) : Bool :=
  match program.observedNext (.gpr r) n with
  | none => true
  | some k =>
      match program.constants joins n r with
      | none => false
      | some v => comparesRax r k && program.constants joins k .rax = some v
          && (codeAt (k + 1) [.jcc .nz .fail] || codeAt (k + 1) flagCheck)

/-- Whoever comes to a comparison has just loaded RAX. -/
def loaded (r : Reg) : Bool :=
  program.allEdges fun n i m =>
    match program.observedNext (.gpr r) n with
    | none => true
    | some k =>
        n = k || m ≠ k || Known.nothing.transfer i .rax = program.constants joins k .rax

theorem wired : scalarGuest.Wired .serial body where
  includes :=
    { size := rfl
      fetch := by decide
      next := rfl
      wait_tx := rfl
      done := rfl
      depth_push := rfl
      depth_pop := rfl }
  entry := rfl
  nested := by decide
  top_low := by decide
  top_high := by decide

theorem failPath : scalarGuest.FailPath .serial body failCall where
  send := rfl
  depth := rfl
  hlt := rfl
  again := ⟨.halt, rfl, rfl⟩

/-- Only calls and pushes store. -/
theorem stores_push : ∀ i ∈ program.instrs, i.writes .mem = true →
    i.pushes = true ∨ ∃ c, i = .call c := by
  have hall : program.instrs.all (fun i => !i.writes .mem || i.pushes || !i.plain) = true := by
    decide
  intro i hi hw
  have hone := List.all_eq_true.mp hall i hi
  cases i <;> simp_all [Instr.writes, Instr.pushes, Instr.plain]

theorem consistent : program.consistent joins = true := by decide

theorem transports : ∀ r ∈ verifiedRegs, program.transports (.gpr r) [83] = true := by
  simp only [Program.transports, observedNext_eq]
  decide

theorem checked_all : ∀ r ∈ verifiedRegs, ∀ n < 100, checked r n = true := by
  simp only [checked, observedNext_eq]
  decide

theorem loaded_all : ∀ r ∈ verifiedRegs, loaded r = true := by
  simp only [loaded, observedNext_eq]
  decide

/-! ## Every run -/

variable {L : Layout Data} {inp : Byte} {s t d : State} {i : Instr Label Data} {r : Reg}

/-- What holds in every state of every run, whatever the registers hold: the
stack discipline, and the image. -/
structure Sound (L : Layout Data) (s : State) : Prop where
  nested : Nested program L body 0x7000 s
  image : ∀ x, scalarGuest.Holds L s.mem x

theorem sound_step (hL : scalarGuest.Fits L) (hs : Sound L s)
    (hfetch : program.fetch s.rip = some i) (h : exec program L inp s i = some t) :
    Sound L t ∧ Edge program s.rip i t.rip := by
  obtain ⟨hnested, hedge⟩ := wired.nested_step hL hs.nested hfetch h
  refine ⟨⟨hnested, fun x => (hs.image x).of_below hL fun a ha => ?_⟩, hedge⟩
  by_cases hw : i.writes .mem = true
  · exact push_below wired.nested (by decide) (by decide) hs.nested hfetch h
      (stores_push i (List.mem_of_getElem? hfetch) hw) (by omega)
  · exact congrFun (exec_agree (p := .mem) h (by simpa using hw)) a

/-- On the source the constants hold besides. -/
def Source (L : Layout Data) (s : State) : Prop :=
  Sound L s ∧ (program.constants joins s.rip).Agrees L s

theorem source_step (hL : scalarGuest.Fits L) {e : Byte} (hs : Source L s)
    (hstep : scalarGuest.Step L s e t) : Source L t := by
  obtain ⟨i, hfetch, hexec⟩ := step_eq_some.mp hstep
  obtain ⟨hsound, hedge⟩ := sound_step hL hs.1 hfetch hexec
  exact ⟨hsound, constants_step consistent hs.2 hexec hedge⟩

theorem source_boot {s₀ : State} (h₀ : scalarGuest.Boot L s₀) : Source L s₀ :=
  ⟨⟨h₀.nested (by decide), h₀.image⟩, by rw [h₀.rip]; exact Known.agrees_nothing⟩

theorem source_run (hL : scalarGuest.Fits L) {s₀ : State} (h₀ : scalarGuest.Boot L s₀)
    {es : List Byte} (h : Run (scalarGuest.Step L) s₀ es s) : Source L s :=
  h.invariant (source_boot h₀) fun _ _ _ hs hstep => source_step hL hs hstep

/-! ## A register that differs on its way -/

/-- What is known of a register on its way to the comparison at `k`. -/
theorem checked_spec (hr : r ∈ verifiedRegs) {n k : Nat}
    (h : program.observedNext (.gpr r) n = some k) :
    ∃ v, program.constants joins n r = some v ∧
      program.constants joins k .rax = some v ∧
      (program.fetch k = some (.cmp .qword (.reg r) (.reg .rax)) ∨
        program.fetch k = some (.cmp .qword (.reg .rax) (.reg r))) ∧
      (codeAt (k + 1) [.jcc .nz .fail] = true ∨ codeAt (k + 1) flagCheck = true) := by
  have hn : n < 100 := by
    have hsize : program.instrs.length = 100 := wired.includes.size
    have := observedNext_range h
    omega
  have hc := checked_all r hr n hn
  rw [checked, h] at hc
  cases hv : program.constants joins n r with
  | none => simp [hv] at hc
  | some v =>
      simp only [hv, comparesRax, Bool.and_eq_true, Bool.or_eq_true, decide_eq_true_eq] at hc
      exact ⟨v, rfl, hc.1.2, hc.1.1, hc.2⟩

/-- Whoever comes to the comparison has just loaded RAX. -/
theorem loaded_spec (hr : r ∈ verifiedRegs) {k : Nat}
    (hobs : program.observedNext (.gpr r) s.rip = some k) (hne : s.rip ≠ k)
    (hedge : Edge program s.rip i k) :
    Known.nothing.transfer i .rax = program.constants joins k .rax := by
  have hall := allEdges_spec (loaded_all r hr) hedge
  simpa [hobs, hne] using hall

theorem image_zf (f : Flags) : f.image.getLsbD 6 = f.zf := by
  obtain ⟨cf, pf, af, zf, sf, of⟩ := f
  cases cf <;> cases pf <;> cases af <;> cases zf <;> cases sf <;> cases of <;> decide

theorem and_bit_six {v : BitVec 64} (h : v.getLsbD 6 = false) : v &&& 0x40 = 0 := by
  apply BitVec.eq_of_getLsbD_eq
  intro j hj
  rw [BitVec.getLsbD_and]
  by_cases h6 : j = 6
  · subst h6
    rw [h, Bool.false_and]
    rfl
  · have : (0x40 : BitVec 64) = BitVec.twoPow 64 6 := by decide
    rw [this, BitVec.getLsbD_twoPow]
    simp
    omega

/-- The destination is bound to fail: a register differs on its way, or the
comparison has been made and the flags are on theirs. -/
inductive Doomed (L : Layout Data) (r : Reg) (d : State) : Prop where
  | travelling {k : Nat} {v : Value Data}
      (obs : program.observedNext (.gpr r) d.rip = some k)
      (val : program.constants joins k .rax = some v) (ne : d.gpr r ≠ v.eval L)
      (rax : d.rip = k → d.gpr .rax = v.eval L)
  | unequal (code : codeAt d.rip [.jcc .nz .fail] = true ∨ codeAt d.rip flagCheck = true)
      (zf : d.flags.zf = false)
  | saved {n : Nat} (code : codeAt n flagCheck = true) (rip : d.rip = n + 1)
      (image : ∃ f : Flags, f.zf = false ∧
        d.mem.load (d.gpr .rsp).toNat 8 = f.image)
  | popped {n : Nat} (code : codeAt n flagCheck = true)
      (rip : d.rip = n + 2 ∨ d.rip = n + 3 ∨ d.rip = n + 4)
      (bit : (d.gpr .rax).getLsbD 6 = false)
  | tested {n : Nat} (code : codeAt n flagCheck = true) (rip : d.rip = n + 5)
      (zf : d.flags.zf = true)

/-- The instruction a piece of code has at its offset `j`. -/
theorem codeAt_instr {n j : Nat} {is : List (Instr Label Data)} (h : codeAt n is = true)
    (hj : j < is.length) (rip : s.rip = n + j) (hfetch : program.fetch s.rip = some i) :
    is[j]? = some i := by
  rw [← codeAt_fetch h hj, ← rip, hfetch]

/-- **Doom is kept** until the failing branch is taken; nothing is sent. -/
theorem doomed_step (hr : r ∈ verifiedRegs) (hd : Doomed L r s)
    (hfetch : program.fetch s.rip = some i) (hedge : Edge program s.rip i t.rip)
    (h : exec program L inp s i = some t) :
    t.log = s.log ∧ (Doomed L r t ∨ t.rip = 83) := by
  have hfail : program.entry .fail = 83 := rfl
  cases hd with
  | travelling obs val ne rax =>
      rename_i k v
      by_cases hk : s.rip = k
      · have hne : s.gpr r ≠ s.gpr .rax := fun he => ne (he.trans (rax hk))
        obtain ⟨-, -, -, hcmp, hcode⟩ := checked_spec hr obs
        -- whichever way round, the two registers are not equal
        rcases hcmp with hcmp | hcmp
        · obtain rfl := Option.some.inj (hcmp.symm.trans (hk ▸ hfetch))
          obtain rfl := Option.some.inj h
          exact ⟨rfl, .inl (.unequal (by simpa [State.next, State.goto, hk] using hcode)
            (decide_eq_false hne))⟩
        · obtain rfl := Option.some.inj (hcmp.symm.trans (hk ▸ hfetch))
          obtain rfl := Option.some.inj h
          exact ⟨rfl, .inl (.unequal (by simpa [State.next, State.goto, hk] using hcode)
            (decide_eq_false (Ne.symm hne)))⟩
      · obtain ⟨hagree, hlog, hgoes⟩ := transport_step (transports r hr) obs hk hedge h
        refine ⟨hlog, hgoes.imp (fun hobs => ?_) fun hexit => by simpa using hexit⟩
        refine .travelling hobs val (by rw [show t.gpr r = s.gpr r from hagree]; exact ne) ?_
        intro ht
        have hload := loaded_spec hr obs hk (ht ▸ hedge)
        exact Known.agrees_transfer Known.agrees_nothing h .rax v (hload.trans val)
  | unequal code zf =>
      rcases code with code | code
      · obtain rfl := Option.some.inj
          (show some (Instr.jcc .nz .fail) = some i from
            codeAt_instr code (j := 0) (by decide) rfl hfetch)
        obtain rfl := Option.some.inj h
        simp only [Cond.holds, zf, Bool.not_false, if_true]
        exact ⟨rfl, .inr hfail⟩
      · obtain rfl := Option.some.inj
          (show some Instr.pushfq = some i from codeAt_instr code (j := 0) (by decide) rfl hfetch)
        simp only [exec, Option.map_eq_some_iff, push_eq_some] at h
        obtain ⟨u, ⟨-, rfl⟩, rfl⟩ := h
        refine ⟨rfl, .inl (.saved code rfl ⟨s.flags, zf, ?_⟩)⟩
        simp only [State.next, State.goto, State.setReg, Function.update_self]
        exact load_store_same _ _ _
  | saved code rip image =>
      obtain rfl := Option.some.inj
        (show some (Instr.pop .rax) = some i from codeAt_instr code (j := 1) (by decide) rip hfetch)
      obtain ⟨f, hf, himage⟩ := image
      simp only [exec, Option.map_eq_some_iff, pop_eq_some] at h
      obtain ⟨u, ⟨-, rfl⟩, rfl⟩ := h
      refine ⟨rfl, .inl (.popped code (.inl ?_) ?_)⟩
      · simp [State.next, State.goto, State.setReg, rip]
      simp only [State.next, State.goto, State.setReg, Function.update_self]
      rw [himage, image_zf, hf]
  | popped code rip bit =>
      rcases rip with rip | rip | rip
      · obtain rfl := Option.some.inj
          (show some (Instr.test .qword (.reg .rax) (.imm 1)) = some i from
            codeAt_instr code (j := 2) (by decide) rip hfetch)
        obtain rfl := Option.some.inj h
        exact ⟨rfl, .inl (.popped code (.inr (.inl (by simp [State.next, State.goto, rip]))) bit)⟩
      · obtain rfl := Option.some.inj
          (show some (Instr.jcc .nz .fail) = some i from
            codeAt_instr code (j := 3) (by decide) rip hfetch)
        obtain rfl := Option.some.inj h
        by_cases hz : Cond.holds s.flags .nz = true
        · rw [if_pos hz]
          exact ⟨rfl, .inr hfail⟩
        · rw [if_neg hz]
          exact ⟨rfl, .inl (.popped code (.inr (.inr (by simp [State.next, State.goto, rip]))) bit)⟩
      · obtain rfl := Option.some.inj
          (show some (Instr.test .qword (.reg .rax) (.imm 0x40)) = some i from
            codeAt_instr code (j := 4) (by decide) rip hfetch)
        obtain rfl := Option.some.inj h
        refine ⟨rfl, .inl (.tested code (by simp [State.next, State.goto, rip]) ?_)⟩
        exact decide_eq_true (and_bit_six bit)
  | tested code rip zf =>
      obtain rfl := Option.some.inj
        (show some (Instr.jcc .z .fail) = some i from
          codeAt_instr code (j := 5) (by decide) rip hfetch)
      obtain rfl := Option.some.inj h
      simp only [Cond.holds, zf, if_true]
      exact ⟨rfl, .inr hfail⟩

/-! ## The destination -/

/-- What a doomed destination is in: on its way to the failing branch, or on
that branch. -/
inductive Lost (L : Layout Data) (r : Reg) (d : State) : Prop where
  | doomed (doom : Doomed L r d) (log : d.log = [])
  | branch (rip : d.rip = 83) (log : d.log = [])
  | failing (fails : Guest.Failing scalarGuest L body failCall .msg_fail
      (msgLine "SCALAR:FAIL") d)

theorem contents_fail : contents .msg_fail = msgLine "SCALAR:FAIL" ++ [0] := rfl

theorem lost_step (hL : scalarGuest.Fits L) (hr : r ∈ verifiedRegs) (hs : Sound L s)
    (hl : Lost L r s) (hfetch : program.fetch s.rip = some i)
    (h : exec program L inp s i = some t) : Lost L r t := by
  obtain ⟨-, hedge⟩ := sound_step hL hs hfetch h
  cases hl with
  | doomed doom log =>
      obtain ⟨hlog, hd | hrip⟩ := doomed_step hr doom hfetch hedge h
      · exact .doomed hd (hlog.trans log)
      · exact .branch hrip (hlog.trans log)
  | branch rip log =>
      have hlea : program.fetch 83 = some (.lea .rsi (.rel .msg_fail 0)) := rfl
      obtain rfl := Option.some.inj (hlea.symm.trans (rip ▸ hfetch))
      obtain rfl := Option.some.inj h
      refine .failing (.call ?_ ?_ log)
      · simp [State.next, State.goto, State.setReg, rip, failCall]
      · simp only [State.next, State.goto, State.setReg, Function.update_self]
        rfl
  | failing fails =>
      exact .failing (Guest.failing_step wired failPath hL contents_fail (by decide +kernel)
        hs.nested (hs.image .msg_fail) fails hfetch h)

theorem Lost.sent (h : Lost L r d) : d.log <+: msgLine "SCALAR:FAIL" := by
  cases h with
  | doomed _ log => rw [log]; exact List.nil_prefix
  | branch _ log => rw [log]; exact List.nil_prefix
  | failing fails => exact fails.sent

/-- A register that differs is still to be compared, and what the way to the
failure line reads before it is set arrives: the stack pointer, and RAX if the
switch falls on the comparison itself. -/
structure Ahead (r : Reg) (s d : State) : Prop where
  ne : d.gpr r ≠ s.gpr r
  next : (program.observedNext (.gpr r) s.rip).isSome = true
  rsp : d.gpr .rsp = s.gpr .rsp
  rax : program.observedNext (.gpr r) s.rip = some s.rip → d.gpr .rax = s.gpr .rax

/-- **The scalar payload detects** a register that differs after its load and
before its comparison, wherever the switch falls: the destination sends the
failure line, or a part of it, and nothing else. -/
theorem detects (hL : scalarGuest.Fits L) {s₀ : State} (h₀ : scalarGuest.Boot L s₀)
    {es : List Byte} (hsrc : Run (scalarGuest.Step L) s₀ es s) (hsw : Switched s d)
    (hr : r ∈ verifiedRegs) (ha : Ahead r s d) {es' : List Byte}
    (hdst : Run (scalarGuest.Step L) d es' t) : t.log <+: msgLine "SCALAR:FAIL" := by
  obtain ⟨hsound, hconst⟩ := source_run hL h₀ hsrc
  obtain ⟨k, hk⟩ := Option.isSome_iff_exists.mp ha.next
  obtain ⟨v, hv, hrax, -, -⟩ := checked_spec hr hk
  have hsoundd : Sound L d :=
    ⟨hsw.nested ha.rsp hsound.nested, fun x => Guest.holds_switched hsw (hsound.image x)⟩
  have hlost : Lost L r d := by
    refine .doomed (.travelling (hsw.rip ▸ hk) hrax ?_ fun hat => ?_) hsw.log
    · rw [← hconst r v hv]
      exact ha.ne
    · -- the switch falls on the comparison itself
      rw [hsw.rip] at hat
      rw [ha.rax (hat.symm ▸ hk)]
      exact hconst .rax v (hat.symm ▸ hrax)
  have hall : Sound L t ∧ Lost L r t := by
    refine hdst.invariant (P := fun t => Sound L t ∧ Lost L r t) ⟨hsoundd, hlost⟩ ?_
    intro u e w hu hstep
    obtain ⟨i, hfetch, hexec⟩ := step_eq_some.mp hstep
    exact ⟨(sound_step hL hu.1 hfetch hexec).1, lost_step hL hr hu.1 hu.2 hfetch hexec⟩
  exact hall.2.sent

end Scalar

end QemuTest.Asm

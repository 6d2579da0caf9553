import QemuTest.Asm.Compare
import QemuTest.Asm.Guest
import QemuTest.Lib.X86.FpuStack
import QemuTest.Lib.X86.Observe

/-!
# Asm — BootFpSse

`boot_fp_sse.asm`: the payload that loads the x87 and SSE state, spins, and
compares the control words, the XMM registers and the x87 values with what was
loaded, in a loop.

Each of them travels from its load to the instruction that stores it for the
comparison; `FpSse.detects` says that a destination on which one differs on
its way never sends anything but one of the failure lines.
-/

namespace QemuTest.Asm

open X86 Runs

namespace FpSse

/-! ## The program -/

inductive Label where
  | state_loop | spin | cmp_xmm | fail_x87_cw | fail_mxcsr | fail_xmm | fail_x87_data
  | fail | halt
  | serial (l : SerialLabel)
  deriving DecidableEq, Repr

inductive Data where
  | msg_ready | msg_ok | msg_fail_x87_cw | msg_fail_mxcsr | msg_fail_xmm | msg_fail_x87_data
  | x87_cw_value | x87_cw_seen | mxcsr_value | mxcsr_seen | x87_values | xmm_patterns
  deriving DecidableEq, Repr

/-- `mov rax, [rel x87_values + 8j]`, `cmp [rdi + 8k], rax`,
`jne fail_x87_data`. -/
def expect (j k : Nat) : Program Label Data :=
  [.ins (.mov .qword .rax (.mem (.rel .x87_values (8 * j)))),
    .ins (.cmp .qword (.mem (.base .rdi (8 * k))) (.reg .rax)),
    jne .fail_x87_data]

/-- The program from `start64` on, once the segments, the stack and the
control registers are set up. -/
def program : Program Label Data :=
  ([ lea .rsi .msg_ready,
    call (.serial .serial_print),
    .label .state_loop,
    .ins .finit,
    .ins (.fldcw (.rel .x87_cw_value 0)),
    .ins (.ldmxcsr (.rel .mxcsr_value 0)),
    lea .rsi .xmm_patterns ] : Program Label Data)
  ++ loadVecs .xmm
  ++ ([ .ins (.fild (.rel .x87_values 0)),
    .ins (.fild (.rel .x87_values 8)),
    .ins (.fild (.rel .x87_values 16)),
    .ins (.fild (.rel .x87_values 24)),
    mov .rcx 0x3000000,
    .label .spin,
    .ins (.dec .rcx),
    jne .spin,
    .ins (.fnstcw (.rel .x87_cw_seen 0)),
    .ins (.mov .word .rax (.mem (.rel .x87_cw_seen 0))),
    .ins (.cmp .word (.reg .rax) (.mem (.rel .x87_cw_value 0))),
    jne .fail_x87_cw,
    .ins (.stmxcsr (.rel .mxcsr_seen 0)),
    .ins (.mov .dword .rax (.mem (.rel .mxcsr_seen 0))),
    .ins (.cmp .dword (.reg .rax) (.mem (.rel .mxcsr_value 0))),
    jne .fail_mxcsr,
    mov .rdi 0x5000 ] : Program Label Data)
  ++ storeVecs .xmm
  ++ ([ lea .rsi .xmm_patterns,
    mov .rdi 0x5000,
    mov .rcx 32,
    .label .cmp_xmm,
    .ins (.mov .qword .rax (.mem (.base .rsi 0))),
    .ins (.cmp .qword (.reg .rax) (.mem (.base .rdi 0))),
    jne .fail_xmm,
    .ins (.add .rsi (.imm 8)),
    .ins (.add .rdi (.imm 8)),
    .ins (.dec .rcx),
    jne .cmp_xmm,
    mov .rdi 0x6000,
    .ins (.fistp (.base .rdi 0)),
    .ins (.fistp (.base .rdi 8)),
    .ins (.fistp (.base .rdi 16)),
    .ins (.fistp (.base .rdi 24)) ] : Program Label Data)
  ++ expect 3 0
  ++ expect 2 1
  ++ expect 1 2
  ++ expect 0 3
  ++ ([ lea .rsi .msg_ok,
    call (.serial .serial_print),
    jmp .state_loop,
    .label .fail_x87_cw,
    lea .rsi .msg_fail_x87_cw,
    jmp .fail,
    .label .fail_mxcsr,
    lea .rsi .msg_fail_mxcsr,
    jmp .fail,
    .label .fail_xmm,
    lea .rsi .msg_fail_xmm,
    jmp .fail,
    .label .fail_x87_data,
    lea .rsi .msg_fail_x87_data,
    jmp .fail,
    .label .fail,
    call (.serial .serial_print),
    .label .halt,
    .ins .hlt,
    jmp .halt ] : Program Label Data)
  ++ serial64 .serial

/-- The rows of `xmm_patterns`. -/
def rows : List (BitVec 64) :=
  [ 0x1010101010101010, 0x8080808080808080, 0x2121212121212121, 0x9191919191919191,
    0x3232323232323232, 0xa2a2a2a2a2a2a2a2, 0x4343434343434343, 0xb3b3b3b3b3b3b3b3,
    0x5454545454545454, 0xc4c4c4c4c4c4c4c4, 0x6565656565656565, 0xd5d5d5d5d5d5d5d5,
    0x7676767676767676, 0xe6e6e6e6e6e6e6e6, 0x8787878787878787, 0xf7f7f7f7f7f7f7f7,
    0x1818181818181818, 0x8888888888888888, 0x2929292929292929, 0x9999999999999999,
    0x3a3a3a3a3a3a3a3a, 0xaaaaaaaaaaaaaaaa, 0x4b4b4b4b4b4b4b4b, 0xbbbbbbbbbbbbbbbb,
    0x5c5c5c5c5c5c5c5c, 0xcccccccccccccccc, 0x6d6d6d6d6d6d6d6d, 0xdddddddddddddddd,
    0x7e7e7e7e7e7e7e7e, 0xeeeeeeeeeeeeeeee, 0x8f8f8f8f8f8f8f8f, 0xffffffffffffffff ]

def contents : Data → List Byte
  | .msg_ready => db "FPSSE:READY"
  | .msg_ok => db "FPSSE:OK"
  | .msg_fail_x87_cw => db "FPSSE:FAIL_X87_CW"
  | .msg_fail_mxcsr => db "FPSSE:FAIL_MXCSR"
  | .msg_fail_xmm => db "FPSSE:FAIL_XMM"
  | .msg_fail_x87_data => db "FPSSE:FAIL_X87_DATA"
  | .x87_cw_value => dw 0x0f7f
  | .x87_cw_seen => dw 0
  | .mxcsr_value => dd 0x00007f80
  | .mxcsr_seen => dd 0
  | .x87_values => [0x0000000011112222, 0x0000000033334444, 0x0000000055556666,
      0x0000000077778888].flatMap dq
  | .xmm_patterns => rows.flatMap dq

/-- The x87 registers of the four values: the first one loaded lies in the
last slot. -/
def slotOf (m : Fin 4) : Fin 8 := ⟨4 + m.val, by omega⟩

end FpSse

/-- The payload. -/
def fpSseGuest : Guest where
  Label := FpSse.Label
  Data := FpSse.Data
  program := FpSse.program
  contents := FpSse.contents
  stackTop := 0x7000
  verified := [.cw, .mxcsr] ++ (List.finRange 16).map Part.xmm
    ++ (List.finRange 4).map fun m => Part.x87 (FpSse.slotOf m)

namespace FpSse

/-! ## What the text shows -/

-- the checks walk down the whole program
set_option maxRecDepth 20000

/-- The first instruction of the serial routine. -/
def body : Nat := 95

/-- The call that sends the failure message. -/
def failCall : Nat := 92

/-- The branches of the failed checks, and their messages. -/
def branches : List (Nat × Data) :=
  [(84, .msg_fail_x87_cw), (86, .msg_fail_mxcsr), (88, .msg_fail_xmm),
    (90, .msg_fail_x87_data)]

/-- Where control joins: the loops, the branches, and behind the calls. A pointer
is forgotten as well once it has served. -/
def joins : Joins :=
  [(2, Reg.all), (22, [.rsi]), (27, [.rcx]), (54, [.rdi]), (57, Reg.all), (81, [.rdi]),
    (82, Reg.all), (83, Reg.all),
    (84, Reg.all), (86, Reg.all), (88, Reg.all), (90, Reg.all), (92, Reg.all),
    (93, Reg.all), (95, Reg.all), (98, Reg.all), (107, Reg.all)]

/-- A store is a push, or goes to its place: the two cells of the control
words, the buffer of the XMM registers, or that of the x87 values. -/
def storeOk (n : Nat) (i : Instr Label Data) : Bool :=
  !i.writes .mem ||
    match i with
    | .vstore .xmm (.base .rdi disp) j =>
        n = 38 + j.val && disp = 16 * j.val &&
          program.constants joins n .rdi = some (.imm 0x5000)
    | .fistp (.base .rdi disp) =>
        65 ≤ n && n ≤ 68 && disp = 8 * (n - 65) &&
          program.constants joins n .rdi = some (.imm 0x6000)
    | .fnstcw (.rel .x87_cw_seen 0) => n = 29
    | .stmxcsr (.rel .mxcsr_seen 0) => n = 33
    | .call _ => n = 1 || 82 ≤ n
    | i => i.pushes && 82 ≤ n

/-- The part of the state that a check of the control words and the XMM
registers is about: where it is loaded, and where it is stored. -/
def loadOf : Part → Nat
  | .cw => 3
  | .mxcsr => 4
  | .xmm i => 6 + i.val
  | _ => 0

def storeOf : Part → Nat
  | .cw => 29
  | .mxcsr => 33
  | .xmm i => 38 + i.val
  | _ => 0

def observed : List Part := [.cw, .mxcsr] ++ (List.finRange 16).map Part.xmm

/-- The load and the store of the x87 value with the slot `slotOf m`. -/
def fildOf (m : Fin 4) : Nat := 25 - m.val

def fistpOf (m : Fin 4) : Nat := 65 + m.val

/-- How many values the x87 stack holds before instruction `n` of the loop. -/
def height (n : Nat) : Nat :=
  if n ≤ 22 then 0 else if n ≤ 26 then n - 22 else if n ≤ 65 then 4 else 69 - n

/-- Along every edge within the loop the stack changes as `height` says. -/
def heightOk (n : Nat) (i : Instr Label Data) (m : Nat) : Bool :=
  !(3 ≤ m && m ≤ 69) ||
    match i with
    | .finit => m = 3
    | .fild x =>
        x = .rel .x87_values (8 * height n) && 22 ≤ n && n ≤ 25 && m = n + 1
    | .fistp x => x = .base .rdi (8 * (n - 65)) && 65 ≤ n && n ≤ 68 && m = n + 1
    | i => !i.writes .tags && 3 ≤ n && n ≤ 69 && height m = height n

/-- Between its load and its store no one else looks at a value. -/
def valueOk (m : Fin 4) : Bool :=
  program.allEdges fun n i n' =>
    !(fildOf m < n && n ≤ fistpOf m) ||
      (!i.writes .log && !i.writes .cw &&
        (if n = fistpOf m then n' = n + 1
          else (fildOf m < n' && n' ≤ fistpOf m) || (branches.map Prod.fst).contains n'))

theorem wired : fpSseGuest.Wired .serial body where
  includes :=
    { size := rfl
      fetch := by decide
      next := rfl
      wait_tx := rfl
      done := rfl
      depth_push := rfl
      depth_pop := rfl }
  entry := rfl
  nested := by decide
  top_low := by decide
  top_high := by decide

theorem failPath : fpSseGuest.FailPath .serial body failCall where
  send := rfl
  depth := rfl
  hlt := rfl
  again := ⟨.halt, rfl, rfl⟩

theorem compareLoop : CompareLoop program 57 88 where
  load := rfl
  cmp := rfl
  leave := ⟨.fail_xmm, rfl, rfl⟩
  rsi := rfl
  rdi := rfl
  rcx := rfl
  again := ⟨.cmp_xmm, rfl, rfl⟩

theorem cwCheck : CellCheck program .word (.rel .x87_cw_seen 0) (.rel .x87_cw_value 0) 30 84 where
  load := rfl
  cmp := .inl rfl
  leave := ⟨.fail_x87_cw, rfl, rfl⟩

theorem mxcsrCheck : CellCheck program .dword (.rel .mxcsr_seen 0) (.rel .mxcsr_value 0) 34 86 where
  load := rfl
  cmp := .inl rfl
  leave := ⟨.fail_mxcsr, rfl, rfl⟩

/-- The comparison of an x87 value. -/
def checkOf (m : Fin 4) : Nat := 69 + 3 * m.val

theorem valueCheck (m : Fin 4) : CellCheck program .qword (.rel .x87_values (8 * (3 - m.val)))
    (.base .rdi (8 * m.val)) (checkOf m) 90 where
  load := by match m with | 0 | 1 | 2 | 3 => rfl
  cmp := .inr (by match m with | 0 | 1 | 2 | 3 => rfl)
  leave := ⟨.fail_x87_data, by match m with | 0 | 1 | 2 | 3 => exact ⟨rfl, rfl⟩⟩

theorem consistent : program.consistent joins = true := by decide

theorem storeOk_all : program.allEdges (fun n i _ => storeOk n i) = true := by decide

theorem heightOk_all : program.allEdges heightOk = true := by decide

theorem valueOk_all : ∀ m, valueOk m = true := by decide

theorem transports : ∀ p ∈ observed,
    program.transports p (branches.map Prod.fst) = true := by
  simp only [Program.transports, observedNext_eq]
  decide

theorem arrives : ∀ p ∈ observed, program.arrives p (storeOf p) (loadOf p) = true := by
  simp only [Program.arrives, observedNext_eq]
  decide

theorem observed_at : ∀ p ∈ observed, ∀ n < 108,
    program.observedNext p n = none ∨ program.observedNext p n = some (storeOf p) := by
  simp only [observedNext_eq]
  decide

/-! ## Every run -/

variable {L : Layout Data} {inp : Byte} {s t d : State} {i : Instr Label Data} {m : Fin 4}
  {p : Part}

/-- The payload stores what it reads back of the control words in two cells of
its own image. -/
def Data.seen : Data → Bool
  | .x87_cw_seen | .mxcsr_seen => true
  | _ => false

/-- Where the value with the slot `slotOf m` lies, and where it is stored. -/
def valueAt (L : Layout Data) (m : Fin 4) : Nat := L.data .x87_values + 8 * (3 - m.val)

def cellOf (m : Fin 4) : Nat := 0x6000 + 8 * m.val

/-- What holds in every state of every run, whatever the verified parts hold:
the stack discipline, the image but for the two cells, and the constants. -/
structure Sound (L : Layout Data) (s : State) : Prop where
  nested : Nested program L body 0x7000 s
  image : ∀ x : Data, x.seen = false → fpSseGuest.Holds L s.mem x
  constants : (program.constants joins s.rip).Agrees L s

/-- What stores: a push outside the checks, or one of the stores that the
checks are about. -/
inductive Storing (L : Layout Data) (s : State) : Instr Label Data → Prop where
  | push {i : Instr Label Data} (hi : i.pushes = true ∨ ∃ c, i = .call c)
      (rip : s.rip = 1 ∨ 82 ≤ s.rip) : Storing L s i
  | xmm (j : Fin 16) (rip : s.rip = 38 + j.val)
      (rdi : s.gpr .rdi = BitVec.ofNat 64 0x5000) :
      Storing L s (.vstore .xmm (.base .rdi (16 * j.val)) j)
  | x87 (m : Fin 4) (rip : s.rip = fistpOf m) (rdi : s.gpr .rdi = BitVec.ofNat 64 0x6000) :
      Storing L s (.fistp (.base .rdi (8 * m.val)))
  | cw (rip : s.rip = 29) : Storing L s (.fnstcw (.rel .x87_cw_seen 0))
  | mxcsr (rip : s.rip = 33) : Storing L s (.stmxcsr (.rel .mxcsr_seen 0))

theorem storing_of_writes (hs : Sound L s) (hedge : Edge program s.rip i t.rip)
    (hw : i.writes .mem = true) : Storing L s i := by
  have hck := allEdges_spec storeOk_all hedge
  simp only [storeOk, hw, Bool.not_true, Bool.false_or] at hck
  split at hck
  · simp only [Bool.and_eq_true, decide_eq_true_eq] at hck
    obtain ⟨⟨hrip, rfl⟩, hconst⟩ := hck
    exact .xmm _ hrip (hs.constants .rdi _ hconst)
  · simp only [Bool.and_eq_true, decide_eq_true_eq] at hck
    obtain ⟨⟨⟨hlo, hhi⟩, rfl⟩, hconst⟩ := hck
    exact .x87 ⟨s.rip - 65, by omega⟩ (by simp only [fistpOf]; omega)
      (hs.constants .rdi _ hconst)
  · exact .cw (of_decide_eq_true hck)
  · exact .mxcsr (of_decide_eq_true hck)
  · exact .push (.inr ⟨_, rfl⟩) (by simpa using hck)
  · simp only [Bool.and_eq_true, decide_eq_true_eq] at hck
    exact .push (.inl hck.1) (.inr hck.2)

/-- A byte of the image outside the two cells stays. -/
theorem image_step (hL : fpSseGuest.Fits L) (hs : Sound L s)
    (hedge : Edge program s.rip i t.rip) (h : exec program L inp s i = some t) {x : Data}
    (hx : x.seen = false) {k : Nat} (hk : k < (contents x).length) :
    t.mem (L.data x + k) = s.mem (L.data x + k) := by
  have hlow := hL.low x
  by_cases hw : i.writes .mem = true
  · have hcell : ∀ y : Data, y.seen = true →
        L.data x + (contents x).length ≤ L.data y ∨ L.data y + (contents y).length ≤ L.data x := by
      intro y hy
      exact hL.apart x y fun he => by simp [he, hy] at hx
    cases storing_of_writes hs hedge hw with
    | push hi _ =>
        exact push_below wired.nested (by decide) (by decide) hs.nested hedge.1 h hi (by omega)
    | xmm j rip rdi =>
        refine exec_mem h (.inr ?_)
        have hea := ea_base (L := L) (16 * j.val) rdi (by omega)
        simp only [Instr.target, hea, Lanes.bytes]
        omega
    | x87 m rip rdi =>
        refine exec_mem h (.inr ?_)
        have hea := ea_base (L := L) (8 * m.val) rdi (by omega)
        simp only [Instr.target, hea]
        omega
    | cw rip =>
        have hlen : (contents .x87_cw_seen).length = 2 := rfl
        have := hcell .x87_cw_seen rfl
        refine exec_mem h ?_
        simp only [Instr.target, Mem.ea]
        omega
    | mxcsr rip =>
        have hlen : (contents .mxcsr_seen).length = 4 := rfl
        have := hcell .mxcsr_seen rfl
        refine exec_mem h ?_
        simp only [Instr.target, Mem.ea]
        omega
  · exact congrFun (exec_agree (p := .mem) h (by simpa using hw)) _

/-- What is loaded from the image stays. -/
theorem load_step (hL : fpSseGuest.Fits L) (hs : Sound L s)
    (hedge : Edge program s.rip i t.rip) (h : exec program L inp s i = some t) (x : Data)
    (hx : x.seen = false) {k n : Nat} (hk : k + n ≤ (contents x).length) :
    t.mem.load (L.data x + k) n = s.mem.load (L.data x + k) n :=
  load_congr fun j hj => by
    rw [Nat.add_assoc]
    exact image_step hL hs hedge h hx (by omega)

theorem sound_step (hL : fpSseGuest.Fits L) (hs : Sound L s)
    (hfetch : program.fetch s.rip = some i) (h : exec program L inp s i = some t) :
    Sound L t ∧ Edge program s.rip i t.rip := by
  obtain ⟨hnested, hedge⟩ := wired.nested_step hL hs.nested hfetch h
  refine ⟨⟨hnested, fun x hx k hk => ?_, constants_step consistent hs.constants h hedge⟩, hedge⟩
  rw [image_step hL hs hedge h hx hk, hs.image x hx k hk]

/-! ## The parts that are stored whole -/

theorem length_patterns : (contents .xmm_patterns).length = 256 := by decide

theorem length_values : (contents .x87_values).length = 32 := rfl

/-- The part holds what the payload loads into it. -/
def Holding (L : Layout Data) (s : State) : Part → Prop
  | .cw => s.fpu.cw = s.mem.load (L.data .x87_cw_value + 0) 2
  | .mxcsr => s.mxcsr = s.mem.load (L.data .mxcsr_value + 0) 4
  | .xmm j => (s.vec j).setWidth 128 = s.mem.load (L.data .xmm_patterns + 16 * j.val) 16
  | _ => True

theorem mem_observed (hp : p ∈ observed) : p = .cw ∨ p = .mxcsr ∨ ∃ j, p = .xmm j := by
  simp only [observed, List.cons_append, List.nil_append, List.mem_cons, List.mem_map,
    List.mem_finRange, true_and] at hp
  rcases hp with rfl | rfl | ⟨j, rfl⟩
  · exact .inl rfl
  · exact .inr (.inl rfl)
  · exact .inr (.inr ⟨j, rfl⟩)

/-- A part that stays holds what it held. -/
theorem holding_iff (hL : fpSseGuest.Fits L) (hs : Sound L s)
    (hedge : Edge program s.rip i t.rip) (h : exec program L inp s i = some t)
    (hp : p ∈ observed) (hagree : p.agree s t) : Holding L t p ↔ Holding L s p := by
  rcases mem_observed hp with rfl | rfl | ⟨j, rfl⟩
  · rw [Holding, Holding, load_step hL hs hedge h .x87_cw_value rfl (by decide),
      show t.fpu.cw = s.fpu.cw from hagree]
  · rw [Holding, Holding, load_step hL hs hedge h .mxcsr_value rfl (by decide),
      show t.mxcsr = s.mxcsr from hagree]
  · rw [Holding, Holding, load_step hL hs hedge h .xmm_patterns rfl
      (by rw [length_patterns]; omega),
      show (t.vec j).setWidth 128 = (s.vec j).setWidth 128 from hagree]

/-- The loads. -/
theorem load_fetch : program.fetch 3 = some (.fldcw (.rel .x87_cw_value 0)) ∧
    program.fetch 4 = some (.ldmxcsr (.rel .mxcsr_value 0)) ∧
    ∀ j : Fin 16, program.fetch (6 + j.val) = some (.vload .xmm j (.base .rsi (16 * j.val))) ∧
      program.constants joins (6 + j.val) .rsi = some (.addr .xmm_patterns 0) := by
  decide

/-- The low half of a register after a short load. -/
theorem setWidth_merge_xmm (old : BitVec 256) (v : BitVec 128) :
    (Lanes.xmm.merge old v).setWidth 128 = v :=
  BitVec.setWidth_append_eq_right (a := old.extractLsb' 128 128)

/-- A load loads. -/
theorem holding_load (hL : fpSseGuest.Fits L) (hs : Sound L s)
    (hedge : Edge program s.rip i t.rip) (h : exec program L inp s i = some t)
    (hp : p ∈ observed) (hat : s.rip = loadOf p) : Holding L t p := by
  obtain ⟨hcw, hmxcsr, hxmm⟩ := load_fetch
  rcases mem_observed hp with rfl | rfl | ⟨j, rfl⟩
  · obtain rfl := Option.some.inj (hcw.symm.trans (hat ▸ hedge.1))
    simp only [exec] at h
    split at h
    · cases h
    · obtain ⟨v, hv, rfl⟩ := Option.map_eq_some_iff.mp h
      exact (load_eq_some.mp hv).2
  · obtain rfl := Option.some.inj (hmxcsr.symm.trans (hat ▸ hedge.1))
    simp only [exec, Option.bind_eq_some_iff, load_eq_some] at h
    obtain ⟨v, ⟨-, rfl⟩, h⟩ := h
    split at h
    · obtain rfl := Option.some.inj h
      rfl
    · cases h
  · obtain ⟨hfetch, hconst⟩ := hxmm j
    obtain rfl := Option.some.inj (hfetch.symm.trans (hat ▸ hedge.1))
    have hrsi : s.gpr .rsi = BitVec.ofNat 64 (L.data .xmm_patterns) :=
      hs.constants .rsi (.addr .xmm_patterns 0) (hat ▸ hconst)
    have hvec := exec_vload h hrsi (by have := hL.high .xmm_patterns; omega)
    rw [Holding, hvec, load_step hL hs hedge h .xmm_patterns rfl
      (by rw [length_patterns]; omega)]
    exact setWidth_merge_xmm _ _

/-- **On the source** a part that is on its way holds what was loaded. -/
theorem holding_step (hL : fpSseGuest.Fits L) (hs : Sound L s) (hp : p ∈ observed)
    (hh : (program.observedNext p s.rip).isSome → Holding L s p)
    (hedge : Edge program s.rip i t.rip) (h : exec program L inp s i = some t)
    (hobs : (program.observedNext p t.rip).isSome) : Holding L t p := by
  obtain ⟨k, hk⟩ := Option.isSome_iff_exists.mp hobs
  have hsize : program.instrs.length = 108 := wired.includes.size
  have hrange := observedNext_range hk
  obtain rfl : k = storeOf p := by
    rcases observed_at p hp t.rip (by omega) with hnone | hsome
    · rw [hnone] at hk
      cases hk
    · exact Option.some.inj (hk.symm.trans hsome)
  rcases arrive_step (arrives p hp) hk hedge h with hload | ⟨hbefore, hagree⟩
  · exact holding_load hL hs hedge h hp hload
  · exact (holding_iff hL hs hedge h hp hagree).mpr (hh (by rw [hbefore]; rfl))

/-! ## The x87 stack -/

/-- The tags and the top of stack, while no exception is pending. -/
def Shaped (s : State) : Prop :=
  3 ≤ s.rip → s.rip ≤ 69 → s.fpu.es = false → s.fpu.Stacked (height s.rip)

/-- What an edge within the loop does to the x87 unit. -/
theorem height_cases (hedge : Edge program s.rip i t.rip) (hlo : 3 ≤ t.rip) (hhi : t.rip ≤ 69) :
    (i = .finit ∧ t.rip = 3) ∨
    (∃ m : Fin 4, i = .fild (.rel .x87_values (8 * (3 - m.val))) ∧ s.rip = fildOf m ∧
      t.rip = s.rip + 1) ∨
    (∃ m : Fin 4, i = .fistp (.base .rdi (8 * m.val)) ∧ s.rip = fistpOf m ∧
      t.rip = s.rip + 1) ∨
    (i.writes .tags = false ∧ 3 ≤ s.rip ∧ s.rip ≤ 69 ∧ height t.rip = height s.rip) := by
  have hck := allEdges_spec heightOk_all hedge
  simp only [heightOk, hlo, hhi, decide_true, Bool.and_self, Bool.not_true,
    Bool.false_or] at hck
  split at hck
  · exact .inl ⟨rfl, of_decide_eq_true hck⟩
  · simp only [Bool.and_eq_true, decide_eq_true_eq] at hck
    obtain ⟨⟨⟨rfl, hl⟩, hh⟩, hnext⟩ := hck
    refine .inr (.inl ⟨⟨25 - s.rip, by omega⟩, ?_, by simp only [fildOf]; omega, hnext⟩)
    congr 2
    simp only [height]
    split
    · omega
    · rw [if_pos (by omega)]
      omega
  · simp only [Bool.and_eq_true, decide_eq_true_eq] at hck
    obtain ⟨⟨⟨rfl, hl⟩, hh⟩, hnext⟩ := hck
    exact .inr (.inr (.inl ⟨⟨s.rip - 65, by omega⟩, rfl, by simp only [fistpOf]; omega, hnext⟩))
  · simp only [Bool.and_eq_true, decide_eq_true_eq, Bool.not_eq_true'] at hck
    exact .inr (.inr (.inr ⟨hck.1.1.1, hck.1.1.2, hck.1.2, hck.2⟩))

theorem height_fild : height (fildOf m) = 3 - m.val ∧ height (fildOf m + 1) = 4 - m.val := by
  revert m
  decide

theorem height_fistp : height (fistpOf m) = 4 - m.val ∧ height (fistpOf m + 1) = 3 - m.val := by
  revert m
  decide

theorem shaped_step (hs : Shaped s) (hedge : Edge program s.rip i t.rip)
    (h : exec program L inp s i = some t) : Shaped t := by
  intro hlo hhi hes
  rcases height_cases hedge hlo hhi with ⟨rfl, hrip⟩ | ⟨m, rfl, hrip, hnext⟩ |
    ⟨m, rfl, hrip, hnext⟩ | ⟨hquiet, hl, hh, hheight⟩
  · simp only [exec] at h
    split at h
    · cases h
    · obtain rfl := Option.some.inj h
      rw [hrip]
      exact Fpu.stacked_init
  · obtain ⟨hes', hfpu⟩ := exec_fild h
    have hst := hs (by rw [hrip, fildOf]; omega) (by rw [hrip, fildOf]; omega) hes'
    rw [hrip, height_fild.1] at hst
    rw [hfpu, hnext, hrip, height_fild.2, show 4 - m.val = 3 - m.val + 1 by omega]
    exact (hst.push (by omega) _).1
  · obtain ⟨hes', hfpu, -⟩ := exec_fistp h
    have hst := hs (by rw [hrip, fistpOf]; omega) (by rw [hrip, fistpOf]; omega) hes'
    rw [hrip, height_fistp.1, show 4 - m.val = 3 - m.val + 1 by omega] at hst
    rw [hfpu, hnext, hrip, height_fistp.2]
    exact (hst.afterStore (by omega) (hfpu ▸ hes)).1
  · obtain ⟨htop, hfull, hes'⟩ := exec_agree (p := .tags) h hquiet
    have hst := hs hl hh (hes'.symm.trans hes)
    rw [hheight]
    exact ⟨by rw [htop]; exact hst.top, fun k => by rw [hfull]; exact hst.full k⟩

/-- A value is on the stack while the stack is high enough. -/
theorem le_height_iff {n : Nat} : 4 - m.val ≤ height n ↔ fildOf m < n ∧ n ≤ fistpOf m := by
  simp only [height, fildOf, fistpOf]
  split_ifs <;> omega

theorem writes_x87 (h : i.writes .tags = false) (k : Fin 8) : i.writes (.x87 k) = false := by
  cases i <;> simp_all [Instr.writes]

theorem slotOf_val : (slotOf m).val = 4 + m.val := rfl

/-- The values on the stack are those the payload loaded, and no exception is
pending. -/
def Loaded (L : Layout Data) (s : State) : Prop :=
  3 ≤ s.rip → s.rip ≤ 69 → s.fpu.es = false ∧ ∀ m, fildOf m < s.rip → s.rip ≤ fistpOf m →
    s.fpu.st (slotOf m) = .ofInt (BitVec.toInt (s.mem.load (valueAt L m) 8))

/-- The value at hand is stored exactly. -/
theorem stored_of_loaded (hshape : Shaped s) (hload : Loaded L s) (hlo : fildOf m < s.rip)
    (hhi : s.rip ≤ fistpOf m) :
    s.fpu.integer (slotOf m) = some (s.mem.load (valueAt L m) 8, true) := by
  have hlo' : 3 ≤ s.rip := by
    simp only [fildOf] at hlo
    omega
  have hhi' : s.rip ≤ 69 := by
    simp only [fistpOf] at hhi
    omega
  obtain ⟨hes, hst⟩ := hload hlo' hhi'
  have hheight := le_height_iff.mpr ⟨hlo, hhi⟩
  exact (hshape hlo' hhi' hes).integer_ofInt (by rw [slotOf_val]; omega) (hst m hlo hhi)

theorem loaded_step (hL : fpSseGuest.Fits L) (hs : Sound L s) (hshape : Shaped s)
    (hload : Loaded L s) (hedge : Edge program s.rip i t.rip)
    (h : exec program L inp s i = some t) : Loaded L t := by
  intro hlo hhi
  have hvalue : ∀ m, t.mem.load (valueAt L m) 8 = s.mem.load (valueAt L m) 8 := fun m =>
    load_step hL hs hedge h .x87_values rfl (by rw [length_values]; omega)
  rcases height_cases hedge hlo hhi with ⟨rfl, hrip⟩ | ⟨m, rfl, hrip, hnext⟩ |
    ⟨m, rfl, hrip, hnext⟩ | ⟨hquiet, hl, hh, hheight⟩
  · simp only [exec] at h
    split at h
    · cases h
    · obtain rfl := Option.some.inj h
      refine ⟨rfl, fun m hm _ => ?_⟩
      have hlate : fildOf m < 3 := lt_of_lt_of_eq hm hrip
      simp only [fildOf] at hlate
      omega
  · have hl : 3 ≤ s.rip := by rw [hrip, fildOf]; omega
    have hh : s.rip ≤ 69 := by rw [hrip, fildOf]; omega
    obtain ⟨hes, hfpu⟩ := exec_fild h
    have hst := hshape hl hh hes
    rw [hrip, height_fild.1] at hst
    obtain ⟨-, hes', hnew, hold⟩ := hst.push (by omega)
      (.ofInt (BitVec.toInt (s.mem.load (valueAt L m) 8)))
    have hfpu' : t.fpu = s.fpu.push (.ofInt (BitVec.toInt (s.mem.load (valueAt L m) 8))) := hfpu
    rw [hfpu']
    refine ⟨hes'.trans hes, fun m' hlo' hhi' => ?_⟩
    rw [hvalue m']
    by_cases hm : m' = m
    · subst hm
      exact hnew _ (by rw [slotOf_val]; omega)
    · have hval : m'.val ≠ m.val := fun he => hm (Fin.ext he)
      rw [(hold _ (by rw [slotOf_val]; omega)).1]
      simp only [fildOf] at hrip hlo'
      exact (hload hl hh).2 m' (by simp only [fildOf]; omega) (by omega)
  · have hl : 3 ≤ s.rip := by rw [hrip, fistpOf]; omega
    have hh : s.rip ≤ 69 := by rw [hrip, fistpOf]; omega
    obtain ⟨hes, hfpu, -⟩ := exec_fistp h
    have hint := stored_of_loaded (m := m) hshape hload
      (by rw [hrip]; simp only [fildOf, fistpOf]; omega) hrip.le
    have htop : s.fpu.top = slotOf m := by
      have := (hshape hl hh hes).top
      rw [hrip, height_fistp.1] at this
      exact Fin.ext (by rw [this, slotOf_val]; omega)
    refine ⟨?_, fun m' hlo' hhi' => ?_⟩
    · rw [hfpu, Fpu.afterStore, htop, hint]
      rfl
    · rw [hfpu, Fpu.afterStore_st, hvalue m']
      refine (hload hl hh).2 m' ?_ (by omega)
      simp only [fildOf, fistpOf] at hrip ⊢
      omega
  · obtain ⟨-, -, hes⟩ := exec_agree (p := .tags) h hquiet
    obtain ⟨hes', hst⟩ := hload hl hh
    refine ⟨hes.trans hes', fun m hlo' hhi' => ?_⟩
    have hin := le_height_iff.mp (hheight ▸ le_height_iff.mpr ⟨hlo', hhi'⟩)
    rw [hvalue m, ← hst m hin.1 hin.2]
    exact exec_agree (p := .x87 (slotOf m)) h (writes_x87 hquiet _)

/-- On the source everything on its way is what was loaded. -/
theorem source_run (hL : fpSseGuest.Fits L) {s₀ : State} (h₀ : fpSseGuest.Boot L s₀)
    {es : List Byte} (h : Run (fpSseGuest.Step L) s₀ es s) :
    Sound L s ∧ (∀ p ∈ observed, (program.observedNext p s.rip).isSome → Holding L s p) ∧
      Shaped s ∧ Loaded L s := by
  refine h.invariant (P := fun s => Sound L s ∧
    (∀ p ∈ observed, (program.observedNext p s.rip).isSome → Holding L s p) ∧
      Shaped s ∧ Loaded L s) ⟨⟨h₀.nested (by decide), fun x _ => h₀.image x, ?_⟩, ?_, ?_, ?_⟩ ?_
  · rw [h₀.rip]
    exact Known.agrees_nothing
  · rw [h₀.rip]
    intro p hp hobs
    have hnone : ∀ p ∈ observed, program.observedNext p 0 = none := by decide
    rw [hnone p hp] at hobs
    cases hobs
  · rw [Shaped, h₀.rip]
    intro hlo
    omega
  · rw [Loaded, h₀.rip]
    intro hlo
    omega
  · rintro t e u ⟨ht, hparts, hshape, hload⟩ hstep
    obtain ⟨i, hfetch, hexec⟩ := step_eq_some.mp hstep
    obtain ⟨hsound, hedge⟩ := sound_step hL ht hfetch hexec
    exact ⟨hsound, fun p hp => holding_step hL ht hp (hparts p hp) hedge hexec,
      shaped_step hshape hedge hexec, loaded_step hL ht hshape hload hedge hexec⟩

/-! ## A part that differs -/

/-- Within the checks no buffer changes but at its own store. -/
theorem scratch_step (hL : fpSseGuest.Fits L) (hs : Sound L s)
    (hedge : Edge program s.rip i t.rip) (h : exec program L inp s i = some t)
    (hlo : 2 ≤ s.rip) (hhi : s.rip < 82) {a : Nat} (ha : a < 0x7e00)
    (hxmm : ∀ j : Fin 16, s.rip = 38 + j.val →
      a < 0x5000 + 16 * j.val ∨ 0x5000 + 16 * j.val + 16 ≤ a)
    (hx87 : ∀ m, s.rip = fistpOf m → a < cellOf m ∨ cellOf m + 8 ≤ a) : t.mem a = s.mem a := by
  by_cases hw : i.writes .mem = true
  · cases storing_of_writes hs hedge hw with
    | push _ rip => omega
    | xmm j rip rdi =>
        refine exec_mem h ?_
        have hea := ea_base (L := L) (16 * j.val) rdi (by omega)
        simp only [Instr.target, hea, Lanes.bytes]
        exact hxmm j rip
    | x87 m rip rdi =>
        refine exec_mem h ?_
        have hea := ea_base (L := L) (8 * m.val) rdi (by omega)
        simp only [Instr.target, hea]
        exact hx87 m rip
    | cw rip =>
        have := hL.low .x87_cw_seen
        exact exec_mem h (.inl (by simp only [Instr.target, Mem.ea]; omega))
    | mxcsr rip =>
        have := hL.low .mxcsr_seen
        exact exec_mem h (.inl (by simp only [Instr.target, Mem.ea]; omega))
  · exact congrFun (exec_agree (p := .mem) h (by simpa using hw)) _

/-- A part on its way, wherever it has got to: still in its register, or
stored for the comparison. -/
inductive Differing (L : Layout Data) (d : State) : Prop where
  | travelling {p : Part} (obs : p ∈ observed)
      (next : program.observedNext p d.rip = some (storeOf p)) (ne : ¬ Holding L d p)
  | cw (un : Unequal .word 30 (L.data .x87_cw_seen) (L.data .x87_cw_value) d)
  | mxcsr (un : Unequal .dword 34 (L.data .mxcsr_seen) (L.data .mxcsr_value) d)
  | spilled {j : Fin 16} {q : Nat} (lo : 38 + j.val < d.rip) (hi : d.rip ≤ 56) (lt : q < 2)
      (ne : d.mem.load (L.data .xmm_patterns + 16 * j.val + 8 * q) 8 ≠
        d.mem.load (0x5000 + 16 * j.val + 8 * q) 8)
  | comparing {q : Nat} (lt : q < 32)
      (ne : d.mem.load (L.data .xmm_patterns + 8 * q) 8 ≠ d.mem.load (0x5000 + 8 * q) 8)
      (cmp : Comparing 57 (L.data .xmm_patterns) 0x5000 32 q d)

/-- The stores. -/
theorem store_fetch : program.fetch 29 = some (.fnstcw (.rel .x87_cw_seen 0)) ∧
    program.fetch 33 = some (.stmxcsr (.rel .mxcsr_seen 0)) ∧
    ∀ j : Fin 16, program.fetch (38 + j.val) = some (.vstore .xmm (.base .rdi (16 * j.val)) j) ∧
      program.constants joins (38 + j.val) .rdi = some (.imm 0x5000) := by
  decide

/-- The store of a part that differs. -/
theorem differing_store (hL : fpSseGuest.Fits L) (hs : Sound L s) (hp : p ∈ observed)
    (hat : s.rip = storeOf p) (hne : ¬ Holding L s p) (hedge : Edge program s.rip i t.rip)
    (h : exec program L inp s i = some t) : t.log = s.log ∧ Differing L t := by
  obtain ⟨hcw, hmxcsr, hxmm⟩ := store_fetch
  rcases mem_observed hp with rfl | rfl | ⟨j, rfl⟩
  · obtain rfl := Option.some.inj (hcw.symm.trans (hat ▸ hedge.1))
    have hrip : t.rip = s.rip + 1 := List.mem_singleton.mp hedge.2
    refine ⟨exec_agree (p := .log) h rfl, .cw (.load (by rw [hrip, hat]; rfl) fun he => hne ?_)⟩
    -- the cell is what was stored, its counterpart what was loaded
    rw [Holding, ← load_step hL hs hedge h .x87_cw_value rfl (by decide)]
    exact (exec_fnstcw h).symm.trans he
  · obtain rfl := Option.some.inj (hmxcsr.symm.trans (hat ▸ hedge.1))
    have hrip : t.rip = s.rip + 1 := List.mem_singleton.mp hedge.2
    refine ⟨exec_agree (p := .log) h rfl,
      .mxcsr (.load (by rw [hrip, hat]; rfl) fun he => hne ?_)⟩
    rw [Holding, ← load_step hL hs hedge h .mxcsr_value rfl (by decide)]
    exact (exec_stmxcsr h).symm.trans he
  · obtain ⟨hfetch, hconst⟩ := hxmm j
    obtain rfl := Option.some.inj (hfetch.symm.trans (hat ▸ hedge.1))
    have hrip : t.rip = s.rip + 1 := List.mem_singleton.mp hedge.2
    have hrdi : s.gpr .rdi = BitVec.ofNat 64 0x5000 :=
      hs.constants .rdi (.imm 0x5000) (hat ▸ hconst)
    have hstored : t.mem.load (0x5000 + 16 * j.val) 16 = (s.vec j).setWidth 128 :=
      exec_vstore h hrdi (by omega)
    have hload := load_step hL hs hedge h .xmm_patterns rfl (k := 16 * j.val) (n := 16)
      (by rw [length_patterns]; omega)
    have hdiff : t.mem.load (L.data .xmm_patterns + 16 * j.val) (8 * 2) ≠
        t.mem.load (0x5000 + 16 * j.val) (8 * 2) := fun he =>
      hne (hstored.symm.trans (he.symm.trans hload))
    obtain ⟨q, hq, hword⟩ := load_ne_word hdiff
    simp only [storeOf] at hat
    exact ⟨exec_agree (p := .log) h rfl, .spilled (by omega) (by omega) hq hword⟩

/-- From the spill to the comparison nothing is sent. -/
theorem spilled_quiet : program.allEdges (fun n i m =>
    !(38 < n && n ≤ 56) || (m = n + 1 && !i.writes .log)) = true := by decide

/-- A spilled register on the way to the comparison. -/
theorem spilled_step (hL : fpSseGuest.Fits L) (hs : Sound L s) {j : Fin 16} {q : Nat}
    (hlo : 38 + j.val < s.rip) (hhi : s.rip ≤ 56) (hq : q < 2)
    (hne : s.mem.load (L.data .xmm_patterns + 16 * j.val + 8 * q) 8 ≠
      s.mem.load (0x5000 + 16 * j.val + 8 * q) 8)
    (hedge : Edge program s.rip i t.rip) (h : exec program L inp s i = some t) :
    t.log = s.log ∧ Differing L t := by
  have hck := allEdges_spec spilled_quiet hedge
  simp only [show 38 < s.rip by omega, hhi, decide_true, Bool.and_self, Bool.not_true,
    Bool.false_or, Bool.and_eq_true, decide_eq_true_eq, Bool.not_eq_true'] at hck
  obtain ⟨hnext, hquiet⟩ := hck
  have hbuffer : t.mem.load (0x5000 + 16 * j.val + 8 * q) 8 =
      s.mem.load (0x5000 + 16 * j.val + 8 * q) 8 := by
    refine load_congr fun k hk => scratch_step hL hs hedge h (by omega) (by omega) (by omega)
      (fun j' hj' => ?_) fun m hm => ?_
    · omega
    · simp only [fistpOf] at hm
      omega
  have hpattern : t.mem.load (L.data .xmm_patterns + 16 * j.val + 8 * q) 8 =
      s.mem.load (L.data .xmm_patterns + 16 * j.val + 8 * q) 8 := by
    rw [Nat.add_assoc]
    exact load_step hL hs hedge h .xmm_patterns rfl (by rw [length_patterns]; omega)
  have hne' := hne
  rw [← hbuffer, ← hpattern] at hne'
  refine ⟨exec_agree (p := .log) h hquiet, ?_⟩
  by_cases hlast : s.rip = 56
  · have hinstr : program.fetch 56 = some (.mov .qword .rcx (.imm 32)) := rfl
    obtain rfl := Option.some.inj (hinstr.symm.trans (hlast ▸ hedge.1))
    have hregs := Known.agrees_transfer hs.constants h
    rw [hlast] at hregs
    have hcursor : Cursor (L.data .xmm_patterns) 0x5000 32 0 0 0 t :=
      ⟨hregs .rsi (.addr .xmm_patterns 0) rfl,
        hregs .rdi (.imm 0x5000) rfl, hregs .rcx (.imm 32) rfl⟩
    refine .comparing (q := 2 * j.val + q) (by omega) ?_
      (.load (by rw [hnext, hlast]) (Nat.zero_le _) hcursor)
    rwa [show L.data .xmm_patterns + 8 * (2 * j.val + q)
      = L.data .xmm_patterns + 16 * j.val + 8 * q by omega,
      show 0x5000 + 8 * (2 * j.val + q) = 0x5000 + 16 * j.val + 8 * q by omega]
  · exact .spilled (by omega) (by omega) hq hne'

/-- **A part that differs stays different** until the branch of a failed check
is taken; nothing is sent. -/
theorem differing_step (hL : fpSseGuest.Fits L) (hs : Sound L s) (hd : Differing L s)
    (hedge : Edge program s.rip i t.rip) (h : exec program L inp s i = some t) :
    t.log = s.log ∧ (Differing L t ∨ t.rip ∈ branches.map Prod.fst) := by
  cases hd with
  | travelling obs next ne =>
      rename_i p
      by_cases hat : s.rip = storeOf p
      · obtain ⟨hlog, hd⟩ := differing_store hL hs obs hat ne hedge h
        exact ⟨hlog, .inl hd⟩
      · obtain ⟨hagree, hlog, hgoes⟩ := transport_step (transports p obs) next hat hedge h
        exact ⟨hlog, hgoes.imp_left fun hnext => .travelling obs hnext
          fun hh => ne ((holding_iff hL hs hedge h obs hagree).mp hh)⟩
  | cw un =>
      obtain ⟨hlog, hun | hrip⟩ := unequal_step cwCheck (fun _ => rfl) (fun _ => rfl) un
        hedge.1 h
      · exact ⟨hlog, .inl (.cw hun)⟩
      · exact ⟨hlog, .inr (by rw [hrip]; decide)⟩
  | mxcsr un =>
      obtain ⟨hlog, hun | hrip⟩ := unequal_step mxcsrCheck (fun _ => rfl) (fun _ => rfl) un
        hedge.1 h
      · exact ⟨hlog, .inl (.mxcsr hun)⟩
      · exact ⟨hlog, .inr (by rw [hrip]; decide)⟩
  | spilled lo hi lt ne =>
      obtain ⟨hlog, hd⟩ := spilled_step hL hs lo hi lt ne hedge h
      exact ⟨hlog, .inl hd⟩
  | comparing lt ne cmp =>
      have hhigh := hL.high .xmm_patterns
      obtain ⟨hmem, hlog, hcmp | hrip⟩ := comparing_step compareLoop (by omega) (by decide) lt ne
        cmp hedge.1 h
      · exact ⟨hlog, .inl (.comparing lt (by rwa [hmem]) hcmp)⟩
      · exact ⟨hlog, .inr (by rw [hrip]; decide)⟩

/-! ## An x87 value that differs -/

/-- What the comparison of a value will find in the buffer: the integer that
is stored, or, where nothing is stored, what lies there. -/
def found (d : State) (m : Fin 4) : BitVec 64 :=
  (d.fpu.stored (slotOf m)).getD (d.mem.load (cellOf m) 8)

/-- The check of a value fails: the next store of one stops at the exception
that this one leaves pending, or the comparison finds another integer. -/
def Spoiled (L : Layout Data) (d : State) (m : Fin 4) : Prop :=
  (d.fpu.raises (slotOf m) = true ∧ m.val < 3) ∨ found d m ≠ d.mem.load (valueAt L m) 8

/-- A value on its way, wherever it has got to. -/
inductive DifferingValue (L : Layout Data) (m : Fin 4) (d : State) : Prop where
  | waiting (lo : fildOf m < d.rip) (hi : d.rip ≤ fistpOf m) (spoiled : Spoiled L d m)
  | pending (lo : 65 < d.rip) (hi : d.rip ≤ 68) (es : d.fpu.es = true)
  | stored (lo : fistpOf m < d.rip) (hi : d.rip < checkOf m)
      (ne : d.mem.load (valueAt L m) 8 ≠ d.mem.load (cellOf m) 8)
  | unequal (un : Unequal .qword (checkOf m) (valueAt L m) (cellOf m) d)

/-- The cell of a value stays but at its own store. -/
theorem cell_step (hL : fpSseGuest.Fits L) (hs : Sound L s)
    (hedge : Edge program s.rip i t.rip) (h : exec program L inp s i = some t)
    (hlo : 2 ≤ s.rip) (hhi : s.rip < 82) (hne : s.rip ≠ fistpOf m) :
    t.mem.load (cellOf m) 8 = s.mem.load (cellOf m) 8 := by
  refine load_congr fun k hk => scratch_step hL hs hedge h hlo hhi ?_ (fun j _ => ?_)
    fun m' hm' => ?_
  · rw [cellOf]
    omega
  · rw [cellOf]
    omega
  · have hval : m'.val ≠ m.val := fun he => hne (by rw [hm', fistpOf, fistpOf, he])
    rw [cellOf, cellOf]
    omega

theorem value_step (hL : fpSseGuest.Fits L) (hs : Sound L s)
    (hedge : Edge program s.rip i t.rip) (h : exec program L inp s i = some t) :
    t.mem.load (valueAt L m) 8 = s.mem.load (valueAt L m) 8 :=
  load_step hL hs hedge h .x87_values rfl (by rw [length_values]; omega)

/-- What a value is stored as does not change on its way, unless an exception
gets pending. -/
theorem stored_step (hshape : Shaped s) (hlo : fildOf m < s.rip) (hhi : s.rip ≤ fistpOf m)
    (hat : s.rip ≠ fistpOf m) (hcw : i.writes .cw = false) (hedge : Edge program s.rip i t.rip)
    (h : exec program L inp s i = some t) (hlo' : fildOf m < t.rip) (hhi' : t.rip ≤ fistpOf m) :
    (t.fpu.stored (slotOf m) = s.fpu.stored (slotOf m) ∧
      t.fpu.raises (slotOf m) = s.fpu.raises (slotOf m)) ∨
    (65 < t.rip ∧ t.rip ≤ 68 ∧ t.fpu.es = true) := by
  have hcw' : t.fpu.cw = s.fpu.cw := exec_agree (p := .cw) h hcw
  simp only [fildOf, fistpOf] at hlo hhi hat hlo' hhi'
  rcases height_cases hedge (by omega) (by omega) with ⟨rfl, -⟩ | ⟨m', rfl, hrip', hnext⟩ |
    ⟨m', rfl, hrip', hnext⟩ | ⟨hquiet, -⟩
  · cases hcw
  · simp only [fildOf] at hrip'
    obtain ⟨hes, hfpu⟩ := exec_fild h
    have hst := hshape (by omega) (by omega) hes
    rw [hrip', show 25 - m'.val = fildOf m' from rfl, height_fild.1] at hst
    obtain ⟨-, -, -, hold⟩ := hst.push (by omega)
      (.ofInt (BitVec.toInt (s.mem.load (valueAt L m') 8)))
    have hk := hold (slotOf m) (by rw [slotOf_val]; omega)
    have hfpu' : t.fpu = s.fpu.push (.ofInt (BitVec.toInt (s.mem.load (valueAt L m') 8))) := hfpu
    exact .inl (Fpu.stored_congr hcw' (by rw [hfpu']; exact hk.2) (by rw [hfpu']; exact hk.1))
  · simp only [fistpOf] at hrip'
    obtain ⟨hes, hfpu, -⟩ := exec_fistp h
    have hst := hshape (by omega) (by omega) hes
    rw [hrip', show 65 + m'.val = fistpOf m' from rfl, height_fistp.1,
      show 4 - m'.val = 3 - m'.val + 1 by omega] at hst
    by_cases hpend : t.fpu.es = true
    · exact .inr ⟨by omega, by omega, hpend⟩
    · have hpop := hst.afterStore (by omega) (hfpu ▸ by simpa using hpend)
      refine .inl (Fpu.stored_congr hcw' ?_ ?_)
      · rw [hfpu]
        exact hpop.2 _ (by rw [slotOf_val]; omega)
      · rw [hfpu, Fpu.afterStore_st]
  · obtain ⟨-, hfull, -⟩ := exec_agree (p := .tags) h hquiet
    exact .inl (Fpu.stored_congr hcw' (by rw [hfull])
      (exec_agree (p := .x87 (slotOf m)) h (writes_x87 hquiet _)))

/-- The store of a value, and the comparison. -/
theorem fistp_fetch : ∀ m, program.fetch (fistpOf m) = some (.fistp (.base .rdi (8 * m.val))) ∧
    program.constants joins (fistpOf m) .rdi = some (.imm 0x6000) ∧
    program.constants joins (checkOf m + 1) .rdi = some (.imm 0x6000) := by decide

/-- From the store to the comparison nothing is sent. -/
theorem stored_quiet : program.allEdges (fun n i n' =>
    !(65 < n && n < 78) ||
      (!i.writes .log && (n' = n + 1 || (branches.map Prod.fst).contains n'))) = true := by
  decide

/-- The store of a value whose check will fail. -/
theorem spoiled_store (hL : fpSseGuest.Fits L) (hs : Sound L s) (hshape : Shaped s)
    (hat : s.rip = fistpOf m) (hspoiled : Spoiled L s m) (hedge : Edge program s.rip i t.rip)
    (h : exec program L inp s i = some t) : t.log = s.log ∧ DifferingValue L m t := by
  obtain ⟨hfetch, hconst, -⟩ := fistp_fetch m
  obtain rfl := Option.some.inj (hfetch.symm.trans (hat ▸ hedge.1))
  have hrip : t.rip = s.rip + 1 := List.mem_singleton.mp hedge.2
  have hrdi : s.gpr .rdi = BitVec.ofNat 64 0x6000 :=
    hs.constants .rdi (.imm 0x6000) (hat ▸ hconst)
  have hea : (Mem.base Reg.rdi (8 * m.val)).ea L s = cellOf m :=
    ea_base (8 * m.val) hrdi (by omega)
  obtain ⟨hes, hfpu, hsome, hnone⟩ := exec_fistp h
  have htop : s.fpu.top = slotOf m := by
    have := (hshape (by rw [hat, fistpOf]; omega) (by rw [hat, fistpOf]; omega) hes).top
    rw [hat, height_fistp.1] at this
    exact Fin.ext (by rw [this, slotOf_val]; omega)
  rw [htop, hea] at hsome
  rw [htop] at hnone
  refine ⟨exec_agree (p := .log) h rfl, ?_⟩
  simp only [fistpOf] at hat
  have hvalue := value_step (m := m) hL hs hedge h
  have hlate : t.mem.load (cellOf m) 8 ≠ s.mem.load (valueAt L m) 8 → DifferingValue L m t :=
    fun hne => .stored (by rw [fistpOf]; omega) (by rw [checkOf]; omega)
      (by rw [hvalue]; exact Ne.symm hne)
  rcases hspoiled with ⟨hraises, hm⟩ | hne
  · -- the exception is pending at the next store
    refine .pending (by omega) (by omega) ?_
    rw [hfpu]
    exact Fpu.afterStore_raises (by rw [htop, hraises])
  · refine hlate ?_
    cases hst : s.fpu.stored (slotOf m) with
    | some v =>
        rw [hsome v hst]
        simpa [found, hst] using hne
    | none =>
        rw [hnone hst]
        simpa [found, hst] using hne

/-- **An x87 value that differs stays different** until the branch of a failed
check is taken; nothing is sent. -/
theorem differingValue_step (hL : fpSseGuest.Fits L) (hs : Sound L s) (hshape : Shaped s)
    (hd : DifferingValue L m s) (hedge : Edge program s.rip i t.rip)
    (h : exec program L inp s i = some t) :
    t.log = s.log ∧ (DifferingValue L m t ∨ t.rip ∈ branches.map Prod.fst) := by
  have hvalue := value_step (m := m) hL hs hedge h
  cases hd with
  | waiting lo hi spoiled =>
      by_cases hat : s.rip = fistpOf m
      · obtain ⟨hlog, hd⟩ := spoiled_store hL hs hshape hat spoiled hedge h
        exact ⟨hlog, .inl hd⟩
      have hck := allEdges_spec (valueOk_all m) hedge
      simp only [lo, hi, hat, decide_true, Bool.and_self, Bool.not_true, Bool.false_or,
        Bool.and_eq_true, Bool.not_eq_true', if_false, Bool.or_eq_true, decide_eq_true_eq,
        List.contains_eq_mem] at hck
      obtain ⟨⟨hquiet, hcw⟩, ⟨hlo, hhi⟩ | hexit⟩ := hck
      swap
      · exact ⟨exec_agree (p := .log) h hquiet, .inr hexit⟩
      refine ⟨exec_agree (p := .log) h hquiet, .inl ?_⟩
      rcases stored_step hshape lo hi hat hcw hedge h hlo hhi with ⟨hst, hra⟩ | ⟨hl, hh, hes⟩
      · have hcell := cell_step (m := m) hL hs hedge h (by simp only [fildOf] at lo; omega)
          (by simp only [fistpOf] at hi; omega) hat
        exact .waiting hlo hhi (by rwa [Spoiled, found, hst, hra, hcell, hvalue])
      · exact .pending hl hh hes
  | pending lo hi es =>
      -- the next instruction is a store, and waits for the exception to be handled
      obtain ⟨m', hat⟩ : ∃ m' : Fin 4, s.rip = fistpOf m' :=
        ⟨⟨s.rip - 65, by omega⟩, by simp only [fistpOf]; omega⟩
      obtain ⟨hfetch, -, -⟩ := fistp_fetch m'
      obtain rfl := Option.some.inj (hfetch.symm.trans (hat ▸ hedge.1))
      obtain ⟨hes, -⟩ := exec_fistp h
      rw [es] at hes
      cases hes
  | stored lo hi ne =>
      simp only [fistpOf, checkOf] at lo hi
      have hck := allEdges_spec stored_quiet hedge
      simp only [show 65 < s.rip by omega, show s.rip < 78 by omega, decide_true,
        Bool.and_self, Bool.not_true, Bool.false_or, Bool.and_eq_true, Bool.not_eq_true',
        Bool.or_eq_true, decide_eq_true_eq, List.contains_eq_mem] at hck
      obtain ⟨hquiet, hnext | hexit⟩ := hck
      swap
      · exact ⟨exec_agree (p := .log) h hquiet, .inr hexit⟩
      refine ⟨exec_agree (p := .log) h hquiet, .inl ?_⟩
      have hcell := cell_step (m := m) hL hs hedge h (by omega) (by omega)
        (by rw [fistpOf]; omega)
      have hne : t.mem.load (valueAt L m) 8 ≠ t.mem.load (cellOf m) 8 := by
        rwa [hvalue, hcell]
      by_cases hlast : t.rip = checkOf m
      · exact .unequal (.load hlast hne)
      · rw [checkOf] at hlast
        exact .stored (by rw [fistpOf]; omega) (by rw [checkOf]; omega) hne
  | unequal un =>
      have hrdi : s.rip = checkOf m + 1 → (Mem.base Reg.rdi (8 * m.val)).ea L s = cellOf m := by
        intro hat
        have hrdi : s.gpr .rdi = BitVec.ofNat 64 0x6000 :=
          hs.constants .rdi (.imm 0x6000) (hat ▸ (fistp_fetch m).2.2)
        exact ea_base (8 * m.val) hrdi (by omega)
      obtain ⟨hlog, hun | hrip⟩ := unequal_step (valueCheck m) (fun _ => rfl) hrdi un hedge.1 h
      · exact ⟨hlog, .inl (.unequal hun)⟩
      · exact ⟨hlog, .inr (by rw [hrip]; decide)⟩

/-! ## The destination -/

/-- The failure lines. -/
def failures : List String :=
  ["FPSSE:FAIL_X87_CW", "FPSSE:FAIL_MXCSR", "FPSSE:FAIL_XMM", "FPSSE:FAIL_X87_DATA"]

/-- What a destination is in on which a part differs on its way. -/
inductive Lost (L : Layout Data) (d : State) : Prop where
  | part (dif : Differing L d) (log : d.log = [])
  | value {m : Fin 4} (shape : Shaped d) (dif : DifferingValue L m d) (log : d.log = [])
  | branch {b : Nat × Data} (mem : b ∈ branches) (rip : d.rip = b.1) (log : d.log = [])
  | jump {b : Nat × Data} (mem : b ∈ branches) (rip : d.rip = b.1 + 1)
      (rsi : d.gpr .rsi = BitVec.ofNat 64 (L.data b.2)) (log : d.log = [])
  | failing {b : Nat × Data} {f : String} (mem : b ∈ branches) (line : f ∈ failures)
      (text : contents b.2 = msgLine f ++ [0])
      (fails : Guest.Failing fpSseGuest L body failCall b.2 (msgLine f) d)

/-- A failed check sends the line of its branch. -/
theorem branch_line : ∀ b ∈ branches, b.2.seen = false ∧
    ∃ f ∈ failures, contents b.2 = msgLine f ++ [0] := by
  decide +kernel

theorem branch_fetch : ∀ b ∈ branches, program.fetch b.1 = some (.lea .rsi (.rel b.2 0)) ∧
    program.fetch (b.1 + 1) = some (.jmp .fail) := by decide

theorem failure_nonzero : ∀ f ∈ failures, (0 : Byte) ∉ msgLine f := by decide +kernel

theorem lost_step (hL : fpSseGuest.Fits L) (hs : Sound L s) (hl : Lost L s)
    (hedge : Edge program s.rip i t.rip) (h : exec program L inp s i = some t) : Lost L t := by
  have hbranch : t.rip ∈ branches.map Prod.fst → t.log = [] → Lost L t := by
    intro hrip hlog
    obtain ⟨b, hb, heq⟩ := List.mem_map.mp hrip
    exact .branch hb heq.symm hlog
  cases hl with
  | part dif log =>
      obtain ⟨hlog, hd | hrip⟩ := differing_step hL hs dif hedge h
      · exact .part hd (hlog.trans log)
      · exact hbranch hrip (hlog.trans log)
  | value shape dif log =>
      obtain ⟨hlog, hd | hrip⟩ := differingValue_step hL hs shape dif hedge h
      · exact .value (shaped_step shape hedge h) hd (hlog.trans log)
      · exact hbranch hrip (hlog.trans log)
  | branch mem rip log =>
      obtain rfl := Option.some.inj ((branch_fetch _ mem).1.symm.trans (rip ▸ hedge.1))
      obtain rfl := Option.some.inj h
      refine .jump mem ?_ ?_ log
      · simp [State.next, State.goto, State.setReg, rip]
      · simp only [State.next, State.goto, State.setReg, Function.update_self]
        rfl
  | jump mem rip rsi log =>
      obtain rfl := Option.some.inj ((branch_fetch _ mem).2.symm.trans (rip ▸ hedge.1))
      obtain ⟨-, f, hf, htext⟩ := branch_line _ mem
      have hfail : program.entry .fail = failCall := rfl
      obtain rfl := Option.some.inj h
      exact .failing mem hf htext (.call hfail rsi log)
  | failing mem line text fails =>
      exact .failing mem line text (Guest.failing_step wired failPath hL text
        (failure_nonzero _ line) hs.nested (hs.image _ (branch_line _ mem).1) fails hedge.1 h)

theorem Lost.sent (h : Lost L d) : ∃ f ∈ failures, d.log <+: msgLine f := by
  have hnone : d.log = [] → ∃ f ∈ failures, d.log <+: msgLine f := fun hlog =>
    ⟨_, List.mem_cons_self .., by rw [hlog]; exact List.nil_prefix⟩
  cases h with
  | part _ log => exact hnone log
  | value _ _ log => exact hnone log
  | branch _ _ log => exact hnone log
  | jump _ _ _ log => exact hnone log
  | failing _ line _ fails => exact ⟨_, line, fails.sent⟩

/-- Once lost, always lost. -/
theorem lost_run (hL : fpSseGuest.Fits L) (hs : Sound L d) (hl : Lost L d) {es : List Byte}
    (hrun : Run (fpSseGuest.Step L) d es t) : Lost L t := by
  have hall : Sound L t ∧ Lost L t := by
    refine hrun.invariant (P := fun t => Sound L t ∧ Lost L t) ⟨hs, hl⟩ ?_
    rintro u e w ⟨hu, hlost⟩ hstep
    obtain ⟨i, hfetch, hexec⟩ := step_eq_some.mp hstep
    obtain ⟨hw, hedge⟩ := sound_step hL hu hfetch hexec
    exact ⟨hw, lost_step hL hu hlost hedge hexec⟩
  exact hall.2

/-- What the rest of the pass reads before it is set arrives: the stack pointer,
and the pointers that the text determines. -/
structure Arrives (s d : State) : Prop where
  rsp : d.gpr .rsp = s.gpr .rsp
  pointers : ∀ r, (program.constants joins s.rip r).isSome = true → d.gpr r = s.gpr r

/-- A part that differs is still to be stored for its comparison; of an x87
value, where the x87 stack itself arrives, the destination stores another
integer than the source, or, before the last value, leaves an exception
pending. -/
def Ahead (s d : State) : Prop :=
  (∃ p ∈ observed, ¬ p.agree s d ∧ (program.observedNext p s.rip).isSome) ∨
  Part.tags.agree s d ∧ ∃ m, fildOf m < s.rip ∧ s.rip ≤ fistpOf m ∧
    ((d.fpu.raises (slotOf m) = true ∧ m.val < 3) ∨
      s.fpu.stored (slotOf m) ≠ some (found d m))

/-- The destination is as sound as the source. -/
theorem Sound.switched (hs : Sound L s) (hsw : Switched s d) (harr : Arrives s d) :
    Sound L d where
  nested := hsw.nested harr.rsp hs.nested
  image x hx := Guest.holds_switched hsw (hs.image x hx)
  constants := fun r v hr => by
    rw [hsw.rip] at hr
    rw [harr.pointers r (by rw [hr]; rfl)]
    exact hs.constants r v hr

/-- The x87 stack has the same shape if its tags arrive. -/
theorem Shaped.switched (hs : Shaped s) (hsw : Switched s d) (htags : Part.tags.agree s d) :
    Shaped d := by
  obtain ⟨htop, hfull, hes⟩ := htags
  intro hlo hhi hesd
  have hst := hs (hsw.rip ▸ hlo) (hsw.rip ▸ hhi) (hes ▸ hesd)
  rw [hsw.rip]
  exact ⟨by rw [htop]; exact hst.top, fun k => by rw [hfull]; exact hst.full k⟩

/-- Where the destination starts. -/
theorem lost_of_ahead (hsw : Switched s d) (ha : Ahead s d)
    (hparts : ∀ p ∈ observed, (program.observedNext p s.rip).isSome → Holding L s p)
    (hshape : Shaped s) (hload : Loaded L s) : Lost L d := by
  rcases ha with ⟨p, hp, hne, hobs⟩ | ⟨htags, m, hlo, hhi, hspoiled⟩
  · have hnext : program.observedNext p d.rip = some (storeOf p) := by
      have hsize : program.instrs.length = 108 := wired.includes.size
      obtain ⟨k, hk⟩ := Option.isSome_iff_exists.mp hobs
      have hrange := observedNext_range hk
      rw [hsw.rip]
      rcases observed_at p hp s.rip (by omega) with hnone | hsome
      · simp [hnone] at hobs
      · exact hsome
    refine .part (.travelling hp hnext fun hh => hne ?_) hsw.log
    have hright := hparts p hp hobs
    rcases mem_observed hp with rfl | rfl | ⟨j, rfl⟩
    · rw [Holding, hsw.mem] at hh
      exact hh.trans hright.symm
    · rw [Holding, hsw.mem] at hh
      exact hh.trans hright.symm
    · rw [Holding, hsw.mem] at hh
      exact hh.trans hright.symm
  · refine .value (m := m) (hshape.switched hsw htags)
      (.waiting (hsw.rip ▸ hlo) (hsw.rip ▸ hhi) ?_) hsw.log
    refine hspoiled.imp_right fun hne he => hne ?_
    rw [Fpu.stored, stored_of_loaded hshape hload hlo hhi, he, hsw.mem]

/-- **The FP/SSE payload detects** a part that differs after its load and
before it is stored for its comparison, if the pointers arrive: the destination
sends one of the failure lines, or a part of it, and nothing else. -/
theorem detects (hL : fpSseGuest.Fits L) {s₀ : State} (h₀ : fpSseGuest.Boot L s₀)
    {es : List Byte} (hsrc : Run (fpSseGuest.Step L) s₀ es s) (hsw : Switched s d)
    (harr : Arrives s d) (ha : Ahead s d) {es' : List Byte}
    (hdst : Run (fpSseGuest.Step L) d es' t) : ∃ f ∈ failures, t.log <+: msgLine f := by
  obtain ⟨hsound, hparts, hshape, hload⟩ := source_run hL h₀ hsrc
  exact (lost_run hL (hsound.switched hsw harr)
    (lost_of_ahead hsw ha hparts hshape hload) hdst).sent

end FpSse

end QemuTest.Asm

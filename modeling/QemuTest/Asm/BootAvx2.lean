import QemuTest.Asm.Compare
import QemuTest.Asm.Guest
import QemuTest.Lib.X86.Observe

/-!
# Asm — BootAvx2

`boot_avx2.asm`: the payload that loads the sixteen YMM registers once and
from then on spills them, compares them with their patterns and reports, over
and over.

A register that is wrong stays wrong, so every pass that spills it fails. Only
the pass under way can still report success: `Avx2.detects` says that a
destination with a wrong register sends no complete success line, unless that
register had been spilled and the line had not begun.
-/

namespace QemuTest.Asm

open X86 Runs

namespace Avx2

/-! ## The program -/

inductive Label where
  | verify_loop | cmp_loop | fail | delay | spin
  | serial (l : SerialLabel)
  deriving DecidableEq, Repr

inductive Data where
  | msg_ymm_loaded | msg_ready | msg_ok | msg_fail | ymm_patterns
  deriving DecidableEq, Repr

/-- The program from the loads on, once AVX is enabled. -/
def program : Program Label Data :=
  ([ lea .rsi .ymm_patterns ] : Program Label Data)
  ++ loadVecs .ymm
  ++ ([ lea .rsi .msg_ymm_loaded,
    call (.serial .serial_print),
    lea .rsi .msg_ready,
    call (.serial .serial_print),
    .label .verify_loop,
    mov .rdi 0x5000 ] : Program Label Data)
  ++ storeVecs .ymm
  ++ ([ lea .rsi .ymm_patterns,
    mov .rdi 0x5000,
    mov .rcx 64,
    .label .cmp_loop,
    .ins (.mov .qword .rax (.mem (.base .rsi 0))),
    .ins (.cmp .qword (.reg .rax) (.mem (.base .rdi 0))),
    jne .fail,
    .ins (.add .rsi (.imm 8)),
    .ins (.add .rdi (.imm 8)),
    .ins (.dec .rcx),
    jne .cmp_loop,
    lea .rsi .msg_ok,
    call (.serial .serial_print),
    jmp .delay,
    .label .fail,
    lea .rsi .msg_fail,
    call (.serial .serial_print),
    .label .delay,
    mov .rcx 0x3000000,
    .label .spin,
    .ins (.dec .rcx),
    jne .spin,
    jmp .verify_loop ] : Program Label Data)
  ++ serial64 .serial

/-- The four equal double words of each row of `ymm_patterns`. -/
def rows : List (BitVec 32) :=
  [ 0x10101010, 0x80808080, 0x21212121, 0x91919191, 0x32323232, 0xA2A2A2A2,
    0x43434343, 0xB3B3B3B3, 0x54545454, 0xC4C4C4C4, 0x65656565, 0xD5D5D5D5,
    0x76767676, 0xE6E6E6E6, 0x87878787, 0xF7F7F7F7, 0x18181818, 0x88888888,
    0x29292929, 0x99999999, 0x3A3A3A3A, 0xAAAAAAAA, 0x4B4B4B4B, 0xBBBBBBBB,
    0x5C5C5C5C, 0xCCCCCCCC, 0x6D6D6D6D, 0xDDDDDDDD, 0x7E7E7E7E, 0xEEEEEEEE,
    0x8F8F8F8F, 0xFFFFFFFF ]

/-- The text a message label stands for. -/
def text : Data → List Byte
  | .msg_ymm_loaded => msgLine "YMM:LOADED"
  | .msg_ready => msgLine "AVX2:READY"
  | .msg_ok => msgLine "AVX2:OK"
  | .msg_fail => msgLine "AVX2:FAIL"
  | .ymm_patterns => []

def contents : Data → List Byte
  | .ymm_patterns => rows.flatMap fun v => dd v ++ dd v ++ dd v ++ dd v
  | x => text x ++ [0]

end Avx2

/-- The payload. -/
def avx2Guest : Guest where
  Label := Avx2.Label
  Data := Avx2.Data
  program := Avx2.program
  contents := Avx2.contents
  stackTop := 0x7c00
  verified := (List.finRange 16).map Part.vec

namespace Avx2

/-! ## What the text shows -/

-- the checks walk down the whole program
set_option maxRecDepth 20000

/-- The first instruction of the serial routine. -/
def body : Nat := 57

/-- The calls that send a message, and the messages. -/
def sites : List (Nat × Data) :=
  [(18, .msg_ymm_loaded), (20, .msg_ready), (49, .msg_ok), (52, .msg_fail)]

/-- Where control joins: the loops, the branches, and behind the calls. A pointer
is forgotten as well once it has served. -/
def joins : Joins :=
  [(17, [.rsi]), (19, Reg.all), (21, Reg.all), (38, [.rdi]), (41, Reg.all), (50, Reg.all),
    (51, Reg.all), (53, Reg.all), (54, [.rcx]), (57, Reg.all), (60, Reg.all), (69, Reg.all)]

/-- A store is a push, or spills a register to its place in the buffer. -/
def storeOk (n : Nat) (i : Instr Label Data) : Bool :=
  !i.writes .mem || i.pushes ||
    match i with
    | .call _ => true
    | .vstore .ymm (.base .rdi disp) j =>
        n = 22 + j.val && disp = 32 * j.val &&
          program.constants joins n .rdi = some (.imm 0x5000)
    | _ => false

/-- A call is one of the routine, with the message its site stands for. -/
def callOk (n : Nat) (i : Instr Label Data) : Bool :=
  match i with
  | .call c => c = .serial .serial_print &&
      sites.any fun p => p.1 = n && program.constants joins n .rsi = some (.addr p.2 0)
  | _ => true

/-- The instruction that loads register `j`, and the one that spills it. -/
def loadOf (j : Fin 16) : Nat := 1 + j.val

def spillOf (j : Fin 16) : Nat := 22 + j.val

/-- The instructions at which the loop has nothing in hand that could report
success without another look at register `j`. -/
def idle (j : Fin 16) (n : Nat) : Bool :=
  (loadOf j < n && n ≤ spillOf j) || (50 ≤ n && n < body)

/-- No way leads around the load of register `j`. -/
def loadOk (j : Fin 16) : Bool :=
  program.allEdges fun n i m =>
    !(loadOf j < m) || n = loadOf j || (loadOf j < n && !i.writes (.vec j))

/-- Once loaded it is never written again. -/
def keepOk (j : Fin 16) : Bool :=
  program.allEdges fun n i m => !(loadOf j < n) || (!i.writes (.vec j) && loadOf j < m)

/-- From an idle instruction a step goes to an idle one, spills the register,
or calls the routine. -/
def idleOk (j : Fin 16) : Bool :=
  program.allEdges fun n i m =>
    !idle j n ||
      match i with
      | .call _ => true
      | i => !i.writes .log && (if n = spillOf j then m = n + 1 else idle j m)

/-- Between the spill and the comparison nothing is sent, and no other
register is spilled to the place of register `j`. -/
def spilledOk (j : Fin 16) : Bool :=
  program.allEdges fun n i m =>
    !(spillOf j < n && n ≤ 40) ||
      (m = n + 1 && !i.writes .log && (!i.writes .mem ||
        match i with
        | .vstore .ymm _ j' => j' ≠ j
        | _ => false))

theorem wired : avx2Guest.Wired .serial body where
  includes :=
    { size := rfl
      fetch := by decide
      next := rfl
      wait_tx := rfl
      done := rfl
      depth_push := rfl
      depth_pop := rfl }
  entry := rfl
  nested := by decide
  top_low := by decide
  top_high := by decide

theorem compareLoop : CompareLoop program 41 51 where
  load := rfl
  cmp := rfl
  leave := ⟨.fail, rfl, rfl⟩
  rsi := rfl
  rdi := rfl
  rcx := rfl
  again := ⟨.cmp_loop, rfl, rfl⟩

theorem consistent : program.consistent joins = true := by decide

theorem storeOk_all : program.allEdges (fun n i _ => storeOk n i) = true := by decide

theorem callOk_all : program.allEdges (fun n i _ => callOk n i) = true := by decide

theorem load_fetch : ∀ j, program.fetch (loadOf j) =
    some (.vload .ymm j (.base .rsi (32 * j.val))) := by decide

theorem load_rsi : ∀ j, program.constants joins (loadOf j) .rsi =
    some (.addr .ymm_patterns 0) := by decide

theorem loadOk_all : ∀ j, loadOk j = true := by decide

theorem keepOk_all : ∀ j, keepOk j = true := by decide

theorem idleOk_all : ∀ j, idleOk j = true := by decide

theorem spilledOk_all : ∀ j, spilledOk j = true := by decide

theorem site_idle : ∀ j, ∀ p ∈ sites, idle j (p.1 + 1) = true := by decide

/-! ## Every run -/

variable {L : Layout Data} {inp : Byte} {s t d : State} {i : Instr Label Data} {j : Fin 16}

/-- The address of the pattern of register `j`, and of its place in the
buffer. -/
def patternOf (L : Layout Data) (j : Fin 16) : Nat := L.data .ymm_patterns + 32 * j.val

def bufferOf (j : Fin 16) : Nat := 0x5000 + 32 * j.val

/-- What holds in every state of every run, whatever the YMM registers hold:
the stack discipline, the image, the constants, and inside the serial routine
the message that is being sent. -/
structure Sound (L : Layout Data) (s : State) : Prop where
  nested : Nested program L body 0x7c00 s
  image : ∀ x, avx2Guest.Holds L s.mem x
  constants : (program.constants joins s.rip).Agrees L s
  printing : body ≤ s.rip → ∃ p ∈ sites, ∃ k,
    Printing L body 0x7c00 (L.data p.2) (text p.2) (p.1 + 1) s k

theorem contents_site : ∀ p ∈ sites, contents p.2 = text p.2 ++ [0] := by
  intro p hp
  simp only [sites, List.mem_cons, List.not_mem_nil, or_false] at hp
  rcases hp with rfl | rfl | rfl | rfl <;> rfl

theorem site_nonzero : ∀ p ∈ sites, (0 : Byte) ∉ text p.2 := by
  unfold text msgLine ascii Text.lit
  decide

theorem site_below : ∀ p ∈ sites, p.1 + 1 < body := by decide

theorem size : program.instrs.length = body + 13 := wired.includes.size

/-- The message of a call site is in memory as the serial routine needs it. -/
theorem Sound.cstring (hL : avx2Guest.Fits L) (hs : Sound L s) {p : Nat × Data}
    (hp : p ∈ sites) : CString s.mem (L.data p.2) (text p.2) :=
  Guest.cstring_of_holds hL (hs.image p.2) (contents_site p hp) (site_nonzero p hp)

/-- What stores is a push, a call, or the spill of a register to its place. -/
theorem store_spec (hs : Sound L s) (hedge : Edge program s.rip i t.rip)
    (hw : i.writes .mem = true) :
    (i.pushes = true ∨ ∃ c, i = .call c) ∨
    ∃ j : Fin 16, s.rip = spillOf j ∧ i.target L s = (bufferOf j, 32) ∧
      i = .vstore .ymm (.base .rdi (32 * j.val)) j := by
  have hck := allEdges_spec storeOk_all hedge
  simp only [storeOk, hw, Bool.not_true, Bool.false_or, Bool.or_eq_true] at hck
  rcases hck with hpush | hck
  · exact .inl (.inl hpush)
  split at hck
  · exact .inl (.inr ⟨_, rfl⟩)
  · rename_i disp j
    simp only [Bool.and_eq_true, decide_eq_true_eq] at hck
    obtain ⟨⟨hrip, rfl⟩, hconst⟩ := hck
    have hrdi : s.gpr .rdi = BitVec.ofNat 64 0x5000 := hs.constants .rdi _ hconst
    have hea := ea_base (L := L) (32 * j.val) hrdi (by omega)
    refine .inr ⟨j, hrip, ?_, rfl⟩
    rw [Instr.target, hea]
    rfl
  · cases hck

/-- Nothing is stored in the image. -/
theorem mem_step (hs : Sound L s) (hedge : Edge program s.rip i t.rip)
    (h : exec program L inp s i = some t) {a : Nat} (ha : 0x7e00 ≤ a) :
    t.mem a = s.mem a := by
  by_cases hw : i.writes .mem = true
  · rcases store_spec hs hedge hw with hpush | ⟨j, -, htarget, -⟩
    · exact push_below wired.nested (by decide) (by decide) hs.nested hedge.1 h hpush (by omega)
    · refine exec_mem h ?_
      rw [htarget, bufferOf]
      omega
  · exact congrFun (exec_agree (p := .mem) h (by simpa using hw)) a

/-- A call is one of the serial routine, with the message of its site. -/
theorem call_spec (hL : avx2Guest.Fits L) (hs : Sound L s) {c : Label}
    (hedge : Edge program s.rip (.call c) t.rip)
    (h : exec program L inp s (.call c) = some t) :
    ∃ p ∈ sites, p.1 = s.rip ∧ t.log = s.log ∧
      Printing L body 0x7c00 (L.data p.2) (text p.2) (p.1 + 1) t 0 := by
  have hck := allEdges_spec callOk_all hedge
  simp only [callOk, Bool.and_eq_true, decide_eq_true_eq, List.any_eq_true] at hck
  obtain ⟨rfl, p, hp, hrip, hconst⟩ := hck
  have hdepth : program.depth body s.rip = 0 := by
    have hnest := allEdges_spec (Bool.and_eq_true_iff.mp wired.nested).1 hedge
    simp only [nestOk, Bool.decide_and, Bool.and_eq_true, decide_eq_true_eq] at hnest
    exact hnest.2.1
  obtain ⟨hpr, hlog⟩ := printing_call hs.nested (by decide) (by decide) wired.entry hdepth
    (hs.cstring hL hp) (hs.constants .rsi _ hconst) h
  exact ⟨p, hp, hrip, hlog, hrip ▸ hpr⟩

theorem sound_step (hL : avx2Guest.Fits L) (hs : Sound L s)
    (hfetch : program.fetch s.rip = some i) (h : exec program L inp s i = some t) :
    Sound L t ∧ Edge program s.rip i t.rip := by
  obtain ⟨hnested, hedge⟩ := wired.nested_step hL hs.nested hfetch h
  refine ⟨⟨hnested, fun x => (hs.image x).of_below hL fun a ha => mem_step hs hedge h ha,
    constants_step consistent hs.constants h hedge, fun hin => ?_⟩, hedge⟩
  by_cases hbody : body ≤ s.rip
  · obtain ⟨p, hp, k, hpr⟩ := hs.printing hbody
    have hbelow := site_below p hp
    rcases printing_step wired.includes wired.nested hL.code hs.nested (by decide) (by decide)
      (by have := size; simp only [avx2Guest]; omega) hpr hfetch h
      with ⟨hpr, -⟩ | ⟨-, hpr, -⟩ | ⟨-, hrip, -, -⟩
    · exact ⟨p, hp, k, hpr⟩
    · exact ⟨p, hp, k + 1, hpr⟩
    · omega
  · obtain ⟨c, rfl⟩ := wired.call_of_enter hedge (by omega) hin
    obtain ⟨p, hp, -, -, hpr⟩ := call_spec hL hs hedge h
    exact ⟨p, hp, 0, hpr⟩

/-- The pattern of a register stays where it is. -/
theorem pattern_step (hL : avx2Guest.Fits L) (hs : Sound L s)
    (hedge : Edge program s.rip i t.rip) (h : exec program L inp s i = some t) (x n : Nat) :
    t.mem.load (L.data .ymm_patterns + x) n = s.mem.load (L.data .ymm_patterns + x) n :=
  load_congr fun k _ => mem_step hs hedge h (by have := hL.low .ymm_patterns; omega)

/-- On the source each register holds its pattern, once loaded. -/
theorem loaded_step (hL : avx2Guest.Fits L) (hs : Sound L s)
    (hv : loadOf j < s.rip → s.vec j = s.mem.load (patternOf L j) 32)
    (hedge : Edge program s.rip i t.rip) (h : exec program L inp s i = some t)
    (hj : loadOf j < t.rip) : t.vec j = t.mem.load (patternOf L j) 32 := by
  rw [patternOf, pattern_step hL hs hedge h]
  have hways := allEdges_spec (loadOk_all j) hedge
  simp only [Bool.or_eq_true, Bool.not_eq_true', decide_eq_false_iff_not, decide_eq_true_eq,
    Bool.and_eq_true] at hways
  rcases hways with (hways | hat) | ⟨hpast, hkeep⟩
  · exact absurd hj hways
  · obtain rfl := Option.some.inj ((load_fetch j).symm.trans (hat ▸ hedge.1))
    have hrsi : s.gpr .rsi = BitVec.ofNat 64 (L.data .ymm_patterns) :=
      hs.constants .rsi (.addr .ymm_patterns 0) (hat ▸ load_rsi j)
    exact exec_vload h hrsi (by have := hL.high .ymm_patterns; omega)
  · rw [show t.vec j = s.vec j from exec_agree h hkeep, hv hpast, patternOf]

/-- On the source everything loaded is right. -/
theorem source_run (hL : avx2Guest.Fits L) {s₀ : State} (h₀ : avx2Guest.Boot L s₀)
    {es : List Byte} (h : Run (avx2Guest.Step L) s₀ es s) :
    Sound L s ∧ (loadOf j < s.rip → s.vec j = s.mem.load (patternOf L j) 32) := by
  refine h.invariant (P := fun s => Sound L s ∧
    (loadOf j < s.rip → s.vec j = s.mem.load (patternOf L j) 32)) ⟨⟨h₀.nested (by decide),
      h₀.image, by rw [h₀.rip]; exact Known.agrees_nothing, ?_⟩, ?_⟩ ?_
  · rw [h₀.rip]
    intro hle
    exact absurd hle (by decide)
  · rw [h₀.rip]
    intro hlt
    exact absurd hlt (Nat.not_lt_zero _)
  · intro t e u ht hstep
    obtain ⟨i, hfetch, hexec⟩ := step_eq_some.mp hstep
    obtain ⟨hsound, hedge⟩ := sound_step hL ht.1 hfetch hexec
    exact ⟨hsound, loaded_step hL ht.1 ht.2 hedge hexec⟩

/-! ## A register that differs -/

/-- What a destination may send without another look at the registers: the
messages, whole or what is left of them, but not the whole success line. -/
def harmless : List (List Byte) :=
  [.msg_ymm_loaded, .msg_ready, .msg_ok, .msg_fail].flatMap fun x =>
    ((text x).tails).filter fun l => l ≠ msgLine "AVX2:OK"

/-- A destination that will never send a whole success line: it has sent the
lines `ls`, and a register is wrong that is yet to be looked at. -/
inductive Lost (L : Layout Data) (j : Fin 16) (d : State) : List (List Byte) → Prop where
  | idle {ls : List (List Byte)} (rip : idle j d.rip = true) (log : d.log = ls.flatten) :
      Lost L j d ls
  | print {ls : List (List Byte)} {p : Nat × Data} {n k : Nat} (site : p ∈ sites)
      (rest : (text p.2).drop n ∈ harmless)
      (pr : Printing L body 0x7c00 (L.data p.2) (text p.2) (p.1 + 1) d k) (le : n ≤ k)
      (log : d.log = ls.flatten ++ ((text p.2).take k).drop n) : Lost L j d ls
  | spilled {ls : List (List Byte)} {q : Nat} (rip : spillOf j < d.rip ∧ d.rip ≤ 40)
      (lt : q < 4)
      (ne : d.mem.load (patternOf L j + 8 * q) 8 ≠ d.mem.load (bufferOf j + 8 * q) 8)
      (log : d.log = ls.flatten) : Lost L j d ls
  | comparing {ls : List (List Byte)} {q : Nat} (lt : q < 64)
      (ne : d.mem.load (L.data .ymm_patterns + 8 * q) 8 ≠ d.mem.load (0x5000 + 8 * q) 8)
      (cmp : Comparing 41 (L.data .ymm_patterns) 0x5000 64 q d)
      (log : d.log = ls.flatten) : Lost L j d ls

theorem mem_harmless : ∀ p ∈ sites, p.2 ≠ .msg_ok → text p.2 ∈ harmless := by decide +kernel

theorem ok_not_idle : ∀ p ∈ sites, p.2 = .msg_ok → ∀ j, idle j p.1 = false := by
  decide

/-- The instruction that spills register `j`. -/
theorem spill_fetch : ∀ j, program.fetch (spillOf j) =
    some (.vstore .ymm (.base .rdi (32 * j.val)) j) := by decide

theorem spill_rdi : ∀ j, program.constants joins (spillOf j) .rdi = some (.imm 0x5000) := by
  decide

theorem leave_idle : ∀ j, idle j 51 = true := by decide

/-- From an idle instruction. -/
theorem lost_idle_step (hL : avx2Guest.Fits L) (hs : Sound L s) {ls : List (List Byte)}
    (hidle : idle j s.rip = true) (hlog : s.log = ls.flatten)
    (hbad : s.vec j ≠ s.mem.load (patternOf L j) 32)
    (hedge : Edge program s.rip i t.rip) (h : exec program L inp s i = some t) :
    Lost L j t ls := by
  have hck := allEdges_spec (idleOk_all j) hedge
  simp only [hidle, Bool.not_true, Bool.false_or] at hck
  split at hck
  · obtain ⟨p, hp, hrip, hlog', hpr⟩ := call_spec hL hs hedge h
    have hok : p.2 ≠ .msg_ok := by
      intro he
      have := ok_not_idle p hp he j
      simp [hrip, hidle] at this
    exact .print (n := 0) hp (mem_harmless p hp hok) hpr (Nat.le_refl 0)
      (by rw [hlog', hlog]; simp)
  · simp only [Bool.and_eq_true, Bool.not_eq_true'] at hck
    have hlog' : t.log = s.log := exec_agree (p := .log) h hck.1
    by_cases hspill : s.rip = spillOf j
    · obtain rfl := Option.some.inj ((spill_fetch j).symm.trans (hspill ▸ hedge.1))
      have hrdi : s.gpr .rdi = BitVec.ofNat 64 0x5000 :=
        hs.constants .rdi (.imm 0x5000) (hspill ▸ spill_rdi j)
      have hstored : t.mem.load (bufferOf j) 32 = s.vec j := exec_vstore h hrdi (by omega)
      have hrip : t.rip = spillOf j + 1 := by simpa [hspill] using hck.2
      -- the place in the buffer now differs from the pattern, so in a quadword
      have hne : t.mem.load (patternOf L j) (8 * 4) ≠ t.mem.load (bufferOf j) (8 * 4) := by
        intro he
        exact hbad (hstored.symm.trans (he.symm.trans (pattern_step hL hs hedge h _ 32)))
      obtain ⟨q, hq, hword⟩ := load_ne_word hne
      exact .spilled ⟨by omega, by rw [hrip, spillOf]; omega⟩ hq hword (hlog'.trans hlog)
    · exact .idle (by simpa [hspill] using hck.2) (hlog'.trans hlog)

/-- On the way to the comparison. -/
theorem lost_spilled_step (hL : avx2Guest.Fits L) (hs : Sound L s) {ls : List (List Byte)}
    {q : Nat} (hrip : spillOf j < s.rip ∧ s.rip ≤ 40) (hq : q < 4)
    (hne : s.mem.load (patternOf L j + 8 * q) 8 ≠ s.mem.load (bufferOf j + 8 * q) 8)
    (hlog : s.log = ls.flatten) (hedge : Edge program s.rip i t.rip)
    (h : exec program L inp s i = some t) : Lost L j t ls := by
  have hck := allEdges_spec (spilledOk_all j) hedge
  simp only [hrip.1, hrip.2, decide_true, Bool.and_self, Bool.not_true, Bool.false_or,
    Bool.and_eq_true, decide_eq_true_eq, Bool.not_eq_true', Bool.or_eq_true] at hck
  obtain ⟨⟨hnext, hquiet⟩, hstore⟩ := hck
  have hlog' : t.log = s.log := exec_agree (p := .log) h hquiet
  have hbuffer : t.mem.load (bufferOf j + 8 * q) 8 = s.mem.load (bufferOf j + 8 * q) 8 := by
    rcases hstore with hw | hother
    · rw [show t.mem = s.mem from exec_agree (p := .mem) h hw]
    · split at hother
      · rename_i m j'
        have hj' : j' ≠ j := by simpa using hother
        rcases store_spec hs hedge rfl with hpush | ⟨j'', -, htarget, hi⟩
        · simp [Instr.pushes] at hpush
        · obtain rfl : j' = j'' := by
            injection hi
          have hval : j'.val ≠ j.val := fun he => hj' (Fin.ext he)
          refine load_congr fun k hk => exec_mem h ?_
          rw [htarget, bufferOf, bufferOf]
          omega
      · cases hother
  have hne' : t.mem.load (patternOf L j + 8 * q) 8 ≠ t.mem.load (bufferOf j + 8 * q) 8 := by
    rw [hbuffer, patternOf, Nat.add_assoc, pattern_step hL hs hedge h, ← Nat.add_assoc]
    exact hne
  by_cases hlast : s.rip = 40
  · have hinstr : program.fetch 40 = some (.mov .qword .rcx (.imm 64)) := rfl
    obtain rfl := Option.some.inj (hinstr.symm.trans (hlast ▸ hedge.1))
    have hregs := Known.agrees_transfer hs.constants h
    rw [hlast] at hregs
    have hcursor : Cursor (L.data .ymm_patterns) 0x5000 64 0 0 0 t :=
      ⟨hregs .rsi (.addr .ymm_patterns 0) rfl,
        hregs .rdi (.imm 0x5000) rfl, hregs .rcx (.imm 64) rfl⟩
    refine .comparing (q := 4 * j.val + q) (by omega) ?_
      (.load (by rw [hnext, hlast]) (Nat.zero_le _) hcursor) (hlog'.trans hlog)
    rw [patternOf, bufferOf] at hne'
    rwa [show L.data .ymm_patterns + 8 * (4 * j.val + q)
      = L.data .ymm_patterns + 32 * j.val + 8 * q by omega,
      show 0x5000 + 8 * (4 * j.val + q) = 0x5000 + 32 * j.val + 8 * q by omega]
  · exact .spilled ⟨by omega, by omega⟩ hq hne' (hlog'.trans hlog)

/-- **A wrong register is never reported right.** -/
theorem lost_step (hL : avx2Guest.Fits L) (hs : Sound L s) {ls : List (List Byte)}
    (hls : ∀ l ∈ ls, l ∈ harmless) (hl : Lost L j s ls)
    (hbad : s.vec j ≠ s.mem.load (patternOf L j) 32)
    (hedge : Edge program s.rip i t.rip) (h : exec program L inp s i = some t) :
    ∃ ls', (∀ l ∈ ls', l ∈ harmless) ∧ Lost L j t ls' := by
  cases hl with
  | idle rip log => exact ⟨ls, hls, lost_idle_step hL hs rip log hbad hedge h⟩
  | print site rest pr le log =>
      rename_i p n k
      have hbelow := site_below p site
      rcases printing_step wired.includes wired.nested hL.code hs.nested (by decide) (by decide)
        (by have := size; simp only [avx2Guest]; omega) pr hedge.1 h with
        ⟨hpr, hlog⟩ | ⟨hk, hpr, hlog⟩ | ⟨hk, hrip, -, hlog⟩
      · exact ⟨ls, hls, .print site rest hpr le (hlog.trans log)⟩
      · refine ⟨ls, hls, .print site rest hpr (by omega) ?_⟩
        have hlen : n ≤ ((text p.2).take k).length := by
          rw [List.length_take]
          omega
        rw [hlog, log, List.append_assoc, ← List.drop_append_of_le_length hlen,
          Guest.take_append_getD hk]
      · -- the line is over: back to an idle instruction
        refine ⟨ls ++ [(text p.2).drop n], ?_, .idle (hrip ▸ site_idle j p site) ?_⟩
        · intro l hl
          rcases List.mem_append.mp hl with hl | hl
          · exact hls l hl
          · rw [List.mem_singleton.mp hl]
            exact rest
        · rw [hlog, log, hk, List.take_length]
          simp
  | spilled rip lt ne log => exact ⟨ls, hls, lost_spilled_step hL hs rip lt ne log hedge h⟩
  | comparing lt ne cmp log =>
      have hhigh := hL.high .ymm_patterns
      obtain ⟨hmem, hlog, hcmp | hrip⟩ := comparing_step compareLoop (by omega) (by decide) lt ne
        cmp hedge.1 h
      · exact ⟨ls, hls, .comparing lt (by rwa [hmem]) hcmp (hlog.trans log)⟩
      · refine ⟨ls, hls, .idle ?_ (hlog.trans log)⟩
        rw [hrip]
        exact leave_idle j

/-! ## The destination -/

/-- The serial routine still has the whole success line to send. -/
def OwesOk (L : Layout Data) (s : State) : Prop :=
  ((s.rip = body ∨ s.rip = body + 11) ∧
    s.gpr .rsi = BitVec.ofNat 64 (L.data .msg_ok)) ∨
  (body < s.rip ∧ s.rip ≤ body + 10 ∧
    s.gpr .rsi = BitVec.ofNat 64 (L.data .msg_ok + 1))

/-- No success is reported before register `j` is looked at again: it is still
to be spilled in this pass, or the report of this pass is over or begun. -/
def Ahead (L : Layout Data) (j : Fin 16) (s : State) : Prop :=
  (program.observedNext (.vec j) s.rip).isSome ∨ (50 ≤ s.rip ∧ ¬ OwesOk L s)

theorem observed_idle : ∀ n < 70, ∀ j : Fin 16,
    (program.observedNext (.vec j) n).isSome = true → idle j n = true ∧ loadOf j < n := by
  decide

theorem rest_harmless : ∀ p ∈ sites, ∀ n ≤ (text p.2).length, p.2 ≠ .msg_ok ∨ n ≠ 0 →
    (text p.2).drop n ∈ harmless := by decide +kernel

/-- What the destination reads before it is set arrives: the stack pointer, the
pointers that the text determines, and what the serial routine goes on with. -/
structure Arrives (s d : State) : Prop where
  rsp : d.gpr .rsp = s.gpr .rsp
  pointers : ∀ r, (program.constants joins s.rip r).isSome = true → d.gpr r = s.gpr r
  serial : SerialArrives body s d

/-- The destination is as sound as the source. -/
theorem Sound.switched (hs : Sound L s) (hsw : Switched s d) (harr : Arrives s d) :
    Sound L d where
  nested := hsw.nested harr.rsp hs.nested
  image x := Guest.holds_switched hsw (hs.image x)
  constants := fun r v hr => by
    rw [hsw.rip] at hr
    rw [harr.pointers r (by rw [hr]; rfl)]
    exact hs.constants r v hr
  printing := fun hin => by
    obtain ⟨p, hp, k, hpr⟩ := hs.printing (hsw.rip ▸ hin)
    exact ⟨p, hp, k, hsw.printing harr.serial hpr⟩

/-- Where the destination starts. -/
theorem Sound.lost (hs : Sound L s) (hsw : Switched s d) (harr : Arrives s d)
    (ha : Ahead L j s) : loadOf j < s.rip ∧ Lost L j d [] := by
  have hlog : d.log = ([] : List (List Byte)).flatten := hsw.log
  rcases ha with hobs | ⟨hrip, howes⟩
  · obtain ⟨k, hk⟩ := Option.isSome_iff_exists.mp hobs
    have hlt : s.rip < 70 := by
      have := size
      have := observedNext_range hk
      simp only [body] at *
      omega
    obtain ⟨hidle, hload⟩ := observed_idle s.rip hlt j hobs
    exact ⟨hload, .idle (hsw.rip ▸ hidle) hlog⟩
  · refine ⟨by rw [loadOf]; omega, ?_⟩
    by_cases hbody : body ≤ s.rip
    · obtain ⟨p, hp, k, hpr⟩ := hs.printing hbody
      have hk : k ≤ (text p.2).length := by
        cases hpr.sending <;> omega
      have hstart : p.2 ≠ .msg_ok ∨ k ≠ 0 := by
        by_contra hall
        push Not at hall
        obtain ⟨hok, rfl⟩ := hall
        refine howes ?_
        have hne : text p.2 ≠ [] := by
          rw [hok]
          exact List.append_ne_nil_of_right_ne_nil _ (by simp)
        have hbegin := Sending.start hne hpr.sending
        rwa [hok] at hbegin
      exact .print hp (rest_harmless p hp k hk hstart)
        (hsw.printing harr.serial hpr) (Nat.le_refl k) (by rw [hlog]; simp)
    · refine .idle ?_ hlog
      rw [hsw.rip, idle]
      simp [hrip]
      omega

/-- What a lost destination has sent. -/
theorem Lost.sent {ls : List (List Byte)} (h : Lost L j d ls) :
    ∃ last, (∃ l ∈ harmless, last <+: l) ∧ d.log = ls.flatten ++ last := by
  have hnone : ∃ l ∈ harmless, [] <+: l := ⟨[], by decide +kernel, List.nil_prefix⟩
  cases h with
  | idle _ log => exact ⟨[], hnone, by rw [log, List.append_nil]⟩
  | print _ rest _ _ log =>
      exact ⟨_, ⟨_, rest, (List.take_prefix _ _).drop _⟩, log⟩
  | spilled _ _ _ log => exact ⟨[], hnone, by rw [log, List.append_nil]⟩
  | comparing _ _ _ log => exact ⟨[], hnone, by rw [log, List.append_nil]⟩

/-- **The AVX2 payload detects** a register that differs, if it is still to be
spilled in the pass under way, or if the report of this pass is over or begun,
and if the pointers arrive: of the success line the destination sends the rest
of this pass's at most. -/
theorem detects (hL : avx2Guest.Fits L) {s₀ : State} (h₀ : avx2Guest.Boot L s₀)
    {es : List Byte} (hsrc : Run (avx2Guest.Step L) s₀ es s) (hsw : Switched s d)
    (harr : Arrives s d) (ha : Ahead L j s) (hne : d.vec j ≠ s.vec j)
    {es' : List Byte} (hdst : Run (avx2Guest.Step L) d es' t) :
    ∃ (ls : List (List Byte)) (last : List Byte), (∀ l ∈ ls, l ∈ harmless) ∧
      (∃ l ∈ harmless, last <+: l) ∧ t.log = ls.flatten ++ last := by
  obtain ⟨hsound, hvec⟩ := source_run (j := j) hL h₀ hsrc
  obtain ⟨hload, hlost⟩ := hsound.lost hsw harr ha
  have hsoundd : Sound L d := hsound.switched hsw harr
  have hbad : d.vec j ≠ d.mem.load (patternOf L j) 32 := by
    rw [hsw.mem, ← hvec hload]
    exact hne
  have hall : Sound L t ∧ loadOf j < t.rip ∧ t.vec j ≠ t.mem.load (patternOf L j) 32 ∧
      ∃ ls, (∀ l ∈ ls, l ∈ harmless) ∧ Lost L j t ls := by
    refine hdst.invariant (P := fun t => Sound L t ∧ loadOf j < t.rip ∧
      t.vec j ≠ t.mem.load (patternOf L j) 32 ∧ ∃ ls, (∀ l ∈ ls, l ∈ harmless) ∧ Lost L j t ls)
      ⟨hsoundd, hsw.rip ▸ hload, hbad, [], by simp, hlost⟩ ?_
    rintro u e w ⟨hu, hjump, hbad, ls, hls, hlost⟩ hstep
    obtain ⟨i, hfetch, hexec⟩ := step_eq_some.mp hstep
    obtain ⟨hw, hedge⟩ := sound_step hL hu hfetch hexec
    have hkeep := allEdges_spec (keepOk_all j) hedge
    simp only [hjump, decide_true, Bool.not_true, Bool.false_or, Bool.and_eq_true,
      Bool.not_eq_true', decide_eq_true_eq] at hkeep
    refine ⟨hw, hkeep.2, ?_, lost_step hL hu hls hlost hbad hedge hexec⟩
    rw [show w.vec j = u.vec j from exec_agree hexec hkeep.1, patternOf,
      pattern_step hL hu hedge hexec]
    exact hbad
  obtain ⟨-, -, -, ls, hls, hlost⟩ := hall
  obtain ⟨last, hlast, hlog⟩ := hlost.sent
  exact ⟨ls, last, hls, hlast, hlog⟩

end Avx2

end QemuTest.Asm

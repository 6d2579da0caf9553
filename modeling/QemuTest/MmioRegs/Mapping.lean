import Mathlib.Logic.Equiv.Basic
import QemuTest.Lib.Emulation
import QemuTest.MmioRegs
import QemuTest.Process.Serial

/-!
# MmioRegs — Mapping

All tests of `mmio_regs.c` on an emulator that may confuse registers: those it
loads come from the processor's through a map of names, and those it stores go
back through another.

The compiled code around the blocks of inline assembly is a parameter: it gives
an input operand its register, and leaves anything in the others. The memory
operands of a block are reached whatever the stack pointer is.
`passes_iff` says which emulators pass whatever the compiled code is.
-/

namespace QemuTest.MmioRegs

open X86 Emulation Text

/-! ## The processor -/

inductive Reg32 where
  | eax | ebx | ecx | edx | esi | edi | ebp | esp
  deriving DecidableEq, Repr

abbrev Word := BitVec 32

instance : Nontrivial Word := ⟨0, 1, by decide⟩

/-- The emulator, and what the I/O APIC shows in its window by the index. -/
structure Hardware where
  maps : Maps Reg32
  eflags : Eflags → Eflags
  window : BitVec 8 → Word

/-- The processor and the index register of the I/O APIC; `out` are the memory
operands of a block. -/
structure Machine where
  gpr : Reg32 → Word
  eflags : Eflags
  stack : Word → Word
  ioregsel : BitVec 8
  out : Nat → Word

inductive Ins where
  | mov (d : Reg32) (v : Word)
  | save (k : Nat) (s : Reg32)
  | stc
  | pushfd
  | pop (d : Reg32)
  | xor (d s : Reg32)
  | test (a b : Reg32)
  | readIowin (d : Reg32)
  | readIoregsel (d : Reg32)
  | writeIoregsel (s : Reg32)
  deriving DecidableEq, Repr

/-- The last three are emulated. -/
def Ins.exec (e : Hardware) (s : Machine) : Ins → Machine
  | .mov d v => { s with gpr := Function.update s.gpr d v }
  | .save k r => { s with out := Function.update s.out k (s.gpr r) }
  | .stc => { s with eflags := s.eflags.set .CF true }
  | .pushfd =>
      { s with
        gpr := Function.update s.gpr .esp (s.gpr .esp - 4)
        stack := Function.update s.stack (s.gpr .esp - 4) s.eflags.pushed }
  | .pop d =>
      { s with
        gpr := Function.update (Function.update s.gpr .esp (s.gpr .esp + 4)) d
          (s.stack (s.gpr .esp)) }
  | .xor d r =>
      let v := s.gpr d ^^^ s.gpr r
      { s with
        gpr := Function.update s.gpr d v
        eflags := s.eflags.put (s.eflags.flags.ofLogic .dword (v.setWidth 64)) }
  | .test a b =>
      let v := s.gpr a &&& s.gpr b
      { s with eflags := s.eflags.put (s.eflags.flags.ofLogic .dword (v.setWidth 64)) }
  | .readIowin d =>
      { s with
        gpr := e.maps.cycle (fun g => Function.update g d (e.window s.ioregsel)) s.gpr
        eflags := e.eflags s.eflags }
  | .readIoregsel d =>
      { s with
        gpr := e.maps.cycle (fun g => Function.update g d (s.ioregsel.setWidth 32)) s.gpr
        eflags := e.eflags s.eflags }
  | .writeIoregsel r =>
      { s with
        gpr := e.maps.cycle id s.gpr
        eflags := e.eflags s.eflags
        ioregsel := (e.maps.view s.gpr r).setWidth 8 }

/-- The processor as the compiled code leaves it in front of a block. -/
structure Context where
  gpr : Reg32 → Word
  eflags : Eflags
  stack : Word → Word

/-- With an input operand in its register. -/
def Context.input (c : Context) (r : Reg32) (v : Word) : Context :=
  { c with gpr := Function.update c.gpr r v }

def runAsm (e : Hardware) (c : Context) (ioregsel : BitVec 8) (block : List Ins) : Machine :=
  block.foldl (Ins.exec e) ⟨c.gpr, c.eflags, c.stack, ioregsel, fun _ => 0⟩

/-- What the compiler makes of the file: the contexts of the blocks in the order
they are run, and the registers of `flags_before` and `flags_after`, the same in
the three blocks of test G. -/
structure Compiled where
  around : Nat → Context
  fb : Reg32
  fa : Reg32
  distinct : fb ≠ fa
  fb_free : fb ≠ .eax ∧ fb ≠ .esp
  fa_free : fa ≠ .eax ∧ fa ≠ .esp

/-! ## The helpers -/

/-- `IOAPIC_VER_IDX`. -/
def ioapicVerIdx : Word := 1

def magic : Reg32 → Word
  | .ebx => 0xDEADBEEF
  | .ecx => 0xCAFEBABE
  | .edx => 0x12345678
  | .esi => 0xABCD1234
  | .edi => 0x87654321
  | .ebp => 0xFEEDFACE
  | .eax => 0x11111111
  | .esp => 0x0000F000

/-- `mmio_read_eax` and its siblings. -/
def mmioRead (d : Reg32) (e : Hardware) (c : Context) (ioregsel : BitVec 8) : Word :=
  (runAsm e c ioregsel [.readIowin d]).gpr d

/-- `mmio_write_from_ebx` and its siblings: what the index register is then. -/
def mmioWriteFrom (r : Reg32) (e : Hardware) (c : Context) (ioregsel : BitVec 8) (val : Word) :
    BitVec 8 :=
  (runAsm e (c.input r val) ioregsel [.writeIoregsel r]).ioregsel

def mmioWriteIoregsel (e : Hardware) (c : Context) (ioregsel : BitVec 8) (val : Word) :
    BitVec 8 :=
  mmioWriteFrom .eax e c ioregsel val

def mmioReadIoregsel (e : Hardware) (c : Context) (ioregsel : BitVec 8) : Word :=
  (runAsm e c ioregsel [.readIoregsel .eax]).gpr .eax

/-! ## The tests

Each has the number of its first block, and goes on with the index register it
finds. -/

/-- The registers of test A. -/
def bystanders : List Reg32 := [.ebx, .ecx, .edx, .esi, .edi, .ebp]

def gprBlock : List Ins :=
  [.mov .ebx (magic .ebx), .mov .ecx (magic .ecx), .mov .edx (magic .edx),
    .mov .esi (magic .esi), .mov .edi (magic .edi), .mov .ebp (magic .ebp),
    .readIowin .eax,
    .save 0 .ebx, .save 1 .ecx, .save 2 .edx, .save 3 .esi, .save 4 .edi, .save 5 .ebp]

def testGprPreservation (e : Hardware) (c : Compiled) (k : Nat) (ioregsel : BitVec 8) :
    Char × BitVec 8 :=
  let ioregsel := mmioWriteIoregsel e (c.around k) ioregsel ioapicVerIdx
  let s := runAsm e (c.around (k + 1)) ioregsel gprBlock
  (if s.out 0 ≠ magic .ebx then 'a'
    else if s.out 1 ≠ magic .ecx then 'a'
    else if s.out 2 ≠ magic .edx then 'a'
    else if s.out 3 ≠ magic .esi then 'a'
    else if s.out 4 ≠ magic .edi then 'a'
    else if s.out 5 ≠ magic .ebp then 'a'
    else 'A', s.ioregsel)

/-- Tests B to E, by the destination and the letters. -/
def testSet (d : Reg32) (pass fail : Char) (e : Hardware) (c : Compiled) (k : Nat)
    (ioregsel : BitVec 8) (ref : Word) : Char × BitVec 8 :=
  let ioregsel := mmioWriteIoregsel e (c.around k) ioregsel ioapicVerIdx
  let v := mmioRead d e (c.around (k + 1)) ioregsel
  (if v = ref then pass else fail, ioregsel)

def testSetEax := testSet .eax 'B' 'b'

def testSetEbx := testSet .ebx 'C' 'c'

def testSetEcx := testSet .ecx 'D' 'd'

def testSetEdx := testSet .edx 'E' 'e'

def testWriteFromGprs (e : Hardware) (c : Compiled) (k : Nat) (ioregsel : BitVec 8) :
    Char × BitVec 8 :=
  let ioregsel := mmioWriteFrom .ebx e (c.around k) ioregsel 0x05
  let v := mmioReadIoregsel e (c.around (k + 1)) ioregsel
  if v ≠ 0x05 then ('f', ioregsel)
  else
    let ioregsel := mmioWriteFrom .ecx e (c.around (k + 2)) ioregsel 0x0A
    let v := mmioReadIoregsel e (c.around (k + 3)) ioregsel
    if v ≠ 0x0A then ('f', ioregsel) else ('F', ioregsel)

def stcBlock (fb fa : Reg32) : List Ins :=
  [.stc, .pushfd, .pop fb, .stc, .readIowin .eax, .pushfd, .pop fa]

def xorBlock (fa : Reg32) : List Ins := [.xor .eax .eax, .readIowin .eax, .pushfd, .pop fa]

def testBlock (fa : Reg32) : List Ins :=
  [.mov .eax 0x80000000, .test .eax .eax, .readIowin .eax, .pushfd, .pop fa]

def testEflagsPreservation (e : Hardware) (c : Compiled) (k : Nat) (ioregsel : BitVec 8) :
    Char × BitVec 8 :=
  let ioregsel := mmioWriteIoregsel e (c.around k) ioregsel ioapicVerIdx
  let s := runAsm e (c.around (k + 1)) ioregsel (stcBlock c.fb c.fa)
  let flags_before := s.gpr c.fb
  let flags_after := s.gpr c.fa
  if flags_after &&& 0x01 ≠ flags_before &&& 0x01 then ('g', s.ioregsel)
  else
    let s := runAsm e (c.around (k + 2)) s.ioregsel (xorBlock c.fa)
    if s.gpr c.fa &&& 0x40 = 0 then ('g', s.ioregsel)
    else
      let s := runAsm e (c.around (k + 3)) s.ioregsel (testBlock c.fa)
      if s.gpr c.fa &&& 0x80 = 0 then ('g', s.ioregsel) else ('G', s.ioregsel)

def testEspPreservation (e : Hardware) (c : Compiled) (k : Nat) (ioregsel : BitVec 8) :
    Char × BitVec 8 :=
  let ioregsel := mmioWriteIoregsel e (c.around k) ioregsel ioapicVerIdx
  let s := runAsm e (c.around (k + 1)) ioregsel [.save 0 .esp, .readIowin .eax, .save 1 .esp]
  (if s.out 0 = s.out 1 then 'H' else 'h', s.ioregsel)

/-- The loop of test I with so many iterations left. -/
def multiCycle (e : Hardware) (c : Compiled) : Nat → Nat → BitVec 8 → Char
  | 0, _, _ => 'I'
  | n + 1, k, ioregsel =>
      match testGprPreservation e c k ioregsel with
      | (letter, ioregsel) => if letter ≠ 'A' then 'i' else multiCycle e c n (k + 2) ioregsel

def testMultiCycle (e : Hardware) (c : Compiled) (k : Nat) (ioregsel : BitVec 8) : Char :=
  multiCycle e c 16 k ioregsel

/-- `c_main`: what it sends. -/
def cMain (e : Hardware) (c : Compiled) (ioregsel : BitVec 8) : Str :=
  let ioregsel := mmioWriteIoregsel e (c.around 0) ioregsel ioapicVerIdx
  let ref := mmioRead .eax e (c.around 1) ioregsel
  let (a, ioregsel) := testGprPreservation e c 2 ioregsel
  let (b, ioregsel) := testSetEax e c 4 ioregsel ref
  let (c', ioregsel) := testSetEbx e c 6 ioregsel ref
  let (d, ioregsel) := testSetEcx e c 8 ioregsel ref
  let (e', ioregsel) := testSetEdx e c 10 ioregsel ref
  let (f, ioregsel) := testWriteFromGprs e c 12 ioregsel
  let (g, ioregsel) := testEflagsPreservation e c 16 ioregsel
  let (h, ioregsel) := testEspPreservation e c 20 ioregsel
  let i := testMultiCycle e c 22 ioregsel
  [a, b, c', d, e', f, g, h, i] ++ lit " REGS_OK\r\n"

/-- The emulator as far as the flags go. -/
def Hardware.mmio (e : Hardware) : Mmio where
  eflags _ := e.eflags
  data _ := e.window 1

/-- The contexts from block `k` on, by the registers of test G. -/
def Compiled.cpu (c : Compiled) (k j : Nat) : Cpu where
  eflags := (c.around (k + j)).eflags
  gpr
    | .eax => (c.around (k + j)).gpr .eax
    | .fb => (c.around (k + j)).gpr c.fb
    | .fa => (c.around (k + j)).gpr c.fa
  esp := (c.around (k + j)).gpr .esp
  stack := (c.around (k + j)).stack

/-! ## An exact emulator -/

/-- The registers that are read into. -/
def destinations : List Reg32 := [.eax, .ebx, .ecx, .edx]

section Exact

variable {e : Hardware} (h : ∀ d ∈ destinations, e.maps.Exact Word d)

include h

theorem transparent : e.maps.Transparent :=
  Maps.transparent_of_exact (d := .eax) (e := .ebx) (by decide) (h _ (by decide))
    (h _ (by decide))

theorem view_destination {r : Reg32} (hr : r ∈ destinations) (g : Reg32 → Word) :
    e.maps.view g r = g r :=
  (transparent h).view_self (Maps.exact_iff.mp (h r hr)).1 g

theorem cycle_destination {d : Reg32} (hd : d ∈ destinations) (g : Reg32 → Word) (v : Word) :
    e.maps.cycle (fun g => Function.update g d v) g = Function.update g d v :=
  h d hd g v

theorem mmioRead_eq {d : Reg32} (hd : d ∈ destinations) (c : Context) (ioregsel : BitVec 8) :
    mmioRead d e c ioregsel = e.window ioregsel := by
  simp [mmioRead, runAsm, Ins.exec, cycle_destination h hd]

theorem mmioWriteFrom_eq {r : Reg32} (hr : r ∈ destinations) (c : Context)
    (ioregsel : BitVec 8) (val : Word) : mmioWriteFrom r e c ioregsel val = val.setWidth 8 := by
  simp [mmioWriteFrom, runAsm, Ins.exec, view_destination h hr, Context.input]

theorem mmioReadIoregsel_eq (c : Context) (ioregsel : BitVec 8) :
    mmioReadIoregsel e c ioregsel = ioregsel.setWidth 32 := by
  simp [mmioReadIoregsel, runAsm, Ins.exec, cycle_destination h (d := .eax) (by decide)]

theorem testGprPreservation_eq (c : Compiled) (k : Nat) (ioregsel : BitVec 8) :
    testGprPreservation e c k ioregsel = ('A', 1) := by
  have hsel : mmioWriteIoregsel e (c.around k) ioregsel ioapicVerIdx = 1 :=
    mmioWriteFrom_eq h (by decide) _ _ _
  simp [testGprPreservation, hsel, runAsm, gprBlock, Ins.exec,
    cycle_destination h (d := .eax) (by decide)]

theorem testSet_eq {d : Reg32} (hd : d ∈ destinations) (pass fail : Char) (c : Compiled)
    (k : Nat) (ioregsel : BitVec 8) :
    testSet d pass fail e c k ioregsel (e.window 1) = (pass, 1) := by
  have hsel : mmioWriteIoregsel e (c.around k) ioregsel ioapicVerIdx = 1 :=
    mmioWriteFrom_eq h (by decide) _ _ _
  simp [testSet, hsel, mmioRead_eq h hd]

theorem testWriteFromGprs_eq (c : Compiled) (k : Nat) (ioregsel : BitVec 8) :
    testWriteFromGprs e c k ioregsel = ('F', 0x0A) := by
  simp [testWriteFromGprs, mmioWriteFrom_eq h (r := .ebx) (by decide),
    mmioWriteFrom_eq h (r := .ecx) (by decide), mmioReadIoregsel_eq h]

theorem testEspPreservation_eq (c : Compiled) (k : Nat) (ioregsel : BitVec 8) :
    testEspPreservation e c k ioregsel = ('H', 1) := by
  have hsel : mmioWriteIoregsel e (c.around k) ioregsel ioapicVerIdx = 1 :=
    mmioWriteFrom_eq h (by decide) _ _ _
  simp [testEspPreservation, hsel, runAsm, Ins.exec,
    cycle_destination h (d := .eax) (by decide)]

theorem multiCycle_eq (c : Compiled) (n k : Nat) (ioregsel : BitVec 8) :
    multiCycle e c n k ioregsel = 'I' := by
  induction n generalizing k ioregsel with
  | zero => rfl
  | succ n ih =>
      rw [multiCycle, testGprPreservation_eq h]
      simpa using ih (k + 2) 1

theorem run_stcBlock (c : Compiled) (around : Context) (ioregsel : BitVec 8) :
    let s := runAsm e around ioregsel (stcBlock c.fb c.fa)
    s.gpr c.fb = (around.eflags.set .CF true).pushed ∧
      s.gpr c.fa = (e.eflags ((around.eflags.set .CF true).set .CF true)).pushed ∧
      s.ioregsel = ioregsel := by
  obtain ⟨hb, hbs⟩ := c.fb_free
  simp [runAsm, stcBlock, Ins.exec, cycle_destination h (d := .eax) (by decide), hb, hbs,
    c.distinct, Function.update_of_ne]

theorem run_xorBlock (fa : Reg32) (around : Context) (ioregsel : BitVec 8) :
    let s := runAsm e around ioregsel (xorBlock fa)
    s.gpr fa = (e.eflags (around.eflags.put (around.eflags.flags.ofLogic .dword 0))).pushed ∧
      s.ioregsel = ioregsel := by
  simp [runAsm, xorBlock, Ins.exec, cycle_destination h (d := .eax) (by decide)]

theorem run_testBlock (fa : Reg32) (around : Context) (ioregsel : BitVec 8) :
    let s := runAsm e around ioregsel (testBlock fa)
    s.gpr fa
        = (e.eflags (around.eflags.put (around.eflags.flags.ofLogic .dword 0x80000000))).pushed ∧
      s.ioregsel = ioregsel := by
  simp [runAsm, testBlock, Ins.exec, cycle_destination h (d := .eax) (by decide)]

/-- Test G is then what it is with an emulator that preserves the registers. -/
theorem testEflagsPreservation_agrees (c : Compiled) (k : Nat) (ioregsel : BitVec 8) :
    testEflagsPreservation e c k ioregsel
      = ((QemuTest.testEflagsPreservation e.mmio (c.cpu (k + 1))).1, 1) := by
  have hsel : mmioWriteIoregsel e (c.around k) ioregsel ioapicVerIdx = 1 :=
    mmioWriteFrom_eq h (by decide) _ _ _
  obtain ⟨hfb, hfa, hs⟩ := run_stcBlock h c (c.around (k + 1)) 1
  obtain ⟨hfa', hs'⟩ := run_xorBlock h c.fa (c.around (k + 2)) 1
  obtain ⟨hfa'', hs''⟩ := run_testBlock h c.fa (c.around (k + 3)) 1
  -- the same blocks on the smaller machine
  obtain ⟨hfb₀, hfa₀, hreads⟩ := QemuTest.run_stcBlock e.mmio (c.cpu (k + 1))
  have hone : [readOf e.mmio (c.cpu (k + 1)) 0].length = 1 := rfl
  obtain ⟨hfa₁, hreads'⟩ := QemuTest.run_xorBlock e.mmio (c.cpu (k + 1)) hone
  have htwo : ([readOf e.mmio (c.cpu (k + 1)) 0] ++ [readOf e.mmio (c.cpu (k + 1)) 1]).length
      = 2 := rfl
  obtain ⟨hfa₂, -⟩ := QemuTest.run_testBlock e.mmio (c.cpu (k + 1)) htwo
  simp only [testEflagsPreservation, hsel, hfb, hfa, hs, hfa', hs', hfa'', hs'',
    QemuTest.testEflagsPreservation, hfb₀, hfa₀, hreads, hfa₁, hreads', hfa₂]
  have h0 : (readOf e.mmio (c.cpu (k + 1)) 0).after
      = e.eflags (((c.around (k + 1)).eflags.set .CF true).set .CF true) := rfl
  have h1 : (readOf e.mmio (c.cpu (k + 1)) 1).after = e.eflags
      ((c.around (k + 2)).eflags.put ((c.around (k + 2)).eflags.flags.ofLogic .dword 0)) := rfl
  have h2 : (readOf e.mmio (c.cpu (k + 1)) 2).after = e.eflags ((c.around (k + 3)).eflags.put
      ((c.around (k + 3)).eflags.flags.ofLogic .dword 0x80000000)) := rfl
  have hc : (c.cpu (k + 1) 0).eflags = (c.around (k + 1)).eflags := rfl
  simp only [h0, h1, h2, hc]
  split
  · rfl
  split
  · rfl
  split <;> rfl

end Exact

/-! ## What passes -/

/-- The flags that are looked at survive where they are looked at: carry when it
was set, zero and sign when a logical operation set them. -/
structure KeepsFlags (f : Eflags → Eflags) : Prop where
  carry : ∀ w : Eflags, w.get .CF = true → (f w).get .CF = true
  zero : ∀ w : Eflags, (f (w.put (w.flags.ofLogic .dword 0))).get .ZF = true
  sign : ∀ w : Eflags, (f (w.put (w.flags.ofLogic .dword 0x80000000))).get .SF = true

/-- `test_mmio_regs` finds its text in the output. -/
def Passes (e : Hardware) : Prop :=
  ∀ (c : Compiled) (ioregsel : BitVec 8),
    (ExpectedOutput.SubString (lit "ABCDEFGHI REGS_OK")).matches (cMain e c ioregsel) = true

section

variable (e : Hardware) (c : Compiled) (ioregsel : BitVec 8)

theorem mmioRead_cycle (d : Reg32) (around : Context) :
    mmioRead d e around ioregsel
      = if e.maps.store d = d then e.window ioregsel
        else around.gpr (e.maps.load (e.maps.store d)) := by
  simp only [mmioRead, runAsm, List.foldl_cons, List.foldl_nil, Ins.exec, Maps.cycle_update]

theorem mmioWriteFrom_view (r : Reg32) (around : Context) (val : Word) :
    mmioWriteFrom r e around ioregsel val
      = (if e.maps.load r = r then val else around.gpr (e.maps.load r)).setWidth 8 := by
  simp only [mmioWriteFrom, runAsm, List.foldl_cons, List.foldl_nil, Ins.exec, Context.input,
    Maps.view, Function.update_apply]

/-- The registers in front of the read of test A. -/
def loaded (g : Reg32 → Word) : Reg32 → Word
  | .eax => g .eax
  | .esp => g .esp
  | r => magic r

theorem loaded_eq (g : Reg32 → Word) :
    Function.update (Function.update (Function.update (Function.update (Function.update
      (Function.update g .ebx (magic .ebx)) .ecx (magic .ecx)) .edx (magic .edx))
      .esi (magic .esi)) .edi (magic .edi)) .ebp (magic .ebp) = loaded g := by
  funext r
  cases r <;> simp [loaded]

/-- Test A is about the six registers. -/
theorem testGprPreservation_iff (k : Nat) :
    (testGprPreservation e c k ioregsel).1 = 'A' ↔
      ∀ r ∈ bystanders, e.maps.cycle (fun g => Function.update g .eax
        (e.window (mmioWriteIoregsel e (c.around k) ioregsel ioapicVerIdx)))
          (loaded (c.around (k + 1)).gpr) r = magic r := by
  simp only [testGprPreservation, runAsm, gprBlock, List.foldl_cons, List.foldl_nil, Ins.exec,
    loaded_eq]
  simp [bystanders]
  grind

/-- The letters that are sent. -/
def letters : List Char :=
  let ioregsel := mmioWriteIoregsel e (c.around 0) ioregsel ioapicVerIdx
  let ref := mmioRead .eax e (c.around 1) ioregsel
  let a := testGprPreservation e c 2 ioregsel
  let b := testSetEax e c 4 a.2 ref
  let c' := testSetEbx e c 6 b.2 ref
  let d := testSetEcx e c 8 c'.2 ref
  let e' := testSetEdx e c 10 d.2 ref
  let f := testWriteFromGprs e c 12 e'.2
  let g := testEflagsPreservation e c 16 f.2
  let h := testEspPreservation e c 20 g.2
  [a.1, b.1, c'.1, d.1, e'.1, f.1, g.1, h.1, testMultiCycle e c 22 h.2]

theorem cMain_eq : cMain e c ioregsel = letters e c ioregsel ++ lit " REGS_OK\r\n" := rfl

theorem testSet_ne {d : Reg32} {pass fail : Char} (hpass : pass ≠ 'A') (hfail : fail ≠ 'A')
    (k : Nat) (ref : Word) : (testSet d pass fail e c k ioregsel ref).1 ≠ 'A' := by
  simp only [testSet]
  split
  · exact hpass
  · exact hfail

theorem multiCycle_ne (n k : Nat) : multiCycle e c n k ioregsel ≠ 'A' := by
  induction n generalizing k ioregsel with
  | zero => simp [multiCycle]
  | succ n ih =>
      rw [multiCycle]
      split
      split
      · decide
      · exact ih _ _

/-- Only the first letter can be `A`. -/
theorem notMem_tail : 'A' ∉ (letters e c ioregsel).tail := by
  have hf : ∀ sel, (testWriteFromGprs e c 12 sel).1 ≠ 'A' := by
    intro sel
    simp only [testWriteFromGprs]
    split
    · simp
    · split <;> simp
  have hg : ∀ sel, (testEflagsPreservation e c 16 sel).1 ≠ 'A' := by
    intro sel
    simp only [testEflagsPreservation]
    split
    · simp
    · split
      · simp
      · split <;> simp
  have hh : ∀ sel, (testEspPreservation e c 20 sel).1 ≠ 'A' := by
    intro sel
    simp only [testEspPreservation]
    split <;> simp
  simp only [letters, List.tail_cons, List.mem_cons, List.not_mem_nil, or_false, not_or]
  exact ⟨(testSet_ne e c _ (by decide) (by decide) _ _).symm,
    (testSet_ne e c _ (by decide) (by decide) _ _).symm,
    (testSet_ne e c _ (by decide) (by decide) _ _).symm,
    (testSet_ne e c _ (by decide) (by decide) _ _).symm, (hf _).symm, (hg _).symm, (hh _).symm,
    (multiCycle_ne e c _ _ _).symm⟩

/-- The text is found where all letters are upper case. -/
theorem matches_iff : (ExpectedOutput.SubString (lit "ABCDEFGHI REGS_OK")).matches
    (cMain e c ioregsel) = true ↔ letters e c ioregsel = lit "ABCDEFGHI" := by
  have hlen : (letters e c ioregsel).length = 9 := rfl
  rw [ExpectedOutput.matches, contains_iff, cMain_eq]
  constructor
  · rintro ⟨pre, post, heq⟩
    cases pre with
    | nil =>
        have hsplit : lit "ABCDEFGHI REGS_OK" = lit "ABCDEFGHI" ++ lit " REGS_OK" := by
          simp [lit]
        rw [List.nil_append, hsplit, List.append_assoc] at heq
        exact (List.append_inj heq (by rw [hlen]; simp [lit])).1.symm
    | cons x pre =>
        have htail : 'A' ∈ (letters e c ioregsel ++ lit " REGS_OK\r\n").tail := by
          rw [← heq]
          simp [lit]
        rw [List.tail_append_of_ne_nil (by rw [← List.length_pos_iff, hlen]; decide),
          List.mem_append] at htail
        rcases htail with htail | htail
        · exact absurd htail (notMem_tail e c ioregsel)
        · simp [lit] at htail
  · intro heq
    rw [heq]
    exact ⟨[], lit "\r\n", by simp [lit]⟩

end

/-- Test G on an exact emulator, by its flags. -/
theorem testEflagsPreservation_iff {e : Hardware}
    (h : ∀ d ∈ destinations, e.maps.Exact Word d) (c : Compiled) (k : Nat)
    (ioregsel : BitVec 8) :
    (testEflagsPreservation e c k ioregsel).1 = 'G' ↔
      (e.eflags (((c.around (k + 1)).eflags.set .CF true).set .CF true)).get .CF = true ∧
      (e.eflags ((c.around (k + 2)).eflags.put
        ((c.around (k + 2)).eflags.flags.ofLogic .dword 0))).get .ZF = true ∧
      (e.eflags ((c.around (k + 3)).eflags.put
        ((c.around (k + 3)).eflags.flags.ofLogic .dword 0x80000000))).get .SF = true := by
  rw [testEflagsPreservation_agrees h, QemuTest.testEflagsPreservation_eq]
  have h0 : (readOf e.mmio (c.cpu (k + 1)) 0).after
      = e.eflags (((c.around (k + 1)).eflags.set .CF true).set .CF true) := rfl
  have h1 : (readOf e.mmio (c.cpu (k + 1)) 1).after = e.eflags
      ((c.around (k + 2)).eflags.put ((c.around (k + 2)).eflags.flags.ofLogic .dword 0)) := rfl
  have h2 : (readOf e.mmio (c.cpu (k + 1)) 2).after = e.eflags ((c.around (k + 3)).eflags.put
      ((c.around (k + 3)).eflags.flags.ofLogic .dword 0x80000000)) := rfl
  rw [h0, h1, h2]
  generalize (e.eflags (((c.around (k + 1)).eflags.set .CF true).set .CF true)).get .CF = cf
  generalize (e.eflags ((c.around (k + 2)).eflags.put
    ((c.around (k + 2)).eflags.flags.ofLogic .dword 0))).get .ZF = zf
  generalize (e.eflags ((c.around (k + 3)).eflags.put
    ((c.around (k + 3)).eflags.flags.ofLogic .dword 0x80000000))).get .SF = sf
  cases cf <;> cases zf <;> cases sf <;> simp

/-! ## An emulator that passes -/

/-- Compiled code that leaves these registers and flags in front of its blocks. -/
def Compiled.leaving (gpr : Nat → Reg32 → Word) (eflags : Nat → Eflags) : Compiled where
  around k := ⟨gpr k, eflags k, fun _ => 0⟩
  fb := .ebx
  fa := .ecx
  distinct := by decide
  fb_free := by decide
  fa_free := by decide

section Passes

variable {e : Hardware} (hpass : ∀ c ioregsel, letters e c ioregsel = lit "ABCDEFGHI")

include hpass

/-- What each test finds, with some index register. -/
theorem found (c : Compiled) (ioregsel : BitVec 8) :
    let ref := mmioRead .eax e (c.around 1)
      (mmioWriteIoregsel e (c.around 0) ioregsel ioapicVerIdx)
    (∃ sel, (testGprPreservation e c 2 sel).1 = 'A') ∧
    (∃ sel, (testSetEax e c 4 sel ref).1 = 'B') ∧
    (∃ sel, (testSetEbx e c 6 sel ref).1 = 'C') ∧
    (∃ sel, (testSetEcx e c 8 sel ref).1 = 'D') ∧
    (∃ sel, (testSetEdx e c 10 sel ref).1 = 'E') ∧
    (∃ sel, (testEflagsPreservation e c 16 sel).1 = 'G') ∧
    ∃ sel, (testEspPreservation e c 20 sel).1 = 'H' := by
  have h := hpass c ioregsel
  have hlit : lit "ABCDEFGHI" = ['A', 'B', 'C', 'D', 'E', 'F', 'G', 'H', 'I'] := by simp [lit]
  simp only [hlit, letters, List.cons.injEq, and_true] at h
  obtain ⟨ha, hb, hc, hd, he, -, hg, hh, -⟩ := h
  exact ⟨⟨_, ha⟩, ⟨_, hb⟩, ⟨_, hc⟩, ⟨_, hd⟩, ⟨_, he⟩, ⟨_, hg⟩, ⟨_, hh⟩⟩

/-- EAX is stored from itself: else the reference is what some register holds,
and that can be another the next time. -/
theorem store_eax : e.maps.store .eax = .eax := by
  by_contra hne
  let c := Compiled.leaving (fun k _ => if k = 1 then 0 else 1) fun _ => 2
  obtain ⟨-, ⟨sel, hb⟩, -⟩ := found hpass c 0
  simp [testSetEax, testSet, mmioRead_cycle, hne, c, Compiled.leaving] at hb

/-- EAX is loaded from itself: else the index of the reference is what some register
holds. -/
theorem load_eax (hwindow : e.window 0 ≠ e.window 1) : e.maps.load .eax = .eax := by
  by_contra hne
  let c := Compiled.leaving (fun k _ => if k = 0 then 1 else 0) fun _ => 2
  obtain ⟨-, ⟨sel, hb⟩, -⟩ := found hpass c 0
  simp [testSetEax, testSet, mmioRead_cycle, store_eax hpass, mmioWriteIoregsel,
    mmioWriteFrom_view, hne, c, Compiled.leaving] at hb
  exact hwindow hb

/-- The index register is what is written, so the reference is the version. -/
theorem select_version (hwindow : e.window 0 ≠ e.window 1) (around : Context)
    (ioregsel : BitVec 8) : mmioWriteIoregsel e around ioregsel ioapicVerIdx = 1 := by
  rw [mmioWriteIoregsel, mmioWriteFrom_view, if_pos (load_eax hpass hwindow)]
  rfl

theorem ref_version (hwindow : e.window 0 ≠ e.window 1) (c : Compiled) (ioregsel : BitVec 8) :
    mmioRead .eax e (c.around 1) (mmioWriteIoregsel e (c.around 0) ioregsel ioapicVerIdx)
      = e.window 1 := by
  rw [mmioRead_cycle, if_pos (store_eax hpass), select_version hpass hwindow]

omit hpass in
theorem store_of_testSet {d : Reg32} {pass fail : Char} {k : Nat} (hne : fail ≠ pass)
    (hselect : ∀ around ioregsel, mmioWriteIoregsel e around ioregsel ioapicVerIdx = 1)
    (h : ∀ c, ∃ sel, (testSet d pass fail e c k sel (e.window 1)).1 = pass) :
    e.maps.store d = d := by
  by_contra hd
  let c := Compiled.leaving (fun _ _ => e.window 1 + 1) fun _ => 2
  obtain ⟨sel, hc⟩ := h c
  simp [testSet, mmioRead_cycle, hselect, hd, c, Compiled.leaving, hne] at hc

/-- What is read into is stored from itself. -/
theorem store_destination (hwindow : e.window 0 ≠ e.window 1) {d : Reg32}
    (hd : d ∈ destinations) : e.maps.store d = d := by
  have hselect := select_version hpass hwindow
  have hfound := fun c => found hpass c 0
  simp only [ref_version hpass hwindow] at hfound
  simp only [destinations, List.mem_cons, List.not_mem_nil, or_false] at hd
  rcases hd with rfl | rfl | rfl | rfl
  · exact store_eax hpass
  · exact store_of_testSet (by decide) hselect fun c => (hfound c).2.2.1
  · exact store_of_testSet (by decide) hselect fun c => (hfound c).2.2.2.1
  · exact store_of_testSet (by decide) hselect fun c => (hfound c).2.2.2.2.1

/-- Each bystander comes back: its value is no other's, and not the version's. -/
theorem load_store_bystander (hwindow : e.window 0 ≠ e.window 1)
    (hversion : e.window 1 &&& 0xff00ff00 = 0) {r : Reg32} (hr : r ∈ bystanders) :
    e.maps.load (e.maps.store r) = r := by
  let c := Compiled.leaving (fun _ _ => 0) fun _ => 2
  obtain ⟨⟨sel, ha⟩, -⟩ := found hpass c 0
  have hkept := (testGprPreservation_iff e c sel 2).mp ha r hr
  rw [select_version hpass hwindow, Maps.cycle_update] at hkept
  have hreserved : ∀ r ∈ bystanders, magic r &&& 0xff00ff00 ≠ 0 := by decide
  have hunique : ∀ r ∈ bystanders, ∀ q, loaded (fun _ => 0) q = magic r → q = r := by
    intro r hr q
    revert r
    cases q <;> decide
  split at hkept
  · exact absurd (hkept ▸ hversion) (hreserved r hr)
  · exact hunique r hr _ hkept

theorem load_store_esp (hwindow : e.window 0 ≠ e.window 1) :
    e.maps.load (e.maps.store .esp) = .esp := by
  let c := Compiled.leaving (fun _ r => if r = .esp then e.window 1 + 1 else e.window 1)
    fun _ => 2
  obtain ⟨-, -, -, -, -, -, sel, hh⟩ := found hpass c 0
  by_contra hne
  simp [testEspPreservation, runAsm, Ins.exec, select_version hpass hwindow, Maps.cycle_update,
    hne, c, Compiled.leaving] at hh

/-- The flags of one block are those of any. -/
theorem keepsFlags (hexact : ∀ d ∈ destinations, e.maps.Exact Word d) :
    KeepsFlags e.eflags := by
  have hflags : ∀ w : Eflags,
      (e.eflags ((w.set .CF true).set .CF true)).get .CF = true ∧
      (e.eflags (w.put (w.flags.ofLogic .dword 0))).get .ZF = true ∧
      (e.eflags (w.put (w.flags.ofLogic .dword 0x80000000))).get .SF = true := by
    intro w
    obtain ⟨-, -, -, -, -, ⟨sel, hg⟩, -⟩ :=
      found hpass (Compiled.leaving (fun _ _ => 0) fun _ => w) 0
    have hkept := (testEflagsPreservation_iff hexact _ 16 sel).mp hg
    simpa only [Compiled.leaving] using hkept
  refine ⟨fun w hw => ?_, fun w => (hflags w).2.1, fun w => (hflags w).2.2⟩
  have hcarry := (hflags w).1
  rwa [Eflags.set_of_get hw, Eflags.set_of_get hw] at hcarry

end Passes

/-! ## The result -/

/-- **What the test verifies**: an emulator passes, whatever the compiled code
around the blocks is, iff an emulated read into EAX, EBX, ECX or EDX changes
that register alone, whatever the registers hold, and the flags looked at are
kept. -/
theorem passes_iff (e : Hardware) (hwindow : e.window 0 ≠ e.window 1)
    (hversion : e.window 1 &&& 0xff00ff00 = 0) :
    Passes e ↔ (∀ d ∈ destinations, e.maps.Exact Word d) ∧ KeepsFlags e.eflags := by
  unfold Passes
  simp only [matches_iff]
  constructor
  · intro hpass
    have htransparent : e.maps.Transparent := by
      intro r
      cases r with
      | eax => rw [store_eax hpass, load_eax hpass hwindow]
      | esp => exact load_store_esp hpass hwindow
      | _ => exact load_store_bystander hpass hwindow hversion (by decide)
    have hexact : ∀ d ∈ destinations, e.maps.Exact Word d := fun d hd =>
      htransparent.exact (store_destination hpass hwindow hd)
    exact ⟨hexact, keepsFlags hpass hexact⟩
  · rintro ⟨h, hflags⟩ c ioregsel
    have hselect : ∀ around ioregsel, mmioWriteIoregsel e around ioregsel ioapicVerIdx = 1 :=
      fun _ _ => mmioWriteFrom_eq h (by decide) _ _ _
    have hg : ∀ sel, (testEflagsPreservation e c 16 sel).1 = 'G' := fun sel =>
      (testEflagsPreservation_iff h c 16 sel).mpr
        ⟨hflags.carry _ (by simp [Eflags.get_set]), hflags.zero _, hflags.sign _⟩
    have heax : (Reg32.eax) ∈ destinations := by decide
    have hebx : (Reg32.ebx) ∈ destinations := by decide
    have hecx : (Reg32.ecx) ∈ destinations := by decide
    have hedx : (Reg32.edx) ∈ destinations := by decide
    simp only [letters, hselect, mmioRead_eq h heax, testGprPreservation_eq h, testSetEax,
      testSetEbx, testSetEcx, testSetEdx, testSet_eq h heax, testSet_eq h hebx,
      testSet_eq h hecx, testSet_eq h hedx, testWriteFromGprs_eq h, hg,
      testEspPreservation_eq h, testMultiCycle, multiCycle_eq h]
    simp [lit]

/-- An emulator whose names of ESI and EDI are each other's, both ways. -/
def swapped : Hardware where
  maps := ⟨Equiv.swap .esi .edi, Equiv.swap .esi .edi⟩
  eflags := id
  window i := if i = 1 then 0x170020 else 0

/-- An emulator that swaps registers nothing is read into passes. -/
theorem passes_swapped : Passes swapped := by
  have hzero : swapped.window 0 ≠ swapped.window 1 := by decide
  have hversion : swapped.window 1 &&& 0xff00ff00 = 0 := by decide
  refine (passes_iff swapped hzero hversion).mpr ⟨?_, ?_⟩
  · intro d hd
    refine Maps.exact_iff.mpr ⟨?_, fun r => ?_⟩
    · revert hd
      cases d <;> decide
    · revert hd
      cases d <;> cases r <;> decide
  · exact ⟨fun w hw => hw, fun w => by simp [swapped, Eflags.get_put, Flags.get, Flags.ofLogic],
      fun w => by simp [swapped, Eflags.get_put, Flags.get, Flags.ofLogic, Width.sign,
        Width.bytes]⟩

end QemuTest.MmioRegs

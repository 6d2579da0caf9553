import QemuTest.Lib.X86.Eflags

/-!
# MmioRegs

`test_eflags_preservation` of `mmio_regs.c`: three blocks of inline assembly,
each of which sets some flags, reads the I/O APIC and saves the flags, with
one flag looked at behind each.

The read is emulated, and what the emulator does to the flags is a parameter
(`Mmio`). The compiled code around the blocks is one too: it leaves any flags
and registers in front of a block. `testEflagsPreservation_eq` is the one fact
about the function, `eflags_detects_iff` says for which emulators it keeps
what its comment promises.
-/

namespace QemuTest

open X86

/-! ## The blocks -/

/-- The registers of a block: EAX and those picked for its operands. -/
inductive Gpr where
  | eax | fb | fa
  deriving DecidableEq, Repr

inductive AsmInstr where
  | stc
  | pushfd
  | pop (d : Gpr)
  | mov (d : Gpr) (v : BitVec 32)
  | xor (d s : Gpr)
  | test (a b : Gpr)
  | movIowin (d : Gpr)
  deriving DecidableEq, Repr

/-- The processor; the stack by the addresses of its words. -/
structure Cpu where
  eflags : Eflags
  gpr : Gpr → BitVec 32
  esp : BitVec 32
  stack : BitVec 32 → BitVec 32

/-- A read cycle: the flags before it and after it. -/
structure Read where
  before : Eflags
  after : Eflags
  deriving DecidableEq

/-- An emulated read: by the number of the cycle, what it does to the flags
and what it reads. Everything else is preserved. -/
structure Mmio where
  eflags : Nat → Eflags → Eflags
  data : Nat → BitVec 32

/-- One instruction, with the read cycles so far. -/
def AsmInstr.exec (m : Mmio) : Cpu × List Read → AsmInstr → Cpu × List Read
  | (s, reads), .stc => ({ s with eflags := s.eflags.set .CF true }, reads)
  | (s, reads), .pushfd =>
      ({ s with
        esp := s.esp - 4
        stack := Function.update s.stack (s.esp - 4) s.eflags.pushed }, reads)
  | (s, reads), .pop d =>
      ({ s with
        esp := s.esp + 4
        gpr := Function.update s.gpr d (s.stack s.esp) }, reads)
  | (s, reads), .mov d v => ({ s with gpr := Function.update s.gpr d v }, reads)
  | (s, reads), .xor d r =>
      let v := s.gpr d ^^^ s.gpr r
      ({ s with
        gpr := Function.update s.gpr d v
        eflags := s.eflags.put (s.eflags.flags.ofLogic .dword (v.setWidth 64)) }, reads)
  | (s, reads), .test a b =>
      let v := s.gpr a &&& s.gpr b
      ({ s with
        eflags := s.eflags.put (s.eflags.flags.ofLogic .dword (v.setWidth 64)) }, reads)
  | (s, reads), .movIowin d =>
      let after := m.eflags reads.length s.eflags
      ({ s with
        gpr := Function.update s.gpr d (m.data reads.length)
        eflags := after }, reads ++ [⟨s.eflags, after⟩])

def runBlock (m : Mmio) (block : List AsmInstr) (s : Cpu) (reads : List Read) :
    Cpu × List Read :=
  block.foldl (AsmInstr.exec m) (s, reads)

/-! ## The function -/

/-- Carry set, before and after. -/
def stcBlock : List AsmInstr :=
  [.stc, .pushfd, .pop .fb, .stc, .movIowin .eax, .pushfd, .pop .fa]

/-- Zero set. -/
def xorBlock : List AsmInstr :=
  [.xor .eax .eax, .movIowin .eax, .pushfd, .pop .fa]

/-- Sign set. -/
def testBlock : List AsmInstr :=
  [.mov .eax 0x80000000, .test .eax .eax, .movIowin .eax, .pushfd, .pop .fa]

/-- The function, and the read cycles of its blocks. `around` is the processor
as the compiled code leaves it in front of each block. -/
def testEflagsPreservation (m : Mmio) (around : Nat → Cpu) : Char × List Read :=
  let first := runBlock m stcBlock (around 0) []
  let flags_before := first.1.gpr .fb
  let flags_after := first.1.gpr .fa
  if flags_after &&& 0x01 ≠ flags_before &&& 0x01 then ('g', first.2)
  else
    let second := runBlock m xorBlock (around 1) first.2
    let flags_after := second.1.gpr .fa
    if flags_after &&& 0x40 = 0 then ('g', second.2)
    else
      let third := runBlock m testBlock (around 2) second.2
      let flags_after := third.1.gpr .fa
      if flags_after &&& 0x80 = 0 then ('g', third.2)
      else ('G', third.2)

/-! ## What it promises -/

/-- The flags the comment names. -/
def documentedFlags : List Status := [.CF, .ZF, .SF, .OF, .PF]

/-- The cycle changed one of them. -/
def Read.Changes (r : Read) : Prop := ∃ f ∈ documentedFlags, r.after.get f ≠ r.before.get f

instance (r : Read) : Decidable r.Changes := inferInstanceAs (Decidable (∃ f ∈ _, _))

/-- The test tells an emulator that changes a documented flag at a read of the
blocks from one that changes none. -/
def Detects (m : Mmio) (around : Nat → Cpu) : Prop :=
  ((∃ r ∈ (testEflagsPreservation m around).2, r.Changes) →
    (testEflagsPreservation m around).1 = 'g') ∧
  ((∀ r ∈ (testEflagsPreservation m around).2, ¬ r.Changes) →
    (testEflagsPreservation m around).1 = 'G')

instance (m : Mmio) (around : Nat → Cpu) : Decidable (Detects m around) :=
  inferInstanceAs (Decidable (_ ∧ _))

/-! ## When it keeps the promise -/

/-- The flags that stand in front of the read of each block. -/
def atRead (around : Nat → Cpu) : Nat → Eflags
  | 0 => ((around 0).eflags.set .CF true).set .CF true
  | 1 => (around 1).eflags.put ((around 1).eflags.flags.ofLogic .dword 0)
  | _ => (around 2).eflags.put ((around 2).eflags.flags.ofLogic .dword 0x80000000)

def readOf (m : Mmio) (around : Nat → Cpu) (k : Nat) : Read :=
  ⟨atRead around k, m.eflags k (atRead around k)⟩

/-- What is looked at: carry at the first read, zero at the second, sign at the
third. -/
def watched : Nat → Status
  | 0 => .CF
  | 1 => .ZF
  | _ => .SF

theorem run_stcBlock (m : Mmio) (around : Nat → Cpu) :
    (runBlock m stcBlock (around 0) []).1.gpr .fb = ((around 0).eflags.set .CF true).pushed ∧
    (runBlock m stcBlock (around 0) []).1.gpr .fa = (readOf m around 0).after.pushed ∧
    (runBlock m stcBlock (around 0) []).2 = [readOf m around 0] := by
  simp [runBlock, stcBlock, AsmInstr.exec, readOf, atRead]

theorem run_xorBlock (m : Mmio) (around : Nat → Cpu) {reads : List Read}
    (h : reads.length = 1) :
    (runBlock m xorBlock (around 1) reads).1.gpr .fa = (readOf m around 1).after.pushed ∧
    (runBlock m xorBlock (around 1) reads).2 = reads ++ [readOf m around 1] := by
  simp [runBlock, xorBlock, AsmInstr.exec, readOf, atRead, h]

theorem run_testBlock (m : Mmio) (around : Nat → Cpu) {reads : List Read}
    (h : reads.length = 2) :
    (runBlock m testBlock (around 2) reads).1.gpr .fa = (readOf m around 2).after.pushed ∧
    (runBlock m testBlock (around 2) reads).2 = reads ++ [readOf m around 2] := by
  simp [runBlock, testBlock, AsmInstr.exec, readOf, atRead, h]

/-- **The function**: it stops behind the first read that lost the flag looked
at there. -/
theorem testEflagsPreservation_eq (m : Mmio) (around : Nat → Cpu) :
    testEflagsPreservation m around =
      if (readOf m around 0).after.get .CF = false then ('g', [readOf m around 0])
      else if (readOf m around 1).after.get .ZF = false then
        ('g', [readOf m around 0, readOf m around 1])
      else if (readOf m around 2).after.get .SF = false then
        ('g', [readOf m around 0, readOf m around 1, readOf m around 2])
      else ('G', [readOf m around 0, readOf m around 1, readOf m around 2]) := by
  rw [testEflagsPreservation]
  obtain ⟨hfb, hfa, hreads⟩ := run_stcBlock m around
  simp only [hfb, hfa, hreads]
  have hone : [readOf m around 0].length = 1 := rfl
  obtain ⟨hfa', hreads'⟩ := run_xorBlock m around hone
  simp only [hfa', hreads']
  have htwo : ([readOf m around 0] ++ [readOf m around 1]).length = 2 := rfl
  obtain ⟨hfa'', hreads''⟩ := run_testBlock m around htwo
  simp only [hfa'', hreads'']
  -- carry was set when the flags were saved before the read
  have hcarry : (readOf m around 0).after.pushed &&& 0x01 ≠
      ((around 0).eflags.set .CF true).pushed &&& 0x01 ↔
        (readOf m around 0).after.get .CF = false := by
    rw [Eflags.and_bit _ .CF (v := 0x01) rfl, Eflags.and_bit _ .CF (v := 0x01) rfl,
      Eflags.get_pushed, Eflags.get_pushed, Eflags.get_set, if_pos rfl]
    cases (readOf m around 0).after.get .CF <;> simp
  simp only [hcarry, Eflags.and_bit_eq_zero _ .ZF (v := 0x40) rfl,
    Eflags.and_bit_eq_zero _ .SF (v := 0x80) rfl, Eflags.get_pushed]
  rfl

/-- The flag looked at is one of the documented ones, and set in front of the
read: a loss is a change. -/
theorem changes_of_watched (m : Mmio) (around : Nat → Cpu) (k : Nat)
    (h : (readOf m around k).after.get (watched k) = false) :
    (readOf m around k).Changes := by
  refine ⟨watched k, ?_, ?_⟩
  · match k with
    | 0 => simp [watched, documentedFlags]
    | 1 => simp [watched, documentedFlags]
    | _ + 2 => simp [watched, documentedFlags]
  · rw [h]
    have hset : (readOf m around k).before.get (watched k) = true := by
      match k with
      | 0 => simp [readOf, atRead, watched, Eflags.get_set]
      | 1 => simp [readOf, atRead, watched, Eflags.get_put, Flags.get, Flags.ofLogic]
      | _ + 2 => simp [readOf, atRead, watched, Eflags.get_put, Flags.get, Flags.ofLogic,
          Width.sign, Width.bytes]
    simp [hset]

theorem not_changes_iff (m : Mmio) (around : Nat → Cpu) (k : Nat) :
    ¬ (readOf m around k).Changes ↔
      ∀ f ∈ documentedFlags, (m.eflags k (atRead around k)).get f = (atRead around k).get f := by
  simp [Read.Changes, readOf]

/-- A failure behind a read that changed a flag is right. -/
theorem detects_of_fail {m : Mmio} {around : Nat → Cpu} {reads : List Read} {r : Read}
    (heq : testEflagsPreservation m around = ('g', reads)) (hr : r ∈ reads) (hc : r.Changes) :
    Detects m around := by
  rw [Detects, heq]
  exact ⟨fun _ => rfl, fun hnone => absurd hc (hnone r hr)⟩

/-- A success is right if no read changed a flag. -/
theorem detects_iff_of_pass {m : Mmio} {around : Nat → Cpu} {reads : List Read}
    (heq : testEflagsPreservation m around = ('G', reads)) :
    Detects m around ↔ ∀ r ∈ reads, ¬ r.Changes := by
  rw [Detects, heq]
  constructor
  · rintro ⟨hfail, -⟩ r hr hc
    exact absurd (hfail ⟨r, hr, hc⟩) (by simp)
  · exact fun hnone => ⟨fun ⟨r, hr, hc⟩ => absurd hc (hnone r hr), fun _ => rfl⟩

/-- **When the test detects**: an emulator is told right if it loses a flag
where that one is looked at (carry at the first read, zero at the second, sign
at the third), or changes no documented flag at any read. -/
theorem eflags_detects_iff (m : Mmio) (around : Nat → Cpu) :
    Detects m around ↔
      (∃ k < 3, (m.eflags k (atRead around k)).get (watched k) = false) ∨
      ∀ k < 3, ∀ f ∈ documentedFlags,
        (m.eflags k (atRead around k)).get f = (atRead around k).get f := by
  have heq := testEflagsPreservation_eq m around
  by_cases h0 : (readOf m around 0).after.get .CF = false
  · rw [if_pos h0] at heq
    have hdet := detects_of_fail heq (by simp) (changes_of_watched m around 0 h0)
    exact ⟨fun _ => .inl ⟨0, by omega, h0⟩, fun _ => hdet⟩
  rw [if_neg h0] at heq
  by_cases h1 : (readOf m around 1).after.get .ZF = false
  · rw [if_pos h1] at heq
    have hdet := detects_of_fail heq (by simp) (changes_of_watched m around 1 h1)
    exact ⟨fun _ => .inl ⟨1, by omega, h1⟩, fun _ => hdet⟩
  rw [if_neg h1] at heq
  by_cases h2 : (readOf m around 2).after.get .SF = false
  · rw [if_pos h2] at heq
    have hdet := detects_of_fail heq (by simp) (changes_of_watched m around 2 h2)
    exact ⟨fun _ => .inl ⟨2, by omega, h2⟩, fun _ => hdet⟩
  rw [if_neg h2] at heq
  rw [detects_iff_of_pass heq]
  -- none of the flags looked at is lost, so all is left to the others
  have hkept : ¬ ∃ k < 3, (m.eflags k (atRead around k)).get (watched k) = false := by
    rintro ⟨k, hk, hlost⟩
    match k with
    | 0 => exact h0 hlost
    | 1 => exact h1 hlost
    | 2 => exact h2 hlost
  constructor
  · intro hnone
    refine .inr fun k hk => (not_changes_iff m around k).mp (hnone _ ?_)
    match k with
    | 0 => simp
    | 1 => simp
    | 2 => simp
  · rintro (hlost | hsame) r hr
    · exact absurd hlost hkept
    · simp only [List.mem_cons, List.not_mem_nil, or_false] at hr
      rcases hr with rfl | rfl | rfl
      · exact (not_changes_iff m around 0).mpr (hsame 0 (by omega))
      · exact (not_changes_iff m around 1).mpr (hsame 1 (by omega))
      · exact (not_changes_iff m around 2).mpr (hsame 2 (by omega))

/-- An emulator that loses parity at every read. -/
def losesParity : Mmio where
  eflags _ w := w.set .PF false
  data _ := 0x170011

/-- A processor with its stack pointer at the top of the stack. -/
def idleCpu : Cpu where
  eflags := 2
  gpr _ := 0
  esp := 0xf000
  stack _ := 0

/-- An emulator that loses parity passes. -/
theorem not_detects_losesParity : ¬ Detects losesParity fun _ => idleCpu := by
  decide

end QemuTest

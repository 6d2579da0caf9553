import QemuTest.Asm.PioStrOutput
import QemuTest.Process.PollFinds
import QemuTest.Tests.Migration

/-!
# Tests — GuestBin

The tests of `basic.rs` that boot a guest binary and look for a line of its
output, and what the first of them that tests an accelerator finds out:
`test_pio_str_guest_bin` succeeds on a guest exactly when both crossings of a
page boundary go where the page tables say (`pio_str_verdict`).
-/

namespace QemuTest

open Text Lines Utf8 Runs
open X86 (Byte Memory byteAt)

/-! ## The tests -/

/-- What a test of a guest binary meets. -/
structure GuestBinWorld where
  tmp_dir : Bool
  write : Bool
  spawn : Bool
  status : Bool
  log : List UInt8
  ticks : List Tick

/-- What these tests have in common. -/
def guestBinTest (expected : ExpectedOutput) (context : Str) (w : GuestBinWorld) :
    TestM Unit := do
  attempt w.tmp_dir (lit "failed to create temp dir")
  attempt w.write (lit "failed to write guest binary")
  attempt w.spawn (lit "failed to spawn QEMU process")
  attempt w.status (lit "query_status failed")
  let _ ← (pollLineMatchTimeout expected defaultTimeout w.ticks (.new w.log)).toTest context

def testSimpleGuestBin : GuestBinWorld → TestM Unit :=
  guestBinTest (.SubString (lit "HELLO FROM GUEST")) (lit "expected output not found")

def pioStrPrefix : Nat := 13
def pioStrWriteD : Nat := 2
def pioStrWriteC : Nat := 2
def pioStrSuffix : Nat := 16
def pioStrReadX : Nat := 2
def pioStrReadY : Nat := 2

/-- The text of the pattern, behind its `^`. -/
def pioStrText : Str :=
  List.replicate pioStrPrefix 'A' ++ List.replicate pioStrWriteD 'D'
    ++ List.replicate pioStrWriteC 'C' ++ List.replicate pioStrSuffix 'A'
    ++ List.replicate pioStrReadX 'X' ++ List.replicate pioStrReadY 'Y'
    ++ lit "HELLO VIA OUTSB"

def testPioStrGuestBin : GuestBinWorld → TestM Unit :=
  guestBinTest (.Pattern pioStrText.isPrefixOf)
    (lit "page-crossing read_memory/write_memory verification failed")

def testMmioGuestBin : GuestBinWorld → TestM Unit :=
  guestBinTest (.SubString (lit "ABCDE MMIO_OK")) (lit "MMIO emulation test failed")

def testPioVmport : GuestBinWorld → TestM Unit :=
  guestBinTest (.SubString (lit "ABC VMPORT_OK")) (lit "VMPort PIO dirty-flag test failed")

def testMmioRegs : GuestBinWorld → TestM Unit :=
  guestBinTest (.SubString (lit "ABCDEFGHI REGS_OK")) (lit "MMIO register test failed")

section

variable {expected : ExpectedOutput} {context : Str} {w : GuestBinWorld}

/-- A test that succeeds was returned a line of the log, or what read errors
left of one. -/
theorem line_of_guestBinTest (h : (guestBinTest expected context w).run = some (.ok ())) :
    ∃ bs l, expected.matches (fromUtf8Lossy bs) = true ∧ bs.Sublist l ∧
      l ∈ lines newline w.log := by
  simp only [guestBinTest, bind_run] at h
  obtain ⟨_, -, _, -, _, -, _, -, line, hline, -⟩ := h
  obtain ⟨hm, bs, l, rfl, hbs, hl⟩ := pollLoop_line expected defaultTimeout
    (List.Sublist.refl []) List.not_mem_nil (toTest_run hline)
  exact ⟨bs, l, hm, hbs, hl⟩

/-- Nothing but the guest can fail, and the log is polled in time behind `sent`. -/
structure GuestBinWorld.Uneventful (w : GuestBinWorld) (sent : List UInt8) : Prop where
  starts : w.tmp_dir = true ∧ w.write = true ∧ w.spawn = true ∧ w.status = true
  polled : Prompt defaultTimeout w.log w.ticks sent

/-- The characters of a text can be looked at one after the other. -/
theorem ascii_of_all {text : Str}
    (h : (text.all fun c => c.toNat != 0 && decide (c.toNat < 0x80)) = true) :
    ∀ c ∈ text, c.toNat ≠ 0 ∧ c.toNat < 0x80 := by
  intro c hc
  have hchar := List.all_eq_true.mp h c hc
  simpa using hchar

/-- A line that was sent is found. -/
theorem guestBinTest_accepts {sent : List UInt8} (hw : w.Uneventful sent)
    (hex : ∃ l ∈ lines newline sent, expected.matches (fromUtf8Lossy l) = true) :
    (guestBinTest expected context w).run = some (.ok ()) := by
  obtain ⟨hdir, hwrite, hspawn, hstatus⟩ := hw.starts
  obtain ⟨l, -, -, hfound⟩ := hw.polled.finds hex
  have hstep : ∀ {ok : Bool}, ok = true → ∀ context, (attempt ok context).run = some (.ok ()) := by
    rintro ok rfl context
    rfl
  have hpoll : ((pollLineMatchTimeout expected defaultTimeout w.ticks (.new w.log)).toTest
      context).run = some (.ok (fromUtf8Lossy l)) := by
    rw [PollRun.toTest, hfound]
    rfl
  exact bind_run.mpr ⟨(), hstep hdir _, bind_run.mpr ⟨(), hstep hwrite _,
    bind_run.mpr ⟨(), hstep hspawn _, bind_run.mpr ⟨(), hstep hstatus _,
    bind_run.mpr ⟨_, hpoll, rfl⟩⟩⟩⟩⟩

end

/-! ## Verdicts -/

open X86.Protected

section

variable {C D σ : Type} [DecidableEq C] (P : Program C D) (L : Layout D) (H : Host D σ)
  (test : GuestBinWorld → TestM Unit) (c : Cached σ)

/-- The guest comes to a state from which on the test succeeds. -/
def GuestAccepted : Prop :=
  Leads (Goes (step P L H)) (fun d => ∀ w : GuestBinWorld,
    w.Uneventful (serialFile d.log) → (test w).run = some (.ok ())) c

/-- Whenever the test looks at what the guest has sent, it does not succeed. -/
def GuestRejected : Prop :=
  ∀ es d, Run (Goes (step P L H)) c es d → ∀ w : GuestBinWorld,
    w.log = serialFile d.log → (test w).run ≠ some (.ok ())

end

/-! ## Crossing pages -/

open Asm32.PioStr

/-- The accelerator crosses both boundaries: what it writes in the state `s₁`
shows where the page tables have it, with the buffer around it as it was, and
what it reads in the state `s₃` is the double word that lies there. -/
structure Asm32.PioStr.Accel.Crosses (A : Accel) (s₁ s₃ : State Word) : Prop where
  write : ∀ k < 33, A.writeMemory s₁ insdTarget pciCfgVal (phys (outputStart + k))
    = if 13 ≤ k ∧ k < 17 then byteAt pciCfgVal (k - 13) else 0x41
  read : A.latch (A.readMemory s₃ outsdSrc) = outsdVal

/-- The line the test waits for. -/
def pioStrLine : List Byte :=
  List.replicate 13 0x41 ++ [0x44, 0x44, 0x43, 0x43] ++ List.replicate 16 0x41
    ++ [0x58, 0x58, 0x59, 0x59] ++ marker

theorem pioStrLine_eq : pioStrLine = ((List.range 33).map fun k =>
    if 13 ≤ k ∧ k < 17 then byteAt pciCfgVal (k - 13) else 0x41)
      ++ (List.range 4).map (byteAt outsdVal) ++ marker := by
  decide

/-- The line the test looks for is sent just when both boundaries are crossed. -/
theorem sentLine_eq_iff {A : Accel} {s₁ s₃ : State Word} :
    A.sentLine s₁ s₃ = pioStrLine ↔ A.Crosses s₁ s₃ := by
  have hmap : ∀ {f g : Nat → Byte} {n : Nat}, (List.range n).map f = (List.range n).map g ↔
      ∀ k < n, f k = g k := by
    intro f g n
    rw [List.map_inj_left]
    exact ⟨fun h k hk => h k (List.mem_range.mpr hk), fun h k hk => h k (List.mem_range.mp hk)⟩
  rw [pioStrLine_eq, Accel.sentLine, line, List.append_left_inj]
  constructor
  · intro h
    obtain ⟨hwrite, hread⟩ := List.append_inj h (by simp)
    exact ⟨hmap.mp hwrite, X86.ext_bytes (n := 4) (hmap.mp hread)⟩
  · intro h
    rw [hmap.mpr h.write, h.read]

theorem serialFile_injective : Function.Injective serialFile :=
  Function.Injective.list_map fun _ _ h => congrArg UInt8.toBitVec h

/-- What is to be computed: the text is what the line shows before its end, and
has neither character of that; the line is one, and is found. -/
theorem pioStrText_shown : asciiBytes pioStrText = serialFile (pioStrLine.take 52) ∧
    (pioStrText.all fun c => c.toNat != 0 && decide (c.toNat < 0x80)) = true ∧
    0x0d ∉ serialFile (pioStrLine.take 52) ∧ newline ∉ serialFile (pioStrLine.take 52) ∧
    serialFile pioStrLine ∈ lines newline (serialFile (List.replicate 1 pioStrLine).flatten) ∧
    (ExpectedOutput.Pattern pioStrText.isPrefixOf).matches
      (fromUtf8Lossy (serialFile pioStrLine)) = true := by
  decide +kernel

/-- What does not occur is not in a part. -/
theorem sublist_of_sublist_append {α : Type} {x : α} {l m : List α} (hx : x ∉ l)
    (h : l.Sublist (m ++ [x])) : l.Sublist m := by
  obtain ⟨l₁, l₂, rfl, h₁, h₂⟩ := List.sublist_append_iff.mp h
  rcases List.sublist_singleton.mp h₂ with rfl | rfl
  · rwa [List.append_nil]
  · exact absurd (List.mem_append_right _ (List.mem_singleton_self x)) hx

/-- **No other line is taken for it**: whatever bytes the accelerator put into
the line, the pattern matches a line of the log, or a part of one, only if they
are the expected ones. -/
theorem eq_pioStrLine_of_matches {w : Memory} {v : Word} {n : Nat} {bs l : List UInt8}
    (hm : (ExpectedOutput.Pattern pioStrText.isPrefixOf).matches (fromUtf8Lossy bs) = true)
    (hbs : bs.Sublist l)
    (hl : l ∈ lines newline (serialFile (List.replicate n (line w v)).flatten)) :
    line w v = pioStrLine := by
  obtain ⟨hbytes, hascii, hcr, hlf, -⟩ := pioStrText_shown
  have hsplit : serialFile (line w v)
      = serialFile ((line w v).take 52) ++ [0x0d] ++ [newline] := by
    rw [List.append_assoc]
    exact (congrArg serialFile (line_end w v)).trans (List.map_append ..)
  -- a line of the log lies within one copy
  have hcopy : l.Sublist (serialFile (line w v)) := by
    have hcopies : serialFile (List.replicate n (line w v)).flatten
        = (List.replicate n (serialFile (line w v))).flatten := by
      rw [serialFile, List.map_flatten, List.map_replicate]
      rfl
    rw [hcopies, hsplit] at hl
    rw [hsplit]
    exact mem_lines_sublist (mem_lines_replicate hl)
  have htext : (asciiBytes pioStrText).Sublist (serialFile (line w v)) := by
    have hprefix : pioStrText <+: fromUtf8Lossy bs := List.isPrefixOf_iff_prefix.mp hm
    exact ((asciiBytes_sublist (ascii_of_all hascii) hprefix.sublist).trans hbs).trans hcopy
  -- the text has no line end, and is as long as what is left
  rw [hbytes, hsplit] at htext
  have hshown : serialFile (pioStrLine.take 52) = serialFile ((line w v).take 52) := by
    refine List.Sublist.eq_of_length
      (sublist_of_sublist_append hcr (sublist_of_sublist_append hlf htext)) ?_
    rw [serialFile, serialFile, List.length_map, List.length_map, List.length_take,
      List.length_take, length_line]
    rfl
  rw [line_end, ← serialFile_injective hshown]
  rfl

section

variable {A : Accel} {L : Layout Data} {c : Cached Word} {s₁ s₃ : State Word}

def PioStrAccepts (A : Accel) (L : Layout Data) (c : Cached Word) : Prop :=
  GuestAccepted bootPioStr L A.host testPioStrGuestBin c

def PioStrRejects (A : Accel) (L : Layout Data) (c : Cached Word) : Prop :=
  GuestRejected bootPioStr L A.host testPioStrGuestBin c

theorem accepts_of_crosses (hsends : ∀ n, Leads (Goes (step bootPioStr L A.host))
    (fun d => d.log = (List.replicate n (A.sentLine s₁ s₃)).flatten) c)
    (h : A.Crosses s₁ s₃) : PioStrAccepts A L c := by
  obtain ⟨-, -, -, -, hline, hfound⟩ := pioStrText_shown
  obtain ⟨es, d, hrun, hd⟩ := hsends 1
  refine ⟨es, d, hrun, fun w hw => guestBinTest_accepts hw ?_⟩
  rw [hd, sentLine_eq_iff.mpr h]
  exact ⟨_, hline, hfound⟩

theorem rejects_of_not_crosses (hlog : c.log = [])
    (hsends : ∀ n, Leads (Goes (step bootPioStr L A.host))
      (fun d => d.log = (List.replicate n (A.sentLine s₁ s₃)).flatten) c)
    (h : ¬ A.Crosses s₁ s₃) : PioStrRejects A L c := by
  intro es d hrun w hw hok
  obtain ⟨bs, l, hm, hbs, hl⟩ := line_of_guestBinTest hok
  have hne : A.sentLine s₁ s₃ ≠ [] := by
    rw [Accel.sentLine, line_end]
    simp
  obtain ⟨n, hn⟩ := (sent hlog hne hsends hrun).1
  have hprefix : serialFile d.log <+: serialFile (List.replicate n (A.sentLine s₁ s₃)).flatten :=
    hn.map _
  rw [hw] at hl
  exact h (sentLine_eq_iff.mp
    (eq_pioStrLine_of_matches hm hbs ((lines_grow hprefix).subset hl)))

/-- **The verdict of `test_pio_str_guest_bin`**: the guest runs into two states
in which it asks the accelerator, and the test succeeds in the end if both page
boundaries are crossed there, and never if not, whatever the processor does with
its cached translations and whenever the line status says ready. -/
theorem pio_str_verdict (hA : A.Sane L) (hL : Fits L) (h : Boot L c.toState) (hc : c.Fresh) :
    ∃ s₁ s₃, Crossing A L c s₁ s₃ ∧ (A.Crosses s₁ s₃ → PioStrAccepts A L c) ∧
      (¬ A.Crosses s₁ s₃ → PioStrRejects A L c) := by
  obtain ⟨s₁, s₃, hcross, hsends⟩ := sends hA hL h hc
  exact ⟨s₁, s₃, hcross, accepts_of_crosses hsends, rejects_of_not_crosses h.log hsends⟩

/-- Of an accelerator that goes through the page tables. -/
theorem pio_str_verdict_translating : ∃ s₁ s₃,
    Crossing (.translating layout) layout booted s₁ s₃ ∧
      ((Accel.translating layout).Crosses s₁ s₃ →
        PioStrAccepts (.translating layout) layout booted) ∧
      (¬ (Accel.translating layout).Crosses s₁ s₃ →
        PioStrRejects (.translating layout) layout booted) :=
  pio_str_verdict
    ⟨keeps_latchAddress rfl, fun _ hs _ hy => (translates_translating layout).spares fits_layout hs hy⟩
    fits_layout boot_booted fresh_booted

/-! ## Accelerators that do, and that do not -/

theorem crosses_of_translates (hA : A.Translates L) (hkeeps : A.Keeps) (hL : Fits L)
    (h₁ : Insd L s₁) (h₃ : Outsd L (A.writeMemory s₁ insdTarget pciCfgVal) s₃) :
    A.Crosses s₁ s₃ where
  write k hk := by
    obtain ⟨m, hm, hout, hin⟩ := h₁.stored hL
    rw [hA.write _ _ _ _ hm]
    have hstart : outputStart = 0x10ff0 := rfl
    have htarget : insdTarget = outputStart + 13 := rfl
    have hbuffer : outputStart = buffer + 0xff0 := rfl
    split
    · next hmid =>
      obtain ⟨j, rfl⟩ := Nat.exists_eq_add_of_le hmid.1
      rw [← Nat.add_assoc, ← htarget, hin j (by omega), Nat.add_sub_cancel_left]
    · next hmid =>
      rw [hout _ fun j hj he => ?_, hbuffer, Nat.add_assoc, h₁.filled _ (by omega)]
      have := phys_inj (by omega) (by omega) (by omega) (by omega) he
      omega
  read := by
    rw [hA.read _ _ _ (h₃.loaded hL)]
    exact hkeeps outsdVal rfl rfl

/-- Behind the boundary lies another frame. -/
theorem not_crosses_of_store (h₁ : Insd L s₁) (h : A.writeMemory s₁ insdTarget pciCfgVal
    = s₁.mem.store insdTarget (n := 4) pciCfgVal) : ¬ A.Crosses s₁ s₃ := by
  intro hcross
  have hbyte := hcross.write 16 (by decide)
  have hphys : phys (outputStart + 16) = phys (buffer + 0x1000) := rfl
  have hframe : phys (buffer + 0x1000) = 0x31000 := by decide
  rw [h, X86.store_outside _ _ (by rw [hphys, hframe]; decide), hphys,
    h₁.filled 0x1000 (by decide)] at hbyte
  exact absurd hbyte (by decide)

theorem store_of_contiguous (hA : A.Contiguous) (hL : Fits L) (h₁ : Insd L s₁) :
    A.writeMemory s₁ insdTarget pciCfgVal = s₁.mem.store insdTarget (n := 4) pciCfgVal := by
  refine hA _ _ _ _ ?_
  have hbyte := h₁.toPaged.byte hL (a := insdTarget) (by decide) (by decide)
  exact (Option.filter_eq_some_iff.mp hbyte).1

theorem spares_store {m : Memory} {v : Word} {y : Nat} (hy : inUse y) :
    m.store insdTarget (n := 4) v y = m y := by
  refine X86.store_outside _ _ ?_
  simp only [inUse, pageDir] at hy
  simp only [insdTarget]
  omega

/-- **What the test is for**: an accelerator that goes through the page tables
is accepted; one that translates only the first byte of a write, or none, is
rejected, however it reads. -/
theorem pio_str_detects (hkeeps : A.Keeps) (hL : Fits L) (h : Boot L c.toState) (hc : c.Fresh) :
    (A.Translates L → PioStrAccepts A L c) ∧
      (A.Contiguous ∨ A.Untranslated → PioStrRejects A L c) := by
  constructor
  · intro hA
    have hsane : A.Sane L := ⟨hkeeps, fun s hs y hy => hA.spares hL hs hy⟩
    obtain ⟨s₁, s₃, hcross, hsends⟩ := sends hsane hL h hc
    exact accepts_of_crosses hsends (crosses_of_translates hA hkeeps hL hcross.insd hcross.outsd)
  · intro hA
    have hstore : ∀ s, Insd L s → A.writeMemory s insdTarget pciCfgVal
        = s.mem.store insdTarget (n := 4) pciCfgVal := fun s hs =>
      hA.elim (fun hA => store_of_contiguous hA hL hs) fun hA => hA s _ _
    have hsane : A.Sane L := ⟨hkeeps, fun s hs y hy => by rw [hstore s hs, spares_store hy]⟩
    obtain ⟨s₁, s₃, hcross, hsends⟩ := sends hsane hL h hc
    exact rejects_of_not_crosses h.log hsends
      (not_crosses_of_store hcross.insd (hstore s₁ hcross.insd))

/-- The accelerator that translates both ways is accepted, the contiguous one
rejected. -/
theorem pio_str_detects_contiguous : PioStrAccepts (.translating layout) layout booted ∧
    PioStrRejects (.contiguous layout) layout booted :=
  ⟨(pio_str_detects (keeps_latchAddress rfl) fits_layout boot_booted fresh_booted).1
      (translates_translating layout),
    (pio_str_detects (keeps_latchAddress rfl) fits_layout boot_booted fresh_booted).2
      (.inl (contiguous_contiguous layout))⟩

end

end QemuTest

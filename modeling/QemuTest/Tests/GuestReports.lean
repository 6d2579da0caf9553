import QemuTest.Asm.BootGuest
import QemuTest.Asm.BootPioVmport
import QemuTest.Tests.GuestBin

/-!
# Tests — GuestReports

The verdicts of the tests that look for a text in what the guest sends. That of
`test_simple_guest_bin` can always be awaited (`simple_guest_accepted`);
`test_pio_vmport`, whose guest sends one report and halts, succeeds just when the
registers that the command handler changed have reached the processor
(`vmport_verdict`).
-/

namespace QemuTest

open Text Lines Utf8 Runs
open X86 (Byte)
open X86.Protected

/-! ## Reports -/

section

variable {C D σ : Type} [DecidableEq C] {P : Program C D} {L : Layout D} {H : Host D σ}
  {text context : Str} {report : List Byte} {c : Cached σ}

/-- A report with the text in one of its lines. -/
theorem accepted_of_report (hsends : Leads (Goes (step P L H)) (fun d => d.log = report) c)
    (hex : ∃ l ∈ lines newline (serialFile report),
      (ExpectedOutput.SubString text).matches (fromUtf8Lossy l) = true) :
    GuestAccepted P L H (guestBinTest (.SubString text) context) c := by
  obtain ⟨es, d, hrun, hd⟩ := hsends
  refine ⟨es, d, hrun, fun w hw => guestBinTest_accepts hw ?_⟩
  rw [hd]
  exact hex

/-- A report without its characters, in this order. -/
theorem rejected_of_report (hsent : ∀ es d, Run (Goes (step P L H)) c es d → d.log <+: report)
    (htext : ∀ x ∈ text, x.toNat ≠ 0 ∧ x.toNat < 0x80)
    (hno : ¬ (asciiBytes text).Sublist (serialFile report)) :
    GuestRejected P L H (guestBinTest (.SubString text) context) c := by
  intro es d hrun w hw hok
  obtain ⟨bs, l, hm, hbs, hl⟩ := line_of_guestBinTest hok
  have hshown : (asciiBytes text).Sublist bs := sublist_of_contains htext hm
  rw [hw] at hl
  refine hno (((hshown.trans hbs).trans (mem_lines_sublist hl)).trans ?_)
  exact (List.IsPrefix.map UInt8.ofBitVec (hsent es d hrun)).sublist

end

/-! ## The message -/

section

open Asm32.Simple

def expectedOutput : Str := lit "HELLO FROM GUEST"

theorem messageText_shown : ∃ l ∈ lines newline (serialFile messageText),
    (ExpectedOutput.SubString expectedOutput).matches (fromUtf8Lossy l) = true := by
  decide +kernel

variable {σ : Type} {H : Host Data σ} {L : Layout Data} {c d : Cached σ} {es : List Unit}

/-- **The verdict of `test_simple_guest_bin`**: whatever hypervisor there is, in
every state of every run nothing but the message has been sent, and the guest
comes to a state from which on the test succeeds. -/
theorem simple_guest_accepted (hL : Fits L) (h : Head L 0 c.toState) (hc : c.Fresh)
    (hrun : Run (Goes (step boot L H)) c es d) :
    (∃ n, d.log <+: (List.replicate n messageText).flatten) ∧
      GuestAccepted boot L H testSimpleGuestBin d := by
  refine ⟨sent hL h hc hrun, ?_⟩
  obtain ⟨n, hsends⟩ := onward hL h hc hrun
  refine accepted_of_report hsends ?_
  -- its first line is the message
  have hfirst : serialFile messageText
      <+: serialFile (List.replicate (n + 1) messageText).flatten := by
    rw [List.replicate_succ, List.flatten_cons]
    exact (List.prefix_append _ _).map _
  obtain ⟨l, hl, hfound⟩ := messageText_shown
  exact ⟨l, (lines_grow hfirst).subset hl, hfound⟩

/-- Of a guest that has sent its message once. -/
theorem simple_guest_accepted_sent :
    ∃ es d, Run (Goes (step boot layout Asm32.noDevices)) booted es d ∧ d.log = messageText ∧
      (∃ n, d.log <+: (List.replicate n messageText).flatten) ∧
      GuestAccepted boot layout Asm32.noDevices testSimpleGuestBin d := by
  obtain ⟨es, d, hrun, hd⟩ := sends fits_layout head_booted (Asm32.fresh_started _) 1
  refine ⟨es, d, hrun, ?_,
    simple_guest_accepted fits_layout head_booted (Asm32.fresh_started _) hrun⟩
  rw [hd, List.replicate_one, List.flatten_singleton]

end

/-! ## The command port -/

section

open Asm32.Vmport

def vmportText : Str := lit "ABC VMPORT_OK"

/-- What is to be computed: the report on three checks that passed is a line with
the text, and any other lacks a capital letter. -/
theorem vmportText_shown :
    (vmportText.all fun c => c.toNat != 0 && decide (c.toNat < 0x80)) = true ∧
    (∃ l ∈ lines newline (serialFile (report True True True)),
      (ExpectedOutput.SubString vmportText).matches (fromUtf8Lossy l) = true) ∧
    ∀ version ramsize kept : Bool, (version && ramsize && kept) = false →
      ¬ (asciiBytes vmportText).Sublist
        (serialFile (report (version = true) (ramsize = true) (kept = true))) := by
  decide +kernel

/-- A report on three checks one of which failed lacks a letter of the text. -/
theorem report_failed {version ramsize kept : Prop} [Decidable version] [Decidable ramsize]
    [Decidable kept] (h : ¬ (version ∧ ramsize ∧ kept)) :
    ¬ (asciiBytes vmportText).Sublist (serialFile (report version ramsize kept)) := by
  have hfailed := vmportText_shown.2.2 (decide version) (decide ramsize) (decide kept)
  simp only [report, decide_eq_true_eq] at hfailed
  refine hfailed ?_
  rw [← Bool.not_eq_true, Bool.and_eq_true, Bool.and_eq_true, decide_eq_true_eq,
    decide_eq_true_eq, decide_eq_true_eq, and_assoc]
  exact h

variable {σ : Type} {H : Host Data σ} {L : Layout Data} {c : Cached σ} {s₁ s₂ s₃ : State σ}

/-- What is left to show once the session is known. -/
theorem vmport_of_sends (hsends : Leads (Goes (step bootPioVmport L H))
      (fun d => Asm32.Halted bootPioVmport 44 d.toState ∧ d.log = sessionReport H s₁ s₂ s₃) c) :
    (Answered (told H s₁) (told H s₂) (told H s₃) →
        GuestAccepted bootPioVmport L H testPioVmport c) ∧
      (¬ Answered (told H s₁) (told H s₂) (told H s₃) →
        GuestRejected bootPioVmport L H testPioVmport c) := by
  constructor
  · intro h
    have hreport : sessionReport H s₁ s₂ s₃ = report True True True := by
      simp only [sessionReport, report, if_pos h.version, if_pos h.ramsize, if_pos h.kept, if_true]
    obtain ⟨es, d, hrun, -, hlog⟩ := hsends
    exact accepted_of_report ⟨es, d, hrun, hlog.trans hreport⟩ vmportText_shown.2.1
  · intro h
    refine rejected_of_report (fun es d hrun => sent hsends hrun) (ascii_of_all vmportText_shown.1)
      (report_failed ?_)
    rintro ⟨hversion, hramsize, hkept⟩
    exact h ⟨hversion, hramsize, hkept⟩

/-- **The verdict of `test_pio_vmport`**: the guest gives its three commands, in
states with the registers set up for them, and the test succeeds in the end if
what comes back is what they answer, and never if not. -/
theorem vmport_verdict (hH : KeepsEsp H) (hL : Fits L) (h : Boot L c.toState) (hc : c.Fresh) :
    ∃ s₁ s₂ s₃, Session H L c s₁ s₂ s₃ ∧
      (Answered (told H s₁) (told H s₂) (told H s₃) →
        GuestAccepted bootPioVmport L H testPioVmport c) ∧
      (¬ Answered (told H s₁) (told H s₂) (told H s₃) →
        GuestRejected bootPioVmport L H testPioVmport c) := by
  obtain ⟨s₁, s₂, s₃, hsession, hsends⟩ := sends hH hL h hc
  exact ⟨s₁, s₂, s₃, hsession, vmport_of_sends hsends⟩

/-- Of a hypervisor that writes back EAX only. -/
theorem vmport_verdict_stale : ∃ s₁ s₂ s₃,
    Session (copying vmportCommand (· = .eax)) layout booted s₁ s₂ s₃ ∧
      (Answered (told (copying vmportCommand (· = .eax)) s₁)
          (told (copying vmportCommand (· = .eax)) s₂)
          (told (copying vmportCommand (· = .eax)) s₃) →
        GuestAccepted bootPioVmport layout (copying vmportCommand (· = .eax)) testPioVmport
          booted) ∧
      (¬ Answered (told (copying vmportCommand (· = .eax)) s₁)
          (told (copying vmportCommand (· = .eax)) s₂)
          (told (copying vmportCommand (· = .eax)) s₃) →
        GuestRejected bootPioVmport layout (copying vmportCommand (· = .eax)) testPioVmport
          booted) :=
  vmport_verdict documented_vmportCommand.keepsEsp fits_layout boot_booted (Asm32.fresh_started _)

/-- **What the test is for**: of the hypervisors that run the handler on a copy
of the registers, those are accepted that write EBX back, and all others are
rejected, whatever else they write. -/
theorem vmport_detects {cmd : Gprs → Gprs} {written : Reg → Bool} (hcmd : Documented cmd)
    (hL : Fits L) (h : Boot L c.toState) (hc : c.Fresh) :
    (written .ebx = true →
        GuestAccepted bootPioVmport L (copying cmd written) testPioVmport c) ∧
      (written .ebx = false →
        GuestRejected bootPioVmport L (copying cmd written) testPioVmport c) := by
  obtain ⟨s₁, s₂, s₃, hsession, hsends⟩ := sends (H := copying cmd written) hcmd.keepsEsp hL h hc
  obtain ⟨haccepted, hrejected⟩ := vmport_of_sends hsends
  constructor
  · intro hebx
    refine haccepted ⟨?_, ?_, hcmd.keeps hsession.kept⟩
    · rw [told_copying, if_pos hebx]
      exact hcmd.version _ hsession.version.eax hsession.version.ecx
    · rw [told_copying, if_pos hebx]
      exact hcmd.ramsize _ hsession.ramsize.eax hsession.ramsize.ecx
  · intro hebx
    refine hrejected fun hanswered => ?_
    have hstale := hanswered.version
    rw [told_copying, hebx, if_neg Bool.false_ne_true, hsession.version.ebx] at hstale
    exact absurd hstale (by decide)

/-- The slip of the source's comment: only EAX is written back. -/
theorem vmport_detects_stale :
    GuestAccepted bootPioVmport layout (copying vmportCommand fun _ => true) testPioVmport booted ∧
      GuestRejected bootPioVmport layout (copying vmportCommand (· = .eax)) testPioVmport booted :=
  ⟨(vmport_detects documented_vmportCommand fits_layout boot_booted (Asm32.fresh_started _)).1 rfl,
    (vmport_detects documented_vmportCommand fits_layout boot_booted (Asm32.fresh_started _)).2 rfl⟩

end

end QemuTest

import QemuTest.Asm.FpSseUnseen
import QemuTest.Tests.IntactMigration

/-!
# Tests — UnseenLoss

The defect of the state tests: a verified register that is lost behind its
check, or in front of its reload, goes unseen (`migration_misses`, on each
payload). A destination that has lost nothing that is still to be looked at
reports success (`unseen`), and the test accepts the report. With that it is
known exactly when the tests detect a loss (`migration_detects`).
-/

namespace QemuTest

open Text Lines Utf8 Asm X86 Runs

-- the checks walk down the whole program
set_option maxRecDepth 20000

variable {p : StatePayload} {L : Layout p.guest.Data} {s₀ s d : State} {es : List Byte}

/-- Where the serial routine is called or at work, the address of its string
arrives. -/
def StatePayload.TextArrives (p : StatePayload) (s d : State) : Prop :=
  p.guest.program.fetch s.rip = some (.call (p.serial .serial_print)) ∨ p.body ≤ s.rip →
    d.gpr .rsi = s.gpr .rsi

/-! ## The report -/

theorem sends_scalar {n : Nat} (h : Scalar.sends n = true) :
    Scalar.program.fetch n = some (.call (.serial .serial_print)) ∨ Scalar.body ≤ n := by
  simp only [Scalar.sends, Bool.or_eq_true, decide_eq_true_eq] at h
  rcases h with ((rfl | rfl) | rfl) | h
  · exact .inl rfl
  · exact .inl rfl
  · exact .inl rfl
  · exact .inr h

theorem arrives_fpSse (hmig : fpSseGuest.Migrated s d) : FpSse.Arrives s d := by
  have hgpr : ∀ r, d.gpr r = s.gpr r := fun r => hmig.gpr (by cases r <;> decide)
  exact ⟨hgpr _, fun r _ => hgpr r⟩

/-- A destination that has lost nothing that is still to be looked at reports
success as the source does. -/
theorem payload_joined (hL : p.guest.Fits L) (h₀ : p.guest.Boot L s₀)
    (hclear : s₀.fpu.es = false) (hsrc : Run (p.guest.Step L) s₀ es s)
    (hmig : p.guest.Migrated s d) (hchecked : ¬ p.StillChecked L s d)
    (htext : p.TextArrives s d) : Joined p.guest L (msgLine p.okText) s d := by
  cases p with
  | avx2 =>
      exact Avx2.joined hL h₀ hsrc hmig fun j hne ha =>
        hchecked ⟨j, hne, ha, Avx2.arrives_of_migrated hmig⟩
  | scalar =>
      exact Scalar.joined hL h₀ hsrc hmig (fun r hr ha => hchecked ⟨r, hr, ha⟩)
        fun hsends => htext (sends_scalar hsends)
  | fp_sse =>
      exact FpSse.joined hL h₀ hclear hsrc hmig fun ha => hchecked ⟨ha, arrives_fpSse hmig⟩

/-! ## The test -/

/-- **A loss that is not looked at goes unseen**: the destination comes to a state
in which the test succeeds. -/
theorem unseen (hL : p.guest.Fits L) (h₀ : p.guest.Boot L s₀) (hclear : s₀.fpu.es = false)
    (hsrc : Run (p.guest.Step L) s₀ es s) (hmig : p.guest.Migrated s d)
    (hchecked : ¬ p.StillChecked L s d) (htext : p.TextArrives s d) :
    ∃ es t w, Run (p.guest.Step L) d es t ∧ w.dst.log = serialFile t.log ∧
      (p.test w).run = some (.ok ()) := by
  obtain ⟨fs, u, es', t, hu, ht, hlog, hend⟩ :=
    payload_joined hL h₀ hclear hsrc hmig hchecked htext
  obtain ⟨m, hm⟩ := (payload_rounds hL h₀ hclear).sent (msgLine_ne_nil _) h₀.log (hsrc.trans hu)
  rw [hlog] at hm
  obtain ⟨hparts, hmem⟩ := lines_of_part hm hend
  refine ⟨es', t, .attentive p.banner t.log, ht, rfl, ?_⟩
  exact accepted_of_lines hparts hmem [] (uneventful_attentive _ _) (prompt_attentive _ _)
    (prompt_attentive _ _)

theorem not_rejects (hL : p.guest.Fits L) (h₀ : p.guest.Boot L s₀) (hclear : s₀.fpu.es = false)
    (hsrc : Run (p.guest.Step L) s₀ es s) (hmig : p.guest.Migrated s d)
    (hchecked : ¬ p.StillChecked L s d) (htext : p.TextArrives s d) : ¬ p.Rejects L d := by
  intro hrej
  obtain ⟨es', t, w, ht, hw, hok⟩ := unseen hL h₀ hclear hsrc hmig hchecked htext
  exact hrej es' t ht w hw hok

/-! ## Where nothing is looked at any more -/

/-- The instruction behind the last check of a pass. -/
def StatePayload.report : StatePayload → Nat
  | .avx2 => Avx2.report
  | .scalar => Scalar.report
  | .fp_sse => FpSse.report

/-- The first pass gets behind the last check, with nothing sent but the ready
lines. -/
theorem pass_reaches (hL : p.guest.Fits L) (h₀ : p.guest.Boot L s₀)
    (hclear : s₀.fpu.es = false) : ∃ es s, Run (p.guest.Step L) s₀ es s ∧ s.rip = p.report ∧
      s.log = p.banner := by
  cases p with
  | avx2 =>
      obtain ⟨es, s, hrun, hs⟩ := ((Avx2.ready_gets hL Port.fair_prompt h₀).bind
        fun _ ht => Avx2.checks_gets hL ht).leads
      exact ⟨es, s, hrun, hs.rip, hs.log.trans (by simp [StatePayload.banner,
        StatePayload.bannerLines])⟩
  | scalar =>
      obtain ⟨es, s, hrun, hs⟩ := (Scalar.pass_gets hL Port.fair_prompt h₀).leads
      exact ⟨es, s, hrun, hs.rip, hs.log.trans (by simp [StatePayload.banner,
        StatePayload.bannerLines])⟩
  | fp_sse =>
      obtain ⟨es, s, hrun, hs⟩ := ((FpSse.ready_gets hL Port.fair_prompt h₀ hclear).bind
        fun _ ht => FpSse.checks_at hL ht).leads
      exact ⟨es, s, hrun, hs.rip, hs.log.trans (by simp [StatePayload.banner,
        StatePayload.bannerLines])⟩

theorem unchecked_report (hrip : s.rip = p.report) : ¬ p.StillChecked L s d := by
  cases p with
  | avx2 =>
      have hobs : ∀ j : Fin 16, Avx2.program.observedNext (.vec j) Avx2.report = none := by decide
      rintro ⟨j, -, ha | ha, -⟩
      · rw [hrip, show StatePayload.avx2.report = Avx2.report from rfl, hobs j] at ha
        cases ha
      · rw [hrip] at ha
        exact absurd ha.1 (by decide)
  | scalar =>
      have hobs : ∀ r ∈ Scalar.verifiedRegs,
          Scalar.program.observedNext (.gpr r) Scalar.report = none := by decide
      rintro ⟨r, hr, ha⟩
      have hnext := ha.next
      rw [hrip, show StatePayload.scalar.report = Scalar.report from rfl, hobs r hr] at hnext
      cases hnext
  | fp_sse =>
      have hobs : ∀ p ∈ FpSse.observed,
          FpSse.program.observedNext p FpSse.report = none := by decide
      rintro ⟨⟨p, hp, -, hnext⟩ | ⟨-, m, -, hhi, -⟩, -⟩
      · rw [hrip, show StatePayload.fp_sse.report = FpSse.report from rfl, hobs p hp] at hnext
        cases hnext
      · rw [hrip] at hhi
        simp only [StatePayload.report, FpSse.report, FpSse.fistpOf] at hhi
        omega

theorem textArrives_report (hrip : s.rip = p.report) : p.TextArrives s d := by
  rintro (hcall | hbody)
  · rw [hrip] at hcall
    cases p <;> exact absurd hcall (by decide)
  · rw [hrip] at hbody
    cases p <;> exact absurd hbody (by decide)

/-- **Behind the last check every loss goes unseen**: each payload gets there, and
whichever of the verified parts the destination has lost, the test succeeds. -/
theorem loss_unseen (p : StatePayload) {L : Layout p.guest.Data} (hL : p.guest.Fits L)
    (h₀ : p.guest.Boot L s₀) (hclear : s₀.fpu.es = false) :
    ∃ es s, Run (p.guest.Step L) s₀ es s ∧ s.log = p.banner ∧
      ∀ d, p.guest.Migrated s d → ¬ p.Rejects L d := by
  obtain ⟨es, s, hrun, hrip, hlog⟩ := pass_reaches hL h₀ hclear
  exact ⟨es, s, hrun, hlog, fun d hmig => not_rejects hL h₀ hclear hrun hmig
    (unchecked_report hrip) (textArrives_report hrip)⟩

/-! ## A failing run of each payload -/

namespace StatePayload

def layout : (p : StatePayload) → Layout p.guest.Data
  | .avx2 => Avx2.layout
  | .scalar => Scalar.layout
  | .fp_sse => FpSse.layout

def labels : (p : StatePayload) → List p.guest.Data
  | .avx2 => Avx2.labels
  | .scalar => Scalar.labels
  | .fp_sse => FpSse.labels

/-- The start, with the image in this layout. -/
def booted (p : StatePayload) : State := p.guest.start (p.guest.image p.layout p.labels)

/-- The state arrives, all but R12 or the first vector register. -/
def garbled : StatePayload → State → State
  | .scalar, s => Scalar.garbled s
  | .avx2, s | .fp_sse, s =>
      { s with vec := Function.update s.vec 0 (~~~ s.vec 0), log := [] }

theorem fits_layout : (p : StatePayload) → p.guest.Fits p.layout
  | .avx2 => Avx2.fits_layout
  | .scalar => Scalar.fits_layout
  | .fp_sse => FpSse.fits_layout

theorem mem_labels : (p : StatePayload) → ∀ x, x ∈ p.labels
  | .avx2 => Avx2.mem_labels
  | .scalar => Scalar.mem_labels
  | .fp_sse => FpSse.mem_labels

theorem boot_booted (p : StatePayload) : p.guest.Boot p.layout p.booted :=
  Guest.boot_start p.fits_layout p.mem_labels

/-- Where only the first vector register and the log are lost, every other part
arrives. -/
theorem kept_vec {q : Part} {s d : State} {x : Fin 16 → BitVec 256}
    (hd : d = { s with vec := x, log := [] }) (hx : ∀ j, j ≠ 0 → x j = s.vec j)
    (hq : q.overlaps (.vec 0) = false ∨ q.overlaps (.xmm 0) = false) (hlog : q ≠ .log) :
    q.agree s d := by
  subst hd
  cases q with
  | vec j =>
      refine hx j ?_
      rintro rfl
      simp [Part.overlaps] at hq
  | xmm j =>
      refine congrArg (BitVec.setWidth 128) (hx j ?_)
      rintro rfl
      simp [Part.overlaps] at hq
  | log => exact absurd rfl hlog
  | tags => exact ⟨rfl, rfl, rfl⟩
  | _ => rfl

theorem migrated_garbled (p : StatePayload) (s : State) : p.guest.Migrated s (p.garbled s) := by
  have hother : ∀ j : Fin 16, j ≠ 0 →
      Function.update s.vec 0 (~~~ s.vec 0) j = s.vec j := fun j hj => Function.update_of_ne hj _ _
  cases p with
  | avx2 => exact ⟨rfl, fun q hq => kept_vec rfl hother (.inl (hq _ (by decide))), rfl⟩
  | scalar => exact Scalar.migrated_garbled s
  | fp_sse => exact ⟨rfl, fun q hq => kept_vec rfl hother (.inr (hq _ (by decide))), rfl⟩

theorem differs_garbled (p : StatePayload) (s : State) : p.guest.Differs s (p.garbled s) := by
  have hlow : (~~~ s.vec 0).setWidth 128 ≠ (s.vec 0).setWidth 128 := fun h => by
    have hbit := congrArg (fun v : BitVec 128 => v.getLsbD 0) h
    simp at hbit
  have hupdate : Function.update s.vec 0 (~~~ s.vec 0) 0 = ~~~ s.vec 0 := Function.update_self ..
  cases p with
  | avx2 => exact ⟨.vec 0, by decide, fun h => hlow (congrArg _ (hupdate.symm.trans h))⟩
  | scalar => exact ⟨.gpr .r12, by decide, Scalar.garbled_ne s⟩
  | fp_sse =>
      exact ⟨.xmm 0, by decide, fun h => hlow ((congrArg _ hupdate.symm).trans h)⟩

/-- The test of the payload succeeds on a destination that has lost a register. -/
def Misses (p : StatePayload) : Prop :=
  p.guest.Fits p.layout ∧ p.guest.Boot p.layout p.booted ∧ ∃ es s,
    Run (p.guest.Step p.layout) p.booted es s ∧ s.rip = p.report ∧ s.log = p.banner ∧
      p.guest.Migrated s (p.garbled s) ∧ p.guest.Differs s (p.garbled s) ∧
      ¬ p.Rejects p.layout (p.garbled s)

theorem misses (p : StatePayload) : p.Misses := by
  obtain ⟨es, s, hrun, hrip, hlog⟩ := pass_reaches p.fits_layout p.boot_booted rfl
  have hmig := p.migrated_garbled s
  refine ⟨p.fits_layout, p.boot_booted, es, s, hrun, hrip, hlog, hmig, p.differs_garbled s, ?_⟩
  exact not_rejects p.fits_layout p.boot_booted rfl hrun hmig (unchecked_report hrip)
    (textArrives_report hrip)

end StatePayload

theorem migration_misses : StatePayload.avx2.Misses ∧ StatePayload.scalar.Misses ∧
    StatePayload.fp_sse.Misses :=
  ⟨StatePayload.misses _, StatePayload.misses _, StatePayload.misses _⟩

/-! ## Exactly what is detected -/

/-- **What the tests detect**: a loss that is still to be looked at, where what
the destination reads on the way arrives, and a text outside the mapped memory;
and of the destinations that get everything but verified parts, where the text
that is being sent arrives, no others. -/
theorem migration_detects (p : StatePayload) {L : Layout p.guest.Data} (hL : p.guest.Fits L)
    {s₀ s d : State} (h₀ : p.guest.Boot L s₀) {es : List Byte}
    (hsrc : Run (p.guest.Step L) s₀ es s) (hsw : Switched s d) :
    (p.StillChecked L s d ∨ p.Stranded L d → p.Rejects L d) ∧
      (s₀.fpu.es = false → p.guest.Migrated s d → p.TextArrives s d →
        (p.Rejects L d ↔ p.StillChecked L s d)) := by
  have hdetects := rejects_of_checked p hL h₀ hsrc hsw
  refine ⟨hdetects, fun hclear hmig htext => ⟨fun hrej => ?_, fun hcheck => hdetects (.inl hcheck)⟩⟩
  by_contra hchecked
  exact not_rejects hL h₀ hclear hsrc hmig hchecked htext hrej

/-- R12 lost between the load and the comparison is detected, and lost behind the
last check it is not. -/
theorem migration_detects_loaded :
    (∃ es s, Run (scalarGuest.Step Scalar.layout) Scalar.booted es s ∧
      s.log = msgLine StatePayload.scalar.readyLine ∧ scalarGuest.Migrated s (Scalar.garbled s) ∧
      (Scalar.garbled s).gpr .r12 ≠ s.gpr .r12 ∧
      StatePayload.scalar.Rejects Scalar.layout (Scalar.garbled s)) ∧
    ∃ es s, Run (scalarGuest.Step Scalar.layout) Scalar.booted es s ∧ s.rip = Scalar.report ∧
      scalarGuest.Migrated s (Scalar.garbled s) ∧
      ¬ StatePayload.scalar.Rejects Scalar.layout (Scalar.garbled s) := by
  constructor
  · obtain ⟨es, s, hrun, hs⟩ :=
      (Scalar.loads_gets Scalar.fits_layout Port.fair_prompt Scalar.boot_booted).leads
    have hmig := Scalar.migrated_garbled s
    refine ⟨es, s, hrun, hs.log, hmig, Scalar.garbled_ne s, ?_⟩
    refine (migration_detects .scalar Scalar.fits_layout Scalar.boot_booted hrun
      (hmig.switched (by decide))).1 (.inl ⟨.r12, by decide, Scalar.garbled_ne s, ?_, ?_, ?_⟩)
    · rw [hs.rip]
      decide
    · exact hmig.gpr (by decide)
    · intro _
      exact hmig.gpr (by decide)
  · obtain ⟨es, s, hrun, hrip, -⟩ :=
      pass_reaches (p := .scalar) Scalar.fits_layout Scalar.boot_booted rfl
    have hmig := Scalar.migrated_garbled s
    refine ⟨es, s, hrun, hrip, hmig, fun hrej => ?_⟩
    exact unchecked_report hrip (((migration_detects .scalar Scalar.fits_layout
      Scalar.boot_booted hrun (hmig.switched (by decide))).2 rfl hmig
        (textArrives_report hrip)).mp hrej)

end QemuTest

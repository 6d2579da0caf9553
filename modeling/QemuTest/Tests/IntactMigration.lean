import QemuTest.Asm.FpSsePass
import QemuTest.Asm.Rounds
import QemuTest.Process.PollFinds
import QemuTest.Tests.Migration

/-!
# Tests — IntactMigration

The other half of the state tests: no false alarm. A payload whose processor
keeps its state sends nothing but its ready lines and success lines
(`no_failure_line`), and a migration that carries all of the state over is
accepted, wherever the switch falls (`migration_accepts`).
-/

namespace QemuTest

open Text Lines Utf8 Asm X86 Runs

/-! ## What an undisturbed payload sends -/

/-- The lines a payload sends from where it is modelled to its loop. The AVX2
payload starts where AVX is enabled: `LM:OK` and `AVX:OK` stand in front. -/
def StatePayload.bannerLines : StatePayload → List String
  | .avx2 => ["YMM:LOADED", "AVX2:READY"]
  | .scalar => ["SCALAR:READY"]
  | .fp_sse => ["FPSSE:READY"]

def StatePayload.banner (p : StatePayload) : List Byte := (p.bannerLines.map msgLine).flatten

variable {p : StatePayload} {L : Layout p.guest.Data} {s₀ s : State} {es : List Byte}

theorem payload_rounds (hL : p.guest.Fits L) (h₀ : p.guest.Boot L s₀)
    (hclear : s₀.fpu.es = false) :
    Rounds p.guest.program L p.banner (msgLine p.okText) s₀ := by
  cases p with
  | avx2 =>
      have hbanner : StatePayload.avx2.banner
          = msgLine "YMM:LOADED" ++ msgLine "AVX2:READY" := by
        simp [StatePayload.banner, StatePayload.bannerLines]
      rw [hbanner]
      exact Avx2.rounds hL h₀
  | scalar =>
      have hbanner : StatePayload.scalar.banner = msgLine "SCALAR:READY" := by
        simp [StatePayload.banner, StatePayload.bannerLines]
      rw [hbanner]
      exact Scalar.rounds hL h₀
  | fp_sse =>
      have hbanner : StatePayload.fp_sse.banner = msgLine "FPSSE:READY" := by
        simp [StatePayload.banner, StatePayload.bannerLines]
      rw [hbanner]
      exact FpSse.rounds hL h₀ hclear

theorem msgLine_ne_nil (t : String) : msgLine t ≠ [] := by
  simp [msgLine]

/-- **No false alarm**: whatever the port answers, in every state of every run
a payload has sent its ready lines and then success lines, or a part of them. -/
theorem no_failure_line (hL : p.guest.Fits L) (h₀ : p.guest.Boot L s₀)
    (hclear : s₀.fpu.es = false) (hrun : Run (p.guest.Step L) s₀ es s) :
    ∃ m, s.log <+: p.banner ++ (List.replicate m (msgLine p.okText)).flatten :=
  (payload_rounds hL h₀ hclear).sent (msgLine_ne_nil _) h₀.log hrun

/-- When the scalar payload has loaded its registers. -/
theorem no_failure_line_loaded : ∃ es s, Run (scalarGuest.Step Scalar.layout) Scalar.booted es s ∧
    s.log = msgLine "SCALAR:READY" ∧ ∃ m, s.log <+: StatePayload.scalar.banner
      ++ (List.replicate m (msgLine StatePayload.scalar.okText)).flatten := by
  obtain ⟨es, s, hrun, hs⟩ :=
    (Scalar.loads_gets Scalar.fits_layout Port.fair_prompt Scalar.boot_booted).leads
  exact ⟨es, s, hrun, hs.log,
    no_failure_line (p := .scalar) Scalar.fits_layout Scalar.boot_booted rfl hrun⟩

/-! ## The lines of the log -/

/-- The lines a payload sends: its ready lines and its success line. -/
def StatePayload.sentLines (p : StatePayload) : List (List UInt8) :=
  (p.bannerLines ++ [p.okText]).map fun t => serialFile (msgLine t)

/-- What the test's last poll looks for. -/
def StatePayload.expected : StatePayload → ExpectedOutput
  | .avx2 => .SubString (lit "AVX2:OK")
  | .scalar => .SubString (lit "SCALAR:OK")
  | .fp_sse => .Pattern isFpSseDiagnostic

def StatePayload.timeout : StatePayload → Nat
  | .fp_sse => migrationTimeout
  | _ => defaultTimeout

theorem whole_line : ∀ l ∈ p.sentLines, ∃ l₀, l = l₀ ++ [newline] ∧ newline ∉ l₀ := by
  have hlast : ∀ l ∈ p.sentLines, l.getLast? = some newline ∧ newline ∉ l.dropLast := by
    cases p <;> decide +kernel
  intro l hl
  obtain ⟨hend, hnot⟩ := hlast l hl
  exact ⟨_, (List.dropLast_append_getLast? _ hend).symm, hnot⟩

/-- What is left of a line the payload sends passes for success only if it says so. -/
theorem success_of_matches : ∀ l ∈ p.sentLines, ∀ q ∈ l.tails,
    p.expected.matches (fromUtf8Lossy q) = true →
      contains (fromUtf8Lossy q) (lit p.okText) = true := by
  cases p with
  | avx2 | scalar => exact fun _ _ _ _ h => h
  | fp_sse => decide +kernel

theorem ok_matches : p.expected.matches (fromUtf8Lossy (serialFile (msgLine p.okText))) = true := by
  cases p <;> decide +kernel

theorem serialFile_append (l m : List Byte) :
    serialFile (l ++ m) = serialFile l ++ serialFile m := List.map_append

/-- The text of so many rounds consists of such lines. -/
theorem serialFile_rounds (m : Nat) :
    ∃ ls : List (List UInt8), (∀ l ∈ ls, l ∈ p.sentLines) ∧
      serialFile (rounds p.banner (msgLine p.okText) m) = ls.flatten := by
  refine ⟨p.bannerLines.map (fun t => serialFile (msgLine t)) ++
    List.replicate m (serialFile (msgLine p.okText)), fun l hl => ?_, ?_⟩
  · rcases List.mem_append.mp hl with hl | hl
    · rw [StatePayload.sentLines, List.map_append]
      exact List.mem_append_left _ hl
    · rw [(List.mem_replicate.mp hl).2, StatePayload.sentLines, List.map_append]
      exact List.mem_append_right _ (List.mem_singleton_self _)
  · rw [rounds, StatePayload.banner, serialFile_append, List.flatten_append]
    congr 1
    · simp [serialFile, List.map_flatten, Function.comp_def]
    · simp [serialFile, List.map_flatten]

/-- The success line by itself. -/
theorem lines_ok :
    lines newline (serialFile (msgLine p.okText)) = [serialFile (msgLine p.okText)] := by
  cases p <;> decide +kernel

/-- The line of success is the only one that ends like it. -/
theorem eq_of_suffix : ∀ k ∈ p.sentLines, serialFile (msgLine p.okText) <:+ k →
    k = serialFile (msgLine p.okText) := by
  cases p <;> decide +kernel

/-- **The lines of a destination** that has sent a part of the text, a success
line last: what is left of a line the payload sends, and such lines, a success
line among them. -/
theorem lines_of_part {log part : List Byte} {m : Nat}
    (h : log ++ part <+: rounds p.banner (msgLine p.okText) m)
    (hend : msgLine p.okText <:+ part) :
    (∀ l ∈ lines newline (serialFile part), ∃ k ∈ p.sentLines, l <:+ k) ∧
      serialFile (msgLine p.okText) ∈ lines newline (serialFile part) := by
  have hparts : ∀ l ∈ lines newline (serialFile part), ∃ k ∈ p.sentLines, l <:+ k := by
    intro l hl
    obtain ⟨rest, hrest⟩ := h
    obtain ⟨ls, hls, hflat⟩ := serialFile_rounds (p := p) m
    have hgrow : l ∈ lines newline (serialFile (part ++ rest)) := by
      rw [serialFile_append]
      exact (lines_grow (List.prefix_append _ _)).subset hl
    have hsuffix : serialFile (part ++ rest) <:+ ls.flatten ++ [] := by
      rw [List.append_nil, ← hflat, ← hrest, List.append_assoc, serialFile_append log]
      exact List.suffix_append _ _
    obtain ⟨k, hk, hlk⟩ := lines_suffix hsuffix hgrow
    rw [lines_flatten_append (fun l hl => whole_line l (hls l hl)) List.not_mem_nil] at hk
    exact ⟨k, hls k hk, hlk⟩
  refine ⟨hparts, ?_⟩
  -- the last line ends in a success line, so it is one
  have hok : serialFile (msgLine p.okText) ∈ lines newline (serialFile (msgLine p.okText)) := by
    rw [lines_ok]
    exact List.mem_singleton_self _
  have hfile : serialFile (msgLine p.okText) <:+ serialFile part := hend.map _
  obtain ⟨l, hl, hsuffix⟩ := lines_suffix hfile hok
  obtain ⟨k, hk, hlk⟩ := hparts l hl
  have hkok := eq_of_suffix k hk (hsuffix.trans hlk)
  have hle := hlk.length_le
  rw [hkok] at hle
  rwa [hsuffix.eq_of_length_le hle]

/-! ## The polls -/

/-- The party's log is polled as it should be behind what was sent. -/
abbrev Party.Prompt (a : Party) (timeout : Nat) (sent : List Byte) : Prop :=
  QemuTest.Prompt timeout a.log a.ticks (serialFile sent)

/-- Everything goes as it should: both sides start and move on. -/
structure MigrationWorld.Uneventful (w : MigrationWorld) : Prop where
  files : w.src_dir = true ∧ w.dst_dir = true ∧ w.mig_dir = true ∧ w.write = true
  src : w.src.spawn = true ∧ w.src.migrate = true
  dst : w.dst.spawn = true ∧ w.dst.migrate = true
  running : (pollStatus .running migrationTimeout w.dst.status).run = some (.ok ())
  postmigrate : (pollStatus .postmigrate migrationTimeout w.src.status).run = some (.ok ())

theorem attempt_run {ok : Bool} (h : ok = true) (context : Str) :
    (attempt ok context).run = some (.ok ()) := by
  rw [h]
  rfl

theorem run_toTest {run : PollRun} {line : Str} (h : run.result = .Ok line) (context : Str) :
    (run.toTest context).run = some (.ok line) := by
  rw [PollRun.toTest, h]
  rfl

/-- An uneventful test comes down to its verification. -/
theorem liveMigration_run {w : MigrationWorld} (hw : w.Uneventful)
    {writeContext ready readyContext line : Str}
    (hready : (pollLineMatchTimeout (.SubString ready) defaultTimeout w.src.ticks
      (.new w.src.log)).result = .Ok line) {verify : TestM Unit}
    (hverify : verify.run = some (.ok ())) :
    (liveMigration w writeContext ready readyContext verify).run = some (.ok ()) := by
  obtain ⟨hsd, hdd, hmd, hwr⟩ := hw.files
  have hmigrate : (doMigration w migrationTimeout).run = some (.ok ()) :=
    bind_run.mpr ⟨(), attempt_run hw.dst.2 _, bind_run.mpr ⟨(), attempt_run hw.src.2 _,
      bind_run.mpr ⟨(), hw.running, hw.postmigrate⟩⟩⟩
  exact bind_run.mpr ⟨(), attempt_run hsd _, bind_run.mpr ⟨(), attempt_run hdd _,
    bind_run.mpr ⟨(), attempt_run hmd _, bind_run.mpr ⟨(), attempt_run hwr _,
    bind_run.mpr ⟨(), attempt_run hw.src.1 _, bind_run.mpr ⟨line, run_toTest hready _,
    bind_run.mpr ⟨(), attempt_run hw.dst.1 _, bind_run.mpr ⟨(), hmigrate, hverify⟩⟩⟩⟩⟩⟩⟩⟩

/-- The lines behind a line. -/
theorem lines_msgLine_append (t : String) (l : List Byte) :
    lines newline (serialFile (msgLine t ++ l))
      = lines newline (serialFile (msgLine t)) ++ lines newline (serialFile l) := by
  have hend : serialFile (msgLine t) = serialFile (ascii t ++ [13]) ++ [newline] := by
    simp [serialFile, msgLine, newline]
  rw [serialFile_append, hend, List.append_assoc, List.singleton_append, lines_append_line]

/-- The text the test looks for on the source, whatever lines came before. -/
theorem ready_sent (front : List String) :
    ∃ l ∈ lines newline (serialFile ((front.map msgLine).flatten ++ p.banner)),
      (ExpectedOutput.SubString (lit p.readyLine)).matches (fromUtf8Lossy l) = true := by
  induction front with
  | nil => cases p <;> decide +kernel
  | cons t front ih =>
      obtain ⟨l, hl, hm⟩ := ih
      refine ⟨l, ?_, hm⟩
      rw [List.map_cons, List.flatten_cons, List.append_assoc, lines_msgLine_append]
      exact List.mem_append_right _ hl

/-- What a poll of the destination returns decides the test. -/
theorem test_run {w : MigrationWorld} (hw : w.Uneventful) {ready line : Str}
    (hready : (pollLineMatchTimeout (.SubString (lit p.readyLine)) defaultTimeout w.src.ticks
      (.new w.src.log)).result = .Ok ready)
    (hdst : (pollLineMatchTimeout p.expected p.timeout w.dst.ticks (.new w.dst.log)).result
      = .Ok line) (hok : contains line (lit p.okText) = true) :
    (p.test w).run = some (.ok ()) := by
  cases p with
  | avx2 | scalar =>
      exact liveMigration_run hw hready (bind_run.mpr ⟨line, run_toTest hdst _, rfl⟩)
  | fp_sse =>
      exact liveMigration_run hw hready
        (bind_run.mpr ⟨line, run_toTest hdst _, attempt_run hok _⟩)

/-- **The test accepts** a destination that sends a success line, and otherwise
what is left of lines the payload sends. -/
theorem accepted_of_lines {log : List Byte}
    (hparts : ∀ l ∈ lines newline (serialFile log), ∃ k ∈ p.sentLines, l <:+ k)
    (hmem : serialFile (msgLine p.okText) ∈ lines newline (serialFile log))
    (front : List String) {w : MigrationWorld} (hw : w.Uneventful)
    (hsrc : w.src.Prompt defaultTimeout ((front.map msgLine).flatten ++ p.banner))
    (hdst : w.dst.Prompt p.timeout log) : (p.test w).run = some (.ok ()) := by
  obtain ⟨ready, -, -, hready⟩ := hsrc.finds (ready_sent front)
  obtain ⟨l, hl, hm, hfound⟩ := hdst.finds ⟨_, hmem, ok_matches⟩
  obtain ⟨k, hk, hsuffix⟩ := hparts l hl
  exact test_run hw hready hfound
    (success_of_matches k hk l ((List.mem_tails _ _).mpr hsuffix) hm)

/-! ## The switch -/

/-- **An intact migration is accepted**: wherever the switch falls, a
destination that starts with all of the state and meets a fair port comes to a
state in which the test succeeds, if the source had said that it was ready,
behind whatever lines, both logs are polled in time, and nothing else goes
wrong. -/
theorem migration_accepts (p : StatePayload) {L : Layout p.guest.Data} (hL : p.guest.Fits L)
    {s₀ s : State} (h₀ : p.guest.Boot L s₀) (hclear : s₀.fpu.es = false) {es : List Byte}
    (hsrc : Run (p.guest.Step L) s₀ es s) {port : Port} (hport : port.Fair) :
    Gets p.guest.program L port 0 (fun t => ∀ (front : List String) (w : MigrationWorld),
        w.Uneventful → w.src.Prompt defaultTimeout ((front.map msgLine).flatten ++ p.banner) →
        w.dst.Prompt p.timeout t.log → (p.test w).run = some (.ok ())) { s with log := [] } := by
  obtain ⟨m, rest, hrest, hgets⟩ :=
    (payload_rounds hL h₀ hclear).resume (msgLine_ne_nil _) h₀.log hsrc
  refine (hgets port hport 2).bind fun t ht => .now fun front w hw hsrcPoll hdstPoll => ?_
  have hlog : t.log = rest ++ msgLine p.okText ++ msgLine p.okText := by
    rw [ht]
    simp [List.replicate_succ]
  have hpart : s.log ++ t.log <+: rounds p.banner (msgLine p.okText) (m + 2) := by
    rw [rounds_add, ← hrest, List.append_assoc, ht]
  obtain ⟨hparts, hmem⟩ := lines_of_part hpart (hlog ▸ List.suffix_append _ _)
  exact accepted_of_lines hparts hmem front hw hsrcPoll hdstPoll

/-- A party whose log is read whole, once for each of its lines. -/
def Party.attentive (status : RunState) (log : List Byte) : Party where
  spawn := true
  migrate := true
  status := [⟨false, 0, some status⟩]
  log := serialFile log
  ticks := List.replicate (lines newline (serialFile log)).length (grown (serialFile log).length)

/-- A migration in which nothing goes wrong, and both logs are read so. -/
def MigrationWorld.attentive (src dst : List Byte) : MigrationWorld :=
  ⟨true, true, true, true, .attentive .postmigrate src, .attentive .running dst⟩

theorem uneventful_attentive (src dst : List Byte) :
    (MigrationWorld.attentive src dst).Uneventful :=
  ⟨⟨rfl, rfl, rfl, rfl⟩, ⟨rfl, rfl⟩, ⟨rfl, rfl⟩, rfl, rfl⟩

/-- What the AVX2 payload has sent where its model starts. -/
def avx2Front : List String := ["LM:OK", "AVX:OK"]

/-- A switch behind `AVX2:READY`, to a destination that is always ready. -/
theorem migration_accepts_ready : ∃ boot es s es' t w,
    Run (avx2Guest.Step Avx2.layout) boot es s ∧ s.log = StatePayload.avx2.banner ∧
    w.src.log = serialFile ((avx2Front.map msgLine).flatten ++ s.log) ∧
    Run (avx2Guest.Step Avx2.layout) { s with log := [] } es' t ∧
    w.dst.log = serialFile t.log ∧ (testLiveMigrationAvx2 w).run = some (.ok ()) := by
  have hboot := Guest.boot_start Avx2.fits_layout Avx2.mem_labels
  obtain ⟨es, s, hsrc, hs⟩ :=
    (payload_rounds (p := .avx2) Avx2.fits_layout hboot rfl _ Port.fair_prompt 0).leads
  obtain ⟨es', t, hdst, ht⟩ :=
    (migration_accepts .avx2 Avx2.fits_layout hboot rfl hsrc Port.fair_prompt).leads
  rw [rounds, List.replicate_zero, List.flatten_nil, List.append_nil] at hs
  refine ⟨_, es, s, es', t, .attentive _ _, hsrc, hs, rfl, hdst, rfl, ?_⟩
  refine ht avx2Front _ (uneventful_attentive _ _) ?_ (prompt_attentive _ _)
  rw [← hs]
  exact prompt_attentive _ _

end QemuTest

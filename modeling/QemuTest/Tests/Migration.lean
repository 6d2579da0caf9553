import QemuTest.Asm.BootAvx2
import QemuTest.Asm.BootFpSse
import QemuTest.Asm.BootScalar
import QemuTest.Process.SerialBytes
import QemuTest.Process.Spawn

/-!
# Tests — Migration

The three tests of `migration.rs` that check processor state across a live
migration, together with the payloads they run: the guest is switched to the
destination between two instructions, and the test polls what the destination
sends from there on.

`rejects_of_checked` says when such a test cannot succeed although a verified
register was lost: when one of those is still to be compared, and what the way
to the failure line reads has arrived.
-/

namespace QemuTest

open Text Lines Utf8 Asm X86 Runs

/-! ## The tests -/

/-- A test under way: `none` while a poll has not come to an end. -/
abbrev TestM := ExceptT Str Option

/-- A fallible step with its context. -/
def attempt (ok : Bool) (context : Str) : TestM Unit := .mk (some (require ok context))

/-- A poll with its context. -/
def PollRun.toTest (run : PollRun) (context : Str) : TestM Str :=
  match run.result with
  | .Ok line => .mk (some (.ok line))
  | .Err _ => .mk (some (.error context))
  | .running => .mk none

inductive RunState where
  | running | postmigrate | other
  deriving DecidableEq, Repr

/-- One iteration of `poll_status`: `query_status` may fail. -/
structure StatusTick where
  shutdown : Bool
  elapsed : Nat
  status : Option RunState
  deriving DecidableEq, Repr

/-- `poll_status`. -/
def pollStatus (expected_state : RunState) (timeout : Nat) : List StatusTick → TestM Unit
  | [] => .mk none
  | t :: ts =>
      if t.shutdown then throw (lit "interrupted")
      else if timeout < t.elapsed then throw (lit "timed out waiting for expected status")
      else match t.status with
        | none => throw (lit "query_status failed")
        | some status =>
            if status = expected_state then pure () else pollStatus expected_state timeout ts

/-- `MIGRATION_TIMEOUT`, in milliseconds. -/
def migrationTimeout : Nat := 10000

/-- One side of a migration as its test meets it: whether it starts, whether
its migration command works, and what its polls see. -/
structure Party where
  spawn : Bool
  migrate : Bool
  status : List StatusTick
  log : List UInt8
  ticks : List Tick

/-- What a migration test meets. -/
structure MigrationWorld where
  src_dir : Bool
  dst_dir : Bool
  mig_dir : Bool
  write : Bool
  src : Party
  dst : Party

/-- `do_migration`. -/
def doMigration (w : MigrationWorld) (timeout : Nat) : TestM Unit := do
  attempt w.dst.migrate (lit "dest: migrate_incoming failed")
  attempt w.src.migrate (lit "source: migrate failed")
  pollStatus .running timeout w.dst.status
  pollStatus .postmigrate timeout w.src.status

/-- What the state tests have in common: both sides are started, the source
says that it is ready, and after the migration the destination is verified. -/
def liveMigration (w : MigrationWorld) (writeContext ready readyContext : Str)
    (verify : TestM Unit) : TestM Unit := do
  attempt w.src_dir (lit "failed to create src temp dir")
  attempt w.dst_dir (lit "failed to create dst temp dir")
  attempt w.mig_dir (lit "failed to create migration temp dir")
  attempt w.write writeContext
  attempt w.src.spawn (lit "failed to spawn source VM")
  let _ ← (pollLineMatchTimeout (.SubString ready) defaultTimeout w.src.ticks
    (.new w.src.log)).toTest readyContext
  attempt w.dst.spawn (lit "failed to spawn dest VM")
  doMigration w migrationTimeout
  verify

/-- `poll_line` on the destination. -/
def pollDestination (w : MigrationWorld) (expected : ExpectedOutput) (context : Str) :
    TestM Str :=
  (pollLineMatchTimeout expected defaultTimeout w.dst.ticks (.new w.dst.log)).toTest context

def testLiveMigrationAvx2 (w : MigrationWorld) : TestM Unit :=
  liveMigration w (lit "failed to write AVX2 guest binary") (lit "AVX2:READY")
    (lit "source: AVX2 guest did not become ready") do
      let _ ← pollDestination w (.SubString (lit "AVX2:OK"))
        (lit "destination: YMM registers not intact after migration")

def testLiveMigrationScalarState (w : MigrationWorld) : TestM Unit :=
  liveMigration w (lit "failed to write scalar guest binary") (lit "SCALAR:READY")
    (lit "source: scalar guest did not become ready") do
      let _ ← pollDestination w (.SubString (lit "SCALAR:OK"))
        (lit "destination: scalar CPU state not intact after migration")

/-- `[A-Z0-9_]`. -/
def isDiagnosticChar (c : Char) : Bool := c.isUpper || c.isDigit || c = '_'

/-- `FPSSE:(OK|FAIL_[A-Z0-9_]+)`, anywhere in the line. -/
def isFpSseDiagnostic (line : Str) : Bool :=
  line.tails.any fun l =>
    (lit "FPSSE:OK").isPrefixOf l ||
      ((lit "FPSSE:FAIL_").isPrefixOf l &&
        (l.drop (lit "FPSSE:FAIL_").length).head?.any isDiagnosticChar)

def testLiveMigrationFpSseState (w : MigrationWorld) : TestM Unit :=
  liveMigration w (lit "failed to write FP/SSE guest binary") (lit "FPSSE:READY")
    (lit "source: FP/SSE guest did not become ready") do
      let result ← (pollLineMatchTimeout (.Pattern isFpSseDiagnostic) migrationTimeout
        w.dst.ticks (.new w.dst.log)).toTest
          (lit "destination: FP/SSE state not intact after migration")
      attempt (contains result (lit "FPSSE:OK"))
        (lit "destination: FP/SSE diagnostic failed: " ++ trimEnd result)

/-! ## The payloads -/

inductive StatePayload where
  | avx2 | scalar | fp_sse
  deriving DecidableEq, Repr

namespace StatePayload

def guest : StatePayload → Guest
  | .avx2 => avx2Guest
  | .scalar => scalarGuest
  | .fp_sse => fpSseGuest

/-- The labels and the first instruction of its serial routine. -/
def serial : (p : StatePayload) → SerialLabel → p.guest.Label
  | .avx2 => Avx2.Label.serial
  | .scalar => Scalar.Label.serial
  | .fp_sse => FpSse.Label.serial

def body : StatePayload → Nat
  | .avx2 => Avx2.body
  | .scalar => Scalar.body
  | .fp_sse => FpSse.body

theorem wired : (p : StatePayload) → p.guest.Wired p.serial p.body
  | .avx2 => Avx2.wired
  | .scalar => Scalar.wired
  | .fp_sse => FpSse.wired

def test : StatePayload → MigrationWorld → TestM Unit
  | .avx2 => testLiveMigrationAvx2
  | .scalar => testLiveMigrationScalarState
  | .fp_sse => testLiveMigrationFpSseState

/-- The line that says the payload is ready, and the one that says its state is
as it was loaded. -/
def readyLine : StatePayload → String
  | .avx2 => "AVX2:READY"
  | .scalar => "SCALAR:READY"
  | .fp_sse => "FPSSE:READY"

def okText : StatePayload → String
  | .avx2 => "AVX2:OK"
  | .scalar => "SCALAR:OK"
  | .fp_sse => "FPSSE:OK"

end StatePayload

/-- The serial log file of a guest. -/
def serialFile (log : List Byte) : List UInt8 := log.map UInt8.ofBitVec

/-- The test does not succeed on a destination that starts in state `d`,
however far it gets and whatever else the test meets. -/
def StatePayload.Rejects (p : StatePayload) (L : Layout p.guest.Data) (d : State) : Prop :=
  ∀ es t, Run (p.guest.Step L) d es t → ∀ w : MigrationWorld, w.dst.log = serialFile t.log →
    (p.test w).run ≠ some (.ok ())

/-- A verified part that differs is still to be compared: the destination looks
at it before it reports or reloads, and what it reads on the way arrives. -/
def StatePayload.StillChecked : (p : StatePayload) → Layout p.guest.Data → State → State → Prop
  | .avx2, L, s, d => ∃ j, d.vec j ≠ s.vec j ∧ Avx2.Ahead L j s ∧ Avx2.Arrives s d
  | .scalar, _, s, d => ∃ r ∈ Scalar.verifiedRegs, Scalar.Ahead r s d
  | .fp_sse, _, s, d => FpSse.Ahead s d ∧ FpSse.Arrives s d

/-- The destination is about to read the text it sends from outside the mapped
memory. -/
def StatePayload.Stranded (p : StatePayload) (L : Layout p.guest.Data) (d : State) : Prop :=
  p.guest.Stranded L p.serial p.body d

/-! ## A test that succeeds -/

/-- A step that succeeded, and the rest of the test. -/
theorem bind_run {α β : Type} {x : TestM α} {f : α → TestM β} {b : β} :
    (x >>= f).run = some (.ok b) ↔ ∃ a, x.run = some (.ok a) ∧ (f a).run = some (.ok b) := by
  rw [ExceptT.run_bind]
  cases hx : x.run with
  | none => simp
  | some r => cases r <;> simp

/-- The destination was verified. -/
theorem verify_of_liveMigration {w : MigrationWorld} {writeContext ready readyContext : Str}
    {verify : TestM Unit}
    (h : (liveMigration w writeContext ready readyContext verify).run = some (.ok ())) :
    verify.run = some (.ok ()) := by
  simp only [liveMigration, bind_run] at h
  obtain ⟨_, -, _, -, _, -, _, -, _, -, _, -, _, -, _, -, h⟩ := h
  exact h

theorem toTest_run {run : PollRun} {context line : Str}
    (h : (run.toTest context).run = some (.ok line)) : run.result = .Ok line := by
  unfold PollRun.toTest at h
  split at h
  · rename_i l hl
    obtain rfl : l = line := by simpa using h
    exact hl
  · simp at h
  · simp at h

/-- A test that succeeds was returned a line of the destination with the text
of success. -/
theorem accepted_of_test {p : StatePayload} {w : MigrationWorld}
    (h : (p.test w).run = some (.ok ())) :
    ∃ expected timeout line,
      (pollLineMatchTimeout expected timeout w.dst.ticks (.new w.dst.log)).result = .Ok line ∧
      (expected.matches line = true → contains line (lit p.okText) = true) := by
  cases p with
  | avx2 | scalar =>
      obtain ⟨line, hline, -⟩ := bind_run.mp (verify_of_liveMigration h)
      exact ⟨_, _, line, toTest_run hline, fun hm => hm⟩
  | fp_sse =>
      obtain ⟨line, hline, hensure⟩ := bind_run.mp (verify_of_liveMigration h)
      refine ⟨_, _, line, toTest_run hline, fun _ => ?_⟩
      have hok : lit "FPSSE:OK" <:+: line := by simpa [attempt, require] using hensure
      exact contains_iff.mpr hok

/-! ## Lines without the text of success -/

/-- Bytes that do not hold the text, not even with others in between. -/
def Lacks (text l : List UInt8) : Prop := ¬ text.Sublist l

instance (text l : List UInt8) : Decidable (Lacks text l) :=
  inferInstanceAs (Decidable (¬ _))

theorem Lacks.of_sublist {text l m : List UInt8} (h : Lacks text m) (hsub : l.Sublist m) :
    Lacks text l := fun ht => h (ht.trans hsub)

/-- A decoded text stands in the bytes. -/
theorem sublist_of_contains {text : Str} (htext : ∀ c ∈ text, c.toNat ≠ 0 ∧ c.toNat < 0x80)
    {bs : List UInt8} (h : contains (fromUtf8Lossy bs) text = true) :
    (asciiBytes text).Sublist bs :=
  asciiBytes_sublist htext (contains_iff.mp h).sublist

theorem okText_ascii (p : StatePayload) :
    ∀ c ∈ lit p.okText, c.toNat ≠ 0 ∧ c.toNat < 0x80 := by
  cases p <;> exact forall_chars (by decide +kernel)

/-- **A destination that lacks the text** in all of its lines is rejected. -/
theorem rejected_of_lacks {p : StatePayload} {w : MigrationWorld}
    (h : ∀ l ∈ lines newline w.dst.log, Lacks (asciiBytes (lit p.okText)) l) :
    (p.test w).run ≠ some (.ok ()) := by
  intro hok
  obtain ⟨expected, timeout, line, hpoll, hcontains⟩ := accepted_of_test hok
  obtain ⟨hm, bs, l, rfl, hbs, hl⟩ := pollLoop_line expected timeout (List.Sublist.refl [])
    List.not_mem_nil hpoll
  exact (h l hl).of_sublist hbs (sublist_of_contains (okText_ascii p) (hcontains hm))

/-! ## What a lost destination sends -/

theorem serialFile_flatten (ls : List (List Byte)) (last : List Byte) :
    serialFile (ls.flatten ++ last) = (ls.map serialFile).flatten ++ serialFile last := by
  rw [serialFile, List.map_append, List.map_flatten]
  rfl

theorem serialFile_sublist {l m : List Byte} (h : l.Sublist m) :
    (serialFile l).Sublist (serialFile m) := h.map _

/-- A part of one line that lacks the text has no line with it. -/
theorem lacks_of_prefix {text : List UInt8} {log m : List Byte}
    (hm : Lacks text (serialFile m)) (hlog : log <+: m) :
    ∀ l ∈ lines newline (serialFile log), Lacks text l := fun _ hl =>
  hm.of_sublist ((mem_lines_sublist hl).trans (serialFile_sublist hlog.sublist))

theorem scalar_lacks : Lacks (asciiBytes (lit StatePayload.scalar.okText))
    (serialFile (msgLine "SCALAR:FAIL")) := by decide +kernel

theorem fpSse_lacks : ∀ f ∈ FpSse.failures,
    Lacks (asciiBytes (lit StatePayload.fp_sse.okText)) (serialFile (msgLine f)) := by
  decide +kernel

/-- The harmless lines of the AVX2 payload, and what is left of lines. -/
theorem avx2_lacks : ∀ l ∈ Avx2.harmless,
    Lacks (asciiBytes (lit StatePayload.avx2.okText)) (serialFile l) ∧
      (serialFile l = [] ∨
        (serialFile l).getLast? = some newline ∧ newline ∉ (serialFile l).dropLast) := by
  decide +kernel

theorem avx2_pieces {l : List Byte} (h : l ∈ Avx2.harmless) :
    Lacks (asciiBytes (lit StatePayload.avx2.okText)) (serialFile l) ∧
      (serialFile l = [] ∨ ∃ l₀, serialFile l = l₀ ++ [newline] ∧ newline ∉ l₀) := by
  obtain ⟨hlacks, hempty | ⟨hlast, hnot⟩⟩ := avx2_lacks l h
  · exact ⟨hlacks, .inl hempty⟩
  · exact ⟨hlacks, .inr ⟨_, (List.dropLast_append_getLast? _ hlast).symm, hnot⟩⟩

/-- The text is longer than one character. -/
theorem stranded_lacks (p : StatePayload) {log : List Byte} (h : log.length ≤ 1) :
    ∀ l ∈ lines newline (serialFile log), Lacks (asciiBytes (lit p.okText)) l := by
  have hlong : 1 < (asciiBytes (lit p.okText)).length := by
    cases p <;> decide +kernel
  intro l hl ht
  have hle := (ht.trans (mem_lines_sublist hl)).length_le
  rw [serialFile, List.length_map] at hle
  omega

/-- **A test detects** what its payload still compares: it does not succeed on
a destination that differs from the source in a part that is still to be
compared, wherever the switch falls, as long as what it reads on the way
arrives; nor on one whose next character lies outside the mapped memory. -/
theorem rejects_of_checked (p : StatePayload) {L : Layout p.guest.Data} (hL : p.guest.Fits L)
    {s₀ s d : State} (h₀ : p.guest.Boot L s₀) {es : List Byte}
    (hsrc : Run (p.guest.Step L) s₀ es s) (hsw : Switched s d)
    (hcheck : p.StillChecked L s d ∨ p.Stranded L d) : p.Rejects L d := by
  intro es' t hdst w hlog
  apply rejected_of_lacks
  rw [hlog]
  rcases hcheck with hcheck | hstranded
  swap
  · have hle := Guest.stranded_run p.wired hstranded hdst
    rw [hsw.log] at hle
    exact stranded_lacks p hle
  cases p with
  | avx2 =>
      obtain ⟨j, hne, ha, harr⟩ := hcheck
      obtain ⟨ls, last, hls, ⟨l, hl, hlast⟩, hsent⟩ :=
        Avx2.detects hL h₀ hsrc hsw harr ha hne hdst
      rw [hsent, serialFile_flatten]
      refine lines_pieces (fun _ _ hsub hm => hm.of_sublist hsub) (fun q hq => ?_)
        ((avx2_pieces hl).1.of_sublist (serialFile_sublist hlast.sublist))
      obtain ⟨l, hl, rfl⟩ := List.mem_map.mp hq
      exact avx2_pieces (hls l hl)
  | scalar =>
      obtain ⟨r, hr, ha⟩ := hcheck
      exact lacks_of_prefix scalar_lacks (Scalar.detects hL h₀ hsrc hsw hr ha hdst)
  | fp_sse =>
      obtain ⟨ha, harr⟩ := hcheck
      obtain ⟨f, hf, hsent⟩ := FpSse.detects hL h₀ hsrc hsw harr ha hdst
      exact lacks_of_prefix (fpSse_lacks f hf) hsent

end QemuTest

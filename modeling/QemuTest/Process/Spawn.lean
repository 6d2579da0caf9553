import QemuTest.Lib.Poll
import QemuTest.Lib.Runs
import QemuTest.Lib.Text

/-!
# Process — Spawn

The life of a QEMU child: `spawn` with its fallible steps before and after the
start of the child, the drop of a `QemuProcess`, `quitAndWait`, and test
functions as runs of these. What the steps and the children do is the
environment's: every function takes the outcomes it meets.

Dropping a `Child` neither kills nor waits, `kill` sends a signal, and `wait`
after it ends the child; `tryWait` sees whether the child has exited.
-/

namespace QemuTest

open Text Poll Runs

/-! ## Children -/

/-- The children of the test process: those running, those a SIGKILL was sent
to, and the next process id. -/
structure World where
  running : List Nat
  killed : List Nat
  next : Nat
  fresh : ∀ pid ∈ running, pid < next

/-- No child yet. -/
def World.empty : World := ⟨[], [], 1, fun _ h => absurd h List.not_mem_nil⟩

/-- `Command::spawn`. -/
def World.start (w : World) : World where
  running := w.next :: w.running
  killed := w.killed
  next := w.next + 1
  fresh pid h := by
    rcases List.mem_cons.mp h with rfl | h
    · exact Nat.lt_succ_self _
    · exact Nat.lt_succ_of_lt (w.fresh pid h)

/-- A child exits, for whatever reason. -/
def World.exit (w : World) (pid : Nat) : World where
  running := w.running.filter fun q => q ≠ pid
  killed := w.killed
  next := w.next
  fresh q h := w.fresh q (List.mem_of_mem_filter h)

def World.kill (w : World) (pid : Nat) : World := { w with killed := pid :: w.killed }

/-- `wait` ends a killed child. -/
def World.wait (w : World) (pid : Nat) : World :=
  if pid ∈ w.killed then w.exit pid else w

@[simp] theorem mem_running_start {w : World} {pid : Nat} :
    pid ∈ w.start.running ↔ pid = w.next ∨ pid ∈ w.running := List.mem_cons

@[simp] theorem mem_running_exit {w : World} {pid q : Nat} :
    q ∈ (w.exit pid).running ↔ q ∈ w.running ∧ q ≠ pid := by
  simp [World.exit]

@[simp] theorem running_kill (w : World) (pid : Nat) :
    (w.kill pid).running = w.running := rfl

/-- Killing and then waiting ends the child. -/
@[simp] theorem mem_running_kill_wait {w : World} {pid q : Nat} :
    q ∈ ((w.kill pid).wait pid).running ↔ q ∈ w.running ∧ q ≠ pid := by
  simp [World.wait, World.kill, World.exit]

theorem next_notMem (w : World) : w.next ∉ w.running :=
  fun h => Nat.lt_irrefl _ (w.fresh w.next h)

/-! ## spawn -/

inductive Accelerator where
  | Kvm
  | Mshv
  deriving DecidableEq, Repr

structure QemuProcess where
  child : Nat
  accel : Accelerator
  deriving DecidableEq

/-- `DEFAULT_TIMEOUT`, in milliseconds. -/
def defaultTimeout : Nat := 10000

/-- What `spawn` meets: the configured accelerator, whether the program starts,
when the socket path is there, the outcome of each step after the start, and
whether the child exits by itself before `spawn` returns. The program and the
path are as the messages print them. -/
structure SpawnOutcomes where
  accel : Except Str Accelerator
  program : Str
  path : Str
  start : Bool
  pathExists : Nat → Bool
  clock : Clock 50
  connect : Bool
  set_read_timeout : Bool
  set_write_timeout : Bool
  try_clone : Bool
  handshake : Bool
  openSerial : Bool
  childExits : Bool

/-- A fallible step with its context. -/
def require (ok : Bool) (context : Str) : Except Str Unit :=
  if ok then .ok () else .error context

/-- `Socket::connect`. -/
def connectSocket (o : SpawnOutcomes) (timeout : Nat) : Except Str Unit := do
  require (poll o.pathExists o.clock timeout)
    (lit "timeout waiting for socket: " ++ o.path)
  require o.connect (lit "failed to connect to QMP socket")

/-- The steps of `spawn` between the start of the child and the `QemuProcess`. -/
def spawnSteps (o : SpawnOutcomes) : Except Str Unit := do
  connectSocket o defaultTimeout
  require o.set_read_timeout (lit "failed to set QMP read timeout")
  require o.set_write_timeout (lit "failed to set QMP write timeout")
  require o.try_clone (lit "failed to clone stream")
  require o.handshake (lit "QMP handshake failed")
  require o.openSerial (lit "failed to open serial log file")

/-- The child after `spawn`'s steps, if it has exited by itself meanwhile. -/
def World.meanwhile (w : World) (exits : Bool) (pid : Nat) : World :=
  if exits then w.exit pid else w

/-- Every `?` after the start drops the `Child`, which leaves it alone. -/
def spawn (o : SpawnOutcomes) (w : World) : Except Str QemuProcess × World :=
  match o.accel with
  | .error e => (.error e, w)
  | .ok accel =>
      if o.start then
        let child := w.next
        let w := w.start.meanwhile o.childExits child
        match spawnSteps o with
        | .error e => (.error e, w)
        | .ok () => (.ok { child, accel }, w)
      else (.error (lit "failed to start process: " ++ o.program), w)

/-! ## Drop and quitAndWait -/

/-- `DROP_KILL_TIMEOUT`, in milliseconds. -/
def dropKillTimeout : Nat := 10000

/-- What a drop meets: whether QMP `quit` works, and at which looks of
`try_wait` the child has exited. -/
structure DropOutcomes where
  quit : Bool
  exited : Nat → Bool
  clock : Clock 100

/-- The loop over `try_wait`: the child is reaped when it has exited, killed
and waited for when the timeout is over. -/
def awaitExit {step : Nat} (w : World) (pid : Nat) (exited : Nat → Bool)
    (clock : Clock step) (timeout : Nat) : Bool × World :=
  if poll (fun k => pid ∉ w.running || exited k) clock timeout then
    (true, w.exit pid)
  else (false, (w.kill pid).wait pid)

/-- `Drop for QemuProcess`: kill at once under mshv; otherwise `quit`, with a
kill where that fails. -/
def dropProcess (p : QemuProcess) (d : DropOutcomes) (w : World) : World :=
  let w := match p.accel with
    | .Mshv => w.kill p.child
    | .Kvm => if d.quit then w else w.kill p.child
  (awaitExit w p.child d.exited d.clock dropKillTimeout).2

/-- What `quitAndWait` meets: QMP `quit`, the looks, and the drop at its end. -/
structure QuitOutcomes where
  quit : Bool
  exited : Nat → Bool
  clock : Clock 50
  drop : DropOutcomes

/-- `quit_and_wait` owns the process: it is dropped on every way out. The
timeout is in milliseconds. -/
def quitAndWait (p : QemuProcess) (timeout : Nat) (q : QuitOutcomes) (w : World) :
    Except Str Unit × World :=
  if q.quit then
    match awaitExit w p.child q.exited q.clock timeout with
    | (true, w) => (.ok (), dropProcess p q.drop w)
    | (false, w) =>
        (.error (lit "QEMU did not terminate within " ++ decimal (timeout / 1000)
          ++ lit "s after quit"), dropProcess p q.drop w)
  else (.error (lit "QMP quit failed"), dropProcess p q.drop w)

theorem running_awaitExit {step : Nat} (w : World) (pid : Nat) (exited : Nat → Bool)
    (clock : Clock step) (timeout : Nat) {q : Nat} :
    q ∈ (awaitExit w pid exited clock timeout).2.running ↔ q ∈ w.running ∧ q ≠ pid := by
  unfold awaitExit
  split
  · exact mem_running_exit
  · exact mem_running_kill_wait

/-- **Drop ends the child**, whatever it meets, and touches no other. -/
theorem running_dropProcess (p : QemuProcess) (d : DropOutcomes) (w : World) {q : Nat} :
    q ∈ (dropProcess p d w).running ↔ q ∈ w.running ∧ q ≠ p.child := by
  unfold dropProcess
  rw [running_awaitExit]
  cases p.accel with
  | Mshv => rw [running_kill]
  | Kvm => cases d.quit <;> simp

theorem running_quitAndWait (p : QemuProcess) (timeout : Nat) (o : QuitOutcomes)
    (w : World) {q : Nat} :
    q ∈ (quitAndWait p timeout o w).2.running ↔ q ∈ w.running ∧ q ≠ p.child := by
  have hawait : ∀ {b : Bool} {w' : World},
      awaitExit w p.child o.exited o.clock timeout = (b, w') →
        (q ∈ (dropProcess p o.drop w').running ↔ q ∈ w.running ∧ q ≠ p.child) := by
    intro b w' h
    have hw' := running_awaitExit w p.child o.exited o.clock timeout (q := q)
    rw [h] at hw'
    rw [running_dropProcess, hw', and_assoc, and_self_iff]
  unfold quitAndWait
  split
  · split
    · exact hawait ‹_›
    · exact hawait ‹_›
  · exact running_dropProcess p o.drop w

/-! ## Clean spawns -/

/-- Every step after the start succeeds: the socket path is there before the
timeout, and nothing fails behind it. -/
def SpawnOutcomes.Succeeds (o : SpawnOutcomes) : Prop :=
  (∃ i, o.pathExists i = true ∧ ∀ j < i, o.clock.elapsed j ≤ defaultTimeout) ∧
    o.connect = true ∧ o.set_read_timeout = true ∧ o.set_write_timeout = true ∧
    o.try_clone = true ∧ o.handshake = true ∧ o.openSerial = true

/-- No step fails while a started child keeps running. -/
def SpawnOutcomes.Clean (o : SpawnOutcomes) : Prop :=
  (∃ e, o.accel = .error e) ∨ o.start = false ∨ o.childExits = true ∨ o.Succeeds

/-- What `spawn` is to guarantee: on success the process it returns owns the
child it started, and no other is left running; on failure it leaves none. -/
def SpawnContract (o : SpawnOutcomes) (w : World) : Prop :=
  match spawn o w with
  | (.ok p, w') => p.child = w.next ∧ ∀ pid ∈ w'.running, pid ∈ w.running ∨ pid = p.child
  | (.error _, w') => ∀ pid ∈ w'.running, pid ∈ w.running

theorem require_bind_eq_ok {ok : Bool} {context : Str} {rest : Except Str Unit} :
    (do require ok context; rest) = .ok () ↔ ok = true ∧ rest = .ok () := by
  cases ok with
  | true => simp [require, bind, Except.bind]
  | false => simp [require, bind, Except.bind]

theorem require_eq_ok {ok : Bool} {context : Str} :
    require ok context = .ok () ↔ ok = true := by
  cases ok <;> simp [require]

theorem spawnSteps_eq_ok_iff (o : SpawnOutcomes) :
    spawnSteps o = .ok () ↔ o.Succeeds := by
  have hconnect : ∀ rest : Except Str Unit,
      (do connectSocket o defaultTimeout; rest) = .ok () ↔
        poll o.pathExists o.clock defaultTimeout = true ∧ o.connect = true ∧
          rest = .ok () := by
    intro rest
    rw [connectSocket, bind_assoc, require_bind_eq_ok, require_bind_eq_ok]
  unfold spawnSteps
  rw [hconnect, require_bind_eq_ok, require_bind_eq_ok, require_bind_eq_ok,
    require_bind_eq_ok, require_eq_ok, poll_eq_true_iff]
  rfl

/-- The steps decide with an error or not at all. -/
theorem spawnSteps_cases (o : SpawnOutcomes) :
    (spawnSteps o = .ok () ∧ o.Succeeds) ∨ (∃ e, spawnSteps o = .error e ∧ ¬ o.Succeeds) := by
  rw [← spawnSteps_eq_ok_iff]
  cases spawnSteps o with
  | ok u => exact .inl ⟨rfl, rfl⟩
  | error e => exact .inr ⟨e, rfl, by simp⟩

theorem mem_running_meanwhile {w : World} {exits : Bool} {pid q : Nat} :
    q ∈ (w.meanwhile exits pid).running ↔
      q ∈ w.running ∧ ¬ (exits = true ∧ q = pid) := by
  cases exits <;> simp [World.meanwhile]

/-- What `spawn` does, case by case. -/
theorem spawn_cases (o : SpawnOutcomes) (w : World) :
    (((∃ e, o.accel = .error e) ∨ o.start = false) ∧ ∃ e, spawn o w = (.error e, w)) ∨
    ((∀ e, o.accel ≠ .error e) ∧ o.start = true ∧ o.Succeeds ∧
      ∃ accel, spawn o w
        = (.ok ⟨w.next, accel⟩, w.start.meanwhile o.childExits w.next)) ∨
    ((∀ e, o.accel ≠ .error e) ∧ o.start = true ∧ ¬ o.Succeeds ∧
      ∃ e, spawn o w = (.error e, w.start.meanwhile o.childExits w.next)) := by
  unfold spawn
  cases haccel : o.accel with
  | error e => exact .inl ⟨.inl ⟨e, rfl⟩, e, rfl⟩
  | ok accel =>
      cases hstart : o.start with
      | false => exact .inl ⟨.inr rfl, _, rfl⟩
      | true =>
          refine .inr ?_
          rcases spawnSteps_cases o with ⟨hsteps, hok⟩ | ⟨e, hsteps, hnot⟩
          · exact .inl ⟨by simp, rfl, hok, accel, by simp [hsteps]⟩
          · exact .inr ⟨by simp, rfl, hnot, e, by simp [hsteps]⟩

/-- The contract holds exactly of the clean spawns. -/
theorem spawnContract_iff (o : SpawnOutcomes) (w : World) :
    SpawnContract o w ↔ o.Clean := by
  unfold SpawnContract
  rcases spawn_cases o w with ⟨hnone, e, hspawn⟩ | ⟨-, -, hok, accel, hspawn⟩ |
    ⟨haccel, hstart, hnot, e, hspawn⟩
  · rw [hspawn]
    refine ⟨fun _ => ?_, fun _ pid h => h⟩
    rcases hnone with he | hs
    · exact .inl he
    · exact .inr (.inl hs)
  · rw [hspawn]
    refine ⟨fun _ => .inr (.inr (.inr hok)), fun _ => ⟨rfl, fun pid h => ?_⟩⟩
    have := (mem_running_meanwhile.mp h).1
    exact (mem_running_start.mp this).symm
  · rw [hspawn]
    constructor
    · intro h
      -- the child is not one of those running before
      by_contra hdirty
      have hruns : w.next ∈ (w.start.meanwhile o.childExits w.next).running := by
        rw [mem_running_meanwhile]
        refine ⟨by simp, fun hexit => hdirty (.inr (.inr (.inl hexit.1)))⟩
      exact next_notMem w (h w.next hruns)
    · rintro (⟨e, he⟩ | hs | hexit | hok) pid h
      · exact absurd he (haccel e)
      · rw [hstart] at hs
        cases hs
      · rw [mem_running_meanwhile, mem_running_start] at h
        obtain ⟨rfl | hmem, hne⟩ := h
        · exact absurd ⟨hexit, rfl⟩ hne
        · exact hmem
      · exact absurd hok hnot

/-! ## Test functions -/

/-- A test function under way: the children there are, and the processes it
owns. -/
structure TestState where
  world : World
  owned : List QemuProcess

inductive TestEvent where
  | spawn (o : SpawnOutcomes)
  | drop (p : QemuProcess) (d : DropOutcomes)
  | quitAndWait (p : QemuProcess) (timeout : Nat) (q : QuitOutcomes)
  /-- A child exits by itself. -/
  | exits (pid : Nat)

/-- A failed `spawn` may end the function or not; a process is dropped once. -/
def testStep (s : TestState) : TestEvent → Option TestState
  | .spawn o =>
      match spawn o s.world with
      | (.ok p, w) => some ⟨w, p :: s.owned⟩
      | (.error _, w) => some ⟨w, s.owned⟩
  | .drop p d =>
      if p ∈ s.owned then some ⟨dropProcess p d s.world, s.owned.erase p⟩ else none
  | .quitAndWait p timeout q =>
      if p ∈ s.owned then
        some ⟨(quitAndWait p timeout q s.world).2, s.owned.erase p⟩
      else none
  | .exits pid => some ⟨s.world.exit pid, s.owned⟩

abbrev TestRunOf (es : List TestEvent) (s : TestState) : Prop :=
  Run (fun s e t => testStep s e = some t) ⟨.empty, []⟩ es s

/-- The function returns: what it still owns is dropped. -/
def TestState.returned (ds : Nat → DropOutcomes) (s : TestState) : World :=
  s.owned.foldl (fun w p => dropProcess p (ds p.child) w) s.world

/-- Every running child belongs to a process that is owned. -/
def Owned (s : TestState) : Prop :=
  ∀ pid ∈ s.world.running, ∃ p ∈ s.owned, p.child = pid

theorem mem_running_returned {ds : Nat → DropOutcomes} {s : TestState} {q : Nat} :
    q ∈ (s.returned ds).running ↔
      q ∈ s.world.running ∧ ∀ p ∈ s.owned, q ≠ p.child := by
  obtain ⟨w, owned⟩ := s
  unfold TestState.returned
  induction owned generalizing w with
  | nil => simp
  | cons p owned ih =>
      rw [List.foldl_cons, ih, running_dropProcess]
      simp [and_assoc]

/-- Dropping one process leaves the others owned. -/
theorem owned_erase {w w' : World} {owned : List QemuProcess} {p : QemuProcess}
    (h : Owned ⟨w, owned⟩) (hw : ∀ q ∈ w'.running, q ∈ w.running ∧ q ≠ p.child) :
    Owned ⟨w', owned.erase p⟩ := by
  intro q hq
  obtain ⟨hmem, hne⟩ := hw q hq
  obtain ⟨p', hp', rfl⟩ := h q hmem
  have hpp : p' ≠ p := fun he => hne (he ▸ rfl)
  exact ⟨p', (List.mem_erase_of_ne hpp).mpr hp', rfl⟩

/-- Step lemma: with a clean spawn, every running child stays owned. -/
theorem owned_step {s t : TestState} {e : TestEvent} (h : Owned s)
    (hclean : ∀ o, e = .spawn o → o.Clean) (hs : testStep s e = some t) : Owned t := by
  obtain ⟨w, owned⟩ := s
  cases e with
  | spawn o =>
      have hcontract := (spawnContract_iff o w).mpr (hclean o rfl)
      unfold SpawnContract at hcontract
      simp only [testStep] at hs
      split at hs
      · rename_i p w' hspawn
        cases hs
        rw [hspawn] at hcontract
        intro pid hpid
        rcases hcontract.2 pid hpid with hold | rfl
        · obtain ⟨q, hq, rfl⟩ := h pid hold
          exact ⟨q, List.mem_cons_of_mem _ hq, rfl⟩
        · exact ⟨p, List.mem_cons_self, rfl⟩
      · rename_i e w' hspawn
        cases hs
        rw [hspawn] at hcontract
        exact fun pid hpid => h pid (hcontract pid hpid)
  | drop p d =>
      simp only [testStep] at hs
      split at hs
      · cases hs
        exact owned_erase h fun q hq => (running_dropProcess p d w).mp hq
      · cases hs
  | quitAndWait p timeout q =>
      simp only [testStep] at hs
      split at hs
      · cases hs
        exact owned_erase h fun _ hq => (running_quitAndWait p timeout q w).mp hq
      · cases hs
  | exits pid =>
      cases hs
      exact fun q hq => h q (mem_running_exit.mp hq).1

/-- Run lemma: with clean spawns only, every running child is owned. -/
theorem owned_run {es : List TestEvent} {s : TestState} (h : TestRunOf es s)
    (hclean : ∀ o, .spawn o ∈ es → o.Clean) : Owned s := by
  revert hclean
  refine Run.induct (P := fun es s => (∀ o, TestEvent.spawn o ∈ es → o.Clean) → Owned s)
    ?_ ?_ h
  · intro _ pid hpid
    simp [World.empty] at hpid
  · intro es s e t ih hs hclean
    refine owned_step (ih fun o ho => hclean o (List.mem_append_left _ ho)) ?_ hs
    rintro o rfl
    exact hclean o (by simp)

/-- **No leaked child**: `spawn` meets its contract exactly when no step fails
while the child it started keeps running; a test function all of whose spawns
are like that returns with no child running, whatever else it does and meets;
and one whose spawn is not leaves its child running. -/
theorem no_leaked_child (o : SpawnOutcomes) (w : World) (es : List TestEvent)
    (s : TestState) (ds : Nat → DropOutcomes) :
    (SpawnContract o w ↔ o.Clean) ∧
    (TestRunOf es s → (∀ o, .spawn o ∈ es → o.Clean) →
      (s.returned ds).running = []) ∧
    (¬ o.Clean → ∃ s, TestRunOf [.spawn o] s ∧ ∀ ds, (s.returned ds).running ≠ []) := by
  refine ⟨spawnContract_iff o w, ?_, ?_⟩
  · intro hrun hclean
    have howned := owned_run hrun hclean
    rw [List.eq_nil_iff_forall_not_mem]
    intro q hq
    obtain ⟨hmem, hne⟩ := mem_running_returned.mp hq
    obtain ⟨p, hp, rfl⟩ := howned q hmem
    exact hne p hp rfl
  · intro hdirty
    rcases spawn_cases o .empty with ⟨hnone, -⟩ | ⟨-, -, hok, -⟩ |
      ⟨-, -, -, e, hspawn⟩
    · exact absurd (hnone.elim .inl fun hs => .inr (.inl hs)) hdirty
    · exact absurd (.inr (.inr (.inr hok))) hdirty
    · refine ⟨⟨World.empty.start.meanwhile o.childExits World.empty.next, []⟩, ?_, ?_⟩
      · exact Run.snoc .nil (by simp only [testStep, hspawn])
      · intro ds
        refine List.ne_nil_of_mem (a := World.empty.next) ?_
        rw [mem_running_returned, mem_running_meanwhile]
        exact ⟨⟨by simp, fun hexit => hdirty (.inr (.inr (.inl hexit.1)))⟩, by simp⟩

/-- The socket is there at once, the handshake fails, QEMU keeps running. -/
def handshakeFails : SpawnOutcomes where
  accel := .ok .Kvm
  program := []
  path := []
  start := true
  pathExists _ := true
  clock := .exact 50 (by decide)
  connect := true
  set_read_timeout := true
  set_write_timeout := true
  try_clone := true
  handshake := false
  openSerial := true
  childExits := false

/-- The failed handshake breaks the contract, and the test function returns
with its child running. -/
theorem leaked_child_handshakeFails :
    ¬ SpawnContract handshakeFails .empty ∧
      ∃ s, TestRunOf [.spawn handshakeFails] s ∧
        ∀ ds, 1 ∈ (s.returned ds).running := by
  have hsteps : ∃ e, spawn handshakeFails .empty = (.error e, World.empty.start) :=
    ⟨_, rfl⟩
  obtain ⟨e, hspawn⟩ := hsteps
  have hruns : 1 ∈ World.empty.start.running := by decide
  constructor
  · unfold SpawnContract
    rw [hspawn]
    intro h
    simpa [World.empty] using h 1 hruns
  · refine ⟨⟨World.empty.start, []⟩, Run.snoc .nil (by simp only [testStep, hspawn]), ?_⟩
    intro ds
    exact mem_running_returned.mpr ⟨hruns, by simp⟩

end QemuTest

import Mathlib.Algebra.BigOperators.Group.Finset.Basic
import QemuTest.Config
import QemuTest.Lib.Runs
import QemuTest.Main.Select

/-!
# Main — Run

From the selected entries to the exit status: `repeat` and `shuffle`, the
worker pool as a transition system with the SIGINT handler as one of its
events, `collect`, and the tail of `main` with its three consumers.

`Accounts` ties, position by position, what happened to a run with the status
the pool holds; it is kept by every step, and everything else follows from it.
-/

namespace QemuTest

open Text Runs

variable {β : Type}

/-! ## run_test -/

/-- What `run_test` returns when it finds the flag set. -/
def interruptedResult (entry : TestEntry β) : TestResult where
  label := entry.label
  properties := entry.properties
  outcome := .Fail (lit "interrupted")
  duration := 0

/-- What `run_test` returns once the body is back with `result`. -/
def finishedResult (entry : TestEntry β) (result : Except Str Unit)
    (duration : Duration) : TestResult where
  label := entry.label
  properties := entry.properties
  outcome := match result with
    | .ok () => .Pass
    | .error msg => .Fail msg
  duration := duration

/-! ## The runs -/

/-- One run: the entry, and its place before the shuffle, which tells the
copies of an entry apart. -/
abbrev TestRun (β : Type) := EntryRef β × Nat

/-- `isize::MAX` on the 64-bit targets the tests run on, and the size of a
reference there. -/
def isizeMax : Nat := 2 ^ 63 - 1

def refSize : Nat := 8

/-- `<[T]>::repeat` of references. No vector takes more than `isize::MAX` bytes. -/
def repeatTests {α : Type} (n : Nat) (tests : List α) : Except Panic (List α) :=
  if n * tests.length * refSize ≤ isizeMax then .ok (List.replicate n tests).flatten
  else .error (lit "capacity overflow")

/-- The runs before the shuffle. -/
def planned (test_repeat : Nat) (tests : List (EntryRef β)) :
    Except Panic (List (TestRun β)) :=
  (repeatTests test_repeat tests).map List.zipIdx

/-! ## The pool -/

inductive Status where
  | waiting
  | running (worker : Nat)
  | done (result : TestResult)
  deriving DecidableEq, Repr

inductive Event where
  /-- The SIGINT handler stores the flag. -/
  | sigint
  /-- A worker takes the run at `k` and loads the flag as `seen`. -/
  | start (k worker : Nat) (seen : Bool)
  /-- The body of the run at `k` returns. -/
  | finish (k : Nat) (result : Except Str Unit) (took : Duration)

/-- The position an event is about. -/
def Event.position : Event → Option Nat
  | .sigint => none
  | .start k _ _ => some k
  | .finish k _ _ => some k

/-- `calls` are the positions whose test body was invoked, in order. -/
structure Pool where
  shutdown : Bool
  status : Nat → Status
  calls : List Nat

def Pool.init : Pool := ⟨false, fun _ => .waiting, []⟩

def Pool.set (s : Pool) (k : Nat) (st : Status) : Pool :=
  { s with status := Function.update s.status k st }

@[simp] theorem set_shutdown (s : Pool) (k : Nat) (st : Status) :
    (s.set k st).shutdown = s.shutdown := rfl

@[simp] theorem set_calls (s : Pool) (k : Nat) (st : Status) :
    (s.set k st).calls = s.calls := rfl

@[simp] theorem set_status_self (s : Pool) (k : Nat) (st : Status) :
    (s.set k st).status k = st := by
  simp [Pool.set]

theorem set_status_of_ne (s : Pool) {j k : Nat} (st : Status) (h : j ≠ k) :
    (s.set k st).status j = s.status j := by
  simp [Pool.set, h]

/-- A worker runs one test at a time. -/
def Pool.Idle (s : Pool) (n worker : Nat) : Prop :=
  ∀ j < n, s.status j ≠ .running worker

instance (s : Pool) (n worker : Nat) : Decidable (s.Idle n worker) := by
  unfold Pool.Idle
  infer_instance

/-- The flag can only be loaded as set once it is; a relaxed load may still
miss it. -/
def step (workers : Nat) (tests : List (TestRun β)) (s : Pool) :
    Event → Option Pool
  | .sigint => some { s with shutdown := true }
  | .start k worker seen =>
      match tests[k]? with
      | none => none
      | some run =>
          if s.status k = .waiting ∧ worker < workers ∧ s.Idle tests.length worker
              ∧ (seen = true → s.shutdown = true) then
            if seen then some (s.set k (.done (interruptedResult run.1.1)))
            else some { s.set k (.running worker) with calls := s.calls ++ [k] }
          else none
  | .finish k result took =>
      match tests[k]?, s.status k with
      | some run, .running _ =>
          some (s.set k (.done (finishedResult run.1.1 result took)))
      | _, _ => none

abbrev PoolRun (workers : Nat) (tests : List (TestRun β)) (es : List Event)
    (s : Pool) : Prop :=
  Run (fun s e t => step workers tests s e = some t) Pool.init es s

/-- What a step can do. -/
theorem step_cases {workers : Nat} {tests : List (TestRun β)} {s t : Pool}
    {e : Event} (h : step workers tests s e = some t) :
    (e = .sigint ∧ t = { s with shutdown := true }) ∨
    (∃ k worker run, e = .start k worker true ∧ tests[k]? = some run ∧
      s.status k = .waiting ∧ s.shutdown = true ∧
      t = s.set k (.done (interruptedResult run.1.1))) ∨
    (∃ k worker run, e = .start k worker false ∧ tests[k]? = some run ∧
      s.status k = .waiting ∧
      t = { s.set k (.running worker) with calls := s.calls ++ [k] }) ∨
    (∃ k result took run worker, e = .finish k result took ∧
      tests[k]? = some run ∧ s.status k = .running worker ∧
      t = s.set k (.done (finishedResult run.1.1 result took))) := by
  cases e with
  | sigint =>
      simp only [step, Option.some.injEq] at h
      exact .inl ⟨rfl, h.symm⟩
  | start k worker seen =>
      cases hrun : tests[k]? with
      | none => simp [step, hrun] at h
      | some run =>
          simp only [step, hrun] at h
          split at h
          · obtain ⟨hwait, -, -, hseen⟩ := ‹_ ∧ _ ∧ _›
            cases seen with
            | true =>
                simp only [if_true, Option.some.injEq] at h
                exact .inr (.inl ⟨k, worker, run, rfl, hrun, hwait, hseen rfl, h.symm⟩)
            | false =>
                simp only [Bool.false_eq_true, if_false, Option.some.injEq] at h
                exact .inr (.inr (.inl ⟨k, worker, run, rfl, hrun, hwait, h.symm⟩))
          · cases h
  | finish k result took =>
      cases hrun : tests[k]? with
      | none => simp [step, hrun] at h
      | some run =>
          cases hstat : s.status k with
          | waiting => simp [step, hrun, hstat] at h
          | done r => simp [step, hrun, hstat] at h
          | running worker =>
              simp only [step, hrun, hstat, Option.some.injEq] at h
              exact .inr (.inr (.inr
                ⟨k, result, took, run, worker, rfl, hrun, hstat, h.symm⟩))

/-! ## What happened to a run -/

/-- The events at position `k`, in order. -/
def history (k : Nat) (es : List Event) : List Event :=
  es.filter fun e => e.position = some k

theorem history_snoc (k : Nat) (es : List Event) (e : Event) :
    history k (es ++ [e])
      = history k es ++ (if e.position = some k then [e] else []) := by
  by_cases h : e.position = some k
  · simp [history, h]
  · simp [history, h]

theorem history_snoc_of_ne {k : Nat} (es : List Event) {e : Event}
    (h : e.position ≠ some k) : history k (es ++ [e]) = history k es := by
  rw [history_snoc, if_neg h, List.append_nil]

theorem history_snoc_self {k : Nat} (es : List Event) {e : Event}
    (h : e.position = some k) : history k (es ++ [e]) = history k es ++ [e] := by
  rw [history_snoc, if_pos h]

/-- The result is one of this entry. -/
def ResultOf (entry : TestEntry β) (r : TestResult) : Prop :=
  r.label = entry.label ∧ r.properties = entry.properties

/-- A run that saw the flag: its one event, and the failure it gave. -/
def Interrupted (entry : TestEntry β) (h : List Event) (k : Nat) (r : TestResult) :
    Prop :=
  (∃ worker, h = [.start k worker true]) ∧ ResultOf entry r ∧
    r.outcome = .Fail (lit "interrupted")

/-- A run whose body was invoked and came back, with `Ok` or with an error. -/
def Finished (entry : TestEntry β) (h : List Event) (k : Nat) (r : TestResult) :
    Prop :=
  ∃ worker result took,
    h = [.start k worker false, .finish k result took] ∧ ResultOf entry r ∧
      (result = .ok () ∧ r.outcome = .Pass ∨
        ∃ msg, result = .error msg ∧ r.outcome = .Fail msg)

theorem finishedResult_outcome (entry : TestEntry β) (result : Except Str Unit)
    (took : Duration) :
    result = .ok () ∧ (finishedResult entry result took).outcome = .Pass ∨
      ∃ msg, result = .error msg ∧ (finishedResult entry result took).outcome = .Fail msg := by
  cases result with
  | ok => exact .inl ⟨rfl, rfl⟩
  | error msg => exact .inr ⟨msg, rfl, rfl⟩

/-- The status of a position accounts for what happened there, and for how
often its body was invoked. -/
def Account (tests : List (TestRun β)) (es : List Event) (s : Pool) (k : Nat) :
    Prop :=
  match s.status k with
  | .waiting => history k es = [] ∧ s.calls.count k = 0
  | .running worker => history k es = [.start k worker false] ∧ s.calls.count k = 1
  | .done r => ∃ run, tests[k]? = some run ∧
      ((Interrupted run.1.1 (history k es) k r ∧ s.calls.count k = 0) ∨
        (Finished run.1.1 (history k es) k r ∧ s.calls.count k = 1))

structure Accounts (tests : List (TestRun β)) (es : List Event) (s : Pool) :
    Prop where
  account : ∀ k, Account tests es s k
  shutdown : s.shutdown = true ↔ Event.sigint ∈ es
  seen : ∀ k worker, Event.start k worker true ∈ es → Event.sigint ∈ es

/-- An event leaves every position it is not about alone. -/
theorem Account.other {tests : List (TestRun β)} {es : List Event} {s t : Pool}
    {e : Event} {k : Nat} (h : Account tests es s k) (he : e.position ≠ some k)
    (hstat : t.status k = s.status k) (hcalls : t.calls.count k = s.calls.count k) :
    Account tests (es ++ [e]) t k := by
  unfold Account at h ⊢
  rw [hstat, hcalls, history_snoc_of_ne es he]
  exact h

theorem accounts_init (tests : List (TestRun β)) : Accounts tests [] Pool.init where
  account k := by simp [Account, Pool.init, history]
  shutdown := by simp [Pool.init]
  seen := by simp

/-- Setting one position accounts for the others as before. -/
theorem Accounts.set {tests : List (TestRun β)} {es : List Event} {s t : Pool}
    {e : Event} {k : Nat} {st : Status} (h : Accounts tests es s)
    (he : e.position = some k) (hstat : t.status = (s.set k st).status)
    (hcalls : ∀ j, j ≠ k → t.calls.count j = s.calls.count j)
    (hk : Account tests (es ++ [e]) t k) :
    ∀ j, Account tests (es ++ [e]) t j := by
  intro j
  by_cases hj : j = k
  · subst hj
    exact hk
  · refine (h.account j).other ?_ ?_ (hcalls j hj)
    · rw [he]
      intro heq
      exact hj (Option.some.inj heq).symm
    · rw [hstat, set_status_of_ne s st hj]

/-- Step lemma: every step keeps the accounts. -/
theorem accounts_step {workers : Nat} {tests : List (TestRun β)} {es : List Event}
    {s t : Pool} {e : Event} (h : Accounts tests es s)
    (hs : step workers tests s e = some t) : Accounts tests (es ++ [e]) t := by
  rcases step_cases hs with ⟨rfl, rfl⟩ | ⟨k, worker, run, rfl, hrun, hwait, hdown, rfl⟩ |
    ⟨k, worker, run, rfl, hrun, hwait, rfl⟩ |
    ⟨k, result, took, run, worker, rfl, hrun, hrunning, rfl⟩
  · -- the handler touches no position
    refine ⟨fun k => (h.account k).other (by simp [Event.position]) rfl rfl, ?_, ?_⟩
    · simp
    · simp
  · have hk := h.account k
    simp only [Account, hwait] at hk
    obtain ⟨hnil, hcount⟩ := hk
    refine ⟨h.set rfl rfl (fun _ _ => rfl) ?_, ?_, ?_⟩
    · have hhist : history k (es ++ [.start k worker true])
          = [.start k worker true] := by
        rw [history_snoc_self es (by rfl), hnil, List.nil_append]
      simp only [Account, set_status_self, set_calls, hhist]
      exact ⟨run, hrun, .inl ⟨⟨⟨worker, rfl⟩, ⟨rfl, rfl⟩, rfl⟩, hcount⟩⟩
    · simpa using h.shutdown
    · intro _ _ _
      exact List.mem_append_left _ (h.shutdown.mp hdown)
  · have hk := h.account k
    simp only [Account, hwait] at hk
    obtain ⟨hnil, hcount⟩ := hk
    refine ⟨h.set rfl rfl ?_ ?_, ?_, ?_⟩
    · intro j hj
      simp [List.count_append, hj.symm]
    · have hhist : history k (es ++ [.start k worker false])
          = [.start k worker false] := by
        rw [history_snoc_self es (by rfl), hnil, List.nil_append]
      simp only [Account, set_status_self, hhist]
      exact ⟨trivial, by simp [List.count_append, hcount]⟩
    · simpa using h.shutdown
    · intro j w hmem
      rcases List.mem_append.mp hmem with hmem | hmem
      · exact List.mem_append_left _ (h.seen j w hmem)
      · simp at hmem
  · have hk := h.account k
    simp only [Account, hrunning] at hk
    obtain ⟨hone, hcount⟩ := hk
    refine ⟨h.set rfl rfl (fun _ _ => rfl) ?_, ?_, ?_⟩
    · have hhist : history k (es ++ [.finish k result took])
          = [.start k worker false, .finish k result took] := by
        rw [history_snoc_self es (by rfl), hone, List.singleton_append]
      simp only [Account, set_status_self, set_calls, hhist]
      exact ⟨run, hrun, .inr ⟨⟨worker, result, took, rfl, ⟨rfl, rfl⟩,
        finishedResult_outcome run.1.1 result took⟩, hcount⟩⟩
    · simpa using h.shutdown
    · intro j w hmem
      rcases List.mem_append.mp hmem with hmem | hmem
      · exact List.mem_append_left _ (h.seen j w hmem)
      · simp at hmem

/-- Run lemma: the accounts hold in every reachable state. -/
theorem accounts_run {workers : Nat} {tests : List (TestRun β)} {es : List Event}
    {s : Pool} (h : PoolRun workers tests es s) : Accounts tests es s :=
  Run.induct (accounts_init tests) (fun _ _ _ _ => accounts_step) h

/-! ## collect -/

def Status.result? : Status → Option TestResult
  | .done r => some r
  | _ => none

/-- `collect` on an indexed parallel iterator: the results in the order of the
positions, once the first `n` are there. -/
def Pool.collect (s : Pool) : Nat → Option (List TestResult)
  | 0 => some []
  | n + 1 =>
      match s.collect n, (s.status n).result? with
      | some rs, some r => some (rs ++ [r])
      | _, _ => none

theorem collect_spec {s : Pool} {n : Nat} {results : List TestResult}
    (h : s.collect n = some results) :
    results.length = n ∧
      ∀ k r, results[k]? = some r ↔ k < n ∧ s.status k = .done r := by
  induction n generalizing results with
  | zero =>
      simp only [Pool.collect, Option.some.injEq] at h
      subst h
      simp
  | succ n ih =>
      simp only [Pool.collect] at h
      split at h
      · rename_i rs r hrs hr
        cases h
        obtain ⟨hlen, hget⟩ := ih hrs
        have hn : s.status n = .done r := by
          cases hst : s.status n with
          | done r' =>
              rw [hst] at hr
              exact congrArg Status.done (Option.some.inj hr)
          | _ => simp [hst, Status.result?] at hr
        refine ⟨by simp [hlen], fun k r' => ?_⟩
        by_cases hk : k < n
        · rw [List.getElem?_append_left (by omega), hget k r']
          exact ⟨fun ⟨_, h⟩ => ⟨by omega, h⟩, fun ⟨_, h⟩ => ⟨hk, h⟩⟩
        · by_cases hkn : k = n
          · subst hkn
            rw [List.getElem?_append_right (by omega), hlen, Nat.sub_self, hn]
            simp
          · rw [List.getElem?_eq_none (by simp [hlen]; omega)]
            simp
            omega
      · cases h

/-! ## The end of the pool -/

/-- How many events a run has before it at most. -/
def Status.ahead : Status → Nat
  | .waiting => 2
  | .running _ => 1
  | .done _ => 0

def Pool.ahead (s : Pool) (n : Nat) : Nat := ∑ k ∈ Finset.range n, (s.status k).ahead

theorem ahead_set (s : Pool) {k n : Nat} (hk : k < n) (st : Status) :
    (s.set k st).ahead n + (s.status k).ahead = s.ahead n + st.ahead := by
  have hmem : k ∈ Finset.range n := Finset.mem_range.mpr hk
  have hrest : ∀ j ∈ (Finset.range n).erase k,
      ((s.set k st).status j).ahead = (s.status j).ahead := fun j hj => by
    rw [set_status_of_ne s st (Finset.ne_of_mem_erase hj)]
  rw [Pool.ahead, Pool.ahead, ← Finset.add_sum_erase _ _ hmem,
    ← Finset.add_sum_erase _ (fun j => (s.status j).ahead) hmem, Finset.sum_congr rfl hrest,
    set_status_self]
  omega

/-- A start and an end of a run leave less before the pool. -/
theorem ahead_step {workers : Nat} {tests : List (TestRun β)} {s t : Pool} {e : Event}
    (h : step workers tests s e = some t) :
    t.ahead tests.length + (if e.position.isSome then 1 else 0) ≤ s.ahead tests.length := by
  rcases step_cases h with ⟨rfl, rfl⟩ | ⟨k, worker, run, rfl, hrun, hwait, -, rfl⟩ |
    ⟨k, worker, run, rfl, hrun, hwait, rfl⟩ |
    ⟨k, result, took, run, worker, rfl, hrun, hrunning, rfl⟩
  · exact Nat.le_refl _
  · have hset := ahead_set s (List.getElem?_eq_some_iff.mp hrun).1
      (.done (interruptedResult run.1.1))
    simp only [hwait, Status.ahead, Event.position, Option.isSome_some, if_true] at hset ⊢
    omega
  · have hset := ahead_set s (List.getElem?_eq_some_iff.mp hrun).1 (.running worker)
    simp only [hwait, Status.ahead, Event.position, Option.isSome_some, if_true] at hset ⊢
    show (s.set k (.running worker)).ahead tests.length + 1 ≤ _
    omega
  · have hset := ahead_set s (List.getElem?_eq_some_iff.mp hrun).1
      (.done (finishedResult run.1.1 result took))
    simp only [hrunning, Status.ahead, Event.position, Option.isSome_some, if_true] at hset ⊢
    omega

/-- **The pool comes to an end**: no run of it has more starts and ends than
two for each test. -/
theorem events_bounded {workers : Nat} {tests : List (TestRun β)} {es : List Event}
    {s : Pool} (h : PoolRun workers tests es s) :
    (es.countP fun e => e.position.isSome) ≤ 2 * tests.length := by
  suffices hsum : (es.countP fun e => e.position.isSome) + s.ahead tests.length
      ≤ 2 * tests.length by omega
  refine Run.induct (P := fun es s => (es.countP fun e => e.position.isSome)
    + s.ahead tests.length ≤ 2 * tests.length) ?_ ?_ h
  · simp [Pool.ahead, Pool.init, Status.ahead, Nat.mul_comm]
  · intro es t e u hle hs
    have hstep := ahead_step hs
    rw [List.countP_append, List.countP_singleton]
    omega

theorem collect_of_done {s : Pool} {n : Nat} (h : ∀ k < n, ∃ r, s.status k = .done r) :
    ∃ results, s.collect n = some results := by
  induction n with
  | zero => exact ⟨[], rfl⟩
  | succ n ih =>
      obtain ⟨rs, hrs⟩ := ih fun k hk => h k (by omega)
      obtain ⟨r, hr⟩ := h n (Nat.lt_succ_self n)
      exact ⟨rs ++ [r], by simp [Pool.collect, hrs, hr, Status.result?]⟩

/-- **The pool does not get stuck**: where a run is not done, one can be started
or is under way. -/
theorem collect_of_stuck {workers : Nat} {tests : List (TestRun β)} {s : Pool}
    (hworkers : 0 < workers)
    (h : ∀ e t, step workers tests s e = some t → e.position = none) :
    ∃ results, s.collect tests.length = some results := by
  have hrunning : ∀ k < tests.length, ∀ worker, s.status k ≠ .running worker := by
    intro k hk worker hst
    have hstep : step workers tests s (.finish k (.ok ()) 0)
        = some (s.set k (.done (finishedResult tests[k].1.1 (.ok ()) 0))) := by
      simp only [step, List.getElem?_eq_getElem hk, hst]
    cases h _ _ hstep
  refine collect_of_done fun k hk => ?_
  cases hst : s.status k with
  | done r => exact ⟨r, rfl⟩
  | running worker => exact absurd hst (hrunning k hk worker)
  | waiting =>
      have hidle : s.Idle tests.length 0 := fun j hj => hrunning j hj 0
      have hstep : step workers tests s (.start k 0 false)
          = some { s.set k (.running 0) with calls := s.calls ++ [k] } := by
        simp only [step, List.getElem?_eq_getElem hk]
        rw [if_pos ⟨hst, hworkers, hidle, by simp⟩]
        rfl
      cases h _ _ hstep

/-! ## The tail of main -/

/-- The failure list. -/
def failuresOf (results : List TestResult) : List (Str × Str) :=
  results.filterMap fun r =>
    match r.outcome with
    | .Fail e => some (r.label, e)
    | _ => none

/-- The text of the final `bail!`; `secs` renders `{:.2}`. -/
def failedMessage (secs : Duration → Str) (failures num_run : Nat)
    (elapsed : Duration) : Str :=
  lit "\n" ++ decimal failures ++ lit " of " ++ decimal num_run
    ++ lit " tests failed (" ++ secs elapsed ++ lit "s)"

def passedMessage (secs : Duration → Str) (tests : Nat) (elapsed : Duration) : Str :=
  lit "\nPASS: All " ++ decimal tests ++ lit " tests passed ("
    ++ secs elapsed ++ lit "s)"

/-- What `main` does with the results: the input of `write_junit`, the lines
it prints, and what it returns. -/
structure MainReport where
  junit : Option (Str × List TestResult × Duration)
  stderr : List Str
  stdout : List Str
  verdict : Except Str Unit

def report (secs : Duration → Str) (junit_path : Option Str)
    (skip_results results : List TestResult) (tests : Nat) (elapsed : Duration) :
    MainReport :=
  let failures := failuresOf results
  let num_run := results.length
  let junit := junit_path.map fun path => (path, skip_results ++ results, elapsed)
  if failures.isEmpty then
    { junit, stderr := [], stdout := [passedMessage secs tests elapsed],
      verdict := .ok () }
  else
    { junit
      stderr := [] :: failures.map fun f => lit "FAIL: " ++ f.1 ++ lit ": " ++ f.2
      stdout := []
      verdict := .error (failedMessage secs failures.length num_run elapsed) }

theorem length_failuresOf (results : List TestResult) :
    (failuresOf results).length = results.countP fun r => r.outcome.isFail := by
  induction results with
  | nil => rfl
  | cons r rs ih =>
      rw [failuresOf] at ih ⊢
      cases ho : r.outcome with
      | Fail e => simp [ho, ih]
      | Pass => simp [ho, ih]
      | Skip e => simp [ho, ih]

/-- What `main` returns, from the two counts it reports. -/
def verdictOf (secs : Duration → Str) (failed num_run : Nat) (elapsed : Duration) :
    Except Str Unit :=
  if failed = 0 then .ok () else .error (failedMessage secs failed num_run elapsed)

/-- `main` fails iff it counts a failure. -/
theorem verdictOf_error_iff {secs : Duration → Str} {failed num_run : Nat}
    {elapsed : Duration} :
    (∃ msg, verdictOf secs failed num_run elapsed = .error msg) ↔ 0 < failed := by
  unfold verdictOf
  by_cases h0 : failed = 0
  · simp [h0]
  · simp [h0, Nat.pos_of_ne_zero h0]

theorem verdictOf_error {secs : Duration → Str} {failed num_run : Nat}
    {elapsed : Duration} {msg : Str} (h : verdictOf secs failed num_run elapsed = .error msg) :
    msg = failedMessage secs failed num_run elapsed := by
  unfold verdictOf at h
  split at h
  · cases h
  · exact (Except.error.inj h).symm

theorem report_verdict (secs : Duration → Str) (junit_path : Option Str)
    (skip_results results : List TestResult) (tests : Nat) (elapsed : Duration) :
    (report secs junit_path skip_results results tests elapsed).verdict
      = verdictOf secs (results.countP fun r => r.outcome.isFail) results.length
          elapsed := by
  rw [← length_failuresOf, verdictOf, report]
  by_cases h : failuresOf results = []
  · simp [h]
  · have hlen : (failuresOf results).length ≠ 0 := by simpa using h
    simp [h]

theorem report_junit (secs : Duration → Str) (junit_path : Option Str)
    (skip_results results : List TestResult) (tests : Nat) (elapsed : Duration) :
    (report secs junit_path skip_results results tests elapsed).junit
      = junit_path.map fun path => (path, skip_results ++ results, elapsed) := by
  rw [report]
  by_cases h : (failuresOf results).isEmpty = true
  · rw [if_pos h]
  · rw [if_neg h]

/-! ## Counting runs -/

theorem repeatTests_eq_ok {α : Type} {n : Nat} {l runs : List α} :
    repeatTests n l = .ok runs ↔
      n * l.length * refSize ≤ isizeMax ∧ runs = (List.replicate n l).flatten := by
  unfold repeatTests
  split <;> simp_all [eq_comm]

theorem countP_repeatTests {α : Type} {n : Nat} {l runs : List α}
    (h : repeatTests n l = .ok runs) (p : α → Bool) : runs.countP p = n * l.countP p := by
  obtain ⟨-, rfl⟩ := repeatTests_eq_ok.mp h
  clear h
  induction n with
  | zero => simp
  | succ n ih =>
      rw [List.replicate_succ, List.flatten_cons, List.countP_append, ih]
      rw [Nat.succ_mul, Nat.add_comm]

theorem planned_eq_ok {n : Nat} {l : List (EntryRef β)} {plan : List (TestRun β)} :
    planned n l = .ok plan ↔ ∃ runs, repeatTests n l = .ok runs ∧ plan = runs.zipIdx := by
  unfold planned
  cases repeatTests n l with
  | error e => simp [Except.map]
  | ok runs => simp [Except.map, eq_comm]

/-- `main` panics before the first run iff the runs do not fit in a vector. -/
theorem planned_eq_error {n : Nat} {l : List (EntryRef β)} {panic : Panic} :
    planned n l = .error panic ↔
      isizeMax < n * l.length * refSize ∧ panic = lit "capacity overflow" := by
  unfold planned repeatTests
  split <;> simp_all [Except.map, eq_comm]

section Planned

variable {n : Nat} {l : List (EntryRef β)} {plan : List (TestRun β)}

theorem countP_planned (h : planned n l = .ok plan) (p : EntryRef β → Bool) :
    (plan.countP fun run => p run.1) = n * l.countP p := by
  obtain ⟨runs, hruns, rfl⟩ := planned_eq_ok.mp h
  have hmap : runs.zipIdx.map Prod.fst = runs := by simp
  rw [← countP_repeatTests hruns]
  conv_rhs => rw [← hmap, List.countP_map]
  rfl

theorem length_planned (h : planned n l = .ok plan) : plan.length = n * l.length := by
  have h := countP_planned h fun _ => true
  simpa using h

theorem mem_planned (h : planned n l = .ok plan) {run : TestRun β} (hrun : run ∈ plan) :
    run.1 ∈ l := by
  obtain ⟨runs, hruns, rfl⟩ := planned_eq_ok.mp h
  obtain ⟨-, rfl⟩ := repeatTests_eq_ok.mp hruns
  have hmem := List.mem_map_of_mem (f := Prod.fst) hrun
  rw [List.zipIdx_map_fst, List.mem_flatten] at hmem
  obtain ⟨l', hl', hrun⟩ := hmem
  rwa [List.eq_of_mem_replicate hl'] at hrun

theorem ids_planned (h : planned n l = .ok plan) :
    plan.map Prod.snd = List.range (n * l.length) := by
  have hlen := length_planned h
  obtain ⟨runs, hruns, rfl⟩ := planned_eq_ok.mp h
  rw [List.length_zipIdx] at hlen
  simp [hlen, List.range_eq_range']

end Planned

/-- With distinct keys, what is counted under the key of `x` is `x` alone. -/
theorem countP_of_nodup_key {α : Type} {l : List (α × Nat)}
    (hnd : (l.map Prod.snd).Nodup) {x : α × Nat} (hx : x ∈ l)
    (p : α × Nat → Bool) :
    (l.countP fun y => decide (y.2 = x.2) && p y) = if p x then 1 else 0 := by
  induction l with
  | nil => simp at hx
  | cons y l ih =>
      rw [List.map_cons, List.nodup_cons] at hnd
      obtain ⟨hy, hnd⟩ := hnd
      rw [List.countP_cons]
      rcases List.mem_cons.mp hx with rfl | hx
      · have hnone : (l.countP fun y => decide (y.2 = x.2) && p y) = 0 := by
          rw [List.countP_eq_zero]
          intro z hz
          have hne : z.2 ≠ x.2 := fun he => hy (he ▸ List.mem_map_of_mem hz)
          simp [hne]
        rw [hnone]
        simp
      · have hne : y.2 ≠ x.2 := fun he => hy (he ▸ List.mem_map_of_mem hx)
        rw [ih hnd hx]
        simp [hne]

/-- How many selected entries sit in one slot: one, or none. -/
theorem countP_ofClass (f : TestFilter) (c : EntryClass) (entries : List (TestEntry β))
    {ref : EntryRef β} (href : ref ∈ slots entries) :
    ((ofClass f c (slots entries)).countP fun r => decide (r.2 = ref.2))
      = if EntryClass.of f ref.1 = c then 1 else 0 := by
  have hnd : ((slots entries).map Prod.snd).Nodup := by
    simp [slots, List.nodup_range']
  rw [ofClass, List.countP_filter]
  have h := countP_of_nodup_key hnd href fun r => decide (EntryClass.of f r.1 = c)
  simpa using h

/-- The results of the runs of one slot. -/
def contributed (tests : List (TestRun β)) (results : List TestResult) (slot : Nat) :
    List TestResult :=
  ((tests.zip results).filter fun p => p.1.1.2 = slot).map Prod.snd

theorem length_contributed {tests : List (TestRun β)} {results : List TestResult}
    (hlen : results.length = tests.length) (slot : Nat) :
    (contributed tests results slot).length
      = tests.countP fun run => decide (run.1.2 = slot) := by
  have hfst : (tests.zip results).map Prod.fst = tests :=
    List.map_fst_zip (by omega)
  rw [contributed, List.length_map, ← List.countP_eq_length_filter]
  conv_rhs => rw [← hfst, List.countP_map]
  rfl

/-- `o` gives the outcome of every run by its place before the shuffle. -/
def OutcomesAre (o : Nat → TestOutcome) (tests : List (TestRun β))
    (results : List TestResult) : Prop :=
  results.map TestResult.outcome = tests.map fun run => o run.2

/-- Values listed along distinct keys are a function of the key. -/
theorem exists_map_of_nodup {α : Type} (d : α) {keys : List Nat} {vals : List α}
    (hnd : keys.Nodup) (hlen : vals.length = keys.length) :
    ∃ o : Nat → α, vals = keys.map o := by
  induction keys generalizing vals with
  | nil =>
      rw [List.length_nil, List.length_eq_zero_iff] at hlen
      exact ⟨fun _ => d, by simp [hlen]⟩
  | cons k keys ih =>
      cases vals with
      | nil => simp at hlen
      | cons v vals =>
          rw [List.nodup_cons] at hnd
          obtain ⟨o, ho⟩ := ih hnd.2 (by simpa using hlen)
          refine ⟨Function.update o k v, ?_⟩
          rw [List.map_cons, Function.update_self, ho]
          congr 1
          apply List.map_congr_left
          intro j hj
          have hne : j ≠ k := fun he => hnd.1 (he ▸ hj)
          rw [Function.update_of_ne hne]

/-- Distinct runs have outcomes that are a function of their ids. -/
theorem exists_outcomesAre {tests : List (TestRun β)} {results : List TestResult}
    (hnd : (tests.map Prod.snd).Nodup) (hlen : results.length = tests.length) :
    ∃ o, OutcomesAre o tests results := by
  have hvals : (results.map TestResult.outcome).length = (tests.map Prod.snd).length := by
    rw [List.length_map, List.length_map, hlen]
  obtain ⟨o, ho⟩ := exists_map_of_nodup .Pass hnd hvals
  rw [List.map_map] at ho
  exact ⟨o, ho⟩

/-- The failures can be counted by the ids, in whatever order the runs are. -/
theorem OutcomesAre.countP_isFail {o : Nat → TestOutcome} {tests : List (TestRun β)}
    {results : List TestResult} {n : Nat} (h : OutcomesAre o tests results)
    (hids : (tests.map Prod.snd).Perm (List.range n)) :
    (results.countP fun r => r.outcome.isFail)
      = (List.range n).countP fun id => (o id).isFail := by
  have hmap := congrArg (List.countP TestOutcome.isFail) h
  rw [List.countP_map, List.countP_map] at hmap
  rw [← hids.countP_eq, List.countP_map]
  exact hmap

/-! ## Run accounting -/

/-- A run accounted for by its result: it saw the flag, after a SIGINT, and
its body was never invoked; or its body was invoked once and gave the result. -/
def Accounted (es : List Event) (s : Pool) (k : Nat) (entry : TestEntry β)
    (r : TestResult) : Prop :=
  (Interrupted entry (history k es) k r ∧ s.calls.count k = 0 ∧ .sigint ∈ es) ∨
    (Finished entry (history k es) k r ∧ s.calls.count k = 1)

/-- A complete pool accounts for the run at every position. -/
theorem accounted_of_collect {workers : Nat} {tests : List (TestRun β)}
    {es : List Event} {s : Pool} {results : List TestResult}
    (hrun : PoolRun workers tests es s)
    (hdone : s.collect tests.length = some results) {k : Nat} {run : TestRun β}
    (hk : tests[k]? = some run) :
    ∃ r, results[k]? = some r ∧ Accounted es s k run.1.1 r := by
  obtain ⟨hlen, hget⟩ := collect_spec hdone
  have hlt : k < tests.length := (List.getElem?_eq_some_iff.mp hk).1
  obtain ⟨r, hr⟩ : ∃ r, results[k]? = some r :=
    ⟨_, List.getElem?_eq_getElem (by omega)⟩
  refine ⟨r, hr, ?_⟩
  have haccs := accounts_run hrun
  have hacc := haccs.account k
  simp only [Account, ((hget k _).mp hr).2] at hacc
  obtain ⟨run', hrun', hcase⟩ := hacc
  obtain rfl : run = run' := Option.some.inj (hk.symm.trans hrun')
  rcases hcase with ⟨hint, hcalls⟩ | hfin
  · refine .inl ⟨hint, hcalls, ?_⟩
    obtain ⟨⟨worker, hhist⟩, -⟩ := hint
    -- the event that saw the flag is one of the history
    have hmem : Event.start k worker true ∈ history k es := by simp [hhist]
    exact haccs.seen k worker (List.mem_of_mem_filter hmem)
  · exact .inr hfin

/-- A start that saw the flag is the whole history of its position. -/
theorem accounted_of_seen {es : List Event} {s : Pool} {k worker : Nat}
    {entry : TestEntry β} {r : TestResult} (h : Accounted es s k entry r)
    (hseen : .start k worker true ∈ es) :
    r.outcome = .Fail (lit "interrupted") ∧ k ∉ s.calls := by
  have hmem : Event.start k worker true ∈ history k es :=
    List.mem_filter.mpr ⟨hseen, by simp [Event.position]⟩
  rcases h with ⟨⟨-, -, hr⟩, hcalls, -⟩ | ⟨⟨w, result, took, hhist, -⟩, -⟩
  · exact ⟨hr, List.count_eq_zero.mp hcalls⟩
  · rw [hhist] at hmem
    simp at hmem

/-- A start that saw the flag is that of a run which gave the `interrupted`
failure and invoked nothing. -/
theorem interrupted_of_seen {workers : Nat} {tests : List (TestRun β)} {es : List Event}
    {s : Pool} {results : List TestResult} (hrun : PoolRun workers tests es s)
    (hdone : s.collect tests.length = some results) {k worker : Nat}
    (hseen : .start k worker true ∈ es) :
    k ∉ s.calls ∧ ∃ res, results[k]? = some res ∧ res.outcome = .Fail (lit "interrupted") := by
  -- the position is one of the runs: its status has moved
  have hacc := (accounts_run hrun).account k
  have hhist : Event.start k worker true ∈ history k es :=
    List.mem_filter.mpr ⟨hseen, by simp [Event.position]⟩
  have hrunk : ∃ run, tests[k]? = some run := by
    unfold Account at hacc
    split at hacc
    · rw [hacc.1] at hhist
      simp at hhist
    · rw [hacc.1] at hhist
      simp at hhist
    · exact ⟨hacc.choose, hacc.choose_spec.1⟩
  obtain ⟨run, hk⟩ := hrunk
  obtain ⟨res, hres, haccd⟩ := accounted_of_collect hrun hdone hk
  obtain ⟨hfail, hcalls⟩ := accounted_of_seen haccd hseen
  exact ⟨hcalls, res, hres, hfail⟩

/-- **Run accounting**, whatever the entries, the filter and the accepted
`TEST_REPEAT`. The runs are planned, unless they do not fit in a vector: then
`main` panics. Planned they come, whatever the shuffle, the workers, the
outcomes of the bodies and the moment of a SIGINT, to an end where the pool
collects. Then each selected entry contributed `r` results and no other any;
a run that saw the flag invoked nothing and failed as `interrupted`, and any
other invoked its body once and passed or failed as that did; the report is
given the skipped entries and then all results; `main` fails iff some result is
a failure and reports the two counts; and the verdict is a function of the
outcomes of the runs, whatever the shuffle and the workers were. -/
theorem run_accounting (cfg : Config) (secs : Duration → Str)
    (filter : Option TestFilter) (junit_path : Option Str)
    (entries : List (TestEntry β)) (r : Nat) (hrepeat : cfg.testRepeat = .ok r) :
    let f := filter.getD .empty
    let sel := select filter junit_path.isSome (slots entries)
    1 ≤ r ∧
    (∀ panic, planned r sel.tests = .error panic ↔
      isizeMax < r * sel.tests.length * refSize ∧ panic = lit "capacity overflow") ∧
    ∀ plan, planned r sel.tests = .ok plan →
    ∀ shuffled : List (TestRun β), shuffled.Perm plan → ∀ workers, 0 < workers →
    ∀ es s, PoolRun workers shuffled es s →
    -- the pool ends, and then it collects
    (es.countP fun e => e.position.isSome) ≤ 2 * shuffled.length ∧
    ((∀ e t, step workers shuffled s e = some t → e.position = none) →
      ∃ results, s.collect shuffled.length = some results) ∧
    ∀ results elapsed, s.collect shuffled.length = some results →
    let rep := report secs junit_path sel.skip_results results shuffled.length elapsed
    let failed := results.countP fun res => res.outcome.isFail
    -- what each entry contributes
    results.length = r * sel.tests.length ∧
    (∀ ref ∈ slots entries, (contributed shuffled results ref.2).length
      = if EntryClass.of f ref.1 = .run then r else 0) ∧
    -- what became of each run
    (∀ k run, shuffled[k]? = some run → run.1 ∈ sel.tests ∧ ∃ res, results[k]? = some res ∧
      res.label = run.1.1.label ∧ res.properties = run.1.1.properties ∧
      ((∃ worker, history k es = [.start k worker true]) ∧ .sigint ∈ es ∧
          s.calls.count k = 0 ∧ res.outcome = .Fail (lit "interrupted") ∨
        ∃ worker result took,
          history k es = [.start k worker false, .finish k result took] ∧
          s.calls.count k = 1 ∧ (result = .ok () ∧ res.outcome = .Pass ∨
            ∃ msg, result = .error msg ∧ res.outcome = .Fail msg))) ∧
    -- a start that saw the flag
    (∀ k worker, .start k worker true ∈ es → k ∉ s.calls ∧
      ∃ res, results[k]? = some res ∧ res.outcome = .Fail (lit "interrupted")) ∧
    -- the consumers
    rep.junit = junit_path.map (fun path =>
      (path, (ofClass f .skipReported (slots entries)).map
        (fun ref => skipResult ref.1 (ref.1.skip.getD [])) ++ results, elapsed)) ∧
    ((∃ msg, rep.verdict = .error msg) ↔ ∃ res ∈ results, res.outcome.isFail) ∧
    (∀ msg, rep.verdict = .error msg →
      msg = failedMessage secs failed results.length elapsed) ∧
    -- the verdict is that of the outcomes
    (∃ o, OutcomesAre o shuffled results) ∧
    (∀ o, OutcomesAre o shuffled results →
      rep.verdict = verdictOf secs
        ((List.range (r * sel.tests.length)).countP fun id => (o id).isFail)
        (r * sel.tests.length) elapsed) := by
  intro f sel
  refine ⟨Config.testRepeat_pos hrepeat, fun _ => planned_eq_error, ?_⟩
  intro plan hplanned shuffled hshuffle workers hworkers es s hrun
  refine ⟨events_bounded hrun, collect_of_stuck hworkers, ?_⟩
  intro results elapsed hdone rep failed
  have hlen : results.length = shuffled.length := (collect_spec hdone).1
  have hplan : shuffled.length = r * sel.tests.length := by
    rw [hshuffle.length_eq, length_planned hplanned]
  have hids : (shuffled.map Prod.snd).Perm (List.range (r * sel.tests.length)) := by
    rw [← ids_planned hplanned]
    exact hshuffle.map _
  have hseltests : sel.tests = ofClass f .run (slots entries) := by
    simp only [sel, select_eq, f]
  have hverdict : rep.verdict = verdictOf secs failed results.length elapsed :=
    report_verdict secs junit_path sel.skip_results results shuffled.length elapsed
  refine ⟨hlen.trans hplan, ?_, ?_, ?_, ?_, ?_, ?_, ?_, ?_⟩
  · intro ref href
    rw [length_contributed hlen, hshuffle.countP_eq, countP_planned hplanned
      fun x => decide (x.2 = ref.2), hseltests, countP_ofClass f .run entries href]
    by_cases hc : EntryClass.of f ref.1 = .run
    · rw [if_pos hc, if_pos hc, Nat.mul_one]
    · rw [if_neg hc, if_neg hc, Nat.mul_zero]
  · intro k run hk
    refine ⟨mem_planned hplanned (hshuffle.mem_iff.mp (List.mem_of_getElem? hk)), ?_⟩
    obtain ⟨res, hres, ⟨⟨hhist, hof, hfail⟩, hcalls, hsigint⟩ |
      ⟨⟨worker, result, took, hhist, hof, hout⟩, hcalls⟩⟩ := accounted_of_collect hrun hdone hk
    · exact ⟨res, hres, hof.1, hof.2, .inl ⟨hhist, hsigint, hcalls, hfail⟩⟩
    · exact ⟨res, hres, hof.1, hof.2, .inr ⟨worker, result, took, hhist, hcalls, hout⟩⟩
  · intro k worker hseen
    exact interrupted_of_seen hrun hdone hseen
  · rw [show rep.junit = junit_path.map fun path =>
      (path, sel.skip_results ++ results, elapsed) from
        report_junit secs junit_path sel.skip_results results shuffled.length elapsed]
    cases junit_path with
    | none => rfl
    | some path => simp [sel, select_eq, f]
  · rw [hverdict]
    exact verdictOf_error_iff.trans List.countP_pos_iff
  · intro msg hmsg
    rw [hverdict] at hmsg
    exact verdictOf_error hmsg
  · exact exists_outcomesAre (hids.nodup_iff.mpr List.nodup_range) hlen
  · intro o ho
    have hcount : failed
        = (List.range (r * sel.tests.length)).countP fun id => (o id).isFail :=
      ho.countP_isFail hids
    rw [hverdict, hcount, hlen, hplan]

/-- One test, and the highest `TEST_REPEAT`: it is accepted, and `main` panics
with nothing run. -/
theorem run_accounting_overflow :
    Config.testRepeat ⟨none, some (decimal (2 ^ 64 - 1))⟩ = .ok (2 ^ 64 - 1) ∧
      planned (2 ^ 64 - 1) (select none false
        (slots [(⟨['t'], [], (), none⟩ : TestEntry Unit)])).tests
        = .error (lit "capacity overflow") := by
  constructor
  · have hparse : parseUsize (decimal (2 ^ 64 - 1)) = some (2 ^ 64 - 1) :=
      parseUsize_decimal (by decide)
    simp only [Config.testRepeat, hparse]
    rfl
  · exact planned_eq_error.mpr ⟨by decide, rfl⟩

/-- Two copies of one test, shuffled: the second copy starts, SIGINT arrives,
the first copy sees the flag, the second passes. -/
theorem run_accounting_interrupted :
    ∃ (s : Pool) (results : List TestResult),
      s.collect 2 = some results ∧ 1 ∉ s.calls ∧
        ∃ res, results[1]? = some res ∧ res.outcome = .Fail (lit "interrupted") := by
  let entry : TestEntry Unit := ⟨['t'], [], (), none⟩
  let tests : List (TestRun Unit) := [((entry, 0), 1), ((entry, 0), 0)]
  let es : List Event :=
    [.start 0 0 false, .sigint, .start 1 1 true, .finish 0 (.ok ()) 5]
  obtain ⟨s, hs⟩ : ∃ s, es.foldlM (step 2 tests) Pool.init = some s := ⟨_, rfl⟩
  obtain ⟨results, hres⟩ : ∃ results, s.collect 2 = some results := by
    cases hs
    exact ⟨_, rfl⟩
  have hplan : planned 2 (select none (none : Option Str).isSome (slots [entry])).tests
      = .ok [((entry, 0), 0), ((entry, 0), 1)] := rfl
  obtain ⟨-, -, h⟩ := run_accounting ⟨none, some ['2']⟩ SecsFormat.millis.fmt none none [entry]
    2 rfl
  obtain ⟨-, -, h⟩ := h _ hplan tests (List.Perm.swap _ _ _) 2 (by decide) es s
    (Run.of_foldlM hs)
  obtain ⟨-, -, -, hseen, -⟩ := h results 7 hres
  obtain ⟨hcalls, hfail⟩ := hseen 1 1 (by simp [es])
  exact ⟨s, results, hres, hcalls, hfail⟩

end QemuTest

import QemuTest.Main.Run
import QemuTest.Util.TapPool

/-!
# Main — TapSupply

The worker pool of `main` and the tap pool of `util.rs` together: the number of
threads and the range of pair indices are both read from `TEST_JOBS`.

A test allocates and drops while it runs and holds one pair at most. `Supplied`
is the invariant: the pairs held are those of distinct running tests, each on a
worker of its own, so a test that asks finds fewer pairs held than there are
workers.
-/

namespace QemuTest

open Text Runs FreeList

variable {β : Type}

/-- What is assumed of `rayon::ThreadPoolBuilder::num_threads`. -/
structure Rayon where
  num_threads : Nat → Nat
  cpus : Nat
  cpus_pos : 0 < cpus
  bounded : ∀ n, 1 ≤ n → num_threads n ≤ n
  one_per_cpu : num_threads 0 = cpus

/-! ## The system -/

inductive SupplyEvent where
  /-- A step of the worker pool. -/
  | worker (e : Event)
  /-- The test at `k` calls `allocate_taps`. -/
  | allocate (k : Nat)
  /-- The test at `k` drops its pair. -/
  | drop (k : Nat)

/-- The pairs with the positions of the tests that hold them, and the messages
of the allocations that failed. -/
structure SupplyState where
  pool : Pool
  taps : TapState
  holders : List (Nat × TapPair)
  failures : List Str

def SupplyState.init : SupplyState := ⟨Pool.init, TapState.init, [], []⟩

/-- The position whose body returns. -/
def Event.returns : Event → Option Nat
  | .finish k _ _ => some k
  | _ => none

/-- A pair is a local of the test: it is dropped before the body returns. -/
def supplyStep (env : TapEnv) (workers : Nat) (tests : List (TestRun β))
    (s : SupplyState) : SupplyEvent → Option SupplyState
  | .worker e =>
      if ∃ p ∈ s.holders, e.returns = some p.1 then none
      else (step workers tests s.pool e).map fun pool => { s with pool }
  | .allocate k =>
      match s.pool.status k with
      | .running _ =>
          if k ∈ s.holders.map Prod.fst then none
          else (tapStep env s.taps .allocate).map fun taps =>
            match (allocateTaps env s.taps.pool).1 with
            | .ok pair => { s with taps, holders := (k, pair) :: s.holders }
            | .err msg => { s with taps, failures := s.failures ++ [msg] }
            | .panicked => { s with taps }
      | _ => none
  | .drop k =>
      match s.holders.find? fun p => p.1 = k with
      | none => none
      | some p => (tapStep env s.taps (.drop p.2)).map fun taps =>
          { s with taps, holders := s.holders.erase p }

abbrev SupplyRun (env : TapEnv) (workers : Nat) (tests : List (TestRun β))
    (es : List SupplyEvent) (s : SupplyState) : Prop :=
  Run (fun s e t => supplyStep env workers tests s e = some t) SupplyState.init es s

def noTaps : Str := lit "no tap devices available"

/-- With the devices of twice as many indices as there are workers, no
allocation finds the pool empty, whatever the tests are and however they
interleave. -/
def Suffices (β : Type) (rayon : Rayon) (config : Config) (overflow_checks : Bool)
    (jobs : Nat) : Prop :=
  ∀ device : Str → Bool, (∀ d < 2 * rayon.num_threads jobs, device (tapName d) = true) →
    ∀ (tests : List (TestRun β)) es s,
      SupplyRun ⟨device, config, overflow_checks⟩ (rayon.num_threads jobs) tests es s →
        noTaps ∉ s.failures

/-! ## Workers -/

/-- A worker runs one test at a time. -/
def Seated (workers n : Nat) (p : Pool) : Prop :=
  ∀ k w, p.status k = .running w →
    w < workers ∧ k < n ∧ ∀ j, p.status j = .running w → j = k

theorem seated_init (workers n : Nat) : Seated workers n Pool.init := by
  intro k w h
  cases h

/-- What a started test found. -/
theorem step_start {workers : Nat} {tests : List (TestRun β)} {s t : Pool}
    {k worker : Nat} (h : step workers tests s (.start k worker false) = some t) :
    worker < workers ∧ k < tests.length ∧ s.Idle tests.length worker := by
  cases hrun : tests[k]? with
  | none => simp [step, hrun] at h
  | some run =>
      simp only [step, hrun] at h
      split at h
      · obtain ⟨-, hworker, hidle, -⟩ := ‹_ ∧ _ ∧ _›
        exact ⟨hworker, (List.getElem?_eq_some_iff.mp hrun).1, hidle⟩
      · cases h

/-- A position that is set to anything but running leaves the others seated. -/
theorem Seated.set {workers n : Nat} {p : Pool} (h : Seated workers n p) (k : Nat)
    (r : TestResult) : Seated workers n (p.set k (.done r)) := by
  have hkeep : ∀ j w, (p.set k (.done r)).status j = .running w →
      p.status j = .running w := by
    intro j w hj
    by_cases hjk : j = k
    · subst hjk
      simp at hj
    · rwa [set_status_of_ne p _ hjk] at hj
  intro j w hj
  obtain ⟨hw, hn, huniq⟩ := h j w (hkeep j w hj)
  exact ⟨hw, hn, fun i hi => huniq i (hkeep i w hi)⟩

/-- Step lemma: the pool keeps its workers apart. -/
theorem seated_step {workers : Nat} {tests : List (TestRun β)} {s t : Pool} {e : Event}
    (h : Seated workers tests.length s) (hs : step workers tests s e = some t) :
    Seated workers tests.length t := by
  rcases step_cases hs with ⟨rfl, rfl⟩ | ⟨k, worker, run, rfl, -, -, -, rfl⟩ |
    ⟨k, worker, run, rfl, -, -, rfl⟩ | ⟨k, result, took, run, worker, rfl, -, -, rfl⟩
  · exact h
  · exact h.set k _
  · obtain ⟨hworker, hk, hidle⟩ := step_start hs
    have hkeep : ∀ j w, j ≠ k → (s.set k (.running worker)).status j = .running w →
        s.status j = .running w ∧ w ≠ worker := by
      intro j w hjk hj
      rw [set_status_of_ne s _ hjk] at hj
      refine ⟨hj, ?_⟩
      rintro rfl
      exact hidle j (h j w hj).2.1 hj
    intro j w hj
    by_cases hjk : j = k
    · subst hjk
      obtain rfl : worker = w := by simpa using hj
      refine ⟨hworker, hk, fun i hi => ?_⟩
      by_contra hik
      exact (hkeep i worker hik hi).2 rfl
    · obtain ⟨hj', hne⟩ := hkeep j w hjk hj
      obtain ⟨hw, hn, huniq⟩ := h j w hj'
      refine ⟨hw, hn, fun i hi => ?_⟩
      by_cases hik : i = k
      · subst hik
        exact absurd (by simpa using hi.symm) hne
      · exact huniq i (hkeep i w hik hi).1
  · exact h.set k _

/-- Distinct running tests are no more than the workers. -/
theorem Seated.length_le {workers n : Nat} {p : Pool} (h : Seated workers n p)
    {ks : List Nat} (hnd : ks.Nodup) (hrun : ∀ k ∈ ks, ∃ w, p.status k = .running w) :
    ks.length ≤ workers := by
  let worker : Nat → Nat := fun k =>
    match p.status k with
    | .running w => w
    | _ => 0
  have hworker : ∀ k ∈ ks, p.status k = .running (worker k) := by
    intro k hk
    obtain ⟨w, hw⟩ := hrun k hk
    simp only [worker, hw]
  have hmap : (ks.map worker).Nodup := by
    refine hnd.map_on fun k hk j hj heq => ?_
    exact (h j _ (hworker j hj)).2.2 k (heq ▸ hworker k hk)
  have hsub : ks.map worker ⊆ List.range workers := by
    intro w hw
    obtain ⟨k, hk, rfl⟩ := List.mem_map.mp hw
    exact List.mem_range.mpr (h k _ (hworker k hk)).1
  simpa using (List.subperm_of_subset hmap hsub).length_le

/-! ## Supply -/

/-- Enough devices: there are at least as many valid indices as workers. -/
theorem workers_le_valid {env : TapEnv} {jobs workers : Nat} {valid : List Nat}
    (hjobs : env.config.testJobs = .ok jobs) (hle : workers ≤ jobs)
    (hdev : ∀ d < 2 * workers, env.device (tapName d) = true)
    (hvalid : initTapPool env = .ok valid) : workers ≤ valid.length := by
  obtain ⟨jobs', hjobs', rfl, hne⟩ := initTapPool_ok hvalid
  obtain rfl : jobs = jobs' := by
    rw [hjobs] at hjobs'
    exact Except.ok.inj hjobs'
  have hlt : jobs < 2 ^ 64 := testJobs_lt hjobs
  have hok : ∀ i < workers, tapPairOk env i = some true := by
    have hexact : ∀ i, i < 2 ^ 63 → i < workers → tapPairOk env i = some true := by
      intro i hi hiw
      exact (tapPairOk_of_lt env hi).mpr ⟨hdev _ (by omega), hdev _ (by omega)⟩
    intro i hi
    by_cases hi63 : i < 2 ^ 63
    · exact hexact i hi63 hi
    · cases hchk : env.overflow_checks with
      | true => exact absurd (lt_of_tapPairOk hchk (hne i (by omega))) hi63
      | false =>
          -- the index looks at the devices of the one `2 ^ 63` before it
          have hsplit : i = (i - 2 ^ 63) + 2 ^ 63 := by omega
          rw [hsplit, tapPairOk_wrap hchk]
          exact hexact _ (by omega) (by omega)
  have hsub : List.range workers
      ⊆ (List.range jobs).filter fun i => tapPairOk env i = some true := by
    intro i hi
    rw [List.mem_range] at hi
    simp [hok i hi, Nat.lt_of_lt_of_le hi hle]
  simpa using (List.subperm_of_subset List.nodup_range hsub).length_le

/-- While fewer pairs are held than there are valid indices, an allocation gives
a pair or panics. -/
theorem allocateTaps_served {env : TapEnv} {s : TapState} (hc : Conserved env s)
    (hlt : ∀ valid, initTapPool env = .ok valid → s.live.length < valid.length)
    (msg : Str) : (allocateTaps env s.pool).1 ≠ .err msg := by
  obtain ⟨⟨indices, poisoned⟩, live, inits⟩ := s
  cases indices with
  | none =>
      obtain ⟨rfl, -, -⟩ := hc
      cases poisoned with
      | true => simp [allocateTaps]
      | false =>
          rcases allocateTaps_first env with ⟨valid, hvalid, halloc⟩ | ⟨-, halloc⟩
          · rw [halloc]
            rcases popTaps_spec ⟨none, false⟩ hvalid (Conserves.init valid) with
              ⟨rfl, -⟩ | ⟨rest, pair, -, -, hpop⟩
            · exact absurd (hlt _ hvalid) (by simp)
            · rw [hpop]
              simp
          · rw [halloc]
            simp
  | some free =>
      obtain ⟨rfl, -, -, valid, hvalid, hcons⟩ := hc
      rw [allocateTaps_initialised]
      rcases popTaps_spec ⟨some free, false⟩ hvalid hcons with
        ⟨rfl, -⟩ | ⟨rest, pair, -, -, hpop⟩
      · have hlen := hcons.length
        have := hlt valid hvalid
        simp [TapState.held] at hlen
        simp at this
        omega
      · rw [hpop]
        simp

/-- Every pair is held by a running test of its own, and no allocation has found
the pool empty. -/
structure Supplied (env : TapEnv) (workers n : Nat) (s : SupplyState) : Prop where
  seated : Seated workers n s.pool
  conserved : Conserved env s.taps
  live : s.taps.live.Perm (s.holders.map Prod.snd)
  once : (s.holders.map Prod.fst).Nodup
  running : ∀ p ∈ s.holders, ∃ w, s.pool.status p.1 = .running w
  served : noTaps ∉ s.failures

theorem supplied_init (env : TapEnv) (workers n : Nat) :
    Supplied env workers n SupplyState.init where
  seated := seated_init workers n
  conserved := conserved_init env
  live := .nil
  once := .nil
  running := by simp [SupplyState.init]
  served := by simp [SupplyState.init]

/-- A test that runs on keeps its worker. -/
theorem running_step {workers : Nat} {tests : List (TestRun β)} {s t : Pool} {e : Event}
    (hs : step workers tests s e = some t) {k : Nat} (hret : e.returns ≠ some k)
    (hk : ∃ w, s.status k = .running w) : ∃ w, t.status k = .running w := by
  obtain ⟨w, hk⟩ := hk
  have hother : ∀ j st, s.status j = .waiting → (s.set j st).status k = .running w := by
    intro j st hj
    have hkj : k ≠ j := fun he => by simp [he, hj] at hk
    rw [set_status_of_ne s st hkj, hk]
  rcases step_cases hs with ⟨rfl, rfl⟩ | ⟨j, worker, run, rfl, -, hwait, -, rfl⟩ |
    ⟨j, worker, run, rfl, -, hwait, rfl⟩ | ⟨j, result, took, run, worker, rfl, -, -, rfl⟩
  · exact ⟨w, hk⟩
  · exact ⟨w, hother j _ hwait⟩
  · exact ⟨w, hother j _ hwait⟩
  · have hkj : k ≠ j := fun he => hret (by rw [he]; rfl)
    exact ⟨w, by rw [set_status_of_ne s _ hkj, hk]⟩

/-- Step lemma: with enough valid indices every step keeps the tests supplied. -/
theorem supplied_step {env : TapEnv} {workers : Nat} {tests : List (TestRun β)}
    (henough : ∀ valid, initTapPool env = .ok valid → workers ≤ valid.length)
    {s t : SupplyState} {e : SupplyEvent} (h : Supplied env workers tests.length s)
    (hs : supplyStep env workers tests s e = some t) :
    Supplied env workers tests.length t := by
  cases e with
  | worker e =>
      simp only [supplyStep] at hs
      split at hs
      · cases hs
      · rename_i hret
        obtain ⟨pool, hpool, rfl⟩ := Option.map_eq_some_iff.mp hs
        refine ⟨seated_step h.seated hpool, h.conserved, h.live, h.once, fun p hp => ?_,
          h.served⟩
        exact running_step hpool (fun he => hret ⟨p, hp, he⟩) (h.running p hp)
  | allocate k =>
      simp only [supplyStep] at hs
      split at hs
      · rename_i w hk
        split at hs
        · cases hs
        · rename_i hnot
          obtain ⟨taps, htaps, rfl⟩ := Option.map_eq_some_iff.mp hs
          have hcons := conserved_step h.conserved htaps
          -- the test that asks and those that hold a pair are on distinct workers
          have hlen : s.taps.live.length < workers := by
            have hrunning : ∀ j ∈ k :: s.holders.map Prod.fst,
                ∃ w, s.pool.status j = .running w := by
              intro j hj
              rcases List.mem_cons.mp hj with rfl | hj
              · exact ⟨w, hk⟩
              · obtain ⟨p, hp, rfl⟩ := List.mem_map.mp hj
                exact h.running p hp
            have hle := h.seated.length_le (List.nodup_cons.mpr ⟨hnot, h.once⟩) hrunning
            simp only [List.length_cons, List.length_map] at hle
            rw [h.live.length_eq, List.length_map]
            omega
          have hserved := allocateTaps_served h.conserved fun valid hvalid =>
            Nat.lt_of_lt_of_le hlen (henough valid hvalid)
          cases hout : allocateTaps env s.taps.pool with
          | mk out pool =>
              rw [hout] at hserved
              simp only [tapStep, hout] at htaps
              cases out with
              | ok pair =>
                  obtain rfl := Option.some.inj htaps
                  refine ⟨h.seated, hcons, h.live.cons pair,
                    List.nodup_cons.mpr ⟨hnot, h.once⟩, fun p hp => ?_, h.served⟩
                  rcases List.mem_cons.mp hp with rfl | hp
                  · exact ⟨w, hk⟩
                  · exact h.running p hp
              | err msg => exact absurd rfl (hserved msg)
              | panicked =>
                  obtain rfl := Option.some.inj htaps
                  exact ⟨h.seated, hcons, h.live, h.once, h.running, h.served⟩
      · cases hs
  | drop k =>
      simp only [supplyStep] at hs
      cases hfind : s.holders.find? fun p => p.1 = k with
      | none =>
          rw [hfind] at hs
          cases hs
      | some p =>
          rw [hfind] at hs
          obtain ⟨taps, htaps, rfl⟩ := Option.map_eq_some_iff.mp hs
          have hmem : p ∈ s.holders := List.mem_of_find?_eq_some hfind
          have hcons := conserved_step h.conserved htaps
          have hperm := List.perm_cons_erase hmem
          simp only [tapStep] at htaps
          split at htaps
          · rename_i hlive
            obtain rfl := Option.some.inj htaps
            refine ⟨h.seated, hcons, ?_, ?_, fun q hq => ?_, h.served⟩
            · have := (List.perm_cons_erase hlive).symm.trans
                (h.live.trans (hperm.map Prod.snd))
              exact this.cons_inv
            · have := (hperm.map Prod.fst).nodup_iff.mp h.once
              exact (List.nodup_cons.mp this).2
            · exact h.running q (List.mem_of_mem_erase hq)
          · cases htaps

/-- Run lemma. -/
theorem supplied_run {env : TapEnv} {workers : Nat} {tests : List (TestRun β)}
    (henough : ∀ valid, initTapPool env = .ok valid → workers ≤ valid.length)
    {es : List SupplyEvent} {s : SupplyState} (h : SupplyRun env workers tests es s) :
    Supplied env workers tests.length s :=
  Run.invariant (supplied_init env workers tests.length)
    (fun _ _ _ => supplied_step henough) h

/-! ## No jobs -/

/-- With `TEST_JOBS` zero no index is valid, and the first allocation fails. -/
theorem not_suffices_zero [Inhabited β] (rayon : Rayon) {config : Config}
    (overflow_checks : Bool) (hjobs : config.testJobs = .ok 0) :
    ¬ Suffices β rayon config overflow_checks 0 := by
  intro h
  let entry : TestEntry β := ⟨[], [], default, none⟩
  let tests : List (TestRun β) := [((entry, 0), 0)]
  let env : TapEnv := ⟨fun _ => true, config, overflow_checks⟩
  have hinit : initTapPool env = .ok [] := by
    simp [initTapPool, env, hjobs, filterOk]
  have halloc : allocateTaps env ⟨none, false⟩ = (.err noTaps, ⟨some [], false⟩) := by
    simp only [allocateTaps, hinit]
    rfl
  have hstart : step (rayon.num_threads 0) tests Pool.init (.start 0 0 false)
      = some { Pool.init.set 0 (.running 0) with calls := [0] } := by
    have hpos : 0 < rayon.num_threads 0 := rayon.one_per_cpu ▸ rayon.cpus_pos
    simp [step, tests, Pool.init, Pool.Idle, hpos]
  have hrun : SupplyRun env (rayon.num_threads 0) tests [.worker (.start 0 0 false), .allocate 0]
      ⟨{ Pool.init.set 0 (.running 0) with calls := [0] }, ⟨⟨some [], false⟩, [], 1⟩, [],
        [noTaps]⟩ := by
    refine Run.of_foldlM ?_
    simp [supplyStep, SupplyState.init, Event.returns, hstart, halloc, tapStep,
      TapPool.initialises, TapState.init]
  exact h _ (fun _ _ => rfl) tests _ _ hrun (by simp)

/-- **Tap supply suffices for the workers** iff `TEST_JOBS` is not zero. -/
theorem tap_supply_iff [Inhabited β] (rayon : Rayon) (config : Config)
    (overflow_checks : Bool) (jobs : Nat) (hjobs : config.testJobs = .ok jobs) :
    Suffices β rayon config overflow_checks jobs ↔ jobs ≠ 0 := by
  constructor
  · rintro h rfl
    exact not_suffices_zero rayon overflow_checks hjobs h
  · intro hne device hdev tests es s hrun
    have hle : rayon.num_threads jobs ≤ jobs := rayon.bounded jobs (by omega)
    refine (supplied_run (fun valid hvalid => ?_) hrun).served
    exact workers_le_valid hjobs hle hdev hvalid

/-- A pool of the asked size, and of four threads for zero. -/
def fourCpus : Rayon where
  num_threads n := if n = 0 then 4 else n
  cpus := 4
  cpus_pos := by decide
  bounded n hn := by simp [Nat.ne_of_gt hn]
  one_per_cpu := rfl

theorem tap_supply_two :
    Suffices Unit fourCpus ⟨some (lit "2"), none⟩ true 2 ↔ 2 ≠ 0 :=
  tap_supply_iff fourCpus ⟨some (lit "2"), none⟩ true 2 (by decide +kernel)

/-- `TEST_JOBS=0` is accepted and starts four workers on an empty pool. -/
theorem not_suffices_noJobs :
    Config.testJobs ⟨some (lit "0"), none⟩ = .ok 0 ∧
      ¬ Suffices Unit fourCpus ⟨some (lit "0"), none⟩ true 0 :=
  ⟨by decide +kernel, not_suffices_zero fourCpus true (by decide +kernel)⟩

end QemuTest

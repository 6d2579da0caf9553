import Mathlib.Logic.Function.Basic
import QemuTest.Lib.Scope
import QemuTest.Tests.Bodies

/-!
# Tests — Exclusion

Any of the test functions side by side, each statement one step, and what they
share: the children of the test process, the tap pool and the temporary
directories. A function that returns, fails or panics drops its locals in
reverse order, one step each; other functions run meanwhile.

`Guarded` is the invariant. With clean spawns, the QEMU processes that run have
their directories and their tap devices for themselves; with one that is not,
they do not.
-/

namespace QemuTest

open Text Path Runs Scope

/-! ## The system -/

/-- What a function drops in the end: a `TempDir`, a `TapPair`, a `QemuProcess`
with what it was started with. -/
inductive Local where
  | dir (path : Str)
  | taps (pair : TapPair)
  | process (p : QemuProcess) (resources : List Resource)

def Local.offers : Local → List Resource
  | .dir path => [.dir path]
  | .taps pair => pair.resources
  | .process _ _ => []

def Local.uses : Local → List Resource
  | .process _ resources => resources
  | _ => []

/-- A function under way; one that is over, or is left, has nothing to do but
drop its locals. -/
structure Thread where
  rest : Body
  scope : List Local

/-- `started` is what each child was started with. -/
structure TestsState where
  world : World
  taps : TapState
  dirs : List Str
  started : Nat → List Resource
  threads : Nat → Thread

def TestsState.init (tests : Nat → Test) : TestsState where
  world := .empty
  taps := .init
  dirs := []
  started _ := []
  threads k := ⟨(tests k).body, []⟩

def TestsState.go (s : TestsState) (k : Nat) (rest : Body) (scope : List Local) : TestsState :=
  { s with threads := Function.update s.threads k ⟨rest, scope⟩ }

inductive TestsEvent where
  | call (k : Nat) (ok : Bool)
  /-- The directory made, if one could be. -/
  | tempdir (k : Nat) (path : Option Str)
  | allocate (k : Nat)
  | spawn (k : Nat) (o : SpawnOutcomes)
  | quitAndWait (k : Nat) (q : QuitOutcomes)
  /-- The end of the scope: the last local is dropped. -/
  | drop (k : Nat) (d : DropOutcomes)
  /-- A child exits by itself. -/
  | exits (pid : Nat)

/-- `tempdir` makes a directory that was not there. A statement that fails or
panics leaves the function. -/
def testsStep (env : TapEnv) (s : TestsState) : TestsEvent → Option TestsState
  | .call k ok =>
      match s.threads k with
      | ⟨.call _ next, scope⟩ => some (s.go k (if ok then next else .done) scope)
      | _ => none
  | .tempdir k path =>
      match s.threads k, path with
      | ⟨.tempdir next, scope⟩, some path =>
          if s.dirs.contains path then none
          else some ({ s with dirs := path :: s.dirs }.go k (next path) (.dir path :: scope))
      | ⟨.tempdir _, scope⟩, none => some (s.go k .done scope)
      | _, _ => none
  | .allocate k =>
      match s.threads k with
      | ⟨.allocateTaps next, scope⟩ =>
          (tapStep env s.taps .allocate).map fun taps =>
            match (allocateTaps env s.taps.pool).1 with
            | .ok pair => { s with taps }.go k (next pair) (.taps pair :: scope)
            | _ => { s with taps }.go k .done scope
      | _ => none
  | .spawn k o =>
      match s.threads k with
      | ⟨.spawn cfg next, scope⟩ =>
          let started := Function.update s.started s.world.next cfg.resources
          match spawn o s.world with
          | (.ok p, world) =>
              some ({ s with world, started }.go k next (.process p cfg.resources :: scope))
          | (.error _, world) => some ({ s with world, started }.go k .done scope)
      | _ => none
  | .quitAndWait k q =>
      match s.threads k with
      | ⟨.quitAndWait timeout next, .process p _ :: scope⟩ =>
          match quitAndWait p timeout q s.world with
          | (.ok (), world) => some ({ s with world }.go k next scope)
          | (.error _, world) => some ({ s with world }.go k .done scope)
      | _ => none
  | .drop k d =>
      match s.threads k with
      | ⟨.done, .dir path :: scope⟩ =>
          some ({ s with dirs := s.dirs.erase path }.go k .done scope)
      | ⟨.done, .taps pair :: scope⟩ =>
          (tapStep env s.taps (.drop pair)).map fun taps => { s with taps }.go k .done scope
      | ⟨.done, .process p _ :: scope⟩ =>
          some ({ s with world := dropProcess p d s.world }.go k .done scope)
      | _ => none
  | .exits pid => some { s with world := s.world.exit pid }

abbrev TestsRun (env : TapEnv) (tests : Nat → Test) (es : List TestsEvent)
    (s : TestsState) : Prop :=
  Run (fun s e t => testsStep env s e = some t) (.init tests) es s

/-! ## What is promised -/

def TestsState.Present (s : TestsState) : Resource → Prop
  | .dir path => path ∈ s.dirs
  | .device name => ∃ pair ∈ s.taps.live, name ∈ pair.devices

/-- The processes that run have what they were started with: the directories
are there, the devices are of pairs that are held, and no two share one. -/
structure UsesExclusively (s : TestsState) : Prop where
  present : ∀ pid ∈ s.world.running, ∀ r ∈ s.started pid, s.Present r
  apart : ∀ pid ∈ s.world.running, ∀ pid' ∈ s.world.running,
    ∀ r ∈ s.started pid, r ∈ s.started pid' → pid = pid'

/-! ## The invariant -/

def Thread.offered (t : Thread) : List Resource := t.scope.flatMap Local.offers

def Thread.Sound (t : Thread) : Prop :=
  ∃ free, t.rest.Fits free ∧ Scope.Sound Local.offers Local.uses free t.scope

/-- A local stands for something that is there. -/
def TestsState.Has (s : TestsState) : Local → Prop
  | .dir path => path ∈ s.dirs
  | .taps pair => pair ∈ s.taps.live
  | .process p resources => s.started p.child = resources ∧ p.child < s.world.next

structure Guarded (env : TapEnv) (s : TestsState) : Prop where
  conserved : Conserved env s.taps
  sound : ∀ k, (s.threads k).Sound
  has : ∀ k, ∀ a ∈ (s.threads k).scope, s.Has a
  apart : ∀ k j, ∀ r ∈ (s.threads k).offered, r ∈ (s.threads j).offered → k = j
  owned : ∀ pid ∈ s.world.running, ∃ k p resources,
    .process p resources ∈ (s.threads k).scope ∧ p.child = pid

theorem guarded_init (env : TapEnv) (tests : Nat → Test) : Guarded env (.init tests) where
  conserved := conserved_init env
  sound k := ⟨[], fits_body (tests k), .nil⟩
  has k a ha := by simp [TestsState.init] at ha
  apart k j r hr := by simp [TestsState.init, Thread.offered] at hr
  owned pid hpid := by simp [TestsState.init, World.empty] at hpid

theorem Guarded.present {env : TapEnv} {s : TestsState} (h : Guarded env s) {k : Nat}
    {r : Resource} (hr : r ∈ (s.threads k).offered) : s.Present r := by
  obtain ⟨a, ha, hr⟩ := List.mem_flatMap.mp hr
  have hhas := h.has k a ha
  cases a with
  | dir path =>
      obtain rfl := List.mem_singleton.mp hr
      exact hhas
  | taps pair =>
      obtain ⟨d, hd, rfl⟩ := List.mem_map.mp hr
      exact ⟨pair, hhas, hd⟩
  | process p resources => cases hr

/-- A guarded state keeps the promise. -/
theorem Guarded.usesExclusively {env : TapEnv} {s : TestsState} (h : Guarded env s) :
    UsesExclusively s := by
  -- a child's resources are offered in the scope of the function that owns it
  have howner : ∀ pid ∈ s.world.running, ∀ r ∈ s.started pid, ∃ k p,
      .process p (s.started pid) ∈ (s.threads k).scope ∧ p.child = pid ∧
        r ∈ (s.threads k).offered := by
    intro pid hpid r hr
    obtain ⟨k, p, resources, hmem, rfl⟩ := h.owned pid hpid
    obtain ⟨rfl, -⟩ := h.has k _ hmem
    obtain ⟨free, -, hsound⟩ := h.sound k
    exact ⟨k, p, hmem, rfl, hsound.offered hmem hr⟩
  constructor
  · intro pid hpid r hr
    obtain ⟨k, p, -, -, hoffered⟩ := howner pid hpid r hr
    exact h.present hoffered
  · intro pid hpid pid' hpid' r hr hr'
    obtain ⟨k, p, hmem, rfl, hoffered⟩ := howner pid hpid r hr
    obtain ⟨j, q, hmem', rfl, hoffered'⟩ := howner pid' hpid' r hr'
    obtain rfl := h.apart k j r hoffered hoffered'
    obtain ⟨free, -, hsound⟩ := h.sound k
    have heq := hsound.unique hmem hmem' hr hr'
    cases heq
    rfl

/-! ## Steps -/

@[simp] theorem threads_go_self (s : TestsState) (k : Nat) (rest : Body)
    (scope : List Local) : (s.go k rest scope).threads k = ⟨rest, scope⟩ := by
  simp [TestsState.go]

@[simp] theorem threads_go_of_ne (s : TestsState) {k j : Nat} (h : j ≠ k) (rest : Body)
    (scope : List Local) : (s.go k rest scope).threads j = s.threads j := by
  simp [TestsState.go, h]

/-- **Frame**: when one function goes on, the others' locals must stay what they
stand for, and the state is guarded again. -/
theorem Guarded.go {env : TapEnv} {s t : TestsState} (h : Guarded env s) {k : Nat}
    {rest : Body} {scope : List Local} (hthreads : t.threads = s.threads)
    (hconserved : Conserved env t.taps) (hsound : Thread.Sound ⟨rest, scope⟩)
    (hhas : ∀ a ∈ scope, t.Has a)
    (hothers : ∀ j ≠ k, ∀ a ∈ (s.threads j).scope, t.Has a)
    (hapart : ∀ j ≠ k, ∀ r ∈ scope.flatMap Local.offers, r ∉ (s.threads j).offered)
    (howned : ∀ pid ∈ t.world.running,
      (∃ p resources, .process p resources ∈ scope ∧ p.child = pid) ∨
      (pid ∈ s.world.running ∧ ∀ p resources,
        .process p resources ∈ (s.threads k).scope → p.child = pid →
          .process p resources ∈ scope)) :
    Guarded env (t.go k rest scope) := by
  have hother : ∀ j, j ≠ k → (t.go k rest scope).threads j = s.threads j := by
    intro j hj
    rw [threads_go_of_ne t hj, hthreads]
  refine ⟨hconserved, fun j => ?_, fun j => ?_, fun i j r hi hj => ?_, fun pid hpid => ?_⟩
  · by_cases hj : j = k
    · rwa [hj, threads_go_self]
    · rw [hother j hj]
      exact h.sound j
  · by_cases hj : j = k
    · rw [hj, threads_go_self]
      exact hhas
    · rw [hother j hj]
      exact hothers j hj
  · by_cases hik : i = k
    · by_cases hjk : j = k
      · rw [hik, hjk]
      · rw [hik, threads_go_self] at hi
        rw [hother j hjk] at hj
        exact absurd hj (hapart j hjk r hi)
    · by_cases hjk : j = k
      · rw [hjk, threads_go_self] at hj
        rw [hother i hik] at hi
        exact absurd hi (hapart i hik r hj)
      · rw [hother i hik] at hi
        rw [hother j hjk] at hj
        exact h.apart i j r hi hj
  · rcases howned pid hpid with ⟨p, resources, hmem, hp⟩ | ⟨hrun, hkeep⟩
    · exact ⟨k, p, resources, by rwa [threads_go_self], hp⟩
    · obtain ⟨j, p, resources, hmem, hp⟩ := h.owned pid hrun
      by_cases hj : j = k
      · subst hj
        exact ⟨j, p, resources, by rw [threads_go_self]; exact hkeep p resources hmem hp, hp⟩
      · exact ⟨j, p, resources, by rwa [hother j hj], hp⟩

section Moves

variable {env : TapEnv} {s t : TestsState} {k : Nat} {rest rest' : Body}
  {scope : List Local} {a : Local}

/-- A statement that declares nothing. -/
theorem Guarded.keep (h : Guarded env s) (hk : s.threads k = ⟨rest, scope⟩)
    (hthreads : t.threads = s.threads) (hconserved : Conserved env t.taps)
    (hsound : Thread.Sound ⟨rest', scope⟩) (hhas : ∀ a, s.Has a → t.Has a)
    (hrun : ∀ pid ∈ t.world.running, pid ∈ s.world.running) :
    Guarded env (t.go k rest' scope) := by
  refine h.go hthreads hconserved hsound (fun a ha => ?_)
    (fun j _ a ha => hhas a (h.has j a ha)) (fun j hj r hr hr' => ?_)
    (fun pid hpid => .inr ⟨hrun pid hpid, fun p resources hmem _ => ?_⟩)
  · exact hhas a (h.has k a (by rwa [hk]))
  · exact hj (h.apart j k r hr' (by rwa [hk]))
  · rwa [hk] at hmem

/-- A statement that declares a local: what it offers was not there. -/
theorem Guarded.push (h : Guarded env s) (hk : s.threads k = ⟨rest, scope⟩)
    (hthreads : t.threads = s.threads) (hconserved : Conserved env t.taps)
    (hsound : Thread.Sound ⟨rest', a :: scope⟩) (hhas : ∀ a, s.Has a → t.Has a)
    (ha : t.Has a) (hnew : ∀ r ∈ a.offers, ¬ s.Present r)
    (hrun : ∀ pid ∈ t.world.running, pid ∈ s.world.running ∨
      ∃ p resources, a = .process p resources ∧ p.child = pid) :
    Guarded env (t.go k rest' (a :: scope)) := by
  refine h.go hthreads hconserved hsound (fun b hb => ?_)
    (fun j _ b hb => hhas b (h.has j b hb)) (fun j hj r hr hr' => ?_) (fun pid hpid => ?_)
  · rcases List.mem_cons.mp hb with rfl | hb
    · exact ha
    · exact hhas b (h.has k b (by rwa [hk]))
  · rw [List.flatMap_cons, List.mem_append] at hr
    rcases hr with hr | hr
    · exact hnew r hr (h.present hr')
    · exact hj (h.apart j k r hr' (by rwa [hk]))
  · rcases hrun pid hpid with hpid | ⟨p, resources, rfl, hp⟩
    · refine .inr ⟨hpid, fun p resources hmem _ => List.mem_cons_of_mem _ ?_⟩
      rwa [hk] at hmem
    · exact .inl ⟨p, resources, List.mem_cons_self, hp⟩

/-- The last local is dropped or moved out: what offers something else stays. -/
theorem Guarded.pop (h : Guarded env s) (hk : s.threads k = ⟨rest, a :: scope⟩)
    (hthreads : t.threads = s.threads) (hconserved : Conserved env t.taps)
    (hsound : Thread.Sound ⟨rest', scope⟩)
    (hhas : ∀ b, s.Has b → (∀ r ∈ b.offers, r ∉ a.offers) → t.Has b)
    (hrun : ∀ pid ∈ t.world.running, pid ∈ s.world.running ∧
      ∀ p resources, a = .process p resources → p.child ≠ pid) :
    Guarded env (t.go k rest' scope) := by
  have hoffers : ∀ r ∈ a.offers, r ∈ (s.threads k).offered := by
    intro r hr
    rw [hk, Thread.offered, List.flatMap_cons]
    exact List.mem_append_left _ hr
  have hbelow : ∀ r ∈ scope.flatMap Local.offers, r ∈ (s.threads k).offered := by
    intro r hr
    rw [hk, Thread.offered, List.flatMap_cons]
    exact List.mem_append_right _ hr
  refine h.go hthreads hconserved hsound (fun b hb => ?_) (fun j hj b hb => ?_)
    (fun j hj r hr hr' => ?_) (fun pid hpid => ?_)
  · refine hhas b (h.has k b (by rw [hk]; exact List.mem_cons_of_mem _ hb)) fun r hr hra => ?_
    obtain ⟨free, -, hs⟩ := h.sound k
    have hdistinct := hs.distinct
    rw [hk, List.flatMap_cons] at hdistinct
    exact (List.nodup_append.mp hdistinct).2.2 r hra r (List.mem_flatMap.mpr ⟨b, hb, hr⟩) rfl
  · refine hhas b (h.has j b hb) fun r hr hra => ?_
    exact hj (h.apart j k r (List.mem_flatMap.mpr ⟨b, hb, hr⟩) (hoffers r hra))
  · exact hj (h.apart j k r hr' (hbelow r hr))
  · obtain ⟨hmem, hne⟩ := hrun pid hpid
    refine .inr ⟨hmem, fun p resources hp hchild => ?_⟩
    rw [hk] at hp
    rcases List.mem_cons.mp hp with heq | hp
    · exact absurd hchild (hne p resources heq.symm)
    · exact hp

end Moves

/-! ## Children -/

@[simp] theorem next_kill (w : World) (pid : Nat) : (w.kill pid).next = w.next := rfl

@[simp] theorem next_wait (w : World) (pid : Nat) : (w.wait pid).next = w.next := by
  unfold World.wait
  split <;> rfl

theorem next_awaitExit {step : Nat} (w : World) (pid : Nat) (exited : Nat → Bool)
    (clock : Poll.Clock step) (timeout : Nat) :
    (awaitExit w pid exited clock timeout).2.next = w.next := by
  unfold awaitExit
  split
  · rfl
  · rw [next_wait, next_kill]

theorem next_dropProcess (p : QemuProcess) (d : DropOutcomes) (w : World) :
    (dropProcess p d w).next = w.next := by
  unfold dropProcess
  rw [next_awaitExit]
  cases p.accel with
  | Mshv => rfl
  | Kvm => cases d.quit <;> rfl

theorem next_quitAndWait (p : QemuProcess) (timeout : Nat) (q : QuitOutcomes) (w : World) :
    (quitAndWait p timeout q w).2.next = w.next := by
  have hawait := next_awaitExit w p.child q.exited q.clock timeout
  unfold quitAndWait
  split
  · split <;> rename_i heq <;> rw [heq] at hawait <;> rw [next_dropProcess, hawait]
  · exact next_dropProcess p q.drop w

/-- Process ids are not used again. -/
theorem next_spawn (o : SpawnOutcomes) (w : World) : w.next ≤ (spawn o w).2.next ∧
    ∀ p, (spawn o w).1 = .ok p → (spawn o w).2.next = w.next + 1 := by
  have hstart : (w.start.meanwhile o.childExits w.next).next = w.next + 1 := by
    cases o.childExits <;> rfl
  rcases spawn_cases o w with ⟨-, e, h⟩ | ⟨-, -, -, accel, h⟩ | ⟨-, -, -, e, h⟩
  · rw [h]
    exact ⟨Nat.le_refl _, by simp⟩
  · rw [h]
    exact ⟨by rw [hstart]; omega, fun _ _ => hstart⟩
  · rw [h]
    exact ⟨by rw [hstart]; omega, fun _ _ => hstart⟩

/-! ## The invariant is kept -/

theorem Thread.Sound.leave {rest : Body} {scope : List Local}
    (h : Thread.Sound ⟨rest, scope⟩) : Thread.Sound ⟨.done, scope⟩ := by
  obtain ⟨free, -, hs⟩ := h
  exact ⟨[], trivial, hs.giveUp⟩

theorem Thread.Sound.drop {rest : Body} {a : Local} {scope : List Local}
    (h : Thread.Sound ⟨rest, a :: scope⟩) : Thread.Sound ⟨.done, scope⟩ := by
  obtain ⟨free, -, hs⟩ := h
  exact ⟨[], trivial, hs.drop⟩

/-- Without aliases the pair an allocation hands out has devices of its own,
and none of a pair held. -/
theorem devices_allocate {env : TapEnv} (hsound : env.NoAlias) {s t : TapState}
    (h : Conserved env s) (hs : tapStep env s .allocate = some t) {pair : TapPair}
    (hpair : (allocateTaps env s.pool).1 = .ok pair) :
    t.live = pair :: s.live ∧ pair.devices.Nodup ∧
      ∀ d ∈ pair.devices, ∀ p ∈ s.live, d ∉ p.devices := by
  have hlive : t.live = pair :: s.live := by
    cases hout : allocateTaps env s.pool with
    | mk out pool =>
        rw [hout] at hpair
        obtain rfl : out = .ok pair := hpair
        simp only [tapStep, hout, Option.some.injEq] at hs
        rw [← hs]
  have hdevices := (exclusive_of_conserved hsound (conserved_step h hs)).devices
  rw [hlive, List.flatMap_cons, List.nodup_append] at hdevices
  exact ⟨hlive, hdevices.1, fun d hd p hp hdp =>
    hdevices.2.2 d hd d (List.mem_flatMap.mpr ⟨p, hp, hdp⟩) rfl⟩

section Steps

variable {env : TapEnv} {s : TestsState} {k : Nat} {scope : List Local}

theorem guarded_tempdir (h : Guarded env s) {next : Str → Body}
    (hk : s.threads k = ⟨.tempdir next, scope⟩) {path : Str} (hpath : path ∉ s.dirs) :
    Guarded env
      ({ s with dirs := path :: s.dirs }.go k (next path) (.dir path :: scope)) := by
  have hs := h.sound k
  rw [hk] at hs
  obtain ⟨free, hfits, hs⟩ := hs
  have hnew : ∀ r ∈ (Local.dir path).offers, ¬ s.Present r := by
    intro r hr
    obtain rfl := List.mem_singleton.mp hr
    exact hpath
  have hoffer : Scope.Sound Local.offers Local.uses ((Local.dir path).offers ++ free)
      (.dir path :: scope) :=
    hs.offer rfl (by simp [Local.offers]) fun r hr hin =>
      hnew r hr (h.present (k := k) (by rwa [hk]))
  refine h.push hk rfl h.conserved ⟨_, hfits path, hoffer⟩ (fun a ha => ?_)
    List.mem_cons_self hnew fun pid hpid => .inl hpid
  cases a with
  | dir q => exact List.mem_cons_of_mem _ ha
  | taps pair => exact ha
  | process p resources => exact ha

theorem guarded_allocate (hsound : env.NoAlias) (h : Guarded env s)
    {next : TapPair → Body} (hk : s.threads k = ⟨.allocateTaps next, scope⟩)
    {taps : TapState} (htaps : tapStep env s.taps .allocate = some taps) :
    Guarded env (match (allocateTaps env s.taps.pool).1 with
      | .ok pair => { s with taps }.go k (next pair) (.taps pair :: scope)
      | _ => { s with taps }.go k .done scope) := by
  have hs := h.sound k
  rw [hk] at hs
  have hcons := conserved_step h.conserved htaps
  have hfail : ∀ p, (∀ pair, p ≠ Outcome.ok pair) → (allocateTaps env s.taps.pool).1 = p →
      Guarded env ({ s with taps }.go k .done scope) := by
    intro p hp hout
    have hlive : taps.live = s.taps.live := by
      cases hout' : allocateTaps env s.taps.pool with
      | mk out pool =>
          rw [hout'] at hout
          simp only [tapStep, hout'] at htaps
          cases out with
          | ok pair => exact absurd hout.symm (hp pair)
          | err msg => rw [← Option.some.inj htaps]
          | panicked => rw [← Option.some.inj htaps]
    refine h.keep hk rfl hcons hs.leave (fun a ha => ?_) fun pid hpid => hpid
    cases a with
    | dir q => exact ha
    | taps pair =>
        change pair ∈ taps.live
        rwa [hlive]
    | process p resources => exact ha
  cases hout : (allocateTaps env s.taps.pool).1 with
  | err msg => exact hfail _ (by simp) hout
  | panicked => exact hfail _ (by simp) hout
  | ok pair =>
      obtain ⟨hlive, hnd, hapart⟩ := devices_allocate hsound h.conserved htaps hout
      obtain ⟨free, hfits, hs⟩ := hs
      have hnew : ∀ r ∈ (Local.taps pair).offers, ¬ s.Present r := by
        intro r hr
        obtain ⟨d, hd, rfl⟩ := List.mem_map.mp hr
        rintro ⟨p, hp, hdp⟩
        exact hapart d hd p hp hdp
      have hnd' : (Local.taps pair).offers.Nodup :=
        hnd.map fun a b hab => by injection hab
      have hoffer : Scope.Sound Local.offers Local.uses ((Local.taps pair).offers ++ free)
          (.taps pair :: scope) :=
        hs.offer rfl hnd' fun r hr hin => hnew r hr (h.present (k := k) (by rwa [hk]))
      have hmem : ∀ q, q = pair ∨ q ∈ s.taps.live → q ∈ taps.live := by
        intro q hq
        rwa [hlive, List.mem_cons]
      refine h.push hk rfl hcons ⟨_, hfits pair, hoffer⟩ (fun a ha => ?_)
        (hmem pair (.inl rfl)) hnew fun pid hpid => .inl hpid
      cases a with
      | dir q => exact ha
      | taps q => exact hmem q (.inr ha)
      | process p resources => exact ha

theorem guarded_spawn (h : Guarded env s) {cfg : QemuConfig Str} {next : Body}
    (hk : s.threads k = ⟨.spawn cfg next, scope⟩) {o : SpawnOutcomes} (hclean : o.Clean) :
    Guarded env (match spawn o s.world with
      | (.ok p, world) =>
          { s with
            world
            started := Function.update s.started s.world.next cfg.resources }.go k next
              (.process p cfg.resources :: scope)
      | (.error _, world) =>
          { s with
            world
            started := Function.update s.started s.world.next cfg.resources }.go k .done
              scope) := by
  have hs := h.sound k
  rw [hk] at hs
  have hcontract := (spawnContract_iff o s.world).mpr hclean
  obtain ⟨hle, hnext⟩ := next_spawn o s.world
  unfold SpawnContract at hcontract
  -- the children there were keep their ids, and what they were started with
  have hhas : ∀ world : World, s.world.next ≤ world.next → ∀ a, s.Has a →
      TestsState.Has { s with
        world
        started := Function.update s.started s.world.next cfg.resources } a := by
    intro world hworld a ha
    cases a with
    | dir q => exact ha
    | taps pair => exact ha
    | process p resources =>
        refine ⟨?_, Nat.lt_of_lt_of_le ha.2 hworld⟩
        simp only [Function.update_of_ne (Nat.ne_of_lt ha.2), ha.1]
  cases hspawn : spawn o s.world with
  | mk out world =>
      rw [hspawn] at hcontract hle hnext
      cases out with
      | ok p =>
          obtain ⟨free, ⟨rest, hperm, hfits⟩, hs⟩ := hs
          refine h.push hk rfl h.conserved ⟨rest, hfits, hs.use rfl hperm⟩
            (hhas world hle) ⟨?_, ?_⟩ (by simp [Local.offers]) fun pid hpid => ?_
          · simp only [hcontract.1, Function.update_self]
          · have hworld : world.next = s.world.next + 1 := hnext p rfl
            change p.child < world.next
            rw [hcontract.1, hworld]
            exact Nat.lt_succ_self _
          · exact (hcontract.2 pid hpid).imp_right fun hp => ⟨p, cfg.resources, rfl, hp.symm⟩
      | error e => exact h.keep hk rfl h.conserved hs.leave (hhas world hle) hcontract

theorem guarded_quitAndWait (h : Guarded env s) {timeout : Nat} {next : Body}
    {p : QemuProcess} {resources : List Resource}
    (hk : s.threads k = ⟨.quitAndWait timeout next, .process p resources :: scope⟩)
    (q : QuitOutcomes) :
    Guarded env (match quitAndWait p timeout q s.world with
      | (.ok (), world) => { s with world }.go k next scope
      | (.error _, world) => { s with world }.go k .done scope) := by
  have hs := h.sound k
  rw [hk] at hs
  have hrun := fun pid => running_quitAndWait p timeout q s.world (q := pid)
  have hnext := next_quitAndWait p timeout q s.world
  have hpop : ∀ world rest, world = (quitAndWait p timeout q s.world).2 →
      Thread.Sound ⟨rest, scope⟩ → Guarded env ({ s with world }.go k rest scope) := by
    rintro world rest rfl hsound
    refine h.pop hk rfl h.conserved hsound (fun b hb _ => ?_) fun pid hpid => ?_
    · cases b with
      | dir path => exact hb
      | taps pair => exact hb
      | process p' resources' => exact ⟨hb.1, by simpa only [hnext] using hb.2⟩
    · obtain ⟨hmem, hne⟩ := (hrun pid).mp hpid
      refine ⟨hmem, fun p' resources' heq => ?_⟩
      cases heq
      exact Ne.symm hne
  cases hquit : quitAndWait p timeout q s.world with
  | mk out world =>
      cases out with
      | ok u =>
          obtain ⟨free, hfits, hs⟩ := hs
          exact hpop world next (by rw [hquit]) ⟨free, hfits, hs.move rfl⟩
      | error e => exact hpop world .done (by rw [hquit]) hs.drop

theorem guarded_dropDir (h : Guarded env s) {path : Str}
    (hk : s.threads k = ⟨.done, .dir path :: scope⟩) :
    Guarded env ({ s with dirs := s.dirs.erase path }.go k .done scope) := by
  have hs := h.sound k
  rw [hk] at hs
  refine h.pop hk rfl h.conserved hs.drop (fun b hb hoffers => ?_) fun pid hpid =>
    ⟨hpid, by simp⟩
  cases b with
  | dir q =>
      have hne : q ≠ path := by
        rintro rfl
        exact hoffers (.dir q) List.mem_cons_self List.mem_cons_self
      exact (List.mem_erase_of_ne hne).mpr hb
  | taps pair => exact hb
  | process p resources => exact hb

theorem guarded_dropTaps (h : Guarded env s) {pair : TapPair}
    (hk : s.threads k = ⟨.done, .taps pair :: scope⟩) {taps : TapState}
    (htaps : tapStep env s.taps (.drop pair) = some taps) :
    Guarded env ({ s with taps }.go k .done scope) := by
  have hs := h.sound k
  rw [hk] at hs
  have hlive : taps.live = s.taps.live.erase pair := by
    simp only [tapStep] at htaps
    split at htaps
    · rw [← Option.some.inj htaps]
    · cases htaps
  refine h.pop hk rfl (conserved_step h.conserved htaps) hs.drop (fun b hb hoffers => ?_)
    fun pid hpid => ⟨hpid, by simp⟩
  cases b with
  | dir q => exact hb
  | taps q =>
      have hne : q ≠ pair := by
        rintro rfl
        exact hoffers (.device q.src_tap) List.mem_cons_self List.mem_cons_self
      change q ∈ taps.live
      rw [hlive]
      exact (List.mem_erase_of_ne hne).mpr hb
  | process p resources => exact hb

theorem guarded_dropProcess (h : Guarded env s) {p : QemuProcess}
    {resources : List Resource}
    (hk : s.threads k = ⟨.done, .process p resources :: scope⟩) (d : DropOutcomes) :
    Guarded env ({ s with world := dropProcess p d s.world }.go k .done scope) := by
  have hs := h.sound k
  rw [hk] at hs
  refine h.pop hk rfl h.conserved hs.drop (fun b hb _ => ?_) fun pid hpid => ?_
  · cases b with
    | dir path => exact hb
    | taps pair => exact hb
    | process p' resources' =>
        exact ⟨hb.1, by simpa only [next_dropProcess] using hb.2⟩
  · obtain ⟨hmem, hne⟩ := (running_dropProcess p d s.world).mp hpid
    refine ⟨hmem, fun p' resources' heq => ?_⟩
    cases heq
    exact Ne.symm hne

theorem guarded_exits (h : Guarded env s) (pid : Nat) :
    Guarded env { s with world := s.world.exit pid } where
  conserved := h.conserved
  sound := h.sound
  has k a ha := by
    have hhas := h.has k a ha
    cases a with
    | dir path => exact hhas
    | taps pair => exact hhas
    | process p resources => exact hhas
  apart := h.apart
  owned q hq := h.owned q (mem_running_exit.mp hq).1

end Steps

/-- Step lemma: with clean spawns every step keeps the state guarded. -/
theorem guarded_step {env : TapEnv} (hsound : env.NoAlias) {s t : TestsState}
    {e : TestsEvent} (h : Guarded env s) (hclean : ∀ k o, e = .spawn k o → o.Clean)
    (hs : testsStep env s e = some t) : Guarded env t := by
  cases e with
  | call k ok =>
      simp only [testsStep] at hs
      split at hs
      · rename_i c next scope hk
        obtain rfl := Option.some.inj hs
        have hk' := h.sound k
        rw [hk] at hk'
        refine h.keep hk rfl h.conserved ?_ (fun _ ha => ha) fun _ hpid => hpid
        cases ok with
        | true => exact hk'
        | false => exact hk'.leave
      · cases hs
  | tempdir k path =>
      simp only [testsStep] at hs
      split at hs
      · rename_i next scope path hk
        split at hs
        · cases hs
        · rename_i hnew
          obtain rfl := Option.some.inj hs
          exact guarded_tempdir h hk (by simpa using hnew)
      · rename_i next scope hk
        obtain rfl := Option.some.inj hs
        have hk' := h.sound k
        rw [hk] at hk'
        exact h.keep hk rfl h.conserved hk'.leave (fun _ ha => ha) fun _ hpid => hpid
      · cases hs
  | allocate k =>
      simp only [testsStep] at hs
      split at hs
      · rename_i next scope hk
        obtain ⟨taps, htaps, rfl⟩ := Option.map_eq_some_iff.mp hs
        exact guarded_allocate hsound h hk htaps
      · cases hs
  | spawn k o =>
      simp only [testsStep] at hs
      split at hs
      · rename_i cfg next scope hk
        have hkeep := guarded_spawn h hk (hclean k o rfl)
        split at hs <;> rename_i heq <;> obtain rfl := Option.some.inj hs <;>
          rw [heq] at hkeep <;> exact hkeep
      · cases hs
  | quitAndWait k q =>
      simp only [testsStep] at hs
      split at hs
      · rename_i timeout next p resources scope hk
        have hkeep := guarded_quitAndWait h hk q
        split at hs <;> rename_i heq <;> obtain rfl := Option.some.inj hs <;>
          rw [heq] at hkeep <;> exact hkeep
      · cases hs
  | drop k d =>
      simp only [testsStep] at hs
      split at hs
      · rename_i path scope hk
        obtain rfl := Option.some.inj hs
        exact guarded_dropDir h hk
      · rename_i pair scope hk
        obtain ⟨taps, htaps, rfl⟩ := Option.map_eq_some_iff.mp hs
        exact guarded_dropTaps h hk htaps
      · rename_i p resources scope hk
        obtain rfl := Option.some.inj hs
        exact guarded_dropProcess h hk d
      · cases hs
  | exits pid =>
      obtain rfl := Option.some.inj hs
      exact guarded_exits h pid

/-- Run lemma. -/
theorem guarded_run {env : TapEnv} (hsound : env.NoAlias) {tests : Nat → Test}
    {es : List TestsEvent} {s : TestsState} (h : TestsRun env tests es s)
    (hclean : ∀ k o, .spawn k o ∈ es → o.Clean) : Guarded env s := by
  revert hclean
  refine Run.induct
    (P := fun es s => (∀ k o, TestsEvent.spawn k o ∈ es → o.Clean) → Guarded env s) ?_ ?_ h
  · exact fun _ => guarded_init env tests
  · intro es s e t ih hs hclean
    refine guarded_step hsound (ih fun k o ho => hclean k o (List.mem_append_left _ ho)) ?_ hs
    rintro k o rfl
    exact hclean k o (by simp)

/-! ## A spawn that is not clean -/

theorem spawn_dirty {o : SpawnOutcomes} (h : ¬ o.Clean) (w : World) :
    ∃ e, spawn o w = (.error e, w.start) := by
  rcases spawn_cases o w with ⟨hnone, -⟩ | ⟨-, -, hok, -⟩ | ⟨-, -, -, e, hspawn⟩
  · exact absurd (hnone.elim .inl fun hs => .inr (.inl hs)) h
  · exact absurd (.inr (.inr (.inr hok))) h
  · refine ⟨e, ?_⟩
    cases hexits : o.childExits with
    | true => exact absurd (.inr (.inr (.inl hexits))) h
    | false => rw [hspawn, hexits]; rfl

/-- `test_simple_guest_bin` up to its end, its spawn failing. -/
def leakDir (o : SpawnOutcomes) (d : DropOutcomes) : List TestsEvent :=
  [.tempdir 0 (some []), .call 0 true, .spawn 0 o, .drop 0 d]

/-- `test_live_migration_os` up to its end, its first spawn failing. -/
def leakDevice (k : Nat) (o : SpawnOutcomes) (d : DropOutcomes) : List TestsEvent :=
  [.tempdir k (some ['s']), .tempdir k (some ['d']), .tempdir k (some ['m']), .allocate k,
    .call k true, .call k true, .spawn k o, .drop k d, .drop k d, .drop k d, .drop k d]

theorem run_leakDevice {env : TapEnv} {s : TestsState} {k : Nat} {machine : Machine}
    {smp : UInt8} {stress_ng : Bool} {mac : Str} {o : SpawnOutcomes} (ho : ¬ o.Clean)
    (d : DropOutcomes)
    (hk : s.threads k = ⟨Body.testLiveMigrationOs machine smp stress_ng mac, []⟩)
    (hdirs : s.dirs = []) {pair : TapPair} {pool : TapPool}
    (hpair : allocateTaps env s.taps.pool = (.ok pair, pool)) :
    ∃ t, Run (fun s e t => testsStep env s e = some t) s (leakDevice k o d) t ∧
      t.world = s.world.start ∧
      t.started = Function.update s.started s.world.next
        [.dir ['s'], .device pair.src_tap] ∧
      t.taps.pool = dropTaps pool pair ∧ t.dirs = [] ∧
      ∀ j ≠ k, t.threads j = s.threads j := by
  obtain ⟨e, hspawn⟩ := spawn_dirty ho s.world
  refine ⟨_, Run.of_foldlM (t := ?_) ?_, ?_⟩
  rotate_left
  · simp [leakDevice, testsStep, hk, Body.testLiveMigrationOs, Body.migrationDirs,
      TestsState.go, hdirs, tapStep, hpair, hspawn]
    rfl
  · refine ⟨rfl, rfl, rfl, ?_, fun j hj => ?_⟩
    · simp
    · simp [Function.update_of_ne hj]

/-! ## The result -/

/-- **VMs do not share**: with clean spawns only, whatever the tests are and
however they interleave, no two QEMU processes that run share a directory or a
tap device, and what they use is there. One spawn that is not clean breaks it. -/
theorem usesExclusively_iff {env : TapEnv} (hsound : env.NoAlias)
    (met : SpawnOutcomes → Prop) :
    (∀ tests es s, TestsRun env tests es s → (∀ k o, .spawn k o ∈ es → met o) →
      UsesExclusively s) ↔ ∀ o, met o → o.Clean := by
  constructor
  · intro h o ho
    by_contra hdirty
    obtain ⟨e, hspawn⟩ := spawn_dirty hdirty .empty
    let d : DropOutcomes := ⟨true, fun _ => true, .exact 100 (by decide)⟩
    have hrun : ∃ s, TestsRun env (fun _ => .SimpleGuestBin) (leakDir o d) s ∧
        1 ∈ s.world.running ∧ Resource.dir [] ∈ s.started 1 ∧ s.dirs = [] := by
      refine ⟨_, Run.of_foldlM (t := ?_) ?_, ?_⟩
      rotate_left
      · simp [leakDir, testsStep, TestsState.init, Test.body, Body.testSimpleGuestBin,
          Body.guestBinTest, TestsState.go, hspawn]
        rfl
      · simp [World.start, World.empty, QemuConfig.resources, QemuConfig.new]
    obtain ⟨s, hrun, hmem, hstarted, hdirs⟩ := hrun
    have huses := h _ _ s hrun fun k o' hmem => by
      have heq : k = 0 ∧ o' = o := by simpa [leakDir] using hmem
      exact heq.2 ▸ ho
    have hpresent : ([] : Str) ∈ s.dirs := huses.present 1 hmem _ hstarted
    simp [hdirs] at hpresent
  · intro hclean tests es s hrun hmet
    exact (guarded_run hsound hrun fun k o ho => hclean o (hmet k o ho)).usesExclusively

/-- One pair of devices, and one job. -/
def onePairEnv : TapEnv where
  device name := name = tapName 0 ∨ name = tapName 1
  config := ⟨some (lit "1"), none⟩
  overflow_checks := true

theorem not_clean_handshakeFails : ¬ handshakeFails.Clean := by
  rintro (⟨e, he⟩ | hstart | hexits | hok)
  · cases he
  · cases hstart
  · cases hexits
  · cases hok.2.2.2.2.2.1

theorem usesExclusively_onePair :
    (∀ tests es s, TestsRun onePairEnv tests es s → (∀ k o, .spawn k o ∈ es → o.Clean) →
      UsesExclusively s) ∧
    ¬ ∀ tests es s, TestsRun onePairEnv tests es s →
      (∀ k o, .spawn k o ∈ es → o = handshakeFails) → UsesExclusively s :=
  ⟨(usesExclusively_iff (.inl rfl) SpawnOutcomes.Clean).mpr fun _ ho => ho, fun h =>
    not_clean_handshakeFails
      ((usesExclusively_iff (.inl rfl) (· = handshakeFails)).mp h _ rfl)⟩

/-- **A leaked VM shares its tap device**: after a spawn that is not clean the
pair is free again while the child runs on, and the next test gets it. -/
theorem leaked_device_shared {env : TapEnv} (hsound : env.NoAlias) {valid : List Nat}
    (hvalid : initTapPool env = .ok valid) (hne : valid ≠ []) {o : SpawnOutcomes}
    (ho : ¬ o.Clean) (machine : Machine) (smp : UInt8) (stress_ng : Bool) (mac : Str)
    (d : DropOutcomes) :
    ∃ s name, TestsRun env (fun _ => .LiveMigrationOs machine smp stress_ng mac)
        (leakDevice 0 o d ++ leakDevice 1 o d) s ∧
      1 ∈ s.world.running ∧ 2 ∈ s.world.running ∧
        .device name ∈ s.started 1 ∧ .device name ∈ s.started 2 := by
  obtain ⟨rest, i, rfl⟩ := (List.eq_nil_or_concat valid).resolve_left hne
  have hnew : TapPair.new env.overflow_checks i = some (tapPairOf i) :=
    new_of_lt _ (valid_lt hsound hvalid (by simp))
  -- the pair comes back to the end of the list, and is the next to go
  have hfirst : allocateTaps env ⟨none, false⟩ = (.ok (tapPairOf i), ⟨some rest, false⟩) := by
    simp [allocateTaps, hvalid, popTaps, hnew]
  have hback : dropTaps ⟨some rest, false⟩ (tapPairOf i) = ⟨some (rest ++ [i]), false⟩ := rfl
  have hagain : allocateTaps env ⟨some (rest ++ [i]), false⟩
      = (.ok (tapPairOf i), ⟨some rest, false⟩) := by
    simp [allocateTaps, popTaps, hnew]
  obtain ⟨s, hs, hworld, hstarted, hpool, hdirs, hthreads⟩ :=
    run_leakDevice (s := .init fun _ => .LiveMigrationOs machine smp stress_ng mac) (k := 0)
      ho d rfl rfl hfirst
  rw [hback] at hpool
  obtain ⟨t, ht, hworld', hstarted', -⟩ :=
    run_leakDevice (s := s) (k := 1) ho d (hthreads 1 (by decide)) hdirs
      (hpool ▸ hagain)
  refine ⟨t, tapName (i * 2), hs.trans ht, ?_, ?_, ?_, ?_⟩
  · simp [hworld', hworld, TestsState.init, World.start, World.empty]
  · simp [hworld', hworld, TestsState.init, World.start, World.empty]
  · simp [hstarted', hstarted, hworld, TestsState.init, World.start, World.empty, tapPairOf]
  · simp [hstarted', hstarted, hworld, TestsState.init, World.start, World.empty, tapPairOf]

theorem initTapPool_onePair : initTapPool onePairEnv = .ok [0] := by
  have hjobs : onePairEnv.config.testJobs = .ok 1 := by decide +kernel
  simp only [initTapPool, hjobs]
  simp [List.range, List.range.loop, filterOk, tapPairOk, checkedUsize, usizeSize, onePairEnv]

theorem leaked_device_onePair :
    ∃ s name, TestsRun onePairEnv (fun _ => .LiveMigrationOs .Pc 1 false [])
        (leakDevice 0 handshakeFails ⟨true, fun _ => true, .exact 100 (by decide)⟩
          ++ leakDevice 1 handshakeFails ⟨true, fun _ => true, .exact 100 (by decide)⟩) s ∧
      1 ∈ s.world.running ∧ 2 ∈ s.world.running ∧
        .device name ∈ s.started 1 ∧ .device name ∈ s.started 2 :=
  leaked_device_shared (.inl rfl) initTapPool_onePair (by decide)
    not_clean_handshakeFails .Pc 1 false [] _

end QemuTest

import Mathlib.Data.List.Nodup
import Mathlib.Data.List.Pairwise
import QemuTest.Config
import QemuTest.Lib.FreeList
import QemuTest.Lib.Runs

/-!
# Util — TapPool

The pool of tap device pairs of `util.rs`: `TAP_POOL` behind its mutex, the
lazy `initTapPool`, `TapPair::new`, `allocateTaps` and the drop of a pair.
Index arithmetic is that of `usize`: past the word it panics where overflow
checks are compiled in, and wraps where they are not.

The system lets any thread allocate or drop at any time; the mutex makes each
call one step. `Conserved` is the invariant; the free list part of it is the
library's.
-/

namespace QemuTest

open Text Runs FreeList

/-! ## Words -/

/-- A `usize` result: `none` is the overflow panic. -/
def checkedUsize (overflow_checks : Bool) (n : Nat) : Option Nat :=
  if n < usizeSize then some n
  else if overflow_checks then none
  else some (n % usizeSize)

theorem checkedUsize_of_lt (overflow_checks : Bool) {n : Nat} (h : n < usizeSize) :
    checkedUsize overflow_checks n = some n := by
  rw [checkedUsize, if_pos h]

/-- With overflow checks, a result is the exact one. -/
theorem checkedUsize_true {n m : Nat} (h : checkedUsize true n = some m) :
    n < usizeSize ∧ m = n := by
  by_cases hn : n < usizeSize
  · rw [checkedUsize, if_pos hn] at h
    exact ⟨hn, (Option.some.inj h).symm⟩
  · rw [checkedUsize, if_neg hn, if_pos rfl] at h
    cases h

theorem checkedUsize_false (n : Nat) :
    checkedUsize false n = some (n % usizeSize) := by
  by_cases hn : n < usizeSize
  · rw [checkedUsize, if_pos hn, Nat.mod_eq_of_lt hn]
  · rw [checkedUsize, if_neg hn, if_neg Bool.false_ne_true]

/-! ## Pairs -/

/-- What the pool depends on: the devices under `/sys/class/net`, the
settings, and how the binary was compiled. -/
structure TapEnv where
  device : Str → Bool
  config : Config
  overflow_checks : Bool

def tapPrefix : Str := lit "tap-qemu-"

def tapName (i : Nat) : Str := tapPrefix ++ decimal i

theorem tapName_injective : Function.Injective tapName := by
  intro a b h
  exact decimal_injective (List.append_cancel_left h)

structure TapPair where
  pair_index : Nat
  src_tap : Str
  dst_tap : Str
  guest_ip_cidr : Str
  guest_host : Str
  deriving DecidableEq

def guestHost (host_octet : Nat) : Str := lit "192.168.100." ++ decimal host_octet

def TapPair.new (overflow_checks : Bool) (pair_index : Nat) : Option TapPair := do
  let src_idx ← checkedUsize overflow_checks (pair_index * 2)
  let dst_idx ← checkedUsize overflow_checks (src_idx + 1)
  let host_octet ← checkedUsize overflow_checks (2 + pair_index)
  return {
    pair_index
    src_tap := tapName src_idx
    dst_tap := tapName dst_idx
    guest_ip_cidr := guestHost host_octet ++ lit "/24"
    guest_host := guestHost host_octet }

/-! ## The pool -/

/-- How a call ends. -/
inductive Outcome (α : Type) where
  | ok (a : α)
  | err (msg : Str)
  | panicked

/-- The closure of `initTapPool`: do both devices of the pair exist? -/
def tapPairOk (env : TapEnv) (i : Nat) : Option Bool := do
  let src_idx ← checkedUsize env.overflow_checks (i * 2)
  let dst_idx ← checkedUsize env.overflow_checks (src_idx + 1)
  return env.device (tapName src_idx) && env.device (tapName dst_idx)

/-- `filter` with a closure that can panic. -/
def filterOk (ok : Nat → Option Bool) : List Nat → Option (List Nat)
  | [] => some []
  | i :: is => do
      let keep ← ok i
      let rest ← filterOk ok is
      return if keep then i :: rest else rest

def initTapPool (env : TapEnv) : Outcome (List Nat) :=
  match env.config.testJobs with
  | .error msg => .err msg
  | .ok jobs =>
      match filterOk (tapPairOk env) (List.range jobs) with
      | none => .panicked
      | some valid => .ok valid

/-- `TAP_POOL`: the free indices once initialised, and whether a panic under
the lock has poisoned the mutex. -/
structure TapPool where
  indices : Option (List Nat)
  poisoned : Bool

def TapPool.poison (m : TapPool) : TapPool := { m with poisoned := true }

/-- `allocate_taps` from the point where `indices` is there. -/
def popTaps (env : TapEnv) (m : TapPool) (indices : List Nat) :
    Outcome TapPair × TapPool :=
  match indices.getLast? with
  | none => (.err (lit "no tap devices available"), { m with indices := some indices })
  | some pair_index =>
      let m := { m with indices := some indices.dropLast }
      match TapPair.new env.overflow_checks pair_index with
      | none => (.panicked, m.poison)
      | some pair => (.ok pair, m)

/-- `lock().unwrap()` panics on a poisoned mutex, `expect` on a failed
initialisation. -/
def allocateTaps (env : TapEnv) (m : TapPool) : Outcome TapPair × TapPool :=
  if m.poisoned then (.panicked, m)
  else
    match m.indices with
    | some indices => popTaps env m indices
    | none =>
        match initTapPool env with
        | .ok valid => popTaps env m valid
        | _ => (.panicked, m.poison)

def dropTaps (m : TapPool) (pair : TapPair) : TapPool :=
  if m.poisoned then m
  else
    match m.indices with
    | some indices => { m with indices := some (indices ++ [pair.pair_index]) }
    | none => m

/-! ## The system -/

inductive TapEvent where
  | allocate
  | drop (pair : TapPair)

/-- The pool, the pairs the threads hold, and how often the initialisation
has been entered. -/
structure TapState where
  pool : TapPool
  live : List TapPair
  inits : Nat

def TapState.init : TapState := ⟨⟨none, false⟩, [], 0⟩

/-- Does this call enter `initTapPool`? -/
def TapPool.initialises (m : TapPool) : Bool := !m.poisoned && m.indices.isNone

/-- Any thread can allocate, and drop a pair that is held. -/
def tapStep (env : TapEnv) (s : TapState) : TapEvent → Option TapState
  | .allocate =>
      let inits := s.inits + if s.pool.initialises then 1 else 0
      match allocateTaps env s.pool with
      | (.ok pair, pool) => some ⟨pool, pair :: s.live, inits⟩
      | (_, pool) => some ⟨pool, s.live, inits⟩
  | .drop pair =>
      if pair ∈ s.live then
        some ⟨dropTaps s.pool pair, s.live.erase pair, s.inits⟩
      else none

abbrev TapRun (env : TapEnv) (es : List TapEvent) (s : TapState) : Prop :=
  Run (fun s e t => tapStep env s e = some t) TapState.init es s

/-! ## What initialisation finds -/

/-- Both devices of the pair `i` exist, indices taken exactly. -/
def TapEnv.PairExists (env : TapEnv) (i : Nat) : Prop :=
  env.device (tapName (i * 2)) = true ∧ env.device (tapName (i * 2 + 1)) = true

/-- Doubling an index below `jobs` cannot wrap onto the devices of an existing
pair: an overflow panics, or no existing pair has an index `2 ^ 63` further on
below `jobs`. -/
def TapEnv.NoAlias (env : TapEnv) : Prop :=
  env.overflow_checks = true ∨
    ∀ jobs, env.config.testJobs = .ok jobs →
      ∀ i, i + 2 ^ 63 < jobs → ¬ env.PairExists i

/-- The pair of an index that does not overflow. -/
def tapPairOf (i : Nat) : TapPair where
  pair_index := i
  src_tap := tapName (i * 2)
  dst_tap := tapName (i * 2 + 1)
  guest_ip_cidr := guestHost (2 + i) ++ lit "/24"
  guest_host := guestHost (2 + i)

theorem new_of_lt (overflow_checks : Bool) {i : Nat} (h : i < 2 ^ 63) :
    TapPair.new overflow_checks i = some (tapPairOf i) := by
  have hsrc : i * 2 < usizeSize := by unfold usizeSize; omega
  have hdst : i * 2 + 1 < usizeSize := by unfold usizeSize; omega
  have hhost : 2 + i < usizeSize := by unfold usizeSize; omega
  simp [TapPair.new, checkedUsize_of_lt, hsrc, hdst, hhost, tapPairOf]

theorem new_pair_index {overflow_checks : Bool} {i : Nat} {p : TapPair}
    (h : TapPair.new overflow_checks i = some p) : p.pair_index = i := by
  simp only [TapPair.new, Option.bind_eq_bind, Option.bind_eq_some_iff,
    Option.pure_def, Option.some.injEq] at h
  obtain ⟨_, _, _, _, _, _, rfl⟩ := h
  rfl

theorem tapPairOk_of_lt (env : TapEnv) {i : Nat} (h : i < 2 ^ 63) :
    tapPairOk env i = some true ↔ env.PairExists i := by
  have hsrc : i * 2 < usizeSize := by unfold usizeSize; omega
  have hdst : i * 2 + 1 < usizeSize := by unfold usizeSize; omega
  simp [tapPairOk, checkedUsize_of_lt, hsrc, hdst, TapEnv.PairExists]

/-- Without overflow checks an index and the one `2 ^ 63` further on look at
the same devices. -/
theorem tapPairOk_wrap {env : TapEnv} (henv : env.overflow_checks = false)
    (i : Nat) : tapPairOk env (i + 2 ^ 63) = tapPairOk env i := by
  have hmod : (i + 2 ^ 63) * 2 % usizeSize = i * 2 % usizeSize := by
    unfold usizeSize
    omega
  simp only [tapPairOk, henv, checkedUsize_false, Option.bind_eq_bind, Option.bind_some,
    Option.pure_def, hmod]

theorem filterOk_eq_some {ok : Nat → Option Bool} {is out : List Nat}
    (h : filterOk ok is = some out) :
    out = is.filter (fun i => ok i = some true) ∧ ∀ i ∈ is, ok i ≠ none := by
  induction is generalizing out with
  | nil =>
      simp only [filterOk, Option.some.injEq] at h
      simp [← h]
  | cons i is ih =>
      simp only [filterOk, Option.bind_eq_bind, Option.bind_eq_some_iff,
        Option.pure_def, Option.some.injEq] at h
      obtain ⟨keep, hkeep, rest, hrest, rfl⟩ := h
      obtain ⟨rfl, hne⟩ := ih hrest
      refine ⟨?_, ?_⟩
      · cases keep <;> simp [hkeep]
      · intro j hj
        rcases List.mem_cons.mp hj with rfl | hj
        · simp [hkeep]
        · exact hne j hj

theorem filterOk_of_total {ok : Nat → Option Bool} {is : List Nat}
    (h : ∀ i ∈ is, ok i ≠ none) : ∃ out, filterOk ok is = some out := by
  induction is with
  | nil => exact ⟨[], rfl⟩
  | cons i is ih =>
      obtain ⟨rest, hrest⟩ := ih fun j hj => h j (List.mem_cons_of_mem _ hj)
      obtain ⟨keep, hkeep⟩ := Option.ne_none_iff_exists'.mp (h i List.mem_cons_self)
      refine ⟨if keep then i :: rest else rest, ?_⟩
      simp only [filterOk, hkeep, hrest, Option.bind_eq_bind, Option.bind_some,
        Option.pure_def]

/-- What a successful initialisation read and computed. -/
theorem initTapPool_ok {env : TapEnv} {valid : List Nat}
    (h : initTapPool env = .ok valid) :
    ∃ jobs, env.config.testJobs = .ok jobs ∧
      valid = (List.range jobs).filter (fun i => tapPairOk env i = some true) ∧
      ∀ i < jobs, tapPairOk env i ≠ none := by
  unfold initTapPool at h
  cases hjobs : env.config.testJobs with
  | error msg => simp [hjobs] at h
  | ok jobs =>
      simp only [hjobs] at h
      cases hf : filterOk (tapPairOk env) (List.range jobs) with
      | none => simp [hf] at h
      | some out =>
          simp only [hf, Outcome.ok.injEq] at h
          obtain ⟨hout, hne⟩ := filterOk_eq_some hf
          exact ⟨jobs, rfl, h ▸ hout, fun i hi => hne i (List.mem_range.mpr hi)⟩

theorem valid_nodup {env : TapEnv} {valid : List Nat}
    (h : initTapPool env = .ok valid) : valid.Nodup := by
  obtain ⟨jobs, -, rfl, -⟩ := initTapPool_ok h
  exact List.nodup_range.filter _

theorem testJobs_lt {c : Config} {jobs : Nat} (h : c.testJobs = .ok jobs) :
    jobs < usizeSize := by
  unfold Config.testJobs at h
  split at h
  · cases h
    decide
  · split at h
    · cases h
    · cases h
      exact parseUsize_lt ‹_›

/-- Under overflow checks a checked index has not overflowed. -/
theorem lt_of_tapPairOk {env : TapEnv} (henv : env.overflow_checks = true) {i : Nat}
    (h : tapPairOk env i ≠ none) : i < 2 ^ 63 := by
  obtain ⟨b, hb⟩ := Option.ne_none_iff_exists'.mp h
  simp only [tapPairOk, henv, Option.bind_eq_bind, Option.bind_eq_some_iff] at hb
  obtain ⟨src_idx, hsrc, -⟩ := hb
  have hlt := (checkedUsize_true hsrc).1
  unfold usizeSize at hlt
  omega

/-- Without aliases every index found valid is below `2 ^ 63`. -/
theorem valid_lt {env : TapEnv} {valid : List Nat} (hsound : env.NoAlias)
    (h : initTapPool env = .ok valid) {i : Nat} (hi : i ∈ valid) : i < 2 ^ 63 := by
  obtain ⟨jobs, hjobs, rfl, hne⟩ := initTapPool_ok h
  simp only [List.mem_filter, List.mem_range, decide_eq_true_eq] at hi
  obtain ⟨hlt, hok⟩ := hi
  by_cases hchk : env.overflow_checks = true
  · exact lt_of_tapPairOk hchk (hne i hlt)
  · by_contra hge
    have hoff : env.overflow_checks = false := by simpa using hchk
    rcases hsound with hon | hno
    · exact hchk hon
    · -- the index found valid has looked at the devices of `i - 2 ^ 63`
      have hjlt : jobs < 2 ^ 64 := testJobs_lt hjobs
      have hi' : i = (i - 2 ^ 63) + 2 ^ 63 := by omega
      rw [hi', tapPairOk_wrap hoff, tapPairOk_of_lt env (by omega)] at hok
      exact hno jobs hjobs (i - 2 ^ 63) (by omega) hok

/-- An index found valid gives a pair. -/
theorem new_of_valid {env : TapEnv} {valid : List Nat}
    (h : initTapPool env = .ok valid) {i : Nat} (hi : i ∈ valid) :
    ∃ p, TapPair.new env.overflow_checks i = some p ∧ p.pair_index = i := by
  have hsome : ∃ p, TapPair.new env.overflow_checks i = some p := by
    cases hchk : env.overflow_checks with
    | true =>
        have hsound : env.NoAlias := .inl hchk
        exact ⟨_, new_of_lt true (valid_lt hsound h hi)⟩
    | false =>
        simp only [TapPair.new, checkedUsize_false, Option.bind_eq_bind,
          Option.bind_some, Option.pure_def]
        exact ⟨_, rfl⟩
  obtain ⟨p, hp⟩ := hsome
  exact ⟨p, hp, new_pair_index hp⟩

/-! ## The invariant -/

/-- The indices of the pairs that are held. -/
def TapState.held (s : TapState) : List Nat := s.live.map TapPair.pair_index

/-- Before the initialisation nothing is held; after it the free and the held
indices are together the valid ones, and every pair held is that of its index. -/
def Conserved (env : TapEnv) (s : TapState) : Prop :=
  match s.pool.indices with
  | none => s.live = [] ∧ (s.inits = if s.pool.poisoned then 1 else 0) ∧
      (s.pool.poisoned = true → ∀ valid, initTapPool env ≠ .ok valid)
  | some free =>
      s.pool.poisoned = false ∧ s.inits = 1 ∧
        (∀ p ∈ s.live, TapPair.new env.overflow_checks p.pair_index = some p) ∧
        ∃ valid, initTapPool env = .ok valid ∧ Conserves valid free s.held

theorem conserved_init (env : TapEnv) : Conserved env TapState.init := by
  simp [Conserved, TapState.init]

/-- `popTaps` on what the initialisation left: the error when nothing is free,
the pair of the last free index otherwise. -/
theorem popTaps_spec {env : TapEnv} {valid indices held : List Nat} (m : TapPool)
    (hvalid : initTapPool env = .ok valid) (h : Conserves valid indices held) :
    (indices = [] ∧ popTaps env m indices
      = (.err (lit "no tap devices available"), { m with indices := some [] })) ∨
    ∃ rest pair, indices = rest ++ [pair.pair_index] ∧
      TapPair.new env.overflow_checks pair.pair_index = some pair ∧
      popTaps env m indices = (.ok pair, { m with indices := some rest }) := by
  rcases List.eq_nil_or_concat indices with rfl | ⟨rest, i, rfl⟩
  · exact .inl ⟨rfl, rfl⟩
  · refine .inr ?_
    have hi : i ∈ valid := h.mem_iff.mp (by simp)
    obtain ⟨pair, hnew, rfl⟩ := new_of_valid hvalid hi
    refine ⟨rest, pair, by simp, hnew, ?_⟩
    simp [popTaps, hnew]

/-- `allocateTaps` on an initialised pool is `popTaps`. -/
theorem allocateTaps_initialised (env : TapEnv) {free : List Nat} :
    allocateTaps env ⟨some free, false⟩ = popTaps env ⟨some free, false⟩ free := rfl

/-- The first allocation initialises, or poisons the mutex. -/
theorem allocateTaps_first (env : TapEnv) :
    (∃ valid, initTapPool env = .ok valid ∧
      allocateTaps env ⟨none, false⟩ = popTaps env ⟨none, false⟩ valid) ∨
    ((∀ valid, initTapPool env ≠ .ok valid) ∧
      allocateTaps env ⟨none, false⟩ = (.panicked, ⟨none, true⟩)) := by
  cases h : initTapPool env with
  | ok valid => exact .inl ⟨valid, rfl, by simp [allocateTaps, h]⟩
  | err msg => exact .inr ⟨by simp, by simp [allocateTaps, h, TapPool.poison]⟩
  | panicked => exact .inr ⟨by simp, by simp [allocateTaps, h, TapPool.poison]⟩

/-- After `popTaps` the books balance again, whichever way it ended. -/
theorem conserved_popTaps {env : TapEnv} {valid indices : List Nat} {m : TapPool}
    {live : List TapPair} (hvalid : initTapPool env = .ok valid)
    (hm : m.poisoned = false)
    (hlive : ∀ p ∈ live, TapPair.new env.overflow_checks p.pair_index = some p)
    (h : Conserves valid indices (live.map TapPair.pair_index)) :
    Conserved env (match popTaps env m indices with
      | (.ok pair, pool) => ⟨pool, pair :: live, 1⟩
      | (_, pool) => ⟨pool, live, 1⟩) := by
  rcases popTaps_spec m hvalid h with ⟨rfl, hpop⟩ | ⟨rest, pair, rfl, hnew, hpop⟩
  · rw [hpop]
    exact ⟨hm, rfl, hlive, valid, hvalid, h⟩
  · rw [hpop]
    refine ⟨hm, rfl, ?_, valid, hvalid, h.take⟩
    intro p hp
    rcases List.mem_cons.mp hp with rfl | hp
    · exact hnew
    · exact hlive p hp

/-- Step lemma: every allocation and every drop conserves the indices. -/
theorem conserved_step {env : TapEnv} {s t : TapState} {e : TapEvent}
    (h : Conserved env s) (hs : tapStep env s e = some t) : Conserved env t := by
  obtain ⟨⟨indices, poisoned⟩, live, inits⟩ := s
  cases e with
  | allocate =>
      have hstep : t = match allocateTaps env ⟨indices, poisoned⟩ with
          | (.ok pair, pool) => ⟨pool, pair :: live,
              inits + if (TapPool.mk indices poisoned).initialises then 1 else 0⟩
          | (_, pool) => ⟨pool, live,
              inits + if (TapPool.mk indices poisoned).initialises then 1 else 0⟩ := by
        simp only [tapStep] at hs
        split at hs <;> simp_all
      subst hstep
      cases indices with
      | some free =>
          obtain ⟨rfl, hinits, hlive, valid, hvalid, hcons⟩ := h
          obtain rfl : inits = 1 := hinits
          rw [allocateTaps_initialised]
          exact conserved_popTaps hvalid rfl hlive hcons
      | none =>
          obtain ⟨rfl, hinits, hfailed⟩ := h
          cases poisoned with
          | true => exact ⟨rfl, hinits, hfailed⟩
          | false =>
              obtain rfl : inits = 0 := hinits
              rcases allocateTaps_first env with ⟨valid, hvalid, halloc⟩ | ⟨hnot, halloc⟩
              · rw [halloc]
                exact conserved_popTaps hvalid rfl (by simp) (Conserves.init valid)
              · rw [halloc]
                exact ⟨rfl, rfl, fun _ => hnot⟩
  | drop pair =>
      simp only [tapStep] at hs
      split at hs
      · rename_i hmem
        obtain rfl := Option.some.inj hs
        cases indices with
        | none =>
            obtain ⟨rfl, -⟩ := h
            simp at hmem
        | some free =>
            obtain ⟨rfl, hinits, hlive, valid, hvalid, hcons⟩ := h
            refine ⟨rfl, hinits, fun p hp => hlive p (List.mem_of_mem_erase hp),
              valid, hvalid, ?_⟩
            exact hcons.give ((List.perm_cons_erase hmem).map _)
      · cases hs

/-- Run lemma: the indices are conserved in every reachable state. -/
theorem conserved_run {env : TapEnv} {es : List TapEvent} {s : TapState}
    (h : TapRun env es s) : Conserved env s :=
  Run.invariant (conserved_init env) (fun _ _ _ => conserved_step) h

/-! ## Exclusivity -/

/-- The two device names of a pair. -/
def TapPair.devices (p : TapPair) : List Str := [p.src_tap, p.dst_tap]

/-- What a state of the pool promises to the threads. -/
structure Exclusive (env : TapEnv) (s : TapState) : Prop where
  /-- the initialisation is entered once at most, and before any pair is held -/
  once : s.inits ≤ 1
  before : s.pool.indices = none → s.live = []
  /-- free and held indices are the valid ones, without repetition -/
  conserved : ∀ free, s.pool.indices = some free → s.inits = 1 ∧
    ∃ valid, initTapPool env = .ok valid ∧ (free ++ s.held).Perm valid ∧
      (free ++ s.held).Nodup
  /-- an allocation fails iff every valid pair is held, and changes nothing then -/
  allocation : ∀ free valid, s.pool.indices = some free →
    initTapPool env = .ok valid →
      ((∀ p, (allocateTaps env s.pool).1 ≠ .ok p) ↔ ∀ i ∈ valid, i ∈ s.held) ∧
      ((∀ p, (allocateTaps env s.pool).1 ≠ .ok p) →
        allocateTaps env s.pool = (.err (lit "no tap devices available"), s.pool))
  /-- no index, device or address is there twice among the pairs held -/
  indices : s.held.Nodup
  devices : (s.live.flatMap TapPair.devices).Nodup
  addresses : (s.live.map TapPair.guest_host).Nodup ∧
    (s.live.map TapPair.guest_ip_cidr).Nodup

theorem guestHost_injective : Function.Injective guestHost := by
  intro a b h
  exact decimal_injective (List.append_cancel_left h)

/-- Different indices have different devices and addresses. -/
theorem nodup_devices {is : List Nat} (h : is.Nodup) :
    ((is.map tapPairOf).flatMap TapPair.devices).Nodup := by
  have hmap : (is.map tapPairOf).flatMap TapPair.devices
      = (is.flatMap fun i => [i * 2, i * 2 + 1]).map tapName := by
    simp [List.flatMap_map, List.map_flatMap, TapPair.devices, tapPairOf]
  rw [hmap]
  refine List.Nodup.map tapName_injective ?_
  rw [List.nodup_flatMap]
  refine ⟨fun i _ => by simp, h.imp ?_⟩
  intro i j hne
  simp only [Function.onFun, List.disjoint_left, List.mem_cons, List.not_mem_nil,
    or_false]
  omega

theorem nodup_hosts {is : List Nat} (h : is.Nodup) :
    ((is.map tapPairOf).map TapPair.guest_host).Nodup := by
  rw [List.map_map]
  refine h.map ?_
  intro a b hab
  have := guestHost_injective hab
  omega

theorem nodup_cidrs {is : List Nat} (h : is.Nodup) :
    ((is.map tapPairOf).map TapPair.guest_ip_cidr).Nodup := by
  rw [List.map_map]
  refine h.map ?_
  intro a b hab
  have := guestHost_injective (List.append_cancel_right hab)
  omega

/-- An allocation from an initialised pool. -/
theorem allocateTaps_spec {env : TapEnv} {valid free : List Nat} {live : List TapPair}
    (hvalid : initTapPool env = .ok valid)
    (hcons : Conserves valid free (live.map TapPair.pair_index)) :
    ((∀ p, (allocateTaps env ⟨some free, false⟩).1 ≠ .ok p) ↔
      ∀ i ∈ valid, i ∈ live.map TapPair.pair_index) ∧
    ((∀ p, (allocateTaps env ⟨some free, false⟩).1 ≠ .ok p) →
      allocateTaps env ⟨some free, false⟩
        = (.err (lit "no tap devices available"), ⟨some free, false⟩)) := by
  rw [← hcons.exhausted_iff (valid_nodup hvalid), allocateTaps_initialised]
  rcases popTaps_spec ⟨some free, false⟩ hvalid hcons with
    ⟨rfl, hpop⟩ | ⟨rest, pair, rfl, -, hpop⟩
  · rw [hpop]
    simp
  · rw [hpop]
    refine ⟨⟨fun h => absurd rfl (h pair), by simp⟩, fun h => absurd rfl (h pair)⟩

/-- Without aliases, conserved indices make a state exclusive. -/
theorem exclusive_of_conserved {env : TapEnv} {s : TapState} (hsound : env.NoAlias)
    (h : Conserved env s) : Exclusive env s := by
  obtain ⟨⟨indices, poisoned⟩, live, inits⟩ := s
  cases indices with
  | none =>
      obtain ⟨rfl, hinits, -⟩ := h
      exact {
        once := by rw [hinits]; split <;> omega
        before := fun _ => rfl
        conserved := fun _ hfree => by cases hfree
        allocation := fun _ _ hfree => by cases hfree
        indices := List.nodup_nil
        devices := List.nodup_nil
        addresses := ⟨List.nodup_nil, List.nodup_nil⟩ }
  | some free =>
      obtain ⟨rfl, rfl, hlive, valid, hvalid, hcons⟩ := h
      have hnd := valid_nodup hvalid
      have hheld : (live.map TapPair.pair_index).Nodup := hcons.nodup_held hnd
      -- every pair held is the exact one of its index
      have hpairs : (live.map TapPair.pair_index).map tapPairOf = live := by
        rw [List.map_map]
        refine (List.map_congr_left ?_).trans (List.map_id live)
        intro p hp
        have hlt := valid_lt hsound hvalid
          (hcons.mem_of_held (List.mem_map_of_mem hp))
        have hnew := hlive p hp
        rw [new_of_lt env.overflow_checks hlt] at hnew
        exact Option.some.inj hnew
      exact {
        once := by simp
        before := fun hnone => by cases hnone
        conserved := by
          intro free' hfree
          cases hfree
          exact ⟨rfl, valid, hvalid, hcons, hcons.nodup hnd⟩
        allocation := by
          intro free' valid' hfree hvalid'
          cases hfree
          obtain rfl : valid = valid' := by
            rw [hvalid] at hvalid'
            exact Outcome.ok.inj hvalid'
          exact allocateTaps_spec hvalid hcons
        indices := hheld
        devices := by
          have := nodup_devices hheld
          rwa [hpairs] at this
        addresses := by
          have hhosts := nodup_hosts hheld
          have hcidrs := nodup_cidrs hheld
          rw [hpairs] at hhosts hcidrs
          exact ⟨hhosts, hcidrs⟩ }

/-! ## Aliases -/

/-- Allocating once more while something is free. -/
theorem exists_allocation {env : TapEnv} {valid : List Nat} {es : List TapEvent}
    {s : TapState} (hvalid : initTapPool env = .ok valid) (hrun : TapRun env es s)
    (hlt : s.live.length < valid.length) :
    ∃ t, TapRun env (es ++ [.allocate]) t ∧ t.live.length = s.live.length + 1 := by
  have hcons := conserved_run hrun
  obtain ⟨⟨indices, poisoned⟩, live, inits⟩ := s
  -- the pool the pop works on, and the indices it finds there
  have hpop : ∃ (m : TapPool) (free : List Nat),
      allocateTaps env ⟨indices, poisoned⟩ = popTaps env m free ∧
        Conserves valid free (live.map TapPair.pair_index) := by
    cases indices with
    | some free =>
        obtain ⟨rfl, -, -, valid', hvalid', hc⟩ := hcons
        obtain rfl : valid = valid' := by
          rw [hvalid] at hvalid'
          exact Outcome.ok.inj hvalid'
        exact ⟨_, free, rfl, hc⟩
    | none =>
        obtain ⟨rfl, -, hfailed⟩ := hcons
        cases poisoned with
        | true => exact absurd hvalid (hfailed rfl valid)
        | false =>
            refine ⟨⟨none, false⟩, valid, ?_, Conserves.init valid⟩
            simp [allocateTaps, hvalid]
  obtain ⟨m, free, halloc, hc⟩ := hpop
  have hlen := hc.length
  rw [List.length_map] at hlen
  rcases popTaps_spec m hvalid hc with ⟨rfl, -⟩ | ⟨rest, pair, -, -, hpop⟩
  · simp at hlen hlt
    omega
  · have hstep : ∃ pool n, tapStep env ⟨⟨indices, poisoned⟩, live, inits⟩ .allocate
        = some ⟨pool, pair :: live, n⟩ := by
      simp only [tapStep, halloc, hpop]
      exact ⟨_, _, rfl⟩
    obtain ⟨pool, n, hstep⟩ := hstep
    exact ⟨_, hrun.snoc hstep, List.length_cons⟩

/-- All valid indices can be held at once. -/
theorem exists_exhausted {env : TapEnv} {valid : List Nat}
    (hvalid : initTapPool env = .ok valid) {n : Nat} (hn : n ≤ valid.length) :
    ∃ es s, TapRun env es s ∧ s.live.length = n := by
  induction n with
  | zero => exact ⟨[], TapState.init, .nil, rfl⟩
  | succ n ih =>
      obtain ⟨es, s, hrun, hlen⟩ := ih (by omega)
      obtain ⟨t, ht, htlen⟩ := exists_allocation hvalid hrun (by omega)
      exact ⟨_, t, ht, by omega⟩

/-- With everything held, every valid index is that of a pair held. -/
theorem held_of_exhausted {env : TapEnv} {valid : List Nat} {es : List TapEvent}
    {s : TapState} (hvalid : initTapPool env = .ok valid) (hrun : TapRun env es s)
    (hlen : s.live.length = valid.length) {i : Nat} (hi : i ∈ valid) :
    ∃ p ∈ s.live, p.pair_index = i ∧ TapPair.new env.overflow_checks i = some p := by
  have hcons := conserved_run hrun
  obtain ⟨⟨indices, poisoned⟩, live, inits⟩ := s
  cases indices with
  | none =>
      obtain ⟨rfl, -, -⟩ := hcons
      have hnil : valid = [] := List.length_eq_zero_iff.mp hlen.symm
      simp [hnil] at hi
  | some free =>
      obtain ⟨rfl, -, hlive, valid', hvalid', hc⟩ := hcons
      obtain rfl : valid = valid' := by
        rw [hvalid] at hvalid'
        exact Outcome.ok.inj hvalid'
      have hfree : free = [] := by
        have hsum := hc.length
        simp only [TapState.held, List.length_map] at hsum hlen
        exact List.length_eq_zero_iff.mp (by omega)
      have hmem := (hc.exhausted_iff (valid_nodup hvalid)).mp hfree i hi
      obtain ⟨p, hp, rfl⟩ := List.mem_map.mp hmem
      exact ⟨p, hp, rfl, hlive p hp⟩

/-- Without overflow checks, an existing pair whose index has an alias below
`jobs` is handed out twice. -/
theorem exists_shared {env : TapEnv} {jobs i : Nat}
    (henv : env.overflow_checks = false) (hjobs : env.config.testJobs = .ok jobs)
    (hi : i + 2 ^ 63 < jobs) (hpair : env.PairExists i) :
    ∃ es s, TapRun env es s ∧ ∃ p ∈ s.live, ∃ q ∈ s.live,
      p.pair_index = i ∧ q.pair_index = i + 2 ^ 63 ∧ p.devices = q.devices := by
  have htotal : ∀ k, tapPairOk env k ≠ none := by
    intro k
    simp [tapPairOk, henv, checkedUsize_false]
  obtain ⟨valid, hfilter⟩ : ∃ valid,
      filterOk (tapPairOk env) (List.range jobs) = some valid :=
    filterOk_of_total fun k _ => htotal k
  have hvalid : initTapPool env = .ok valid := by
    simp only [initTapPool, hjobs, hfilter]
  have hlt : jobs < 2 ^ 64 := testJobs_lt hjobs
  have hok : tapPairOk env i = some true := (tapPairOk_of_lt env (by omega)).mpr hpair
  have hmem : i ∈ valid ∧ i + 2 ^ 63 ∈ valid := by
    rw [(filterOk_eq_some hfilter).1]
    simp only [List.mem_filter, List.mem_range, decide_eq_true_eq]
    exact ⟨⟨by omega, hok⟩, hi, by rw [tapPairOk_wrap henv, hok]⟩
  obtain ⟨es, s, hrun, hlen⟩ := exists_exhausted hvalid (Nat.le_refl valid.length)
  obtain ⟨p, hp, hpi, hpnew⟩ := held_of_exhausted hvalid hrun hlen hmem.1
  obtain ⟨q, hq, hqi, hqnew⟩ := held_of_exhausted hvalid hrun hlen hmem.2
  refine ⟨es, s, hrun, p, hp, q, hq, hpi, hqi, ?_⟩
  have hmod : (i + 2 ^ 63) * 2 % usizeSize = i * 2 % usizeSize := by
    unfold usizeSize
    omega
  rw [henv] at hpnew hqnew
  simp only [TapPair.new, checkedUsize_false, hmod, Option.bind_eq_bind,
    Option.bind_some, Option.pure_def, Option.some.injEq] at hpnew hqnew
  rw [← hpnew, ← hqnew]
  rfl

/-- Two different pairs on the same devices are not exclusive. -/
theorem not_exclusive_of_shared {env : TapEnv} {s : TapState} {p q : TapPair}
    (hp : p ∈ s.live) (hq : q ∈ s.live) (hne : p.pair_index ≠ q.pair_index)
    (hdev : p.devices = q.devices) : ¬ Exclusive env s := by
  intro h
  have hnd := h.devices
  rw [List.nodup_flatMap] at hnd
  have hpq : p ≠ q := fun he => hne (by rw [he])
  have hsymm : Std.Symm (Function.onFun List.Disjoint TapPair.devices) :=
    ⟨fun _ _ h _ hx hy => h hy hx⟩
  have hdisj : List.Disjoint p.devices q.devices := hnd.2.forall hp hq hpq
  have hsrc : p.src_tap ∈ p.devices := by simp [TapPair.devices]
  exact hdisj hsrc (hdev ▸ hsrc)

/-- **Tap pool exclusivity and conservation**: every reachable state is
exclusive iff no doubled index can wrap onto an existing pair. -/
theorem tapPool_exclusive_iff (env : TapEnv) :
    (∀ es s, TapRun env es s → Exclusive env s) ↔ env.NoAlias := by
  constructor
  · intro h
    by_contra hnot
    simp only [TapEnv.NoAlias, not_or, not_forall, not_not] at hnot
    obtain ⟨hchk, jobs, hjobs, i, hi, hpair⟩ := hnot
    obtain ⟨es, s, hrun, p, hp, q, hq, hpi, hqi, hdev⟩ :=
      exists_shared (by simpa using hchk) hjobs hi hpair
    exact not_exclusive_of_shared hp hq (by omega) hdev (h es s hrun)
  · intro hsound es s hrun
    exact exclusive_of_conserved hsound (conserved_run hrun)

/-- Two devices, `TEST_JOBS` one past `2 ^ 63`, no overflow checks. -/
def aliasedEnv : TapEnv where
  device name := name = tapName 0 ∨ name = tapName 1
  config := ⟨some (decimal (2 ^ 63 + 1)), none⟩
  overflow_checks := false

/-- The one existing pair is held as pair 0 and as pair `2 ^ 63`. -/
theorem not_exclusive_aliased :
    ¬ ∀ es s, TapRun aliasedEnv es s → Exclusive aliasedEnv s := by
  intro h
  have hjobs : aliasedEnv.config.testJobs = .ok (2 ^ 63 + 1) := by
    have hparse := parseUsize_decimal (n := 2 ^ 63 + 1) (by unfold usizeSize; omega)
    simp only [aliasedEnv, Config.testJobs, hparse]
  have hpair : aliasedEnv.PairExists 0 := by
    simp [TapEnv.PairExists, aliasedEnv]
  obtain ⟨es, s, hrun, p, hp, q, hq, hpi, hqi, hdev⟩ :=
    exists_shared rfl hjobs (by omega) hpair
  exact not_exclusive_of_shared hp hq (by omega) hdev (h es s hrun)

end QemuTest

import QemuTest.Lib.Ipv4
import QemuTest.Util.TapPool

/-!
# Util — TapAddress

The guest addresses of the tap pairs: `192.168.100.` and two more than the
index. Nothing bounds the index but `TEST_JOBS` and the devices that exist.
-/

namespace QemuTest

open Text Ipv4

/-- `GATEWAY`. -/
def gateway : Str := lit "192.168.100.1"

def tapAddress (d : Fin 256) : Address := ⟨192, 168, 100, d⟩

/-- The pair of an index of the pool can be used: its guest has an address of
the network of its own, and its devices are those of the index. -/
structure Usable (p : TapPair) : Prop where
  host : ∃ d, parse p.guest_host = some (tapAddress d) ∧ 2 ≤ d.val ∧ d.val ≤ 254 ∧
    IsHost 24 (tapAddress 0) (tapAddress d)
  not_gateway : p.guest_host ≠ gateway
  cidr : p.guest_ip_cidr = p.guest_host ++ lit "/24"
  devices : p.pair_index * 2 + 1 < usizeSize ∧
    p.src_tap = tapName (p.pair_index * 2) ∧ p.dst_tap = tapName (p.pair_index * 2 + 1)

/-- Every index the initialisation puts in the pool gives a usable pair, and
different indices give different addresses. -/
structure UsableAddresses (env : TapEnv) : Prop where
  usable : ∀ valid, initTapPool env = .ok valid → ∀ i ∈ valid, ∃ p,
    TapPair.new env.overflow_checks i = some p ∧ Usable p
  distinct : ∀ valid, initTapPool env = .ok valid → ∀ i ∈ valid, ∀ j ∈ valid,
    ∀ p q, TapPair.new env.overflow_checks i = some p →
      TapPair.new env.overflow_checks j = some q → p.guest_host = q.guest_host → i = j

/-- The initialisation panics, or no index past 252 below `jobs` finds devices.
Doubling an index takes it modulo `2 ^ 63`. -/
def TapEnv.InOctet (env : TapEnv) (jobs : Nat) : Prop :=
  (env.overflow_checks = true ∧ 2 ^ 63 < jobs) ∨
    ∀ i, 253 ≤ i → i < jobs → ¬ env.PairExists (i % 2 ^ 63)

theorem guestHost_eq_render (d : Fin 256) : guestHost d = (tapAddress d).render := by
  have hprefix : lit "192.168.100." = decimal 192 ++ '.' :: (decimal 168 ++ '.' ::
      (decimal 100 ++ ['.'])) := by decide +kernel
  rw [guestHost, hprefix]
  simp only [List.append_assoc, List.cons_append, List.nil_append]
  rfl

/-- A host text is an address of the network iff its number is an octet. -/
theorem parse_guestHost_iff {n : Nat} {d : Fin 256} :
    parse (guestHost n) = some (tapAddress d) ↔ n = d := by
  rw [parse_eq_some_iff, ← guestHost_eq_render]
  exact guestHost_injective.eq_iff

/-- Up to index 252 a pair is usable. -/
theorem usable_tapPairOf {i : Nat} (h : i < 253) : Usable (tapPairOf i) := by
  have hd : 2 + i < 256 := by omega
  refine ⟨⟨⟨2 + i, hd⟩, parse_guestHost_iff.mpr rfl, by simp, by simp; omega, ?_⟩, ?_, rfl,
    ?_, rfl, rfl⟩
  · exact (isHost_octet_iff _ _ _ _ _).mpr ⟨by simp, by simp; omega⟩
  · have hgateway : gateway = guestHost 1 := by decide +kernel
    rw [hgateway]
    intro he
    have := guestHost_injective he
    omega
  · simp only [tapPairOf]
    unfold usizeSize
    omega

/-- The address of the pair of an index, whether or not adding two wraps. -/
theorem guest_host_of_new {overflow_checks : Bool} {i : Nat} {p : TapPair}
    (h : TapPair.new overflow_checks i = some p) :
    ∃ n, checkedUsize overflow_checks (2 + i) = some n ∧ p.guest_host = guestHost n := by
  simp only [TapPair.new, Option.bind_eq_bind, Option.bind_eq_some_iff, Option.pure_def,
    Option.some.injEq] at h
  obtain ⟨_, _, _, _, n, hn, rfl⟩ := h
  exact ⟨n, hn, rfl⟩

/-- From index 253 on no pair is usable: the number is no host of the network. -/
theorem not_usable_of_le {overflow_checks : Bool} {i : Nat} {p : TapPair}
    (hi : 253 ≤ i) (hsize : i < usizeSize)
    (h : TapPair.new overflow_checks i = some p) : ¬ Usable p := by
  intro hp
  obtain ⟨d, hparse, hlow, hhigh, -⟩ := hp.host
  obtain ⟨n, hn, hhost⟩ := guest_host_of_new h
  rw [hhost] at hparse
  have hnd := parse_guestHost_iff.mp hparse
  unfold usizeSize at hsize
  cases overflow_checks with
  | true =>
      have := (checkedUsize_true hn).2
      omega
  | false =>
      rw [checkedUsize_false, Option.some.injEq] at hn
      unfold usizeSize at hn
      omega

/-- What the initialisation looks at for an index. -/
theorem tapPairOk_mod {env : TapEnv} {i : Nat} (hi : i < usizeSize)
    (h : tapPairOk env i ≠ none) :
    tapPairOk env i = some true ↔ env.PairExists (i % 2 ^ 63) := by
  unfold usizeSize at hi
  by_cases hlt : i < 2 ^ 63
  · rw [Nat.mod_eq_of_lt hlt]
    exact tapPairOk_of_lt env hlt
  · have hchk : env.overflow_checks = false := by
      by_contra hon
      exact hlt (lt_of_tapPairOk (by simpa using hon) h)
    have hsplit : i = (i - 2 ^ 63) + 2 ^ 63 := by omega
    have hmod : i % 2 ^ 63 = i - 2 ^ 63 := by omega
    rw [hmod]
    nth_rewrite 1 [hsplit]
    rw [tapPairOk_wrap hchk]
    exact tapPairOk_of_lt env (by omega)

/-- Without a panic every index below `jobs` is looked at. -/
theorem tapPairOk_ne_none {env : TapEnv} {jobs : Nat}
    (h : ¬ (env.overflow_checks = true ∧ 2 ^ 63 < jobs)) {i : Nat} (hi : i < jobs) :
    tapPairOk env i ≠ none := by
  cases hchk : env.overflow_checks with
  | false => simp [tapPairOk, hchk, checkedUsize_false]
  | true =>
      have hsrc : i * 2 < usizeSize := by
        have : ¬ 2 ^ 63 < jobs := fun hj => h ⟨hchk, hj⟩
        unfold usizeSize
        omega
      have hdst : i * 2 + 1 < usizeSize := by
        unfold usizeSize at hsrc ⊢
        omega
      simp [tapPairOk, checkedUsize_of_lt, hsrc, hdst]

/-- Where nothing panics, the indices put in the pool are those whose devices are
found. -/
theorem exists_valid {env : TapEnv} {jobs : Nat} (hjobs : env.config.testJobs = .ok jobs)
    (h : ¬ (env.overflow_checks = true ∧ 2 ^ 63 < jobs)) :
    ∃ valid, initTapPool env = .ok valid := by
  obtain ⟨valid, hvalid⟩ : ∃ valid, filterOk (tapPairOk env) (List.range jobs) = some valid :=
    filterOk_of_total fun i hi => tapPairOk_ne_none h (List.mem_range.mp hi)
  exact ⟨valid, by simp only [initTapPool, hjobs, hvalid]⟩

theorem mem_valid_iff {env : TapEnv} {jobs : Nat} {valid : List Nat}
    (hjobs : env.config.testJobs = .ok jobs) (hvalid : initTapPool env = .ok valid)
    {i : Nat} : i ∈ valid ↔ i < jobs ∧ env.PairExists (i % 2 ^ 63) := by
  obtain ⟨jobs', hjobs', rfl, hne⟩ := initTapPool_ok hvalid
  obtain rfl : jobs = jobs' := by
    rw [hjobs] at hjobs'
    exact Except.ok.inj hjobs'
  have hsize := testJobs_lt hjobs
  simp only [List.mem_filter, List.mem_range, decide_eq_true_eq]
  exact and_congr_right fun hi => tapPairOk_mod (hi.trans hsize) (hne i hi)

/-- Within the octet every index of the pool is at most 252. -/
theorem lt_of_inOctet {env : TapEnv} {jobs : Nat} {valid : List Nat}
    (hjobs : env.config.testJobs = .ok jobs) (hvalid : initTapPool env = .ok valid)
    (h : env.InOctet jobs) {i : Nat} (hi : i ∈ valid) : i < 253 := by
  obtain ⟨hlt, hpair⟩ := (mem_valid_iff hjobs hvalid).mp hi
  rcases h with ⟨hchk, hlarge⟩ | hnone
  · -- the initialisation would have looked at index `2 ^ 63`, and panicked
    obtain ⟨jobs', hjobs', -, hne⟩ := initTapPool_ok hvalid
    obtain rfl : jobs = jobs' := by
      rw [hjobs] at hjobs'
      exact Except.ok.inj hjobs'
    exact absurd (lt_of_tapPairOk hchk (hne _ hlarge)) (Nat.lt_irrefl _)
  · by_contra hge
    exact hnone i (by omega) hlt hpair

/-- **Tap guest addresses are usable** iff the initialisation panics or no index
past 252 is found. -/
theorem usableAddresses_iff (env : TapEnv) (jobs : Nat)
    (hjobs : env.config.testJobs = .ok jobs) :
    UsableAddresses env ↔ env.InOctet jobs := by
  constructor
  · intro h
    by_contra hnot
    simp only [TapEnv.InOctet, not_or, not_forall, not_not] at hnot
    obtain ⟨hpanic, i, hlarge, hi, hpair⟩ := hnot
    obtain ⟨valid, hvalid⟩ := exists_valid hjobs hpanic
    obtain ⟨p, hnew, hp⟩ :=
      h.usable valid hvalid i ((mem_valid_iff hjobs hvalid).mpr ⟨hi, hpair⟩)
    exact not_usable_of_le hlarge (hi.trans (testJobs_lt hjobs)) hnew hp
  · intro h
    have hnew : ∀ valid, initTapPool env = .ok valid → ∀ i ∈ valid,
        i < 253 ∧ TapPair.new env.overflow_checks i = some (tapPairOf i) := by
      intro valid hvalid i hi
      have hlt := lt_of_inOctet hjobs hvalid h hi
      exact ⟨hlt, new_of_lt env.overflow_checks (by omega)⟩
    refine ⟨fun valid hvalid i hi => ?_, fun valid hvalid i hi j hj p q hp hq heq => ?_⟩
    · obtain ⟨hlt, hi⟩ := hnew valid hvalid i hi
      exact ⟨_, hi, usable_tapPairOf hlt⟩
    · rw [(hnew valid hvalid i hi).2, Option.some.injEq] at hp
      rw [(hnew valid hvalid j hj).2, Option.some.injEq] at hq
      rw [← hp, ← hq] at heq
      have := guestHost_injective heq
      omega

/-- As many tap devices as the documentation asks for. -/
def tapEnvOf (jobs : Nat) : TapEnv where
  device name := (List.range (2 * jobs)).any fun d => tapName d = name
  config := ⟨some (decimal jobs), none⟩
  overflow_checks := false

theorem testJobs_tapEnvOf {jobs : Nat} (h : jobs < usizeSize) :
    (tapEnvOf jobs).config.testJobs = .ok jobs := by
  simp only [tapEnvOf, Config.testJobs, parseUsize_decimal h]

theorem usableAddresses_two :
    UsableAddresses (tapEnvOf 2) ↔ (tapEnvOf 2).InOctet 2 :=
  usableAddresses_iff (tapEnvOf 2) 2 (testJobs_tapEnvOf (by decide))

/-- With 254 jobs and their 508 devices, the guest of pair 253 is given the
broadcast address. -/
theorem not_usableAddresses_254 :
    (tapEnvOf 254).config.testJobs = .ok 254 ∧ ¬ UsableAddresses (tapEnvOf 254) := by
  have hjobs := testJobs_tapEnvOf (show 254 < usizeSize by decide)
  refine ⟨hjobs, fun h => ?_⟩
  obtain ⟨valid, hvalid⟩ := exists_valid hjobs (by simp)
  have hpair : (tapEnvOf 254).PairExists (253 % 2 ^ 63) := by
    simp only [TapEnv.PairExists, tapEnvOf, List.any_eq_true, decide_eq_true_eq]
    exact ⟨⟨506, by simp, rfl⟩, ⟨507, by simp, rfl⟩⟩
  obtain ⟨p, hnew, hp⟩ := h.usable valid hvalid 253
    ((mem_valid_iff hjobs hvalid).mpr ⟨by decide, hpair⟩)
  exact not_usable_of_le (by decide) (by decide) hnew hp

end QemuTest

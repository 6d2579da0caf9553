import Mathlib.Logic.Basic

/-!
# Polling

A loop that looks, gives up once the deadline has passed, and otherwise sleeps
and looks again. The clock advances by the sleep at least, so the loop ends;
`poll_eq_true_iff` says when it ends well.
-/

namespace Poll

/-- What a clock reads at the looks of a loop that sleeps `step` in between. -/
structure Clock (step : Nat) where
  elapsed : Nat → Nat
  advances : ∀ k, step * k ≤ elapsed k
  pos : 0 < step

/-- The clock of a loop that takes no time but its sleeps. -/
def Clock.exact (step : Nat) (h : 0 < step) : Clock step :=
  ⟨fun k => step * k, fun _ => Nat.le_refl _, h⟩

/-- The loop from look `k` on: ready, given up, or out of fuel. -/
def pollFrom (ready : Nat → Bool) (elapsed : Nat → Nat) (timeout : Nat) :
    Nat → Nat → Option Bool
  | 0, _ => none
  | fuel + 1, k =>
      if ready k then some true
      else if timeout < elapsed k then some false
      else pollFrom ready elapsed timeout fuel (k + 1)

/-- Looks until the deadline has certainly passed. -/
def looks (step timeout : Nat) : Nat := timeout / step + 2

/-- Ready in time? -/
def poll {step : Nat} (ready : Nat → Bool) (clock : Clock step) (timeout : Nat) : Bool :=
  pollFrom ready clock.elapsed timeout (looks step timeout) 0 == some true

/-- With the deadline among the looks left, the loop decides. -/
theorem pollFrom_spec {ready : Nat → Bool} {elapsed : Nat → Nat} {timeout fuel k : Nat}
    (h : ∃ m < fuel, timeout < elapsed (k + m)) :
    ∃ b, pollFrom ready elapsed timeout fuel k = some b ∧
      (b = true ↔ ∃ i, k ≤ i ∧ ready i = true ∧
        ∀ j, k ≤ j → j < i → elapsed j ≤ timeout) := by
  induction fuel generalizing k with
  | zero =>
      obtain ⟨m, hm, -⟩ := h
      omega
  | succ fuel ih =>
      obtain ⟨m, hm, hlate⟩ := h
      by_cases hready : ready k = true
      · refine ⟨true, by rw [pollFrom, if_pos hready], ?_⟩
        exact ⟨fun _ => ⟨k, Nat.le_refl k, hready, fun j _ _ => by omega⟩, fun _ => rfl⟩
      · by_cases hk : timeout < elapsed k
        · refine ⟨false, by rw [pollFrom, if_neg hready, if_pos hk], ?_⟩
          refine ⟨fun hf => Bool.noConfusion hf, ?_⟩
          rintro ⟨i, hi, hri, hbefore⟩
          -- a later look comes after the deadline
          by_cases hki : i = k
          · exact absurd (hki ▸ hri) hready
          · have := hbefore k (Nat.le_refl k) (by omega)
            omega
        · have hnext : ∃ m < fuel, timeout < elapsed (k + 1 + m) := by
            cases m with
            | zero => exact absurd hlate hk
            | succ m => exact ⟨m, by omega, by rwa [show k + 1 + m = k + (m + 1) by omega]⟩
          obtain ⟨b, hb, hiff⟩ := ih hnext
          refine ⟨b, by rw [pollFrom, if_neg hready, if_neg hk, hb], hiff.trans ?_⟩
          constructor
          · rintro ⟨i, hi, hri, hbefore⟩
            refine ⟨i, by omega, hri, fun j hj hji => ?_⟩
            by_cases hjk : j = k
            · subst hjk
              omega
            · exact hbefore j (by omega) hji
          · rintro ⟨i, hi, hri, hbefore⟩
            have hne : i ≠ k := fun he => hready (he ▸ hri)
            exact ⟨i, by omega, hri, fun j hj hji => hbefore j (by omega) hji⟩

/-- The fuel of `poll` lasts past the deadline. -/
theorem deadline_in_looks {step : Nat} (clock : Clock step) (timeout : Nat) :
    ∃ m < looks step timeout, timeout < clock.elapsed (0 + m) := by
  refine ⟨timeout / step + 1, by unfold looks; omega, ?_⟩
  have hadv := clock.advances (timeout / step + 1)
  have hlt : timeout < step * (timeout / step + 1) := Nat.lt_mul_div_succ timeout clock.pos
  rw [Nat.zero_add]
  omega

/-- The loop of `poll` never runs out of fuel. -/
theorem pollFrom_isSome {step : Nat} (ready : Nat → Bool) (clock : Clock step)
    (timeout : Nat) :
    ∃ b, pollFrom ready clock.elapsed timeout (looks step timeout) 0 = some b := by
  obtain ⟨b, hb, -⟩ := pollFrom_spec (deadline_in_looks clock timeout)
  exact ⟨b, hb⟩

/-- A poll ends well iff some look is ready and no look before it is late. -/
theorem poll_eq_true_iff {step : Nat} {ready : Nat → Bool} {clock : Clock step}
    {timeout : Nat} :
    poll ready clock timeout = true ↔
      ∃ i, ready i = true ∧ ∀ j < i, clock.elapsed j ≤ timeout := by
  have hspec : ∃ b, pollFrom ready clock.elapsed timeout (looks step timeout) 0 = some b ∧ _ :=
    pollFrom_spec (deadline_in_looks clock timeout)
  obtain ⟨b, hb, hiff⟩ := hspec
  rw [poll, hb]
  simpa using hiff

end Poll

import QemuTest.Lib.Text

/-!
# Util — Filter

`TestFilter` of `util.rs`: include and exclude tokens, and the decision
`matches` takes on a label and a skip reason.
-/

namespace QemuTest

open Text

structure TestFilter where
  include_ : List Str
  exclude : List Str
  deriving DecidableEq, Repr

/-- The filter without tokens. -/
def TestFilter.empty : TestFilter := ⟨[], []⟩

def TestFilter.«matches» (f : TestFilter) (label : Str) (skip_reason : Option Str) :
    Bool :=
  if f.exclude.any fun t => contains label t then false
  else if !f.include_.isEmpty then f.include_.any fun t => contains label t
  else skip_reason.isNone

/-- The tokens rule the label out: an exclude token occurs in it, or there
are include tokens and none occurs in it. -/
def TestFilter.Rejects (f : TestFilter) (label : Str) : Prop :=
  (∃ t ∈ f.exclude, t <:+: label) ∨
    (f.include_ ≠ [] ∧ ∀ t ∈ f.include_, ¬ t <:+: label)

instance (f : TestFilter) (label : Str) : Decidable (f.Rejects label) := by
  unfold TestFilter.Rejects
  infer_instance

/-- A rejected label matches under no skip reason. -/
theorem matches_of_rejects {f : TestFilter} {label : Str} (h : f.Rejects label)
    (skip : Option Str) : f.matches label skip = false := by
  rcases h with ⟨t, ht, hocc⟩ | ⟨hne, hnone⟩
  · have hany : (f.exclude.any fun t => contains label t) = true :=
      List.any_eq_true.mpr ⟨t, ht, by simpa using hocc⟩
    simp [TestFilter.matches, hany]
  · have hinc : f.include_.isEmpty = false := by simpa using hne
    have hany : (f.include_.any fun t => contains label t) = false := by
      rw [List.any_eq_false]
      intro t ht
      simpa using hnone t ht
    simp [TestFilter.matches, hinc, hany]

/-- On a label the tokens do not reject, only the skip reason can decide, and
only when there is no include token. -/
theorem matches_of_not_rejects {f : TestFilter} {label : Str}
    (h : ¬ f.Rejects label) (skip : Option Str) :
    f.matches label skip = (skip.isNone || !f.include_.isEmpty) := by
  simp only [TestFilter.Rejects, not_or, not_exists, not_and, not_forall,
    not_not] at h
  obtain ⟨hexcl, hincl⟩ := h
  have hany : (f.exclude.any fun t => contains label t) = false := by
    rw [List.any_eq_false]
    intro t ht
    simpa using hexcl t ht
  by_cases hne : f.include_ = []
  · simp [TestFilter.matches, hany, hne]
  · obtain ⟨t, ht, hocc⟩ := hincl hne
    have hocc' : (f.include_.any fun t => contains label t) = true :=
      List.any_eq_true.mpr ⟨t, ht, by simpa using hocc⟩
    have hinc : f.include_.isEmpty = false := by simpa using hne
    simp only [TestFilter.matches, hany, hinc, hocc', Bool.false_eq_true,
      if_false, Bool.not_false, if_true, Bool.or_true]

end QemuTest

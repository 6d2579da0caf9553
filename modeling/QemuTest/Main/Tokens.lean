import QemuTest.Main.Label
import QemuTest.Util.FilterParse

/-!
# Main — Tokens

Filter tokens against labels. A token holds none of the characters a label
puts between its parts, so an occurrence lies inside one part.
-/

namespace QemuTest

open Text

variable {β : Type}

/-- What a label shows of a property. -/
def shownProperty (p : Str × Str) : Str := p.1 ++ ['='] ++ p.2

/-- A token looked for in the name and in each property by itself. -/
def TestEntry.Holds (e : TestEntry β) (t : Str) : Prop :=
  t <:+: e.name ∨ ∃ p ∈ e.props, t <:+: shownProperty p

instance (e : TestEntry β) (t : Str) : Decidable (e.Holds t) := by
  unfold TestEntry.Holds
  infer_instance

/-- The decision without a label: exclude wins, then include, then the skip
rule. -/
def TestFilter.decision (f : TestFilter) (e : TestEntry β) (skip_reason : Option Str) :
    Bool :=
  if ∃ t ∈ f.exclude, e.Holds t then false
  else if f.include_ ≠ [] then ∃ t ∈ f.include_, e.Holds t
  else skip_reason.isNone

/-- A non-empty text without the separator lies on one side of it. -/
theorem infix_append_cons_iff {t a b : Str} {c : Char} (hne : t ≠ []) (hc : c ∉ t) :
    t <:+: a ++ c :: b ↔ t <:+: a ∨ t <:+: b := by
  constructor
  · intro h
    rcases List.infix_append_iff.mp h with h | h | ⟨t₁, t₂, rfl, h₁, h₂⟩
    · exact .inl h
    · rcases List.infix_cons_iff.mp h with h | h
      · obtain ⟨x, t, rfl⟩ := List.exists_cons_of_ne_nil hne
        exact absurd (List.cons_prefix_cons.mp h).1 fun he => hc (by simp [he])
      · exact .inr h
    · cases t₂ with
      | nil => exact .inl (by simpa using h₁.isInfix)
      | cons x t₂ => exact absurd (List.cons_prefix_cons.mp h₂).1 fun he => hc (by simp [he])
  · rintro (h | h)
    · exact List.infix_append_of_infix_left h
    · exact List.infix_append_of_infix_right (List.infix_cons h)

theorem infix_join_iff {t : Str} (hne : t ≠ []) (hcomma : ',' ∉ t) (hspace : ' ' ∉ t)
    (l : List Str) : t <:+: join (lit ", ") l ↔ ∃ s ∈ l, t <:+: s := by
  rw [sep_eq]
  induction l with
  | nil => simpa [join] using hne
  | cons s l ih =>
      cases l with
      | nil => simp [join]
      | cons s' l =>
          rw [join, List.append_assoc, List.cons_append,
            infix_append_cons_iff hne hcomma, List.singleton_append,
            ← List.nil_append (' ' :: _), infix_append_cons_iff hne hspace, ih,
            List.exists_mem_cons_iff]
          · simp [hne]
          · simp

/-- **Occurrences in a label**: a token occurs in it iff it occurs in one of
its parts. -/
theorem infix_label_iff {t : Str} (ht : IsToken t) (e : TestEntry β) :
    t <:+: e.label ↔ e.Holds t := by
  have hsep : ∀ c, ¬ IsTokenChar c → c ≠ '_' → c ≠ '=' → c ∉ t := fun _ => ht.notMem
  have hopen : '(' ∉ t := hsep _ (by unfold IsTokenChar; decide) (by decide) (by decide)
  have hclose : ')' ∉ t := hsep _ (by unfold IsTokenChar; decide) (by decide) (by decide)
  have hcomma : ',' ∉ t := hsep _ (by unfold IsTokenChar; decide) (by decide) (by decide)
  have hspace : ' ' ∉ t := hsep _ (by unfold IsTokenChar; decide) (by decide) (by decide)
  have hne := ht.ne_nil
  rw [label_eq, labelTail, TestEntry.Holds]
  by_cases hp : e.props = []
  · simp [hp]
  · have hnil : ¬ t <:+: [] := by simpa using hne
    rw [if_neg (by simpa using hp), infix_append_cons_iff hne hopen,
      infix_append_cons_iff hne hclose, infix_join_iff hne hcomma hspace,
      or_iff_left hnil]
    simp [shownProperty]

/-- **Tokens do not match across separators**: on every label the filter
decides as on its parts. -/
theorem matches_label {raw : Str} {f : TestFilter} (hf : TestFilter.parse raw = .ok f)
    (e : TestEntry β) (skip_reason : Option Str) :
    f.matches e.label skip_reason = f.decision e skip_reason := by
  have htok : ∀ t ∈ f.include_ ++ f.exclude, IsToken t := by
    obtain ⟨hall, rfl⟩ := parse_eq_ok_iff.mp hf
    intro t ht
    obtain ⟨p, hp, rfl⟩ := mem_of_mem_ofPieces ht
    exact hall p hp
  have hany : ∀ ts : List Str, (∀ t ∈ ts, t ∈ f.include_ ++ f.exclude) →
      ((ts.any fun t => contains e.label t) = true ↔ ∃ t ∈ ts, e.Holds t) := by
    intro ts hts
    rw [List.any_eq_true]
    refine exists_congr fun t => and_congr_right fun ht => ?_
    rw [contains_iff, infix_label_iff (htok t (hts t ht))]
  have hexcl := hany f.exclude fun t ht => List.mem_append_right _ ht
  have hincl := hany f.include_ fun t ht => List.mem_append_left _ ht
  simp only [TestFilter.matches, TestFilter.decision, hexcl]
  by_cases hne : f.include_ = []
  · simp [hne]
  · have hempty : f.include_.isEmpty = false := by simpa using hne
    rw [hempty, Bool.not_false, if_pos rfl, if_pos hne]
    congr 1
    rw [Bool.eq_iff_iff, hincl, decide_eq_true_iff]

/-- A value that looks like a label of its own. -/
def boundaryEntry : TestEntry Unit where
  name := lit "t_smp"
  props := [(lit "k", lit "a, b=smp"), (lit "smp", lit "1")]
  test_fn := ()
  skip := none

theorem matches_label_boundary :
    TestFilter.matches ⟨[lit "b=smp"], [lit "smp=1"]⟩ boundaryEntry.label none
      = TestFilter.decision ⟨[lit "b=smp"], [lit "smp=1"]⟩ boundaryEntry none :=
  matches_label
    (show TestFilter.parse (lit "b=smp,-smp=1") = .ok ⟨[lit "b=smp"], [lit "smp=1"]⟩ by
      decide +kernel)
    boundaryEntry none

end QemuTest

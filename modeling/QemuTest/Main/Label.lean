import QemuTest.Main.Select

/-!
# Main — Label

When a label tells its entry: names without parentheses, keys without `=`,
and neither keys nor values with a comma can be read back from it.
`readLabel` is the reader, `readLabel_label` says that it undoes every label,
and `label_identifies` is what that means for identifiers.
-/

namespace QemuTest

open Text

variable {β γ : Type}

/-! ## The reader -/

/-- An item of a label: its key ends at the first `=`. -/
def readProp (s : Str) : Str × Str :=
  (s.takeWhile (· ≠ '='), (s.dropWhile (· ≠ '=')).tail)

/-- The items between commas, all but the first behind a blank. -/
def readProps (s : Str) : List (Str × Str) :=
  match s.splitOn ',' with
  | [] => []
  | p :: ps => readProp p :: ps.map fun q => readProp q.tail

/-- The name ends at the first parenthesis, the last character closes it. -/
def readLabel (label : Str) : Str × List (Str × Str) :=
  (label.takeWhile (· ≠ '('),
    match label.dropWhile (· ≠ '(') with
    | [] => []
    | _ :: rest => readProps rest.dropLast)

/-! ## Reading back -/

theorem readProp_item {k v : Str} (h : '=' ∉ k) : readProp (k ++ ['='] ++ v) = (k, v) := by
  rw [List.append_assoc, List.singleton_append, readProp, takeWhile_append_cons h,
    dropWhile_append_cons h, List.tail_cons]

/-- The separator between the properties of a label. -/
theorem sep_eq : lit ", " = [',', ' '] := by simp [lit]

/-- Joined items as items between commas. -/
theorem join_sep (s : Str) (ss : List Str) :
    join (lit ", ") (s :: ss) = [','].intercalate (s :: ss.map fun t => ' ' :: t) := by
  rw [sep_eq]
  induction ss generalizing s with
  | nil => simp [join]
  | cons t ss ih =>
      have hcons : join [',', ' '] (s :: t :: ss) = s ++ [',', ' '] ++ join [',', ' '] (t :: ss) :=
        rfl
      rw [hcons, ih t]
      cases ss <;> simp [List.intercalate_cons_cons]

theorem readProps_join {props : List (Str × Str)} (hne : props ≠ [])
    (hk : ∀ p ∈ props, '=' ∉ p.1 ∧ ',' ∉ p.1) (hv : ∀ p ∈ props, ',' ∉ p.2) :
    readProps (join (lit ", ") (props.map fun p => p.1 ++ ['='] ++ p.2)) = props := by
  have hread : ∀ p ∈ props, readProp (p.1 ++ ['='] ++ p.2) = p := fun p hp =>
    readProp_item (hk p hp).1
  have hcomma : ∀ p ∈ props, ',' ∉ p.1 ++ ['='] ++ p.2 := by
    intro p hp
    simp [(hk p hp).2, hv p hp]
  obtain ⟨p, ps, rfl⟩ := List.exists_cons_of_ne_nil hne
  rw [List.map_cons, join_sep, readProps, List.splitOn_intercalate]
  · simp only [List.map_map]
    rw [hread p List.mem_cons_self]
    congr 1
    refine (List.map_congr_left fun q hq => ?_).trans (List.map_id ps)
    exact hread q (List.mem_cons_of_mem _ hq)
  · intro l hl
    rcases List.mem_cons.mp hl with rfl | hl
    · exact hcomma p List.mem_cons_self
    · simp only [List.map_map, List.mem_map, Function.comp_apply] at hl
      obtain ⟨q, hq, rfl⟩ := hl
      simpa using hcomma q (List.mem_cons_of_mem _ hq)
  · exact List.cons_ne_nil _ _

/-- A name and properties that a label keeps apart. -/
structure Legible (e : TestEntry β) : Prop where
  name : '(' ∉ e.name
  keys : ∀ p ∈ e.props, '=' ∉ p.1 ∧ ',' ∉ p.1
  values : ∀ p ∈ e.props, ',' ∉ p.2

/-- What a label has behind the name. -/
def labelTail (props : List (Str × Str)) : Str :=
  if props.isEmpty then []
  else '(' :: (join (lit ", ") (props.map fun p => p.1 ++ ['='] ++ p.2) ++ [')'])

theorem label_eq (e : TestEntry β) : e.label = e.name ++ labelTail e.props := by
  unfold TestEntry.label labelTail
  split
  · simp
  · simp

/-- **The reader undoes every label** of a legible entry. -/
theorem readLabel_label {e : TestEntry β} (he : Legible e) :
    readLabel e.label = (e.name, e.props) := by
  rw [label_eq, labelTail, readLabel]
  cases hp : e.props with
  | nil =>
      simp only [List.isEmpty_nil, if_true, List.append_nil]
      rw [takeWhile_of_notMem he.name, dropWhile_of_notMem he.name]
  | cons p ps =>
      simp only [List.isEmpty_cons, Bool.false_eq_true, if_false]
      rw [takeWhile_append_cons he.name, dropWhile_append_cons he.name]
      simp only [List.dropLast_concat]
      rw [readProps_join (List.cons_ne_nil p ps) (hp ▸ he.keys) (hp ▸ he.values)]

/-- Legible entries with the same label have the same name and properties. -/
theorem label_injective {e : TestEntry β} {e' : TestEntry γ} (he : Legible e)
    (he' : Legible e') (h : e.label = e'.label) : e.name = e'.name ∧ e.props = e'.props := by
  have hread := congrArg readLabel h
  rw [readLabel_label he, readLabel_label he'] at hread
  exact Prod.mk.inj hread

/-! ## Identifiers -/

/-- The characters of Rust identifiers: letters, digits, the underscore, the `#`
of a raw identifier, and beyond ASCII any. -/
def isIdentChar (c : Char) : Bool :=
  c.isAlphanum || c = '_' || c = '#' || 0x80 ≤ c.toNat

/-- Names and keys are identifiers, and no value has a comma. -/
structure Labelled (e : TestEntry β) : Prop where
  name : ∀ c ∈ e.name, isIdentChar c = true
  keys : ∀ p ∈ e.props, ∀ c ∈ p.1, isIdentChar c = true
  values : ∀ p ∈ e.props, ',' ∉ p.2

theorem Labelled.legible {e : TestEntry β} (he : Labelled e) : Legible e where
  name hm := absurd (he.name _ hm) (by decide)
  keys p hp := ⟨fun hm => absurd (he.keys p hp _ hm) (by decide),
    fun hm => absurd (he.keys p hp _ hm) (by decide)⟩
  values := he.values

/-- **Labels identify configurations**: entries with the same label have the
same name and the same properties in the same order. -/
theorem label_identifies {e : TestEntry β} {e' : TestEntry γ} (he : Labelled e)
    (he' : Labelled e') (h : e.label = e'.label) : e.name = e'.name ∧ e.props = e'.props :=
  label_injective he.legible he'.legible h

/-- Two registrations of one configuration, its values full of separators. -/
def twice (test_fn : Nat) : TestEntry Nat where
  name := ['t', '_', '1']
  props := [(['m'], ['q', '=', '3', ')']), (['o'], ['(', ' ', '='])]
  test_fn := test_fn
  skip := none

theorem labelled_twice (n : Nat) : Labelled (twice n) where
  name := forall_chars (rfl : ['t', '_', '1'].all isIdentChar = true)
  keys p hp := by
    obtain rfl | rfl : p = (['m'], ['q', '=', '3', ')']) ∨ p = (['o'], ['(', ' ', '=']) := by
      simpa [twice] using hp
    · exact forall_chars (by decide)
    · exact forall_chars (by decide)
  values := show ∀ p ∈ [(['m'], ['q', '=', '3', ')']), (['o'], ['(', ' ', '='])],
    ',' ∉ p.2 by decide

theorem label_identifies_twice :
    (twice 0).name = (twice 1).name ∧ (twice 0).props = (twice 1).props :=
  label_identifies (labelled_twice 0) (labelled_twice 1) rfl

end QemuTest

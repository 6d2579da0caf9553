import Mathlib.Data.List.TakeWhile
import QemuTest.Lib.Text

/-!
# Options

Option strings: items between commas, a comma inside an item written twice,
and an item with `=` in it a key and a value. `items` reads the items;
`head_items_iff` says for which text the reader gives back what was written in
front of a separator without doubling.
-/

namespace Options

open Text

/-! ## Items -/

/-- A character in front of the first item. -/
def consHead (c : Char) : List Str → List Str
  | [] => [[c]]
  | item :: rest => (c :: item) :: rest

/-- The items of an option string, from the left: two commas are a comma of
the item, one ends it. -/
def items : Str → List Str
  | [] => [[]]
  | [c] => if c = ',' then [[], []] else [[c]]
  | c :: c' :: s =>
      if c = ',' then
        if c' = ',' then consHead ',' (items s)
        else [] :: items (c' :: s)
      else consHead c (items (c' :: s))

/-- The first item. -/
def firstItem (s : Str) : Str := (items s).headD []

theorem items_cons {c : Char} (hc : c ≠ ',') (s : Str) :
    items (c :: s) = consHead c (items s) := by
  cases s with
  | nil => simp [items, hc, consHead]
  | cons c' s => simp [items, hc]

theorem items_separator {c : Char} (hc : c ≠ ',') (s : Str) :
    items (',' :: c :: s) = [] :: items (c :: s) := by
  simp [items, hc]

theorem items_double (s : Str) :
    items (',' :: ',' :: s) = consHead ',' (items s) := by
  simp [items]

/-- An item without commas is read up to the separator. -/
theorem items_append {a s : Str} {c : Char} (ha : ',' ∉ a) (hc : c ≠ ',') :
    items (a ++ ',' :: c :: s) = a :: items (c :: s) := by
  induction a with
  | nil => exact items_separator hc s
  | cons x a ih =>
      have hx : x ≠ ',' := fun he => ha (by simp [he])
      rw [List.cons_append, items_cons hx, ih fun h => ha (List.mem_cons_of_mem _ h)]
      rfl

theorem items_ne_nil (s : Str) : items s ≠ [] := by
  induction s using items.induct with
  | case1 => simp [items]
  | case2 => simp [items]
  | case3 c hc => simp [items, hc]
  | case4 s ih =>
      rw [items_double]
      cases items s <;> simp [consHead]
  | case5 c s hc ih => simp [items_separator hc]
  | case6 c c' s hc ih =>
      rw [items_cons hc]
      cases items (c' :: s) <;> simp [consHead]

theorem items_eq_cons (s : Str) : items s = firstItem s :: (items s).tail := by
  rw [firstItem]
  cases h : items s with
  | nil => exact absurd h (items_ne_nil s)
  | cons item l => rfl

theorem firstItem_cons {c : Char} (hc : c ≠ ',') (s : Str) :
    firstItem (c :: s) = c :: firstItem s := by
  rw [firstItem, items_cons hc, firstItem]
  cases items s <;> rfl

theorem firstItem_separator {c : Char} (hc : c ≠ ',') (s : Str) :
    firstItem (',' :: c :: s) = [] := by
  rw [firstItem, items_separator hc]
  rfl

theorem firstItem_double (s : Str) :
    firstItem (',' :: ',' :: s) = ',' :: firstItem s := by
  rw [firstItem, items_double, firstItem]
  cases items s <;> rfl

/-- The characters that are no commas. -/
def plain (s : Str) : Nat := s.countP fun c => c ≠ ','

theorem plain_comma (s : Str) : plain (',' :: s) = plain s := by
  simp [plain]

theorem plain_cons {c : Char} (hc : c ≠ ',') (s : Str) : plain (c :: s) = plain s + 1 := by
  simp [plain, hc]

/-- What the reader makes of a text in front of a separator: it has lost half
of the commas, or it has read past the separator. -/
theorem firstItem_counts (q t : Str) {x : Char} (hx : x ≠ ',') :
    2 * (firstItem (q ++ ',' :: x :: t)).count ',' ≤ q.count ',' ∨
      plain q < plain (firstItem (q ++ ',' :: x :: t)) := by
  induction q using items.induct with
  | case1 =>
      left
      simp [firstItem_separator hx]
  | case2 =>
      -- the last comma and the separator are read as one literal comma
      right
      rw [List.singleton_append, firstItem_double, firstItem_cons hx, plain_comma,
        plain_comma, plain_cons hx]
      exact Nat.succ_pos _
  | case3 c hc =>
      left
      rw [List.singleton_append, firstItem_cons hc, firstItem_separator hx]
      simp [hc]
  | case4 s ih =>
      rw [List.cons_append, List.cons_append, firstItem_double]
      simp only [plain_comma, List.count_cons_self]
      omega
  | case5 c s hc ih =>
      left
      rw [List.cons_append, List.cons_append, firstItem_separator hc]
      simp
  | case6 c c' s hc ih =>
      rw [List.cons_append, firstItem_cons hc]
      simp only [plain_cons hc, List.count_cons_of_ne hc]
      omega

/-- **Faithful items**: the text in front of a separator is read as it is iff
it has no comma. -/
theorem firstItem_eq_iff {q t : Str} {x : Char} (hx : x ≠ ',') :
    firstItem (q ++ ',' :: x :: t) = q ↔ ',' ∉ q := by
  constructor
  · intro h
    have hcounts := firstItem_counts q t hx
    rw [h] at hcounts
    have hzero : q.count ',' = 0 := by omega
    exact List.count_eq_zero.mp hzero
  · intro h
    rw [firstItem, items_append h hx]
    rfl

/-! ## Fields -/

/-- An item as a key and, behind its first `=`, a value. -/
def field (item : Str) : Str × Option Str :=
  match item.dropWhile (· ≠ '=') with
  | [] => (item, none)
  | _ :: value => (item.takeWhile (· ≠ '='), some value)

theorem field_append {k : Str} (hk : '=' ∉ k) (v : Str) :
    field (k ++ '=' :: v) = (k, some v) := by
  have hall : ∀ c ∈ k, decide (c ≠ '=') = true := by
    intro c hc
    exact decide_eq_true fun he => hk (he ▸ hc)
  rw [field, List.dropWhile_append_of_pos hall, List.takeWhile_append_of_pos hall]
  simp

/-- A key and a value come from one item only. -/
theorem eq_of_field {item k v : Str} (h : field item = (k, some v)) :
    item = k ++ '=' :: v := by
  by_cases hmem : '=' ∈ item
  · obtain ⟨a, b, rfl, ha⟩ := List.eq_append_cons_of_mem hmem
    rw [field_append ha] at h
    obtain ⟨rfl, rfl⟩ : a = k ∧ b = v := by simpa using h
    rfl
  · have hdrop : item.dropWhile (· ≠ '=') = [] := by
      rw [List.dropWhile_eq_nil_iff]
      intro c hc
      exact decide_eq_true fun he => hmem (he ▸ hc)
    rw [field, hdrop] at h
    cases h

/-- An option string as keys and values. -/
def fields (s : Str) : List (Str × Option Str) := (items s).map field

end Options

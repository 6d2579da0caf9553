import Mathlib.Data.List.Basic

/-!
# Lines

Delimited segments of a sequence: `cutLine` is the first one, `lines` all of
them in order. What follows the last delimiter is not a line.

`serve` is the abstract meaning of a series of searches over one sequence:
each demand consumes elements up to and including the first one it accepts.
-/

namespace Lines

variable {α : Type} [DecidableEq α]

/-- The first line, delimiter included, and the rest. -/
def cutLine (d : α) : List α → Option (List α × List α)
  | [] => none
  | x :: xs =>
      if x = d then some ([x], xs)
      else (cutLine d xs).map fun p => (x :: p.1, p.2)

/-- The lines of a sequence, each with its delimiter. -/
def lines (d : α) : List α → List (List α)
  | [] => []
  | x :: xs =>
      if x = d then [x] :: lines d xs
      else match lines d xs with
        | [] => []
        | l :: ls => (x :: l) :: ls

theorem cutLine_eq_none {d : α} {xs : List α} (h : cutLine d xs = none) :
    d ∉ xs := by
  induction xs with
  | nil => simp
  | cons x xs ih =>
      simp only [cutLine] at h
      by_cases hx : x = d
      · simp [hx] at h
      · simp only [if_neg hx, Option.map_eq_none_iff] at h
        intro hmem
        rcases List.mem_cons.mp hmem with rfl | hmem
        · exact hx rfl
        · exact ih h hmem

/-- The cut line is the delimiter-free prefix and the delimiter. -/
theorem cutLine_eq_some {d : α} {xs l r : List α} (h : cutLine d xs = some (l, r)) :
    xs = l ++ r ∧ ∃ l₀, l = l₀ ++ [d] ∧ d ∉ l₀ := by
  induction xs generalizing l with
  | nil => cases h
  | cons x xs ih =>
      simp only [cutLine] at h
      by_cases hx : x = d
      · simp only [if_pos hx, Option.some.injEq, Prod.mk.injEq] at h
        obtain ⟨rfl, rfl⟩ := h
        exact ⟨rfl, [], by simp [hx], by simp⟩
      · simp only [if_neg hx, Option.map_eq_some_iff] at h
        obtain ⟨⟨l', r'⟩, hcut, heq⟩ := h
        simp only [Prod.mk.injEq] at heq
        obtain ⟨rfl, rfl⟩ := heq
        obtain ⟨hxs, l₀, hl, hnot⟩ := ih hcut
        refine ⟨by rw [hxs]; rfl, x :: l₀, by rw [hl]; rfl, ?_⟩
        intro hmem
        rcases List.mem_cons.mp hmem with rfl | hmem
        · exact hx rfl
        · exact hnot hmem

/-- Without a delimiter there is no line. -/
theorem lines_of_notMem {d : α} {xs : List α} (h : d ∉ xs) : lines d xs = [] := by
  induction xs with
  | nil => rfl
  | cons x xs ih =>
      have hx : x ≠ d := fun he => h (by simp [he])
      simp [lines, hx, ih fun hm => h (by simp [hm])]

/-- The first line ends at the first delimiter. -/
theorem lines_append_delim {d : α} {l₀ : List α} (h : d ∉ l₀) (r : List α) :
    lines d (l₀ ++ d :: r) = (l₀ ++ [d]) :: lines d r := by
  induction l₀ with
  | nil => simp [lines]
  | cons x l₀ ih =>
      have hx : x ≠ d := fun he => h (by simp [he])
      rw [List.cons_append, lines, if_neg hx, ih fun hm => h (by simp [hm])]
      rfl

/-- A sequence of whole lines and an unfinished one has exactly those lines. -/
theorem lines_flatten_append {d : α} {ls : List (List α)}
    (h : ∀ l ∈ ls, ∃ l₀, l = l₀ ++ [d] ∧ d ∉ l₀) {rest : List α} (hrest : d ∉ rest) :
    lines d (ls.flatten ++ rest) = ls := by
  induction ls with
  | nil => exact lines_of_notMem hrest
  | cons l ls ih =>
      obtain ⟨l₀, rfl, hnot⟩ := h l (by simp)
      have hls := ih fun m hm => h m (by simp [hm])
      rw [List.flatten_cons, List.append_assoc, List.append_assoc, List.singleton_append,
        lines_append_delim hnot, hls]

/-- The lines of a sequence are parts of it. -/
theorem mem_lines_sublist {d : α} {xs l : List α} (h : l ∈ lines d xs) : l.Sublist xs := by
  induction xs generalizing l with
  | nil => cases h
  | cons x xs ih =>
      by_cases hx : x = d
      · simp only [lines, if_pos hx, List.mem_cons] at h
        rcases h with rfl | h
        · exact (List.nil_sublist xs).cons_cons x
        · exact (ih h).cons x
      · simp only [lines, if_neg hx] at h
        cases hls : lines d xs with
        | nil => simp [hls] at h
        | cons l' ls =>
            simp only [hls, List.mem_cons] at h
            rcases h with rfl | h
            · exact (ih (by simp [hls])).cons_cons x
            · exact (ih (by simp [hls, h])).cons x

/-- What holds of whole lines and of the beginning of one holds of the lines of
all of them. -/
theorem lines_pieces {d : α} {Φ : List α → Prop} (hsub : ∀ l m, l.Sublist m → Φ m → Φ l)
    {ps : List (List α)} (hps : ∀ p ∈ ps, Φ p ∧ (p = [] ∨ ∃ l₀, p = l₀ ++ [d] ∧ d ∉ l₀))
    {last : List α} (hlast : Φ last) : ∀ l ∈ lines d (ps.flatten ++ last), Φ l := by
  induction ps with
  | nil => exact fun l hl => hsub l last (mem_lines_sublist hl) hlast
  | cons p ps ih =>
      obtain ⟨hp, rfl | ⟨l₀, rfl, hnot⟩⟩ := hps p (by simp)
      · exact ih fun q hq => hps q (by simp [hq])
      · intro l hl
        rw [List.flatten_cons, List.append_assoc, List.append_assoc, List.singleton_append,
          lines_append_delim hnot, List.mem_cons] at hl
        rcases hl with rfl | hl
        · exact hp
        · exact ih (fun q hq => hps q (by simp [hq])) l hl

/-- With a delimiter there is a line. -/
theorem lines_ne_nil {d : α} {xs : List α} (h : d ∈ xs) : lines d xs ≠ [] := by
  obtain ⟨l₀, r, rfl, hnot⟩ := List.eq_append_cons_of_mem h
  rw [lines_append_delim hnot]
  exact List.cons_ne_nil _ _

/-- Behind a delimiter the lines start anew. -/
theorem lines_append_line {d : α} (xs ys : List α) :
    lines d (xs ++ d :: ys) = lines d (xs ++ [d]) ++ lines d ys := by
  induction xs with
  | nil => simp [lines]
  | cons x xs ih =>
      by_cases hx : x = d
      · simp [lines, hx, ih]
      · cases hls : lines d (xs ++ [d]) with
        | nil => exact absurd hls (lines_ne_nil (by simp))
        | cons l ls => simp [lines, hx, ih, hls]

/-- A complete line stays as it is. -/
theorem lines_grow {d : α} {xs ys : List α} (h : xs <+: ys) : lines d xs <+: lines d ys := by
  obtain ⟨zs, rfl⟩ := h
  induction xs with
  | nil => exact List.nil_prefix
  | cons x xs ih =>
      by_cases hx : x = d
      · simpa [lines, hx] using ih
      · cases hls : lines d xs with
        | nil => simp [lines, hx, hls]
        | cons l ls =>
            obtain ⟨rest, hrest⟩ := ih
            simp [lines, hx, hls, ← hrest]

/-- The lines of copies of a text that ends a line. -/
theorem mem_lines_replicate {d : α} {xs l : List α} {n : Nat}
    (h : l ∈ lines d (List.replicate n (xs ++ [d])).flatten) : l ∈ lines d (xs ++ [d]) := by
  induction n with
  | zero => cases h
  | succ n ih =>
      rw [List.replicate_succ, List.flatten_cons, List.append_assoc, List.singleton_append,
        lines_append_line] at h
      exact (List.mem_append.mp h).elim id ih

/-- The lines of what is left are what is left of lines. -/
theorem lines_suffix {d : α} {xs ys l : List α} (h : xs <:+ ys) (hl : l ∈ lines d xs) :
    ∃ m ∈ lines d ys, l <:+ m := by
  induction ys generalizing l with
  | nil =>
      obtain rfl := List.suffix_nil.mp h
      exact ⟨l, hl, List.suffix_refl l⟩
  | cons y ys ih =>
      rcases List.suffix_cons_iff.mp h with rfl | h
      · exact ⟨l, hl, List.suffix_refl l⟩
      obtain ⟨m, hm, hlm⟩ := ih h hl
      by_cases hy : y = d
      · exact ⟨m, by simp [lines, hy, hm], hlm⟩
      · cases hls : lines d ys with
        | nil => simp [hls] at hm
        | cons k ks =>
            simp only [hls, List.mem_cons] at hm
            rcases hm with rfl | hm
            · exact ⟨y :: m, by simp [lines, hy, hls], hlm.trans (List.suffix_cons y m)⟩
            · exact ⟨m, by simp [lines, hy, hls, hm], hlm⟩

/-! ## A series of searches -/

omit [DecidableEq α]

/-- Each demand takes the elements up to the first one it accepts; `none` if
some demand finds none. -/
def serve : List (α → Bool) → List α → Option (List (List α))
  | [], _ => some []
  | p :: ps, xs =>
      match xs.dropWhile fun x => !p x with
      | [] => none
      | x :: rest =>
          (serve ps rest).map ((xs.takeWhile (fun x => !p x) ++ [x]) :: ·)

/-- A search stops at the first accepted element. -/
theorem serve_cons {p : α → Bool} {ps : List (α → Bool)} {skipped rest : List α}
    {x : α} (hskip : ∀ y ∈ skipped, p y = false) (hx : p x = true) :
    serve (p :: ps) (skipped ++ x :: rest)
      = (serve ps rest).map ((skipped ++ [x]) :: ·) := by
  have hdrop : (skipped ++ x :: rest).dropWhile (fun y => !p y) = x :: rest := by
    rw [List.dropWhile_append_of_pos (by simpa using hskip)]
    simp [hx]
  have htake : (skipped ++ x :: rest).takeWhile (fun y => !p y) = skipped := by
    rw [List.takeWhile_append_of_pos (by simpa using hskip)]
    simp [hx]
  rw [serve, hdrop, htake]

end Lines

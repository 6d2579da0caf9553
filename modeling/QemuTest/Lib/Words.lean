import Mathlib.Computability.RegularExpressions
import Mathlib.Data.List.Infix

/-!
# Words

Words over an alphabet joined by a delimiter, once as a regular expression
(`p(dp)*`) and once by what their characters are. `mem_words_iff` says that
both describe the same language, `mem_field_iff` does it for a field `k=v`
whose two sides are in a language without `=`.
-/

namespace Words

open RegularExpression

/-! ## Classes of characters -/

/-- The characters from `lo` to `hi`. -/
def charRange (lo hi : Char) : List Char :=
  (List.range (hi.toNat + 1 - lo.toNat)).map fun i => Char.ofNat (lo.toNat + i)

/-- Below the surrogates every number in between is a character. -/
theorem mem_charRange {lo hi c : Char} (h : hi.toNat < 0xd800) :
    c ∈ charRange lo hi ↔ lo.toNat ≤ c.toNat ∧ c.toNat ≤ hi.toNat := by
  rw [charRange, List.mem_map]
  constructor
  · rintro ⟨i, hi', rfl⟩
    rw [List.mem_range] at hi'
    have hvalid : (lo.toNat + i).isValidChar := .inl (by omega)
    have htoNat : (Char.ofNat (lo.toNat + i)).toNat = lo.toNat + i := by
      rw [Char.ofNat, dif_pos hvalid]
      rfl
    omega
  · rintro ⟨hlo, hhi⟩
    refine ⟨c.toNat - lo.toNat, List.mem_range.mpr (by omega), ?_⟩
    rw [Nat.add_sub_cancel' hlo, Char.ofNat_toNat]

variable {α : Type}

/-! ## Expressions -/

/-- `[cs]` -/
def oneOf (cs : List α) : RegularExpression α := (cs.map char).sum

/-- `p+` -/
def many1 (p : RegularExpression α) : RegularExpression α := p * star p

/-- `p(sep p)*` -/
def sepBy (p sep : RegularExpression α) : RegularExpression α := p * star (sep * p)

/-- `p?` -/
def optional (p : RegularExpression α) : RegularExpression α := p + 1

/-- `[cs]+(d[cs]+)*` -/
def words (cs : List α) (d : α) : RegularExpression α :=
  sepBy (many1 (oneOf cs)) (char d)

/-- `p(ep)?` -/
def field (p : RegularExpression α) (e : α) : RegularExpression α :=
  p * optional (char e * p)

theorem mem_oneOf {cs : List α} {x : List α} :
    x ∈ (oneOf cs).matches' ↔ ∃ c ∈ cs, x = [c] := by
  induction cs with
  | nil =>
      have hzero : oneOf ([] : List α) = 0 := rfl
      simp [hzero]
  | cons c cs ih =>
      have hcons : oneOf (c :: cs) = char c + oneOf cs := rfl
      rw [hcons, matches'_add, Language.mem_add, ih, List.exists_mem_cons_iff]
      rfl

theorem mem_char_mul {e : α} {p : RegularExpression α} {x : List α} :
    x ∈ (char e * p).matches' ↔ ∃ y ∈ p.matches', x = e :: y := by
  rw [matches'_mul, Language.mem_mul]
  constructor
  · rintro ⟨a, ha, y, hy, rfl⟩
    obtain rfl : a = [e] := ha
    exact ⟨y, hy, rfl⟩
  · rintro ⟨y, hy, rfl⟩
    exact ⟨[e], rfl, y, hy, rfl⟩

/-- A non-empty text over the class. -/
theorem mem_many1_oneOf {cs : List α} {x : List α} :
    x ∈ (many1 (oneOf cs)).matches' ↔ x ≠ [] ∧ ∀ c ∈ x, c ∈ cs := by
  have hstar : ∀ y : List α, y ∈ (star (oneOf cs)).matches' ↔ ∀ c ∈ y, c ∈ cs := by
    intro y
    rw [matches'_star, Language.mem_kstar]
    constructor
    · rintro ⟨L, rfl, hL⟩ c hc
      obtain ⟨z, hz, hcz⟩ := List.mem_flatten.mp hc
      obtain ⟨c', hc', rfl⟩ := mem_oneOf.mp (hL z hz)
      rw [List.mem_singleton.mp hcz]
      exact hc'
    · intro hy
      refine ⟨y.map fun c => [c], ?_, ?_⟩
      · induction y with
        | nil => rfl
        | cons c y ih =>
            rw [List.map_cons, List.flatten_cons,
              ← ih fun b hb => hy b (List.mem_cons_of_mem _ hb)]
            rfl
      · intro z hz
        obtain ⟨c, hc, rfl⟩ := List.mem_map.mp hz
        exact mem_oneOf.mpr ⟨c, hy c hc, rfl⟩
  rw [many1, matches'_mul, Language.mem_mul]
  constructor
  · rintro ⟨a, ha, b, hb, rfl⟩
    obtain ⟨c, hc, rfl⟩ := mem_oneOf.mp ha
    refine ⟨by simp, fun c' hc' => ?_⟩
    rcases List.mem_cons.mp hc' with rfl | hc'
    · exact hc
    · exact (hstar b).mp hb c' hc'
  · rintro ⟨hne, hall⟩
    obtain ⟨c, y, rfl⟩ := List.exists_cons_of_ne_nil hne
    exact ⟨[c], mem_oneOf.mpr ⟨c, hall c List.mem_cons_self, rfl⟩, y,
      (hstar y).mpr fun b hb => hall b (List.mem_cons_of_mem _ hb), rfl⟩

/-! ## Words by their characters -/

/-- Over the alphabet and the delimiter, which neither begins nor ends the
text and is never doubled. -/
structure Word (cs : List α) (d : α) (x : List α) : Prop where
  ne_nil : x ≠ []
  chars : ∀ c ∈ x, c ∈ cs ∨ c = d
  head : x.head? ≠ some d
  last : x.getLast? ≠ some d
  single : ¬ [d, d] <:+: x

theorem Word.of_chars {cs : List α} {d : α} (hd : d ∉ cs) {w : List α} (hne : w ≠ [])
    (hw : ∀ c ∈ w, c ∈ cs) : Word cs d w where
  ne_nil := hne
  chars c hc := .inl (hw c hc)
  head h := hd (hw d (List.mem_of_head? h))
  last h := hd (hw d (List.mem_of_getLast? h))
  single h := hd (hw d (h.subset List.mem_cons_self))

/-- A doubled character behind a text without it. -/
theorem doubled_append {d : α} {w x : List α} (hw : d ∉ w) :
    [d, d] <:+: w ++ x ↔ [d, d] <:+: x := by
  induction w with
  | nil => rfl
  | cons c w ih =>
      have hc : c ≠ d := fun h => hw (by simp [h])
      rw [List.cons_append, List.infix_cons_iff, ih fun h => hw (List.mem_cons_of_mem _ h)]
      constructor
      · rintro (h | h)
        · exact absurd (List.cons_prefix_cons.mp h).1.symm hc
        · exact h
      · exact Or.inr

/-- A text with a word in front is one of words if the rest is. -/
theorem Word.cons_iff {cs : List α} {d : α} (hd : d ∉ cs) {w x : List α} (hne : w ≠ [])
    (hw : ∀ c ∈ w, c ∈ cs) : Word cs d (w ++ d :: x) ↔ Word cs d x := by
  have hdw : d ∉ w := fun h => hd (hw d h)
  have hdouble : [d, d] <:+: w ++ d :: x ↔ x.head? = some d ∨ [d, d] <:+: x := by
    rw [doubled_append hdw, List.infix_cons_iff, List.cons_prefix_cons,
      and_iff_right rfl]
    cases x with
    | nil => simp
    | cons c x => simp [List.cons_prefix_cons, eq_comm]
  constructor
  · intro h
    have hx : x ≠ [] := by
      rintro rfl
      exact h.last (by simp)
    refine ⟨hx, fun c hc => h.chars c (by simp [hc]), ?_, ?_, ?_⟩
    · exact fun hhead => h.single (hdouble.mpr (.inl hhead))
    · intro hlast
      refine h.last ?_
      rw [List.getLast?_append_of_ne_nil _ (by simp), List.getLast?_cons, hlast]
      rfl
    · exact fun hin => h.single (hdouble.mpr (.inr hin))
  · intro h
    refine ⟨by simp, ?_, ?_, ?_, ?_⟩
    · intro c hc
      rcases List.mem_append.mp hc with hc | hc
      · exact .inl (hw c hc)
      · rcases List.mem_cons.mp hc with rfl | hc
        · exact .inr rfl
        · exact h.chars c hc
    · obtain ⟨c, w', rfl⟩ := List.exists_cons_of_ne_nil hne
      simpa using fun he : c = d => hdw (by simp [he])
    · rw [List.getLast?_append_of_ne_nil _ (by simp), List.getLast?_cons]
      intro hlast
      obtain ⟨y, c, rfl⟩ : ∃ y c, x = y ++ [c] := by
        rcases List.eq_nil_or_concat x with hx | ⟨y, c, hx⟩
        · exact absurd hx h.ne_nil
        · exact ⟨y, c, by simpa using hx⟩
      exact h.last (by simpa using hlast)
    · rw [hdouble]
      rintro (hhead | hin)
      · exact h.head hhead
      · exact h.single hin

/-- **Words**: the expression matches exactly the words. -/
theorem mem_words_iff {cs : List α} {d : α} (hd : d ∉ cs) {x : List α} :
    x ∈ (words cs d).matches' ↔ Word cs d x := by
  rw [words, sepBy, matches'_mul, Language.mem_mul]
  constructor
  · rintro ⟨w, hw, y, hy, rfl⟩
    obtain ⟨hne, hall⟩ := mem_many1_oneOf.mp hw
    rw [matches'_star, Language.mem_kstar] at hy
    obtain ⟨L, rfl, hL⟩ := hy
    induction L generalizing w with
    | nil => simpa using Word.of_chars hd hne hall
    | cons z L ih =>
        obtain ⟨v, hv, rfl⟩ := mem_char_mul.mp (hL z List.mem_cons_self)
        obtain ⟨hne', hall'⟩ := mem_many1_oneOf.mp hv
        have hrest := ih v hv hne' hall' fun u hu => hL u (List.mem_cons_of_mem _ hu)
        rw [List.flatten_cons, List.cons_append]
        exact (Word.cons_iff hd hne hall).mpr hrest
  · intro h
    -- induction on the length: a word is its first piece, and a shorter word behind `d`
    induction hn : x.length using Nat.strong_induction_on generalizing x with
    | _ n ih =>
        by_cases hmem : d ∈ x
        · obtain ⟨w, y, rfl, hw⟩ := List.eq_append_cons_of_mem hmem
          have hne : w ≠ [] := by
            rintro rfl
            exact h.head rfl
          have hall : ∀ c ∈ w, c ∈ cs := by
            intro c hc
            rcases h.chars c (List.mem_append_left _ hc) with hcs | rfl
            · exact hcs
            · exact absurd hc hw
          have hy := (Word.cons_iff hd hne hall).mp h
          obtain ⟨v, hv, z, hz, rfl⟩ := ih y.length (by simp [← hn]; omega) hy rfl
          refine ⟨w, mem_many1_oneOf.mpr ⟨hne, hall⟩, d :: (v ++ z), ?_, rfl⟩
          rw [matches'_star, Language.mem_kstar] at hz ⊢
          obtain ⟨L, rfl, hL⟩ := hz
          refine ⟨(d :: v) :: L, rfl, fun u hu => ?_⟩
          rcases List.mem_cons.mp hu with rfl | hu
          · exact mem_char_mul.mpr ⟨v, hv, rfl⟩
          · exact hL u hu
        · refine ⟨x, mem_many1_oneOf.mpr ⟨h.ne_nil, fun c hc => ?_⟩, [],
            Language.nil_mem_kstar _, List.append_nil x⟩
          rcases h.chars c hc with hcs | rfl
          · exact hcs
          · exact absurd hc hmem

variable [DecidableEq α]

/-- With at most one delimiter there are one or two parts. -/
theorem splitOn_of_count_le_one {e : α} {x : List α} (h : x.count e ≤ 1) :
    (e ∉ x ∧ x.splitOn e = [x]) ∨
      ∃ k v, x = k ++ e :: v ∧ e ∉ k ∧ e ∉ v ∧ x.splitOn e = [k, v] := by
  by_cases hmem : e ∈ x
  · obtain ⟨k, v, rfl, hk⟩ := List.eq_append_cons_of_mem hmem
    have hv : e ∉ v := by
      rw [List.count_append, List.count_cons_self] at h
      exact List.count_eq_zero.mp (by omega)
    refine .inr ⟨k, v, rfl, hk, hv, ?_⟩
    rw [List.splitOn_append_cons_self_of_not_mem hk, List.splitOn_eq_singleton hv]
  · exact .inl ⟨hmem, List.splitOn_eq_singleton hmem⟩

/-- **Fields**: at most one `e`, and every part around it in the language. -/
theorem mem_field_iff {p : RegularExpression α} {e : α} (he : ∀ y ∈ p.matches', e ∉ y)
    {x : List α} :
    x ∈ (field p e).matches' ↔ x.count e ≤ 1 ∧ ∀ part ∈ x.splitOn e, part ∈ p.matches' := by
  have hsides : x ∈ (field p e).matches' ↔
      x ∈ p.matches' ∨ ∃ k ∈ p.matches', ∃ v ∈ p.matches', x = k ++ e :: v := by
    rw [field, optional, matches'_mul, Language.mem_mul]
    constructor
    · rintro ⟨k, hk, y, hy, rfl⟩
      rcases hy with hy | hy
      · obtain ⟨v, hv, rfl⟩ := mem_char_mul.mp hy
        exact .inr ⟨k, hk, v, hv, rfl⟩
      · obtain rfl : y = [] := hy
        exact .inl (by simpa using hk)
    · rintro (hx | ⟨k, hk, v, hv, rfl⟩)
      · exact ⟨x, hx, [], .inr rfl, List.append_nil x⟩
      · exact ⟨k, hk, e :: v, .inl (mem_char_mul.mpr ⟨v, hv, rfl⟩), rfl⟩
  rw [hsides]
  constructor
  · rintro (hx | ⟨k, hk, v, hv, rfl⟩)
    · rw [List.splitOn_eq_singleton (he x hx), List.count_eq_zero_of_not_mem (he x hx)]
      simpa using hx
    · rw [List.splitOn_append_cons_self_of_not_mem (he k hk),
        List.splitOn_eq_singleton (he v hv)]
      refine ⟨?_, ?_⟩
      · rw [List.count_append, List.count_cons_self,
          List.count_eq_zero_of_not_mem (he k hk), List.count_eq_zero_of_not_mem (he v hv)]
      · simp [hk, hv]
  · rintro ⟨hcount, hparts⟩
    rcases splitOn_of_count_le_one hcount with ⟨-, hsplit⟩ | ⟨k, v, hx, -, -, hsplit⟩
    · rw [hsplit] at hparts
      exact .inl (hparts x (by simp))
    · rw [hsplit] at hparts
      exact .inr ⟨k, hparts k (by simp), v, hparts v (by simp), hx⟩

end Words

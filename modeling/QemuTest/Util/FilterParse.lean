import QemuTest.Lib.Words
import QemuTest.Util.Filter

/-!
# Util — FilterParse

`TestFilter::parse` of `util.rs`: the pieces between commas, one leading dash
taken off, each compared with `FILTER_TOKEN_PATTERN`. The regex is Mathlib's,
so its meaning is the language it denotes.

`IsToken` describes the tokens by their characters; `parse_eq` is the one
equation the results about filters use.
-/

namespace QemuTest

open Text Words

def filterTokenPattern : Str :=
  lit "^[a-z0-9]+(_[a-z0-9]+)*(=[a-z0-9]+(_[a-z0-9]+)*)?$"

/-- `[a-z0-9]` -/
def tokenClass : List Char := charRange 'a' 'z' ++ charRange '0' '9'

/-- `FILTER_TOKEN_RE`, between its anchors. -/
def filterTokenRe : RegularExpression Char := field (words tokenClass '_') '='

def invalidToken (token : Str) : Str :=
  lit "invalid filter token: '" ++ token ++ lit "'. expected " ++ filterTokenPattern

/-- The loop of `parse`, with the two vectors it fills. -/
def parseTokens : List Str → List Str → List Str → Except Str TestFilter
  | [], include_, exclude => .ok ⟨include_, exclude⟩
  | token :: tokens, include_, exclude =>
      match token.head? with
      | some '-' =>
          let value := token.tail
          if filterTokenRe.rmatch value then
            parseTokens tokens include_ (exclude ++ [value])
          else .error (invalidToken token)
      | _ =>
          if filterTokenRe.rmatch token then
            parseTokens tokens (include_ ++ [token]) exclude
          else .error (invalidToken token)

def TestFilter.parse (raw : Str) : Except Str TestFilter :=
  parseTokens (raw.splitOn ',') [] []

/-! ## Tokens -/

/-- `a` to `z` and `0` to `9`. -/
def IsTokenChar (c : Char) : Prop :=
  ('a'.toNat ≤ c.toNat ∧ c.toNat ≤ 'z'.toNat) ∨ ('0'.toNat ≤ c.toNat ∧ c.toNat ≤ '9'.toNat)

/-- Non-empty, of `a` to `z`, `0` to `9` and `_`, which is neither first nor
last nor doubled. -/
structure IsWord (s : Str) : Prop where
  ne_nil : s ≠ []
  chars : ∀ c ∈ s, IsTokenChar c ∨ c = '_'
  head : s.head? ≠ some '_'
  last : s.getLast? ≠ some '_'
  single : ¬ ['_', '_'] <:+: s

/-- What a token is, character by character. -/
structure IsToken (s : Str) : Prop where
  ne_nil : s ≠ []
  chars : ∀ c ∈ s, IsTokenChar c ∨ c = '_' ∨ c = '='
  one : s.count '=' ≤ 1
  parts : ∀ part ∈ s.splitOn '=', part ≠ [] ∧ part.head? ≠ some '_' ∧
    part.getLast? ≠ some '_' ∧ ¬ ['_', '_'] <:+: part

theorem mem_tokenClass {c : Char} : c ∈ tokenClass ↔ IsTokenChar c := by
  rw [tokenClass, List.mem_append, mem_charRange (by decide), mem_charRange (by decide)]
  rfl

theorem underscore_notMem : '_' ∉ tokenClass := by
  rw [mem_tokenClass]
  unfold IsTokenChar
  decide

/-- The expression around `=` matches the words. -/
theorem mem_words {s : Str} : s ∈ (words tokenClass '_').matches' ↔ IsWord s := by
  rw [mem_words_iff underscore_notMem]
  constructor
  · rintro ⟨hne, hchars, hhead, hlast, hsingle⟩
    exact ⟨hne, fun c hc => (hchars c hc).imp_left mem_tokenClass.mp, hhead, hlast, hsingle⟩
  · rintro ⟨hne, hchars, hhead, hlast, hsingle⟩
    exact ⟨hne, fun c hc => (hchars c hc).imp_left mem_tokenClass.mpr, hhead, hlast,
      hsingle⟩

theorem IsWord.equals_notMem {s : Str} (h : IsWord s) : '=' ∉ s := by
  intro hmem
  rcases h.chars '=' hmem with hc | hc
  · unfold IsTokenChar at hc
    exact absurd hc (by decide)
  · exact absurd hc (by decide)

/-- A token is one word, or two with a `=` between them. -/
theorem isToken_iff_words {s : Str} :
    IsToken s ↔ s.count '=' ≤ 1 ∧ ∀ part ∈ s.splitOn '=', IsWord part := by
  constructor
  · intro h
    refine ⟨h.one, fun part hpart => ?_⟩
    obtain ⟨hne, hhead, hlast, hsingle⟩ := h.parts part hpart
    refine ⟨hne, fun c hc => ?_, hhead, hlast, hsingle⟩
    have hmem : c ∈ s ∧ c ≠ '=' := by
      rcases splitOn_of_count_le_one h.one with ⟨hno, hsplit⟩ | ⟨k, v, rfl, hk, hv, hsplit⟩
      · rw [hsplit, List.mem_singleton] at hpart
        subst hpart
        exact ⟨hc, fun he => hno (he ▸ hc)⟩
      · rw [hsplit, List.mem_cons, List.mem_singleton] at hpart
        rcases hpart with rfl | rfl
        · exact ⟨by simp [hc], fun he => hk (he ▸ hc)⟩
        · exact ⟨by simp [hc], fun he => hv (he ▸ hc)⟩
    rcases h.chars c hmem.1 with hchar | hchar | hchar
    · exact .inl hchar
    · exact .inr hchar
    · exact absurd hchar hmem.2
  · rintro ⟨hone, hparts⟩
    have hshape : s ≠ [] ∧ ∀ c ∈ s, IsTokenChar c ∨ c = '_' ∨ c = '=' := by
      rcases splitOn_of_count_le_one hone with ⟨-, hsplit⟩ | ⟨k, v, rfl, -, -, hsplit⟩
      · have hs : IsWord s := hparts s (by simp [hsplit])
        exact ⟨hs.ne_nil, fun c hc => (hs.chars c hc).imp_right Or.inl⟩
      · have hk : IsWord k := hparts k (by simp [hsplit])
        have hv : IsWord v := hparts v (by simp [hsplit])
        refine ⟨by simp, fun c hc => ?_⟩
        rw [List.mem_append, List.mem_cons] at hc
        rcases hc with hc | rfl | hc
        · exact (hk.chars c hc).imp_right Or.inl
        · exact .inr (.inr rfl)
        · exact (hv.chars c hc).imp_right Or.inl
    refine ⟨hshape.1, hshape.2, hone, fun part hpart => ?_⟩
    have hword := hparts part hpart
    exact ⟨hword.ne_nil, hword.head, hword.last, hword.single⟩

/-- **The grammar**: the regular expression matches exactly the tokens. -/
theorem rmatch_iff {s : Str} : filterTokenRe.rmatch s = true ↔ IsToken s := by
  have hfield : s ∈ filterTokenRe.matches' ↔
      s.count '=' ≤ 1 ∧ ∀ part ∈ s.splitOn '=', part ∈ (words tokenClass '_').matches' :=
    mem_field_iff fun y hy => (mem_words.mp hy).equals_notMem
  rw [RegularExpression.rmatch_iff_matches', hfield, isToken_iff_words]
  simp only [mem_words]

instance (s : Str) : Decidable (IsToken s) := decidable_of_iff _ rmatch_iff

/-- No character of a token separates pieces, and none is a dash. -/
theorem IsToken.notMem {t : Str} (h : IsToken t) {c : Char} (hc : ¬ IsTokenChar c)
    (hu : c ≠ '_') (he : c ≠ '=') : c ∉ t := by
  intro hmem
  rcases h.chars c hmem with h | h | h
  · exact hc h
  · exact hu h
  · exact he h

/-! ## Pieces -/

/-- A piece between commas: whether it has a dash in front, and the rest. -/
structure Piece where
  negated : Bool
  value : Str
  deriving DecidableEq

/-- At most one leading dash taken off. -/
def Piece.read (token : Str) : Piece :=
  match token.head? with
  | some '-' => ⟨true, token.tail⟩
  | _ => ⟨false, token⟩

def Piece.written (p : Piece) : Str := if p.negated then '-' :: p.value else p.value

/-- The pieces of a text. -/
def pieces (raw : Str) : List Piece := (raw.splitOn ',').map Piece.read

/-- What a list of pieces asks for: the unprefixed and the prefixed ones. -/
def TestFilter.ofPieces (ps : List Piece) : TestFilter where
  include_ := (ps.filter fun p => !p.negated).map Piece.value
  exclude := (ps.filter Piece.negated).map Piece.value

/-- Pieces as comma-separated text. -/
def writePieces (ps : List Piece) : Str := [','].intercalate (ps.map Piece.written)

theorem parseTokens_cons (token : Str) (tokens include_ exclude : List Str) :
    parseTokens (token :: tokens) include_ exclude
      = if IsToken (Piece.read token).value then
          if (Piece.read token).negated then
            parseTokens tokens include_ (exclude ++ [(Piece.read token).value])
          else parseTokens tokens (include_ ++ [(Piece.read token).value]) exclude
        else .error (invalidToken token) := by
  rw [parseTokens, Piece.read]
  split
  · simp only [rmatch_iff, if_true]
  · simp only [rmatch_iff, Bool.false_eq_true, if_false]

theorem ofPieces_cons (p : Piece) (ps : List Piece) :
    TestFilter.ofPieces (p :: ps)
      = if p.negated then
          { TestFilter.ofPieces ps with
            exclude := p.value :: (TestFilter.ofPieces ps).exclude }
        else
          { TestFilter.ofPieces ps with
            include_ := p.value :: (TestFilter.ofPieces ps).include_ } := by
  cases h : p.negated <;> simp [TestFilter.ofPieces, h]

/-- The loop, with what the vectors hold before it. -/
theorem parseTokens_eq (tokens include_ exclude : List Str) :
    parseTokens tokens include_ exclude
      = match tokens.find? fun t => ¬ IsToken (Piece.read t).value with
        | some token => .error (invalidToken token)
        | none =>
            let f := TestFilter.ofPieces (tokens.map Piece.read)
            .ok ⟨include_ ++ f.include_, exclude ++ f.exclude⟩ := by
  induction tokens generalizing include_ exclude with
  | nil => simp [parseTokens, TestFilter.ofPieces]
  | cons token tokens ih =>
      rw [parseTokens_cons, List.find?_cons, List.map_cons, ofPieces_cons]
      by_cases hvalid : IsToken (Piece.read token).value
      · cases hneg : (Piece.read token).negated with
        | true =>
            rw [if_pos hvalid, if_pos rfl, ih]
            simp [hvalid]
        | false =>
            rw [if_pos hvalid, if_neg Bool.false_ne_true, ih]
            simp [hvalid]
      · simp [hvalid]

/-- **Parsing**: the first piece that is no token is the error; without one,
the filter is what the pieces ask for. -/
theorem parse_eq (raw : Str) :
    TestFilter.parse raw
      = match (raw.splitOn ',').find? fun t => ¬ IsToken (Piece.read t).value with
        | some token => .error (invalidToken token)
        | none => .ok (TestFilter.ofPieces (pieces raw)) := by
  rw [TestFilter.parse, parseTokens_eq]
  simp only [List.nil_append]
  rfl

theorem parse_eq_ok_iff {raw : Str} {f : TestFilter} :
    TestFilter.parse raw = .ok f ↔
      (∀ p ∈ pieces raw, IsToken p.value) ∧ TestFilter.ofPieces (pieces raw) = f := by
  have hall : (∀ p ∈ pieces raw, IsToken p.value) ↔
      (raw.splitOn ',').find? (fun t => ¬ IsToken (Piece.read t).value) = none := by
    simp [pieces]
  rw [hall, parse_eq]
  cases (raw.splitOn ',').find? fun t => ¬ IsToken (Piece.read t).value with
  | some token => simp
  | none => simp

theorem pieces_append (a b : Str) : pieces (a ++ ',' :: b) = pieces a ++ pieces b := by
  rw [pieces, List.splitOn_append_cons_self, List.map_append, pieces, pieces]

theorem ofPieces_append (ps qs : List Piece) :
    TestFilter.ofPieces (ps ++ qs)
      = ⟨(TestFilter.ofPieces ps).include_ ++ (TestFilter.ofPieces qs).include_,
          (TestFilter.ofPieces ps).exclude ++ (TestFilter.ofPieces qs).exclude⟩ := by
  simp [TestFilter.ofPieces]

/-! ## Writing -/

theorem read_written {p : Piece} (h : IsToken p.value) : Piece.read p.written = p := by
  obtain ⟨negated, value⟩ := p
  cases negated with
  | true => rfl
  | false =>
      have hdash : '-' ∉ value :=
        h.notMem (by unfold IsTokenChar; decide) (by decide) (by decide)
      have hhead : value.head? ≠ some '-' := fun he => hdash (List.mem_of_head? he)
      simp [Piece.read, Piece.written]

theorem comma_notMem_written {p : Piece} (h : IsToken p.value) : ',' ∉ p.written := by
  have hcomma : ',' ∉ p.value :=
    h.notMem (by unfold IsTokenChar; decide) (by decide) (by decide)
  unfold Piece.written
  split
  · simpa using hcomma
  · exact hcomma

/-- What is written is read back, piece by piece. -/
theorem pieces_writePieces {ps : List Piece} (hne : ps ≠ [])
    (h : ∀ p ∈ ps, IsToken p.value) : pieces (writePieces ps) = ps := by
  rw [pieces, writePieces, List.splitOn_intercalate, List.map_map]
  · calc ps.map (Piece.read ∘ Piece.written)
        = ps.map id := List.map_congr_left fun p hp => read_written (h p hp)
      _ = ps := List.map_id ps
  · intro t ht
    obtain ⟨p, hp, rfl⟩ := List.mem_map.mp ht
    exact comma_notMem_written (h p hp)
  · simpa using hne

theorem value_mem_ofPieces {ps : List Piece} {p : Piece} (h : p ∈ ps) :
    p.value ∈ (TestFilter.ofPieces ps).include_ ++ (TestFilter.ofPieces ps).exclude := by
  rw [List.mem_append, TestFilter.ofPieces, List.mem_map, List.mem_map]
  cases hneg : p.negated with
  | true => exact .inr ⟨p, by simp [h, hneg], rfl⟩
  | false => exact .inl ⟨p, by simp [h, hneg], rfl⟩

theorem mem_of_mem_ofPieces {ps : List Piece} {t : Str}
    (h : t ∈ (TestFilter.ofPieces ps).include_ ++ (TestFilter.ofPieces ps).exclude) :
    ∃ p ∈ ps, p.value = t := by
  rw [List.mem_append, TestFilter.ofPieces, List.mem_map, List.mem_map] at h
  rcases h with ⟨p, hp, rfl⟩ | ⟨p, hp, rfl⟩
  · exact ⟨p, (List.mem_filter.mp hp).1, rfl⟩
  · exact ⟨p, (List.mem_filter.mp hp).1, rfl⟩

/-- Only which tokens there are matters. -/
theorem matches_congr {f g : TestFilter} (hincl : ∀ t, t ∈ f.include_ ↔ t ∈ g.include_)
    (hexcl : ∀ t, t ∈ f.exclude ↔ t ∈ g.exclude) (label : Str) (skip : Option Str) :
    f.matches label skip = g.matches label skip := by
  have hempty : f.include_ = [] ↔ g.include_ = [] := by
    rw [List.eq_nil_iff_forall_not_mem, List.eq_nil_iff_forall_not_mem]
    exact forall_congr' fun t => not_congr (hincl t)
  have hrej : f.Rejects label ↔ g.Rejects label := by
    simp only [TestFilter.Rejects, hincl, hexcl, hempty, ne_eq]
  by_cases h : f.Rejects label
  · rw [matches_of_rejects h, matches_of_rejects (hrej.mp h)]
  · rw [matches_of_not_rejects h, matches_of_not_rejects (mt hrej.mpr h)]
    have hisEmpty : f.include_.isEmpty = g.include_.isEmpty := by
      rw [Bool.eq_iff_iff, List.isEmpty_iff, List.isEmpty_iff, hempty]
    rw [hisEmpty]

/-- **Filter parsing**: a text is accepted iff each of its pieces is a token;
the filter has the unprefixed and the prefixed ones in order. It composes over
commas, reads back what is written of a filter with a token, whatever the order
of includes and excludes, and decides by the sets of its tokens. -/
theorem parse_grammar :
    (∀ raw, (∃ f, TestFilter.parse raw = .ok f) ↔ ∀ p ∈ pieces raw, IsToken p.value) ∧
    (∀ raw f, TestFilter.parse raw = .ok f →
      f.include_ = ((pieces raw).filter fun p => !p.negated).map Piece.value ∧
      f.exclude = ((pieces raw).filter Piece.negated).map Piece.value) ∧
    (∀ a b f, TestFilter.parse (a ++ ',' :: b) = .ok f ↔
      ∃ g h, TestFilter.parse a = .ok g ∧ TestFilter.parse b = .ok h ∧
        f = ⟨g.include_ ++ h.include_, g.exclude ++ h.exclude⟩) ∧
    (∀ f ps, (∀ t ∈ f.include_ ++ f.exclude, IsToken t) → f ≠ .empty →
      TestFilter.ofPieces ps = f → TestFilter.parse (writePieces ps) = .ok f) ∧
    (∀ raw f, TestFilter.parse raw = .ok f →
      (∀ t ∈ f.include_ ++ f.exclude, IsToken t) ∧ f ≠ .empty) ∧
    (∀ f g : TestFilter, (∀ t, t ∈ f.include_ ↔ t ∈ g.include_) →
      (∀ t, t ∈ f.exclude ↔ t ∈ g.exclude) →
        ∀ label skip, f.matches label skip = g.matches label skip) := by
  refine ⟨?_, ?_, ?_, ?_, ?_, fun f g => matches_congr⟩
  · intro raw
    simp [parse_eq_ok_iff]
  · intro raw f h
    obtain ⟨-, rfl⟩ := parse_eq_ok_iff.mp h
    exact ⟨rfl, rfl⟩
  · intro a b f
    simp only [parse_eq_ok_iff, pieces_append, ofPieces_append, List.forall_mem_append]
    constructor
    · rintro ⟨⟨ha, hb⟩, rfl⟩
      exact ⟨_, _, ⟨ha, rfl⟩, ⟨hb, rfl⟩, rfl⟩
    · rintro ⟨_, _, ⟨ha, rfl⟩, ⟨hb, rfl⟩, rfl⟩
      exact ⟨⟨ha, hb⟩, rfl⟩
  · rintro f ps htok hne rfl
    have hps : ps ≠ [] := by
      rintro rfl
      exact hne rfl
    have hall : ∀ p ∈ ps, IsToken p.value := fun p hp => htok _ (value_mem_ofPieces hp)
    rw [parse_eq_ok_iff, pieces_writePieces hps hall]
    exact ⟨hall, rfl⟩
  · intro raw f h
    obtain ⟨hall, rfl⟩ := parse_eq_ok_iff.mp h
    refine ⟨fun t ht => ?_, fun he => ?_⟩
    · obtain ⟨p, hp, rfl⟩ := mem_of_mem_ofPieces ht
      exact hall p hp
    · -- there is a first piece, and it is in one of the lists
      have hne : pieces raw ≠ [] := by
        rw [pieces, Ne, List.map_eq_nil_iff]
        exact List.splitOn_ne_nil ',' raw
      obtain ⟨p, hp⟩ := List.exists_mem_of_ne_nil _ hne
      have hmem := value_mem_ofPieces hp
      rw [he] at hmem
      simp [TestFilter.empty] at hmem

end QemuTest

import Mathlib.Data.List.Forall2
import QemuTest.Lib.Text

/-!
# Macro — Parse

The parsing half of `test_fn`: token streams, `ParamSpec` with its three value
forms, the two ways a list of specs is read (`parseSpecs` for the outermost
attribute, `parseSpecsFromAttr` for the others), and `extractSkip`.

Rust expressions and keywords are the parser library's: `Syn` stands for it,
and an expression is whatever it reads up to a comma or the end (`Reads`). The
upper case of characters, which is Unicode's, is taken with it.
-/

namespace QemuTest

open Text

inductive Delim where
  | paren
  | brace
  | bracket
  deriving DecidableEq, Repr

inductive Tok where
  | ident (name : Str)
  | punct (c : Char)
  | literal (text : Str)
  | group (d : Delim) (content : List Tok)

def Tok.comma : Tok := .punct ','

/-- The libraries of the macro: a prefix parser for expressions, the value of a
string literal expression, the words that are no identifiers, and the upper case
of a character, which has a `#` for that character alone. -/
structure Syn (Expr : Type) where
  parseExpr : List Tok → Option (Expr × List Tok)
  strLit : Expr → Option Str
  keyword : Str → Bool
  uppercase : Char → Str
  hash_uppercase : ∀ c, '#' ∈ uppercase c ↔ c = '#'

variable {Expr : Type}

/-! ## Specs -/

structure ParamSpec (Expr : Type) where
  name : Str
  values : List Expr
  optional : Bool

/-- `Punctuated::parse_terminated` with a comma: items separated by commas, an
optional comma at the end. The fuel bounds the number of items. -/
def parseTerminated {α : Type} (parse : List Tok → Option (α × List Tok)) :
    Nat → List Tok → Option (List α)
  | _, [] => some []
  | 0, _ :: _ => none
  | fuel + 1, ts =>
      match parse ts with
      | none => none
      | some (item, rest) =>
          match rest with
          | [] => some [item]
          | .punct ',' :: rest => (parseTerminated parse fuel rest).map (item :: ·)
          | _ => none

def Syn.parseValues (syn : Syn Expr) (content : List Tok) : Option (List Expr) :=
  parseTerminated syn.parseExpr content.length content

/-- The value of a spec: a braced list, a bracketed list, which makes the
parameter optional, or one expression. -/
def Syn.parseValue (syn : Syn Expr) : List Tok → Option ((List Expr × Bool) × List Tok)
  | .group .brace content :: rest =>
      (syn.parseValues content).map fun vals => ((vals, false), rest)
  | .group .bracket content :: rest =>
      (syn.parseValues content).map fun vals => ((vals, true), rest)
  | ts => (syn.parseExpr ts).map fun p => (([p.1], false), p.2)

def Syn.parseSpec (syn : Syn Expr) : List Tok → Option (ParamSpec Expr × List Tok)
  | .ident name :: .punct '=' :: rest =>
      if syn.keyword name then none
      else
        (syn.parseValue rest).map fun p => (⟨name, p.1.1, p.1.2⟩, p.2)
  | _ => none

def expectSpecs (r : Option (List (ParamSpec Expr))) :
    Except Panic (List (ParamSpec Expr)) :=
  match r with
  | some specs => .ok specs
  | none => .error (lit "failed to parse test_fn attributes")

/-- The specs of the outermost attribute, from the tokens in its parentheses. -/
def parseSpecs (syn : Syn Expr) (attr : List Tok) :
    Except Panic (List (ParamSpec Expr)) :=
  if attr.isEmpty then .ok []
  else expectSpecs (parseTerminated syn.parseSpec attr.length attr)

/-- What follows the path of an attribute. -/
inductive Meta where
  | path
  | list (tokens : List Tok)
  | nameValue (tokens : List Tok)

/-- The specs of an attribute that is still on the item. -/
def parseSpecsFromAttr (syn : Syn Expr) (attr : Meta) :
    Except Panic (List (ParamSpec Expr)) :=
  match attr with
  | .list tokens => expectSpecs (parseTerminated syn.parseSpec tokens.length tokens)
  | _ => .ok []

/-- The two readers agree on `#[test_fn(..)]`. -/
theorem parseSpecs_eq_fromAttr (syn : Syn Expr) (tokens : List Tok) :
    parseSpecs syn tokens = parseSpecsFromAttr syn (.list tokens) := by
  cases tokens with
  | nil => rfl
  | cons t ts => rfl

/-! ## skip -/

def skipName : Str := lit "skip"

/-- The reason of a `skip` spec: its first value, a string literal. -/
def skipReason (syn : Syn Expr) (spec : ParamSpec Expr) : Except Panic Str :=
  match spec.values.head?.bind syn.strLit with
  | some reason => .ok reason
  | none => .error (lit "skip value must be a string literal")

/-- `extract_skip`: the other specs in order, and the last reason. -/
def extractSkip (syn : Syn Expr) :
    List (ParamSpec Expr) → Except Panic (List (ParamSpec Expr) × Option Str)
  | [] => .ok ([], none)
  | spec :: specs =>
      if spec.name = skipName then do
        let reason ← skipReason syn spec
        let (remaining, later) ← extractSkip syn specs
        .ok (remaining, later.or (some reason))
      else do
        let (remaining, later) ← extractSkip syn specs
        .ok (spec :: remaining, later)

/-! ## Written attributes -/

/-- `ts` is the expression `e`: the parser reads it up to a comma or the end. -/
def Syn.Reads (syn : Syn Expr) (ts : List Tok) (e : Expr) : Prop :=
  ∀ rest, (rest = [] ∨ ∃ rest', rest = .comma :: rest') →
    syn.parseExpr (ts ++ rest) = some (e, rest)

/-- An expression in the source: its tokens and what they read as. -/
structure Written (Expr : Type) where
  tokens : List Tok
  expr : Expr

/-- The three value forms; `trailing` is the comma allowed after a last item. -/
inductive ValueForm (Expr : Type) where
  | single (value : Written Expr)
  | multi (values : List (Written Expr)) (trailing : Bool)
  | optional (values : List (Written Expr)) (trailing : Bool)

structure WrittenSpec (Expr : Type) where
  name : Str
  form : ValueForm Expr

/-- Items with commas between them, and one after the last if `trailing`. -/
def commaList (trailing : Bool) : List (List Tok) → List Tok
  | [] => []
  | [item] => item ++ if trailing then [.comma] else []
  | item :: items => item ++ .comma :: commaList trailing items

def ValueForm.tokens : ValueForm Expr → List Tok
  | .single value => value.tokens
  | .multi values trailing =>
      [.group .brace (commaList trailing (values.map Written.tokens))]
  | .optional values trailing =>
      [.group .bracket (commaList trailing (values.map Written.tokens))]

def ValueForm.written : ValueForm Expr → List (Written Expr)
  | .single value => [value]
  | .multi values _ => values
  | .optional values _ => values

def ValueForm.isOptional : ValueForm Expr → Bool
  | .optional _ _ => true
  | _ => false

def WrittenSpec.tokens (w : WrittenSpec Expr) : List Tok :=
  .ident w.name :: .punct '=' :: w.form.tokens

/-- What a written spec is read as. -/
def WrittenSpec.spec (w : WrittenSpec Expr) : ParamSpec Expr where
  name := w.name
  values := w.form.written.map Written.expr
  optional := w.form.isOptional

/-- A brace or a bracket in front decides for a list form. -/
def startsList : List Tok → Bool
  | .group .brace _ :: _ => true
  | .group .bracket _ :: _ => true
  | _ => false

/-- A well-formed spec: the name is an identifier, every value an expression,
and a single value does not look like a list. -/
structure WrittenSpec.Ok (syn : Syn Expr) (w : WrittenSpec Expr) : Prop where
  name : syn.keyword w.name = false
  reads : ∀ v ∈ w.form.written, syn.Reads v.tokens v.expr
  nonempty : ∀ v ∈ w.form.written, v.tokens ≠ []
  single : ∀ v, w.form = .single v → startsList v.tokens = false

/-! ## Reading what is written -/

/-- A parser reads the items of a comma list up to commas and the end. -/
def ReadsItem {α : Type} (parse : List Tok → Option (α × List Tok)) (item : List Tok)
    (a : α) : Prop :=
  item ≠ [] ∧ ∀ rest, (rest = [] ∨ ∃ rest', rest = .comma :: rest') →
    parse (item ++ rest) = some (a, rest)

theorem parseTerminated_nil {α : Type} (parse : List Tok → Option (α × List Tok))
    (fuel : Nat) : parseTerminated parse fuel [] = some [] := by
  cases fuel <;> rfl

/-- The last item, without a comma behind it. -/
theorem parseTerminated_last {α : Type} {parse : List Tok → Option (α × List Tok)}
    {item : List Tok} {a : α} (h : ReadsItem parse item a) (fuel : Nat) :
    parseTerminated parse (fuel + 1) item = some [a] := by
  obtain ⟨hne, hread⟩ := h
  have hp : parse item = some (a, []) := by simpa using hread [] (.inl rfl)
  obtain ⟨t, ts, rfl⟩ := List.exists_cons_of_ne_nil hne
  simp only [parseTerminated, hp]

/-- An item with a comma behind it. -/
theorem parseTerminated_item {α : Type} {parse : List Tok → Option (α × List Tok)}
    {item : List Tok} {a : α} (h : ReadsItem parse item a) (fuel : Nat)
    (rest : List Tok) :
    parseTerminated parse (fuel + 1) (item ++ .comma :: rest)
      = (parseTerminated parse fuel rest).map (a :: ·) := by
  obtain ⟨hne, hread⟩ := h
  have hp := hread (.comma :: rest) (.inr ⟨rest, rfl⟩)
  obtain ⟨t, ts, rfl⟩ := List.exists_cons_of_ne_nil hne
  rw [List.cons_append] at hp ⊢
  simp only [parseTerminated]
  rw [hp]
  rfl

theorem parseTerminated_commaList {α : Type}
    {parse : List Tok → Option (α × List Tok)} (trailing : Bool)
    {items : List (List Tok)} {as : List α}
    (h : List.Forall₂ (ReadsItem parse) items as) {fuel : Nat}
    (hfuel : items.length ≤ fuel) :
    parseTerminated parse fuel (commaList trailing items) = some as := by
  induction h generalizing fuel with
  | nil => exact parseTerminated_nil parse fuel
  | @cons item a items as hitem hitems ih =>
      obtain ⟨fuel, rfl⟩ : ∃ n, fuel = n + 1 := ⟨fuel - 1, by simp at hfuel; omega⟩
      cases hitems with
      | nil =>
          cases trailing with
          | false => simpa [commaList] using parseTerminated_last hitem fuel
          | true =>
              have := parseTerminated_item hitem fuel []
              simpa [commaList, parseTerminated_nil] using this
      | cons hitem' hitems' =>
          rw [commaList, parseTerminated_item hitem fuel, ih (by simpa using hfuel)]
          · rfl
          · simp

/-- No item is empty, so a comma list has as many tokens as items at least. -/
theorem length_le_commaList {α : Type} {parse : List Tok → Option (α × List Tok)}
    (trailing : Bool) {items : List (List Tok)} {as : List α}
    (h : List.Forall₂ (ReadsItem parse) items as) :
    items.length ≤ (commaList trailing items).length := by
  induction h with
  | nil => simp
  | @cons item a items as hitem hitems ih =>
      have hpos : 0 < item.length := List.length_pos_iff.mpr hitem.1
      cases hitems with
      | nil => simp [commaList]; omega
      | cons hitem' hitems' =>
          rw [commaList]
          · simp only [List.length_append, List.length_cons] at ih ⊢
            omega
          · simp

/-- What the value parser reads of a well-formed spec. -/
theorem parseValue_written {syn : Syn Expr} {w : WrittenSpec Expr} (h : w.Ok syn)
    {rest : List Tok} (hrest : rest = [] ∨ ∃ rest', rest = .comma :: rest') :
    syn.parseValue (w.form.tokens ++ rest)
      = some ((w.spec.values, w.spec.optional), rest) := by
  have hvalues : ∀ (trailing : Bool) (vs : List (Written Expr)),
      (∀ v ∈ vs, v ∈ w.form.written) →
      syn.parseValues (commaList trailing (vs.map Written.tokens))
        = some (vs.map Written.expr) := by
    intro trailing vs hvs
    have hall : List.Forall₂ (ReadsItem syn.parseExpr) (vs.map Written.tokens)
        (vs.map Written.expr) := by
      rw [List.forall₂_map_left_iff, List.forall₂_map_right_iff, List.forall₂_same]
      exact fun v hv => ⟨h.nonempty v (hvs v hv), h.reads v (hvs v hv)⟩
    exact parseTerminated_commaList trailing hall (length_le_commaList trailing hall)
  cases hform : w.form with
  | multi values trailing =>
      have := hvalues trailing values (by simp [hform, ValueForm.written])
      simp [ValueForm.tokens, Syn.parseValue, this, WrittenSpec.spec, hform,
        ValueForm.written, ValueForm.isOptional]
  | optional values trailing =>
      have := hvalues trailing values (by simp [hform, ValueForm.written])
      simp [ValueForm.tokens, Syn.parseValue, this, WrittenSpec.spec, hform,
        ValueForm.written, ValueForm.isOptional]
  | single value =>
      have hmem : value ∈ w.form.written := by simp [hform, ValueForm.written]
      have hread := h.reads value hmem rest hrest
      obtain ⟨t, ts, hts⟩ := List.exists_cons_of_ne_nil (h.nonempty value hmem)
      have hstart := h.single value hform
      have hval : syn.parseValue (value.tokens ++ rest)
          = (syn.parseExpr (value.tokens ++ rest)).map
              fun p => (([p.1], false), p.2) := by
        rw [hts] at hstart ⊢
        rw [List.cons_append]
        -- the token in front is neither a brace nor a bracket
        unfold Syn.parseValue
        split
        · rename_i heq
          simp only [List.cons.injEq] at heq
          rw [heq.1] at hstart
          cases hstart
        · rename_i heq
          simp only [List.cons.injEq] at heq
          rw [heq.1] at hstart
          cases hstart
        · rfl
      rw [ValueForm.tokens, hval, hread]
      simp [WrittenSpec.spec, hform, ValueForm.written, ValueForm.isOptional]

theorem parseSpec_written {syn : Syn Expr} {w : WrittenSpec Expr} (h : w.Ok syn) :
    ReadsItem syn.parseSpec w.tokens w.spec := by
  refine ⟨by simp [WrittenSpec.tokens], fun rest hrest => ?_⟩
  simp only [WrittenSpec.tokens, List.cons_append, Syn.parseSpec, h.name,
    Bool.false_eq_true, if_false, parseValue_written h hrest]
  rfl

/-! ## Attributes -/

/-- A `test_fn` attribute as written: bare, or with specs in parentheses. -/
inductive WrittenAttr (Expr : Type) where
  | bare
  | args (specs : List (WrittenSpec Expr)) (trailing : Bool)

def WrittenAttr.specs : WrittenAttr Expr → List (WrittenSpec Expr)
  | .bare => []
  | .args specs _ => specs

/-- What the macro is called with when the attribute is the outermost. -/
def WrittenAttr.tokens : WrittenAttr Expr → List Tok
  | .bare => []
  | .args specs trailing => commaList trailing (specs.map WrittenSpec.tokens)

/-- What is left on the item when it is not. -/
def WrittenAttr.meta : WrittenAttr Expr → Meta
  | .bare => .path
  | .args specs trailing => .list (commaList trailing (specs.map WrittenSpec.tokens))

theorem parseSpecsFromAttr_written {syn : Syn Expr} {a : WrittenAttr Expr}
    (h : ∀ w ∈ a.specs, w.Ok syn) :
    parseSpecsFromAttr syn a.meta = .ok (a.specs.map WrittenSpec.spec) := by
  cases a with
  | bare => rfl
  | args specs trailing =>
      have hall : List.Forall₂ (ReadsItem syn.parseSpec)
          (specs.map WrittenSpec.tokens) (specs.map WrittenSpec.spec) := by
        rw [List.forall₂_map_left_iff, List.forall₂_map_right_iff, List.forall₂_same]
        exact fun w hw => parseSpec_written (h w hw)
      simp only [parseSpecsFromAttr, WrittenAttr.meta, WrittenAttr.specs,
        parseTerminated_commaList trailing hall (length_le_commaList trailing hall),
        expectSpecs]

/-- The outermost attribute is read as it would be in any other place. -/
theorem parseSpecs_written {syn : Syn Expr} {a : WrittenAttr Expr}
    (h : ∀ w ∈ a.specs, w.Ok syn) :
    parseSpecs syn a.tokens = .ok (a.specs.map WrittenSpec.spec) := by
  have hmeta := parseSpecsFromAttr_written h
  cases a with
  | bare => rfl
  | args specs trailing =>
      rw [WrittenAttr.tokens, parseSpecs_eq_fromAttr]
      exact hmeta

end QemuTest

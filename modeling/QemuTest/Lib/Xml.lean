import QemuTest.Lib.Text

/-!
# XML 1.0, the element fragment

Characters, entity references, tags and nesting of XML 1.0 documents made of
one processing instruction, elements with double-quoted attributes, and text.
A document is read in two stages: `lex` cuts it into pieces (a run of text
followed by one tag), `build` nests the pieces. Both stages are executable,
and `lex_render` is the rule a printer is verified with: printed pieces are
read back as they were.

`WellFormed` is the judgment a consumer of the document relies on.
-/

namespace Xml

open Text

/-! ## Characters and entity references -/

/-- Production [2] `Char`: tab, line feed, carriage return, and the scalar
values from U+0020 without U+FFFE and U+FFFF. -/
def isChar (c : Char) : Bool :=
  c == '\t' || c == '\n' || c == '\r' ||
    (0x20 ≤ c.toNat && c.toNat ≤ 0xD7FF) ||
    (0xE000 ≤ c.toNat && c.toNat ≤ 0xFFFD) ||
    (0x10000 ≤ c.toNat && c.toNat ≤ 0x10FFFF)

/-- The entity of a markup-significant character, the character itself
otherwise. -/
def escapeChar : Char → Str
  | '&' => ['&', 'a', 'm', 'p', ';']
  | '<' => ['&', 'l', 't', ';']
  | '>' => ['&', 'g', 't', ';']
  | '"' => ['&', 'q', 'u', 'o', 't', ';']
  | '\'' => ['&', 'a', 'p', 'o', 's', ';']
  | c => [c]

/-- The single-pass escaping of a text. -/
def escape (s : Str) : Str := s.flatMap escapeChar

@[simp] theorem escape_nil : escape [] = [] := rfl

@[simp] theorem escape_cons (c : Char) (s : Str) :
    escape (c :: s) = escapeChar c ++ escape s := rfl

/-- The names of the five predefined entities, each with its `;`. -/
def entityNames : List Str :=
  [['a', 'm', 'p', ';'], ['l', 't', ';'], ['g', 't', ';'],
    ['q', 'u', 'o', 't', ';'], ['a', 'p', 'o', 's', ';']]

/-- `&` occurs only as the start of a predefined entity. -/
def refsOk : Str → Bool
  | [] => true
  | c :: cs => (c != '&' || entityNames.any (· <+: cs)) && refsOk cs

/-- The text a raw value stands for: the five entities decoded from left to
right, everything else kept. -/
def decode : Str → Str
  | '&' :: 'a' :: 'm' :: 'p' :: ';' :: cs => '&' :: decode cs
  | '&' :: 'l' :: 't' :: ';' :: cs => '<' :: decode cs
  | '&' :: 'g' :: 't' :: ';' :: cs => '>' :: decode cs
  | '&' :: 'q' :: 'u' :: 'o' :: 't' :: ';' :: cs => '"' :: decode cs
  | '&' :: 'a' :: 'p' :: 'o' :: 's' :: ';' :: cs => '\'' :: decode cs
  | c :: cs => c :: decode cs
  | [] => []

/-- The five special characters, and the rest: the case split every fact
about `escapeChar` is proved by. -/
theorem escapeChar_cases (c : Char) :
    c = '&' ∨ c = '<' ∨ c = '>' ∨ c = '"' ∨ c = '\'' ∨
      (c ≠ '&' ∧ c ≠ '<' ∧ c ≠ '>' ∧ c ≠ '"' ∧ c ≠ '\'' ∧
        escapeChar c = [c]) := by
  unfold escapeChar
  split <;> simp_all

theorem decode_escapeChar (c : Char) (cs : Str) :
    decode (escapeChar c ++ cs) = c :: decode cs := by
  rcases escapeChar_cases c with rfl | rfl | rfl | rfl | rfl | ⟨h, -, -, -, -, he⟩
  · rfl
  · rfl
  · rfl
  · rfl
  · rfl
  · rw [he, List.singleton_append, decode]
    all_goals simp [h]

/-- **Decoding undoes escaping**, also on text that already contains entity
text. -/
@[simp] theorem decode_escape (s : Str) : decode (escape s) = s := by
  induction s with
  | nil => rfl
  | cons c s ih => rw [escape_cons, decode_escapeChar, ih]

theorem refsOk_escapeChar (c : Char) {cs : Str} (h : refsOk cs = true) :
    refsOk (escapeChar c ++ cs) = true := by
  rcases escapeChar_cases c with rfl | rfl | rfl | rfl | rfl | ⟨hc, -, -, -, -, he⟩
  · simp [escapeChar, refsOk, entityNames, h]
  · simp [escapeChar, refsOk, entityNames, h]
  · simp [escapeChar, refsOk, entityNames, h]
  · simp [escapeChar, refsOk, entityNames, h]
  · simp [escapeChar, refsOk, entityNames, h]
  · simp [he, refsOk, hc, h]

theorem refsOk_escape (s : Str) : refsOk (escape s) = true := by
  induction s with
  | nil => rfl
  | cons c s ih => exact refsOk_escapeChar c ih

/-- An escaped text holds no markup character but `&`. -/
theorem notMem_escape {x : Char} (s : Str)
    (hx : x = '<' ∨ x = '>' ∨ x = '"' ∨ x = '\'') : x ∉ escape s := by
  induction s with
  | nil => simp
  | cons c s ih =>
      rw [escape_cons, List.mem_append, not_or]
      refine ⟨?_, ih⟩
      rcases escapeChar_cases c with
        rfl | rfl | rfl | rfl | rfl | ⟨-, h1, h2, h3, h4, he⟩
      case inr.inr.inr.inr.inr =>
        rw [he, List.mem_singleton]
        rcases hx with rfl | rfl | rfl | rfl
        · exact Ne.symm h1
        · exact Ne.symm h2
        · exact Ne.symm h3
        · exact Ne.symm h4
      all_goals rcases hx with rfl | rfl | rfl | rfl <;> decide

/-- The characters of an escaped text are legal exactly when those of the
text are: escaping neither adds nor removes an illegal character. -/
theorem all_isChar_escape (s : Str) :
    (escape s).all isChar = s.all isChar := by
  induction s with
  | nil => rfl
  | cons c s ih =>
      rw [escape_cons, List.all_append, List.all_cons, ih]
      congr 1
      rcases escapeChar_cases c with rfl | rfl | rfl | rfl | rfl | ⟨-, -, -, -, -, he⟩
      · decide
      · decide
      · decide
      · decide
      · decide
      · simp [he]

/-! ## Tags and pieces -/

/-- An attribute: its name, and its value as written between the quotes. -/
abbrev Attr := Str × Str

/-- A tag as written in the document. -/
inductive Tag where
  | pi (body : Str)
  | start (name : Str) (attrs : List Attr)
  | empty (name : Str) (attrs : List Attr)
  | stop (name : Str)
  deriving DecidableEq, Repr

/-- A run of text and the tag that ends it. -/
structure Piece where
  lead : Str
  tag : Tag
  deriving DecidableEq, Repr

def Attr.render (a : Attr) : Str := ' ' :: a.1 ++ '=' :: '"' :: a.2 ++ ['"']

def Tag.render : Tag → Str
  | .pi body => '<' :: '?' :: body ++ ['?', '>']
  | .start n as => '<' :: n ++ as.flatMap Attr.render ++ ['>']
  | .empty n as => '<' :: n ++ as.flatMap Attr.render ++ [' ', '/', '>']
  | .stop n => '<' :: '/' :: n ++ ['>']

def Piece.render (p : Piece) : Str := p.lead ++ p.tag.render

/-! ## Reading a document into pieces -/

def isNameStart (c : Char) : Bool := c.isAlpha || c == '_' || c == ':'

def isNameChar (c : Char) : Bool :=
  isNameStart c || c.isDigit || c == '-' || c == '.'

def isSpace (c : Char) : Bool := c == ' ' || c == '\n' || c == '\t' || c == '\r'

/-- Where the reader stands. `lead` is the text before the current tag;
`n`, `as`, `a`, `v` are the element name, the attributes read so far, and the
name and value of the one being read. -/
inductive Lex where
  | content (lead : Str)
  | open (lead : Str)
  | pi (lead body : Str)
  | piEnd (lead body : Str)
  | close (lead n : Str)
  | name (lead n : Str)
  | inTag (lead n : Str) (as : List Attr)
  | attrName (lead n : Str) (as : List Attr) (a : Str)
  | attrEq (lead n : Str) (as : List Attr) (a : Str)
  | attrVal (lead n : Str) (as : List Attr) (a v : Str)
  | afterVal (lead n : Str) (as : List Attr)
  | slash (lead n : Str) (as : List Attr)

/-- One character: the state after it and the piece it completes, or `none`
where no document of the fragment continues so. -/
@[simp] def Lex.step : Lex → Char → Option (Lex × Option Piece)
  | .content l, c =>
      if c = '<' then some (.open l, none) else some (.content (l ++ [c]), none)
  | .open l, c =>
      if c = '?' then some (.pi l [], none)
      else if c = '/' then some (.close l [], none)
      else if isNameStart c then some (.name l [c], none)
      else none
  | .pi l b, c =>
      if c = '?' then some (.piEnd l b, none) else some (.pi l (b ++ [c]), none)
  | .piEnd l b, c =>
      if c = '>' then some (.content [], some ⟨l, .pi b⟩)
      else if c = '?' then some (.piEnd l (b ++ ['?']), none)
      else some (.pi l (b ++ ['?', c]), none)
  | .close l n, c =>
      if c = '>' then some (.content [], some ⟨l, .stop n⟩)
      else if isNameChar c then some (.close l (n ++ [c]), none)
      else none
  | .name l n, c =>
      if c = '>' then some (.content [], some ⟨l, .start n []⟩)
      else if c = '/' then some (.slash l n [], none)
      else if isSpace c then some (.inTag l n [], none)
      else if isNameChar c then some (.name l (n ++ [c]), none)
      else none
  | .inTag l n as, c =>
      if c = '>' then some (.content [], some ⟨l, .start n as⟩)
      else if c = '/' then some (.slash l n as, none)
      else if isSpace c then some (.inTag l n as, none)
      else if isNameStart c then some (.attrName l n as [c], none)
      else none
  | .attrName l n as a, c =>
      if c = '=' then some (.attrEq l n as a, none)
      else if isNameChar c then some (.attrName l n as (a ++ [c]), none)
      else none
  | .attrEq l n as a, c =>
      if c = '"' then some (.attrVal l n as a [], none) else none
  | .attrVal l n as a v, c =>
      if c = '"' then some (.afterVal l n (as ++ [(a, v)]), none)
      else some (.attrVal l n as a (v ++ [c]), none)
  | .afterVal l n as, c =>
      if c = '>' then some (.content [], some ⟨l, .start n as⟩)
      else if c = '/' then some (.slash l n as, none)
      else if isSpace c then some (.inTag l n as, none)
      else none
  | .slash l n as, c =>
      if c = '>' then some (.content [], some ⟨l, .empty n as⟩) else none

/-- The pieces from a state on, and the text after the last tag. A document
that ends inside a tag is refused. -/
@[simp] def Lex.run : Lex → Str → Option (List Piece × Str)
  | .content l, [] => some ([], l)
  | _, [] => none
  | st, c :: cs =>
      match st.step c with
      | none => none
      | some (st', none) => st'.run cs
      | some (st', some p) => (st'.run cs).map fun r => (p :: r.1, r.2)

/-- A document as its pieces and the text after the last tag. -/
def lex (s : Str) : Option (List Piece × Str) := (Lex.content []).run s

/-! ## Printed pieces are read back -/

/-- A name: a name start character, then name characters. -/
def isName : Str → Bool
  | [] => false
  | c :: cs => isNameStart c && cs.all isNameChar

/-- What can be written so that it is read back: names are names, values
hold no quote, a processing instruction holds no `?`. -/
def Tag.Clean : Tag → Prop
  | .pi b => '?' ∉ b
  | .start n as => isName n = true ∧ ∀ a ∈ as, isName a.1 = true ∧ '"' ∉ a.2
  | .empty n as => isName n = true ∧ ∀ a ∈ as, isName a.1 = true ∧ '"' ∉ a.2
  | .stop n => isName n = true

def Piece.Clean (p : Piece) : Prop := '<' ∉ p.lead ∧ p.tag.Clean

theorem isNameChar_ne {c x : Char} (h : isNameChar c = true)
    (hx : isNameChar x = false) : c ≠ x := by
  rintro rfl
  simp [h] at hx

/-- Text up to the next `<` joins the text before the tag. -/
theorem run_content {t : Str} (h : '<' ∉ t) (l cs : Str) :
    (Lex.content l).run (t ++ cs) = (Lex.content (l ++ t)).run cs := by
  induction t generalizing l with
  | nil => simp
  | cons c t ih =>
      have hc : c ≠ '<' := fun he => h (by simp [he])
      rw [List.cons_append, Lex.run]
      simp only [Lex.step, if_neg hc]
      rw [ih (fun hm => h (by simp [hm]))]
      simp

theorem run_pi {b : Str} (h : '?' ∉ b) (l b₀ cs : Str) :
    (Lex.pi l b₀).run (b ++ cs) = (Lex.pi l (b₀ ++ b)).run cs := by
  induction b generalizing b₀ with
  | nil => simp
  | cons c b ih =>
      have hc : c ≠ '?' := fun he => h (by simp [he])
      rw [List.cons_append, Lex.run]
      simp only [Lex.step, if_neg hc]
      rw [ih (fun hm => h (by simp [hm]))]
      simp

theorem run_attrVal {v : Str} (h : '"' ∉ v) (l n : Str) (as : List Attr)
    (a v₀ cs : Str) :
    (Lex.attrVal l n as a v₀).run (v ++ cs)
      = (Lex.attrVal l n as a (v₀ ++ v)).run cs := by
  induction v generalizing v₀ with
  | nil => simp
  | cons c v ih =>
      have hc : c ≠ '"' := fun he => h (by simp [he])
      rw [List.cons_append, Lex.run]
      simp only [Lex.step, if_neg hc]
      rw [ih (fun hm => h (by simp [hm]))]
      simp

theorem run_name {m : Str} (h : m.all isNameChar = true) (l n cs : Str) :
    (Lex.name l n).run (m ++ cs) = (Lex.name l (n ++ m)).run cs := by
  induction m generalizing n with
  | nil => simp
  | cons c m ih =>
      simp only [List.all_cons, Bool.and_eq_true] at h
      have h1 : c ≠ '>' := isNameChar_ne h.1 (by decide)
      have h2 : c ≠ '/' := isNameChar_ne h.1 (by decide)
      have h3 : isSpace c = false := by
        simp [isSpace, isNameChar_ne h.1 (x := ' ') (by decide),
          isNameChar_ne h.1 (x := '\n') (by decide),
          isNameChar_ne h.1 (x := '\t') (by decide),
          isNameChar_ne h.1 (x := '\r') (by decide)]
      rw [List.cons_append, Lex.run]
      simp only [Lex.step, if_neg h1, if_neg h2, h3, h.1, if_true,
        Bool.false_eq_true, if_false]
      rw [ih h.2]
      simp

theorem run_close {m : Str} (h : m.all isNameChar = true) (l n cs : Str) :
    (Lex.close l n).run (m ++ cs) = (Lex.close l (n ++ m)).run cs := by
  induction m generalizing n with
  | nil => simp
  | cons c m ih =>
      simp only [List.all_cons, Bool.and_eq_true] at h
      have h1 : c ≠ '>' := isNameChar_ne h.1 (by decide)
      rw [List.cons_append, Lex.run]
      simp only [Lex.step, if_neg h1, h.1, if_true]
      rw [ih h.2]
      simp

theorem run_attrName {m : Str} (h : m.all isNameChar = true) (l n : Str)
    (as : List Attr) (a cs : Str) :
    (Lex.attrName l n as a).run (m ++ cs)
      = (Lex.attrName l n as (a ++ m)).run cs := by
  induction m generalizing a with
  | nil => simp
  | cons c m ih =>
      simp only [List.all_cons, Bool.and_eq_true] at h
      have h1 : c ≠ '=' := isNameChar_ne h.1 (by decide)
      rw [List.cons_append, Lex.run]
      simp only [Lex.step, if_neg h1, h.1, if_true]
      rw [ih h.2]
      simp

theorem isName_all {n : Str} (h : isName n = true) : n.all isNameChar = true := by
  cases n with
  | nil => simp [isName] at h
  | cons c n =>
      simp only [isName, Bool.and_eq_true] at h
      simp [isNameChar, h.1, h.2]

theorem isNameStart_ne {c x : Char} (h : isNameStart c = true)
    (hx : isNameStart x = false) : c ≠ x := by
  rintro rfl
  simp [h] at hx

/-- A whole element name, from the `<` on. -/
theorem run_open {n : Str} (h : isName n = true) (l cs : Str) :
    (Lex.open l).run (n ++ cs) = (Lex.name l n).run cs := by
  cases n with
  | nil => simp [isName] at h
  | cons c n =>
      simp only [isName, Bool.and_eq_true] at h
      have h1 : c ≠ '?' := isNameStart_ne h.1 (by decide)
      have h2 : c ≠ '/' := isNameStart_ne h.1 (by decide)
      rw [List.cons_append, Lex.run]
      simp only [Lex.step, if_neg h1, if_neg h2, h.1, if_true]
      exact run_name h.2 l [c] cs

/-- One printed attribute, after whitespace. -/
theorem run_inTag_attr {a : Attr} (hn : isName a.1 = true) (hv : '"' ∉ a.2)
    (l n : Str) (as : List Attr) (cs : Str) :
    (Lex.inTag l n as).run (a.1 ++ '=' :: '"' :: (a.2 ++ '"' :: cs))
      = (Lex.afterVal l n (as ++ [a])).run cs := by
  obtain ⟨m, v⟩ := a
  cases m with
  | nil => simp [isName] at hn
  | cons c m =>
      simp only [isName, Bool.and_eq_true] at hn
      have h1 : c ≠ '>' := isNameStart_ne hn.1 (by decide)
      have h2 : c ≠ '/' := isNameStart_ne hn.1 (by decide)
      have h3 : isSpace c = false := by
        simp [isSpace, isNameStart_ne hn.1 (x := ' ') (by decide),
          isNameStart_ne hn.1 (x := '\n') (by decide),
          isNameStart_ne hn.1 (x := '\t') (by decide),
          isNameStart_ne hn.1 (x := '\r') (by decide)]
      rw [List.cons_append, Lex.run]
      simp only [Lex.step, if_neg h1, if_neg h2, h3, hn.1, if_true,
        Bool.false_eq_true, if_false]
      rw [run_attrName hn.2, Lex.run]
      simp only [Lex.step, if_true]
      rw [Lex.run]
      simp only [Lex.step, if_true]
      rw [run_attrVal hv, Lex.run]
      simp [Lex.step]

/-- The printed attributes, each with its leading blank. -/
theorem run_attrs {bs : List Attr}
    (h : ∀ a ∈ bs, isName a.1 = true ∧ '"' ∉ a.2) (l n : Str)
    (as : List Attr) (cs : Str) :
    (Lex.afterVal l n as).run (bs.flatMap Attr.render ++ cs)
      = (Lex.afterVal l n (as ++ bs)).run cs := by
  induction bs generalizing as with
  | nil => simp
  | cons b bs ih =>
      have hb := h b (by simp)
      have hsplit : (b :: bs).flatMap Attr.render ++ cs
          = ' ' :: (b.1 ++ '=' :: '"' :: (b.2 ++ '"' :: (bs.flatMap Attr.render ++ cs))) := by
        simp [Attr.render]
      rw [hsplit, Lex.run]
      simp only [Lex.step, isSpace, show (' ' = '>') = False by decide,
        show (' ' = '/') = False by decide, if_false, beq_self_eq_true,
        Bool.true_or, if_true]
      rw [run_inTag_attr hb.1 hb.2, ih (fun a ha => h a (by simp [ha]))]
      simp

/-- From an element name, the attributes lead where they lead after a value:
both states accept the same continuations. -/
theorem run_name_attrs {bs : List Attr}
    (h : ∀ a ∈ bs, isName a.1 = true ∧ '"' ∉ a.2) (l n cs : Str)
    (hcs : ∃ c r, cs = c :: r ∧ (c = '>' ∨ c = ' ')) :
    (Lex.name l n).run (bs.flatMap Attr.render ++ cs)
      = (Lex.afterVal l n bs).run cs := by
  have hstart : ∀ c r, (c = '>' ∨ c = ' ') →
      (Lex.name l n).run (c :: r) = (Lex.afterVal l n []).run (c :: r) := by
    rintro c r (rfl | rfl) <;> rfl
  obtain ⟨c, r, rfl, hc⟩ := hcs
  have hrun := run_attrs h l n [] (c :: r)
  rw [List.nil_append] at hrun
  rw [← hrun]
  cases bs with
  | nil => exact hstart c r hc
  | cons b bs =>
      simp only [List.flatMap_cons, Attr.render, List.cons_append]
      exact hstart ' ' _ (.inr rfl)

/-- **A printed tag is read back**, with the text before it as its lead. -/
theorem run_tag {t : Tag} (h : t.Clean) (l cs : Str) :
    (Lex.content l).run (t.render ++ cs)
      = (lex cs).map fun r => (⟨l, t⟩ :: r.1, r.2) := by
  cases t with
  | pi b =>
      simp only [Tag.render, List.cons_append,
        List.nil_append, List.append_assoc]
      rw [Lex.run]
      simp only [Lex.step, if_true]
      rw [Lex.run]
      simp only [Lex.step, if_true]
      rw [run_pi h, Lex.run]
      simp only [Lex.step, if_true]
      rw [Lex.run]
      simp [Lex.step, lex]
  | start n as =>
      simp only [Tag.render, List.cons_append, List.append_assoc,
        List.nil_append]
      rw [Lex.run]
      simp only [Lex.step, if_true]
      rw [run_open h.1, run_name_attrs h.2 _ _ _ ⟨'>', cs, rfl, .inl rfl⟩,
        Lex.run]
      simp [Lex.step, lex]
  | empty n as =>
      simp only [Tag.render, List.cons_append,
        List.append_assoc, List.nil_append]
      rw [Lex.run]
      simp only [Lex.step, if_true]
      rw [run_open h.1,
        run_name_attrs h.2 _ _ _ ⟨' ', '/' :: '>' :: cs, rfl, .inr rfl⟩,
        Lex.run]
      simp only [Lex.step, isSpace, show (' ' = '>') = False by decide,
        show (' ' = '/') = False by decide, if_false, beq_self_eq_true,
        Bool.true_or, if_true]
      rw [Lex.run]
      simp only [Lex.step, show ('/' = '>') = False by decide, if_false, if_true]
      rw [Lex.run]
      simp [Lex.step, lex]
  | stop n =>
      have hn : isName n = true := h
      simp only [Tag.render, List.cons_append,
        List.append_assoc, List.nil_append]
      rw [Lex.run]
      simp only [Lex.step, if_true]
      rw [Lex.run]
      simp only [Lex.step, show ('/' = '?') = False by decide, if_false, if_true]
      rw [run_close (isName_all hn), Lex.run]
      simp [Lex.step, lex]

/-- **Printed pieces are read back as they were.** -/
theorem lex_render {ps : List Piece} (h : ∀ p ∈ ps, p.Clean) {trail : Str}
    (ht : '<' ∉ trail) :
    lex (ps.flatMap Piece.render ++ trail) = some (ps, trail) := by
  induction ps with
  | nil =>
      have hrun := run_content ht [] []
      simpa [lex, Lex.run] using hrun
  | cons p ps ih =>
      have hp := h p (by simp)
      rw [List.flatMap_cons, Piece.render, List.append_assoc, List.append_assoc,
        lex, run_content hp.1, run_tag hp.2,
        ih (fun q hq => h q (by simp [hq]))]
      simp

/-! ## Line-oriented printing -/

/-- A block of whole lines prints the pieces `ps`: shifted by one line feed,
so that the line end before a tag belongs to the tag's lead. -/
def Prints (block : Str) (ps : List Piece) : Prop :=
  '\n' :: block = ps.flatMap Piece.render ++ ['\n']

theorem Prints.nil : Prints [] [] := rfl

theorem Prints.append {b₁ b₂ : Str} {ps₁ ps₂ : List Piece}
    (h₁ : Prints b₁ ps₁) (h₂ : Prints b₂ ps₂) : Prints (b₁ ++ b₂) (ps₁ ++ ps₂) := by
  unfold Prints at *
  calc '\n' :: (b₁ ++ b₂) = ('\n' :: b₁) ++ b₂ := rfl
    _ = ps₁.flatMap Piece.render ++ ('\n' :: b₂) := by
        rw [h₁, List.append_assoc, List.singleton_append]
    _ = (ps₁ ++ ps₂).flatMap Piece.render ++ ['\n'] := by
        rw [h₂, List.flatMap_append, List.append_assoc]

/-- One line holding one tag. -/
theorem Prints.line (indent : Str) (t : Tag) :
    Prints (indent ++ t.render ++ ['\n']) [⟨'\n' :: indent, t⟩] := by
  simp [Prints, Piece.render]

/-- One line holding an element with its text. -/
theorem Prints.textLine (indent : Str) (t : Tag) (raw : Str) (u : Tag) :
    Prints (indent ++ t.render ++ raw ++ u.render ++ ['\n'])
      [⟨'\n' :: indent, t⟩, ⟨raw, u⟩] := by
  simp [Prints, Piece.render]

theorem Prints.flatMap {α : Type} {f : α → Str} {g : α → List Piece}
    {xs : List α} (h : ∀ x ∈ xs, Prints (f x) (g x)) :
    Prints (xs.flatMap f) (xs.flatMap g) := by
  induction xs with
  | nil => exact Prints.nil
  | cons x xs ih =>
      rw [List.flatMap_cons, List.flatMap_cons]
      exact (h x (by simp)).append (ih fun y hy => h y (by simp [hy]))

/-! ## Nesting -/

/-- A document node. An empty-element tag and an element without content are
the same node. -/
inductive Node where
  | text (raw : Str)
  | pi (body : Str)
  | elem (name : Str) (attrs : List Attr) (children : List Node)

/-- An element that is still open: its name and attributes, and the nodes
that precede it in its parent. -/
abbrev Frame := Str × List Attr × List Node

/-- A run of text is a node unless it is empty. -/
def textNodes (raw : Str) : List Node := if raw = [] then [] else [.text raw]

/-- Nests pieces: `stack` holds the open elements, innermost first, `cur`
the children of the innermost one. An end tag that does not match the
innermost open element, or an element left open, is refused. -/
def build : List Frame → List Node → List Piece → Str → Option (List Node)
  | [], cur, [], trail => some (cur ++ textNodes trail)
  | _ :: _, _, [], _ => none
  | st, cur, ⟨l, .pi b⟩ :: ps, trail =>
      build st (cur ++ textNodes l ++ [.pi b]) ps trail
  | st, cur, ⟨l, .empty n as⟩ :: ps, trail =>
      build st (cur ++ textNodes l ++ [.elem n as []]) ps trail
  | st, cur, ⟨l, .start n as⟩ :: ps, trail =>
      build ((n, as, cur ++ textNodes l) :: st) [] ps trail
  | (n, as, up) :: st, cur, ⟨l, .stop m⟩ :: ps, trail =>
      if n = m then build st (up ++ [.elem n as (cur ++ textNodes l)]) ps trail
      else none
  | [], _, ⟨_, .stop _⟩ :: _, _ => none

/-- A document as its nodes. -/
def parse (s : Str) : Option (List Node) :=
  (lex s).bind fun r => build [] [] r.1 r.2

/-- The pieces `ps` are balanced and stand for the nodes `ns`, wherever they
occur. -/
def Builds (ps : List Piece) (ns : List Node) : Prop :=
  ∀ st cur rest trail,
    build st cur (ps ++ rest) trail = build st (cur ++ ns) rest trail

theorem Builds.nil : Builds [] [] := by
  intro st cur rest trail
  simp

theorem Builds.append {ps qs : List Piece} {ns ms : List Node}
    (h₁ : Builds ps ns) (h₂ : Builds qs ms) : Builds (ps ++ qs) (ns ++ ms) := by
  intro st cur rest trail
  rw [List.append_assoc, h₁, h₂, List.append_assoc]

theorem Builds.flatMap {α : Type} {f : α → List Piece} {g : α → List Node}
    {xs : List α} (h : ∀ x ∈ xs, Builds (f x) (g x)) :
    Builds (xs.flatMap f) (xs.flatMap g) := by
  induction xs with
  | nil => exact Builds.nil
  | cons x xs ih =>
      rw [List.flatMap_cons, List.flatMap_cons]
      exact (h x (by simp)).append (ih fun y hy => h y (by simp [hy]))

theorem Builds.pi (l b : Str) : Builds [⟨l, .pi b⟩] (textNodes l ++ [.pi b]) := by
  intro st cur rest trail
  cases st <;> simp [build]

theorem Builds.empty (l n : Str) (as : List Attr) :
    Builds [⟨l, .empty n as⟩] (textNodes l ++ [.elem n as []]) := by
  intro st cur rest trail
  cases st <;> simp [build]

/-- An element around balanced pieces is balanced. -/
theorem Builds.elem {ps : List Piece} {ns : List Node} (h : Builds ps ns)
    (l n : Str) (as : List Attr) (l' : Str) :
    Builds ([⟨l, .start n as⟩] ++ ps ++ [⟨l', .stop n⟩])
      (textNodes l ++ [.elem n as (ns ++ textNodes l')]) := by
  intro st cur rest trail
  have hstart : build st cur ([⟨l, .start n as⟩] ++ ps ++ [⟨l', .stop n⟩] ++ rest) trail
      = build ((n, as, cur ++ textNodes l) :: st) []
          (ps ++ (⟨l', .stop n⟩ :: rest)) trail := by
    cases st <;> simp [build]
  rw [hstart, h]
  simp [build]

/-- A document printed from clean pieces that stand for `ns` reads as `ns`. -/
theorem parse_render {ps : List Piece} {ns : List Node}
    (hclean : ∀ p ∈ ps, p.Clean) (hbuild : Builds ps ns) {trail : Str}
    (ht : '<' ∉ trail) :
    parse (ps.flatMap Piece.render ++ trail) = some (ns ++ textNodes trail) := by
  have hrun := hbuild [] [] [] trail
  rw [List.append_nil] at hrun
  rw [parse, lex_render hclean ht, Option.bind_some, hrun]
  simp [build]

/-! ## Reading nodes -/

/-- The value of the attribute `key`, its entities decoded. -/
def attr (as : List Attr) (key : Str) : Option Str :=
  (as.find? fun a => a.1 == key).map fun a => decode a.2

theorem attr_cons (k v : Str) (as : List Attr) (key : Str) :
    attr ((k, v) :: as) key = if k = key then some (decode v) else attr as key := by
  by_cases h : k = key <;> simp [attr, h]

/-- The child elements with the name `key`. -/
def elems (key : Str) (ns : List Node) : List (List Attr × List Node) :=
  ns.filterMap fun
    | .elem n as cs => if n = key then some (as, cs) else none
    | _ => none

/-- The text of the children, their entities decoded. -/
def textOf (ns : List Node) : Str :=
  ns.flatMap fun
    | .text raw => decode raw
    | _ => []

@[simp] theorem elems_append (key : Str) (ns ms : List Node) :
    elems key (ns ++ ms) = elems key ns ++ elems key ms := by
  simp [elems]

@[simp] theorem elems_nil (key : Str) : elems key [] = [] := rfl

@[simp] theorem elems_textNodes (key raw : Str) : elems key (textNodes raw) = [] := by
  unfold textNodes
  split <;> rfl

theorem elems_elem (key n : Str) (as : List Attr) (cs ns : List Node) :
    elems key (.elem n as cs :: ns)
      = if n = key then (as, cs) :: elems key ns else elems key ns := by
  by_cases h : n = key <;> simp [elems, h]

@[simp] theorem textOf_textNodes (raw : Str) : textOf (textNodes raw) = decode raw := by
  unfold textNodes
  split
  · rename_i h
    rw [h]
    rfl
  · simp [textOf]

/-! ## Well-formed documents -/

/-- A raw text node or attribute value: `&` only as the start of a predefined
entity, no `<`. -/
def rawOk (raw : Str) : Bool := refsOk raw && !raw.contains '<'

/-- A tag's attributes: distinct names, and values that are `rawOk` and hold
no quote. -/
def attrsOk (as : List Attr) : Bool :=
  decide (as.map Prod.fst).Nodup && as.all fun a => rawOk a.2 && !a.2.contains '"'

def Tag.ok : Tag → Bool
  | .start _ as => attrsOk as
  | .empty _ as => attrsOk as
  | .pi _ => true
  | .stop _ => true

def Piece.ok (p : Piece) : Bool := rawOk p.lead && p.tag.ok

def Node.isElem : Node → Bool
  | .elem _ _ _ => true
  | _ => false

/-- Outside the root element there is only white space and instructions. -/
def Node.isMisc : Node → Bool
  | .text raw => raw.all isSpace
  | .pi _ => true
  | .elem _ _ _ => false

/-- **Well-formedness**: every character is legal, the document reads as
tags whose attribute values and texts are escaped, the tags nest, and there
is exactly one root element. -/
structure WellFormed (s : Str) : Prop where
  legal : ∀ c ∈ s, isChar c = true
  reads : ∃ ps trail nodes, lex s = some (ps, trail) ∧
    (∀ p ∈ ps, p.ok = true) ∧ rawOk trail = true ∧
    build [] [] ps trail = some nodes ∧
    (nodes.filter Node.isElem).length = 1 ∧
    ∀ n ∈ nodes, n.isElem = true ∨ n.isMisc = true

/-- A text without special characters is its own escaping. -/
theorem escape_of_plain {s : Str}
    (h : ∀ c ∈ s, c ≠ '&' ∧ c ≠ '<' ∧ c ≠ '>' ∧ c ≠ '"' ∧ c ≠ '\'') :
    escape s = s := by
  induction s with
  | nil => rfl
  | cons c s ih =>
      have hc := h c (by simp)
      rw [escape_cons, ih fun x hx => h x (by simp [hx])]
      rcases escapeChar_cases c with
        rfl | rfl | rfl | rfl | rfl | ⟨-, -, -, -, -, he⟩
      case inr.inr.inr.inr.inr => rw [he, List.singleton_append]
      all_goals simp at hc

theorem rawOk_escape (s : Str) : rawOk (escape s) = true := by
  simp [rawOk, refsOk_escape, notMem_escape s (x := '<') (.inl rfl)]

/-! ## Writers that escape -/

/-- A raw value as an escaping writer puts it. -/
def IsEscaped (raw : Str) : Prop := ∃ v, raw = escape v

theorem isEscaped_escape (v : Str) : IsEscaped (escape v) := ⟨v, rfl⟩

/-- A text without special characters reads as itself. -/
theorem decode_of_plain {s : Str}
    (h : ∀ c ∈ s, c ≠ '&' ∧ c ≠ '<' ∧ c ≠ '>' ∧ c ≠ '"' ∧ c ≠ '\'') :
    decode s = s := by
  have hdec := decode_escape s
  rwa [escape_of_plain h] at hdec

theorem isEscaped_of_plain {s : Str}
    (h : ∀ c ∈ s, c ≠ '&' ∧ c ≠ '<' ∧ c ≠ '>' ∧ c ≠ '"' ∧ c ≠ '\'') :
    IsEscaped s := ⟨s, (escape_of_plain h).symm⟩

def AttrsEscaped (as : List Attr) : Prop :=
  (as.map Prod.fst).Nodup ∧ ∀ a ∈ as, isName a.1 = true ∧ IsEscaped a.2

def Tag.Escaped : Tag → Prop
  | .pi b => '?' ∉ b
  | .start n as => isName n = true ∧ AttrsEscaped as
  | .empty n as => isName n = true ∧ AttrsEscaped as
  | .stop n => isName n = true

theorem Tag.escaped_stop {n : Str} (h : isName n = true) : (Tag.stop n).Escaped := h

/-- A piece an escaping writer prints: both readable and well-formed. -/
def Piece.Escaped (p : Piece) : Prop := IsEscaped p.lead ∧ p.tag.Escaped

theorem AttrsEscaped.nil : AttrsEscaped [] := ⟨List.nodup_nil, by simp⟩

theorem AttrsEscaped.cons {as : List Attr} (h : AttrsEscaped as) {k v : Str}
    (hk : isName k = true) (hnew : k ∉ as.map Prod.fst) (hv : IsEscaped v) :
    AttrsEscaped ((k, v) :: as) := by
  refine ⟨List.nodup_cons.mpr ⟨hnew, h.1⟩, fun a ha => ?_⟩
  rcases List.mem_cons.mp ha with rfl | ha
  · exact ⟨hk, hv⟩
  · exact h.2 a ha

theorem AttrsEscaped.clean {as : List Attr} (h : AttrsEscaped as) :
    ∀ a ∈ as, isName a.1 = true ∧ '"' ∉ a.2 := by
  intro a ha
  obtain ⟨hn, v, hv⟩ := h.2 a ha
  exact ⟨hn, hv ▸ notMem_escape v (by simp)⟩

theorem AttrsEscaped.ok {as : List Attr} (h : AttrsEscaped as) :
    attrsOk as = true := by
  rw [attrsOk, Bool.and_eq_true, decide_eq_true_eq, List.all_eq_true]
  refine ⟨h.1, fun a ha => ?_⟩
  obtain ⟨-, v, hv⟩ := h.2 a ha
  simp [hv, rawOk_escape, notMem_escape v (x := '"') (by simp)]

theorem Piece.Escaped.clean {p : Piece} (h : p.Escaped) : p.Clean := by
  obtain ⟨l, t⟩ := p
  obtain ⟨⟨v, hv⟩, ht⟩ := h
  refine ⟨hv ▸ notMem_escape v (.inl rfl), ?_⟩
  cases t with
  | pi b => exact ht
  | start n as => exact ⟨ht.1, ht.2.clean⟩
  | empty n as => exact ⟨ht.1, ht.2.clean⟩
  | stop n => exact ht

theorem Piece.Escaped.ok {p : Piece} (h : p.Escaped) : p.ok = true := by
  obtain ⟨l, t⟩ := p
  obtain ⟨⟨v, hv⟩, ht⟩ := h
  have hl : rawOk l = true := by
    rw [show l = escape v from hv]
    exact rawOk_escape v
  rw [Piece.ok, hl, Bool.true_and]
  cases t with
  | pi b => rfl
  | start n as => exact ht.2.ok
  | empty n as => exact ht.2.ok
  | stop n => rfl

end Xml

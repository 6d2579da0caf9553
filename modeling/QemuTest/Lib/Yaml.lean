import QemuTest.Lib.Text

/-!
# YAML 1.1, the block fragment

Documents of block mappings and block sequences whose scalars are plain or
single-quoted and stand on one line. A text is read line by line: `lexLine`
makes tokens of a line, each with its column, and `place` puts a token in the
collections that are open. What is not in the fragment (flow collections,
block scalars, anchors, scalars over several lines, document markers) is
refused, never misread.

`resolve` gives a plain scalar its type. Numbers keep their text; timestamps
are left out.
-/

namespace Yaml

open Text

inductive Node where
  | null
  | bool (b : Bool)
  | number (text : Str)
  | str (s : Str)
  | seq (vs : List Node)
  | map (kvs : List (Str × Node))

/-! ## Plain scalars -/

def nullWords : List Str :=
  [[], ['~'], ['n', 'u', 'l', 'l'], ['N', 'u', 'l', 'l'], ['N', 'U', 'L', 'L']]

def trueWords : List Str :=
  [['y'], ['Y'], ['y', 'e', 's'], ['Y', 'e', 's'], ['Y', 'E', 'S'],
    ['t', 'r', 'u', 'e'], ['T', 'r', 'u', 'e'], ['T', 'R', 'U', 'E'],
    ['o', 'n'], ['O', 'n'], ['O', 'N']]

def falseWords : List Str :=
  [['n'], ['N'], ['n', 'o'], ['N', 'o'], ['N', 'O'],
    ['f', 'a', 'l', 's', 'e'], ['F', 'a', 'l', 's', 'e'], ['F', 'A', 'L', 'S', 'E'],
    ['o', 'f', 'f'], ['O', 'f', 'f'], ['O', 'F', 'F']]

/-- Without its sign. -/
def unsigned : Str → Str
  | '+' :: s => s
  | '-' :: s => s
  | s => s

def isOctal (c : Char) : Bool := '0' ≤ c && c ≤ '7'

def isHex (c : Char) : Bool := c.isDigit || ('a' ≤ c && c ≤ 'f') || ('A' ≤ c && c ≤ 'F')

/-- A digit of the groups behind the colons of base 60. -/
def isGroup : Str → Bool
  | [c] => c.isDigit
  | [b, c] => ('0' ≤ b && b ≤ '5') && c.isDigit
  | _ => false

/-- Digits and underscores, a digit first. -/
def isDigits : Str → Bool
  | [] => false
  | c :: cs => c.isDigit && cs.all fun d => d.isDigit || d = '_'

/-- `0b…`, `0x…`, `0…`, decimal, and base 60. -/
def isInt (s : Str) : Bool :=
  match unsigned s with
  | '0' :: 'b' :: ds => !ds.isEmpty && ds.all fun c => c = '0' || c = '1' || c = '_'
  | '0' :: 'x' :: ds => !ds.isEmpty && ds.all fun c => isHex c || c = '_'
  | '0' :: ds => ds.all fun c => isOctal c || c = '_'
  | t =>
      match t.splitOn ':' with
      | [] => false
      | h :: gs => isDigits h && gs.all isGroup

/-- The exponent of a float, and nothing else. -/
def isExponent : Str → Bool
  | [] => true
  | e :: sign :: ds =>
      (e = 'e' || e = 'E') && (sign = '+' || sign = '-') && !ds.isEmpty && ds.all Char.isDigit
  | _ => false

/-- Decimal with an optional exponent, base 60, infinities, and not a number. -/
def isFloat (s : Str) : Bool :=
  match (unsigned s).splitOn '.' with
  | [whole, rest] =>
      let fraction := rest.takeWhile fun c => c.isDigit || c = '_'
      let exponent := rest.drop fraction.length
      let decimal := isDigits whole || (whole.isEmpty && isDigits fraction)
      let sexagesimal := match whole.splitOn ':' with
        | h :: g :: gs => isDigits h && (g :: gs).all isGroup
        | _ => false
      let special := whole.isEmpty && [['i', 'n', 'f'], ['I', 'n', 'f'], ['I', 'N', 'F'],
        ['n', 'a', 'n'], ['N', 'a', 'N'], ['N', 'A', 'N']].contains rest
      (decimal && isExponent exponent) || (sexagesimal && exponent.isEmpty) || special
  | _ => false

/-- The value of a plain scalar. -/
def resolve (s : Str) : Node :=
  if nullWords.contains s then .null
  else if trueWords.contains s then .bool true
  else if falseWords.contains s then .bool false
  else if isInt s || isFloat s then .number s
  else .str s

/-! ## Tokens -/

/-- The characters of a document, as far as the fragment has them. -/
def isPrintable (c : Char) : Bool :=
  let n := c.toNat
  c = '\n' || (0x20 ≤ n && n ≤ 0x7E) ||
    (0xA0 ≤ n && !([0x2028, 0x2029, 0xFEFF, 0xFFFE, 0xFFFF].contains n))

def indicators : Str :=
  ['-', '?', ':', ',', '[', ']', '{', '}', '#', '&', '*', '!', '|', '>', '\'', '"', '%', '@',
    (Char.ofNat 0x60)]

/-- May a plain scalar start like this? -/
def plainStart : Str → Bool
  | [] => false
  | [c] => !indicators.contains c
  | c :: d :: _ => !indicators.contains c || ((c = '-' || c = '?' || c = ':') && d ≠ ' ')

/-- The key of a mapping entry and what follows its colon; a comment ends the
search. -/
def splitKey : Str → Option (Str × Str)
  | [] => none
  | [':'] => some ([], [])
  | ':' :: ' ' :: cs => some ([], cs)
  | ' ' :: '#' :: _ => none
  | c :: cs => (splitKey cs).map fun p => (c :: p.1, p.2)

/-- Up to a comment. -/
def cutComment : Str → Str
  | [] => []
  | ' ' :: '#' :: _ => []
  | c :: cs => c :: cutComment cs

def trimSpaces (s : Str) : Str := (s.reverse.dropWhile (· = ' ')).reverse

/-- Nothing but blanks, or a comment behind them. -/
def isBlank (s : Str) : Bool :=
  match s.dropWhile (· = ' ') with
  | [] => true
  | c :: cs => c = '#' && s ≠ c :: cs

/-- The text of a single-quoted scalar whose opening quote has been read, and
what follows it. -/
def unquote : Str → Option (Str × Str)
  | [] => none
  | '\'' :: '\'' :: cs => (unquote cs).map fun p => ('\'' :: p.1, p.2)
  | '\'' :: cs => some ([], cs)
  | c :: cs => (unquote cs).map fun p => (c :: p.1, p.2)

inductive Token where
  | dash
  | key (k : Str)
  | scalar (v : Node)

/-- A scalar on the rest of a line; a blank rest is no token. -/
def lexScalar (col : Nat) (s : Str) : Option (List (Nat × Token)) :=
  match s.dropWhile (· = ' ') with
  | [] => some []
  | '#' :: _ => some []
  | '\'' :: cs =>
      match unquote cs with
      | some (v, rest) => if isBlank rest then some [(col, .scalar (.str v))] else none
      | none => none
  | t =>
      if plainStart t && (splitKey t).isNone then
        some [(col, .scalar (resolve (trimSpaces (cutComment t))))]
      else none

/-- The rest of a line from column `col` on. -/
def lexText (col : Nat) : Str → Option (List (Nat × Token))
  | [] => some []
  | ' ' :: cs => lexText (col + 1) cs
  | '#' :: _ => some []
  | ['-'] => some [(col, .dash)]
  | '-' :: ' ' :: cs => (lexText (col + 2) cs).map fun ts => (col, .dash) :: ts
  | t =>
      match splitKey t with
      | some (k, rest) =>
          match plainStart k, resolve (trimSpaces k) with
          | true, .str name => (lexScalar (col + 1) rest).map fun ts => (col, .key name) :: ts
          | _, _ => none
      | none => lexScalar col t

def lexLine (l : Str) : Option (List (Nat × Token)) :=
  if ['-', '-', '-'] <+: l ∨ ['.', '.', '.'] <+: l then none else lexText 0 l

/-! ## Open collections -/

/-- The document and the collections open in it, each with its column, the
nodes it has, and whether (or for which key) it awaits one. -/
inductive Frame where
  | doc (v : Option Node)
  | seq (col : Nat) (done : List Node) (pending : Bool)
  | map (col : Nat) (done : List (Str × Node)) (pending : Option Str)

namespace Frame

def awaits : Frame → Bool
  | .doc v => v.isNone
  | .seq _ _ pending => pending
  | .map _ _ pending => pending.isSome

/-- The frame with the node it awaits. -/
def put (v : Node) : Frame → Option Frame
  | .doc none => some (.doc (some v))
  | .seq col done true => some (.seq col (done ++ [v]) false)
  | .map col done (some k) => some (.map col (done ++ [(k, v)]) none)
  | _ => none

/-- A node that does not come is null. -/
def settle (f : Frame) : Frame := (f.put .null).getD f

/-- The collection as a node. -/
def close (f : Frame) : Option Node :=
  match f.settle with
  | .doc _ => none
  | .seq _ done _ => some (.seq done)
  | .map _ done _ => some (.map done)

/-- Does it start behind the column? -/
def deeper (n : Nat) : Frame → Bool
  | .doc _ => false
  | .seq col _ _ | .map col _ _ => n < col

/-- Is it a sequence at the column? -/
def isSeqAt (n : Nat) : Frame → Bool
  | .seq col _ _ => col = n
  | _ => false

def isDoc : Frame → Bool
  | .doc _ => true
  | _ => false

/-- With a node, if there is one. -/
def accept : Option Node → Frame → Option Frame
  | none, f => some f
  | some v, f => f.put v

end Frame

/-- Closes frames with `p`, innermost first, each into the next one. -/
def unwind (p : Frame → Bool) : Option Node → List Frame → Option (List Frame)
  | _, [] => none
  | v, f :: fs => do
      let g ← f.accept v
      if p g then unwind p (some (← g.close)) fs else some (g :: fs)

/-- An entry of a sequence: of the one at this column, or of a new one where a
node is awaited. The entries of a sequence that is the value of a key may
stand in the column of the key. -/
def dashAt (n : Nat) (stack : List Frame) : Option (List Frame) := do
  match ← unwind (Frame.deeper n) none stack with
  | .seq col done pending :: fs =>
      if col = n then some (.seq n (if pending then done ++ [.null] else done) true :: fs)
      else if pending then some (.seq n [] true :: .seq col done pending :: fs)
      else none
  | f :: fs => if f.awaits then some (.seq n [] true :: f :: fs) else none
  | [] => none

/-- A key: of the mapping at this column, or of a new one where a node is
awaited. -/
def keyAt (n : Nat) (k : Str) (stack : List Frame) : Option (List Frame) := do
  match ← unwind (fun f => f.deeper n || f.isSeqAt n) none stack with
  | .map col done pending :: fs =>
      if col = n then
        let done := match pending with
          | some k' => done ++ [(k', .null)]
          | none => done
        some (.map n done (some k) :: fs)
      else if pending.isSome then some (.map n [] (some k) :: .map col done pending :: fs)
      else none
  | f :: fs => if f.awaits then some (.map n [] (some k) :: f :: fs) else none
  | [] => none

def scalarAt (n : Nat) (v : Node) (stack : List Frame) : Option (List Frame) := do
  match ← unwind (fun f => f.deeper n || f.isSeqAt n) none stack with
  | f :: fs => (f.put v).map (· :: fs)
  | [] => none

def place (stack : List Frame) : Nat × Token → Option (List Frame)
  | (n, .dash) => dashAt n stack
  | (n, .key k) => keyAt n k stack
  | (n, .scalar v) => scalarAt n v stack

def readLine (stack : List Frame) (l : Str) : Option (List Frame) :=
  (lexLine l).bind fun ts => ts.foldlM place stack

/-- The node of a document all of whose lines are read. -/
def finish (stack : List Frame) : Option Node := do
  match ← unwind (fun f => !f.isDoc) none stack with
  | [.doc v] => some (v.getD .null)
  | _ => none

def read (text : Str) : Option Node :=
  if text.all isPrintable then
    ((text.splitOn '\n').foldlM readLine [.doc none]).bind finish
  else none

/-- The value of a key. -/
def Node.get (k : Str) : Node → Option Node
  | .map kvs => (kvs.find? fun p => p.1 = k).map Prod.snd
  | _ => none

/-! ## Reading scalars and keys -/

theorem splitKey_cons {c : Char} (hc : c ≠ ':') {s : Str} (h : '#' ∉ s) :
    splitKey (c :: s) = (splitKey s).map fun p => (c :: p.1, p.2) := by
  rw [splitKey]
  · exact fun h' => absurd h' hc
  · exact fun _ h' => absurd h' hc
  · rintro cs rfl rfl
    simp at h

/-- Without a colon there is no key. -/
theorem splitKey_of_notMem {s : Str} (h : ':' ∉ s) (hh : '#' ∉ s) : splitKey s = none := by
  induction s with
  | nil => rfl
  | cons c s ih =>
      simp only [List.mem_cons, not_or] at h hh
      rw [splitKey_cons (Ne.symm h.1) hh.2, ih h.2 hh.2, Option.map_none]

theorem splitKey_key {k r : Str} (h : ∀ c ∈ k, c ≠ ':' ∧ c ≠ ' ') :
    splitKey (k ++ ':' :: ' ' :: r) = some (k, r) := by
  induction k with
  | nil => rfl
  | cons c k ih =>
      obtain ⟨hcolon, hspace⟩ := h c List.mem_cons_self
      rw [List.cons_append, splitKey, ih fun d hd => h d (List.mem_cons_of_mem _ hd),
        Option.map_some]
      · exact fun h' => absurd h' hcolon
      · exact fun _ h' => absurd h' hcolon
      · exact fun _ h' => absurd h' hspace

theorem cutComment_of_notMem {s : Str} (h : '#' ∉ s) : cutComment s = s := by
  induction s with
  | nil => rfl
  | cons c s ih =>
      simp only [List.mem_cons, not_or] at h
      rw [cutComment, ih h.2]
      rintro cs - rfl
      simp at h

theorem trimSpaces_eq {s : Str} (h : s.getLast? ≠ some ' ') : trimSpaces s = s := by
  cases s using List.reverseRecOn with
  | nil => rfl
  | append_singleton s c =>
      have hc : c ≠ ' ' := fun he => h (by simp [he])
      simp [trimSpaces, hc]

/-- A text that is a plain scalar as it stands. -/
structure Plain (s : Str) : Prop where
  start : plainStart s = true
  colon : ':' ∉ s
  hash : '#' ∉ s
  head : s.head? ≠ some ' '
  last : s.getLast? ≠ some ' '

/-- A plain text does not look like anything else. -/
theorem Plain.cases {s : Str} (h : Plain s) : ∃ c cs, s = c :: cs ∧ c ≠ ' ' ∧ c ≠ '#' ∧
    c ≠ '\'' ∧ (c = '-' → cs ≠ [] ∧ cs.head? ≠ some ' ') := by
  obtain ⟨hstart, -, hhash, hhead, -⟩ := h
  cases s with
  | nil => cases hstart
  | cons c cs =>
      refine ⟨c, cs, rfl, fun he => hhead (by simp [he]), fun he => hhash (by simp [he]), ?_, ?_⟩
      · rintro rfl
        cases cs <;> simp [plainStart, indicators] at hstart
      · rintro rfl
        cases cs with
        | nil => simp [plainStart, indicators] at hstart
        | cons d cs => simpa [plainStart, indicators] using hstart

theorem lexScalar_plain {s : Str} (h : Plain s) (col : Nat) :
    lexScalar col s = some [(col, .scalar (resolve s))] := by
  obtain ⟨c, cs, rfl, hspace, hhash, hquote, -⟩ := h.cases
  have hdrop : (c :: cs).dropWhile (· = ' ') = c :: cs := by simp [hspace]
  rw [lexScalar, hdrop]
  split
  · rename_i heq
    cases heq
  · rename_i heq
    exact absurd (List.cons.inj heq).1 hhash
  · rename_i heq
    exact absurd (List.cons.inj heq).1 hquote
  · rw [h.start, splitKey_of_notMem h.colon h.hash, cutComment_of_notMem h.hash,
      trimSpaces_eq h.last]
    rfl

theorem lexText_plain {s : Str} (h : Plain s) (col : Nat) :
    lexText col s = some [(col, .scalar (resolve s))] := by
  obtain ⟨c, cs, rfl, hspace, hhash, -, hdash⟩ := h.cases
  rw [lexText, splitKey_of_notMem h.colon h.hash]
  · exact lexScalar_plain h col
  · exact List.cons_ne_nil c cs
  · exact fun _ he => hspace (List.cons.inj he).1
  · exact fun _ he => hhash (List.cons.inj he).1
  · exact fun he => (hdash (List.cons.inj he).1).1 (List.cons.inj he).2
  · intro cs' he
    obtain ⟨rfl, rfl⟩ := List.cons.inj he
    exact (hdash rfl).2 rfl

/-- A key as templates write it: a word that is read as a string. -/
def isKey (k : Str) : Bool :=
  k.head?.any Char.isAlpha && k.all (fun c => c.isAlphanum || c = '_') &&
    match resolve k with
    | .str s => s = k
    | _ => false

theorem isKey_chars {k : Str} (h : isKey k = true) : ∀ c ∈ k, c ≠ ':' ∧ c ≠ ' ' := by
  simp only [isKey, Bool.and_eq_true, List.all_eq_true] at h
  intro c hc
  have hword := h.1.2 c hc
  constructor
  · rintro rfl
    exact absurd hword (by decide)
  · rintro rfl
    exact absurd hword (by decide)

theorem isKey_resolve {k : Str} (h : isKey k = true) : resolve k = .str k := by
  simp only [isKey, Bool.and_eq_true] at h
  have hres := h.2
  split at hres
  · rename_i s heq
    rw [heq, of_decide_eq_true hres]
  · cases hres

/-- A key starts with a letter. -/
theorem isKey_cons {k : Str} (h : isKey k = true) : ∃ c cs, k = c :: cs ∧ c.isAlpha = true := by
  simp only [isKey, Bool.and_eq_true] at h
  cases k with
  | nil => simp at h
  | cons c cs => exact ⟨c, cs, rfl, by simpa using h.1.1⟩

theorem isKey_start {k : Str} (h : isKey k = true) : plainStart k = true := by
  obtain ⟨c, cs, rfl, halpha⟩ := isKey_cons h
  have hplain : c ∉ indicators := fun hmem => by
    have hall : ∀ d ∈ indicators, d.isAlpha = false := forall_chars (by decide)
    rw [hall c hmem] at halpha
    cases halpha
  cases cs <;> simp [plainStart, hplain]

/-- A line that starts with a key. -/
theorem lexText_splitKey {k s r : Str} (hk : isKey k = true) (col : Nat)
    (hs : ∃ c cs, s = c :: cs ∧ c.isAlpha = true) (hsplit : splitKey s = some (k, r)) :
    lexText col s = (lexScalar (col + 1) r).map fun ts => (col, .key k) :: ts := by
  obtain ⟨c, cs, rfl, halpha⟩ := hs
  have hc : ∀ d, d.isAlpha = false → c ≠ d := by
    rintro d hd rfl
    rw [halpha] at hd
    cases hd
  have htrim : trimSpaces k = k := trimSpaces_eq fun hlast =>
    (isKey_chars hk ' ' (List.mem_of_getLast? hlast)).2 rfl
  rw [lexText, hsplit]
  · simp only [htrim, isKey_start hk, isKey_resolve hk]
  · exact List.cons_ne_nil c cs
  · exact fun _ he => hc ' ' (by decide) (List.cons.inj he).1
  · exact fun _ he => hc '#' (by decide) (List.cons.inj he).1
  · exact fun he => hc '-' (by decide) (List.cons.inj he).1
  · exact fun _ he => hc '-' (by decide) (List.cons.inj he).1

theorem lexText_dash (col : Nat) (s : Str) :
    lexText col ('-' :: ' ' :: s) = (lexText (col + 2) s).map fun ts => (col, .dash) :: ts := rfl

theorem lexText_entry {k : Str} (hk : isKey k = true) (col : Nat) (r : Str) :
    lexText col (k ++ ':' :: ' ' :: r)
      = (lexScalar (col + 1) r).map fun ts => (col, .key k) :: ts := by
  refine lexText_splitKey hk col ?_ (splitKey_key (isKey_chars hk))
  obtain ⟨c, cs, rfl, halpha⟩ := isKey_cons hk
  exact ⟨c, _, rfl, halpha⟩

/-! ## Resolving -/

/-- When a plain scalar is a string. -/
theorem resolve_eq_str {s t : Str} : resolve s = .str t ↔
    s ∉ nullWords ++ trueWords ++ falseWords ∧ isInt s = false ∧ isFloat s = false ∧ s = t := by
  simp only [resolve, List.contains_iff_mem, List.mem_append, not_or]
  split
  · rename_i h
    simp [h]
  split
  · rename_i h
    simp [h]
  split
  · rename_i h
    simp [h]
  split
  · rename_i hnumber
    simp only [reduceCtorEq, false_iff]
    rintro ⟨-, hint, hfloat, -⟩
    simp [hint, hfloat] at hnumber
  · rename_i hnull htrue hfalse hnumber
    simp only [Bool.or_eq_true, not_or, Bool.not_eq_true] at hnumber
    simp [hnull, htrue, hfalse, hnumber]

theorem resolve_str {s : Str} (hwords : s ∉ nullWords ++ trueWords ++ falseWords)
    (hint : isInt s = false) (hfloat : isFloat s = false) : resolve s = .str s :=
  resolve_eq_str.mpr ⟨hwords, hint, hfloat, rfl⟩

theorem isFloat_of_notMem {s : Str} (h : '.' ∉ s) : isFloat s = false := by
  have hunsigned : '.' ∉ unsigned s := by
    unfold unsigned
    split
    · exact fun hm => h (List.mem_cons_of_mem _ hm)
    · exact fun hm => h (List.mem_cons_of_mem _ hm)
    · exact h
  rw [isFloat, List.splitOn_eq_singleton hunsigned]

/-- Neither a digit, nor a sign, nor a point. -/
def isNumberStart (c : Char) : Bool := c.isDigit || c = '+' || c = '-' || c = '.'

theorem unsigned_of_start {c : Char} {s : Str} (h : isNumberStart c = false) :
    unsigned (c :: s) = c :: s := by
  simp only [isNumberStart, Bool.or_eq_false_iff, decide_eq_false_iff_not] at h
  rw [unsigned]
  · exact fun _ he => h.1.1.2 (List.cons.inj he).1
  · exact fun _ he => h.1.2 (List.cons.inj he).1

/-- What stands before a separator is nothing or starts as the whole. -/
theorem splitOn_head {c d : Char} {s h : Str} {gs : List Str}
    (heq : (c :: s).splitOn d = h :: gs) : h = [] ∨ ∃ t, h = c :: t := by
  rw [List.splitOn_cons_eq_if_modifyHead] at heq
  split at heq
  · exact .inl (List.cons.inj heq).1.symm
  · cases hs : s.splitOn d with
    | nil => exact absurd hs (List.splitOn_ne_nil _ _)
    | cons t ts =>
        rw [hs] at heq
        exact .inr ⟨t, (List.cons.inj heq).1.symm⟩

theorem isDigits_of_start {c : Char} (h : c.isDigit = false) (s : Str) :
    isDigits (c :: s) = false := by
  simp [isDigits, h]

theorem isInt_of_start {c : Char} {s : Str} (h : isNumberStart c = false) :
    isInt (c :: s) = false := by
  have hdigit : c.isDigit = false := by
    simp only [isNumberStart, Bool.or_eq_false_iff] at h
    exact h.1.1.1
  have hzero : c ≠ '0' := by
    rintro rfl
    cases hdigit
  rw [isInt, unsigned_of_start h]
  split
  · rename_i heq
    exact absurd (List.cons.inj heq).1 hzero
  · rename_i heq
    exact absurd (List.cons.inj heq).1 hzero
  · rename_i heq
    exact absurd (List.cons.inj heq).1 hzero
  · split
    · rfl
    · rename_i heq
      rcases splitOn_head heq with rfl | ⟨t, rfl⟩
      · rfl
      · rw [isDigits_of_start hdigit, Bool.false_and]

theorem isFloat_of_start {c : Char} {s : Str} (h : isNumberStart c = false) :
    isFloat (c :: s) = false := by
  have hdigit : c.isDigit = false ∧ c ≠ '.' := by
    simp only [isNumberStart, Bool.or_eq_false_iff, decide_eq_false_iff_not] at h
    exact ⟨h.1.1.1, h.2⟩
  rw [isFloat, unsigned_of_start h]
  split
  · rename_i whole rest heq
    have hwhole : whole ≠ [] := by
      rintro rfl
      rw [List.splitOn_cons_eq_if_modifyHead, if_neg (by simpa using hdigit.2)] at heq
      cases hs : s.splitOn '.' with
      | nil => exact absurd hs (List.splitOn_ne_nil _ _)
      | cons t ts =>
          rw [hs] at heq
          cases heq
    obtain ⟨t, rfl⟩ := (splitOn_head heq).resolve_left hwhole
    have hsexagesimal : ∀ h gs, (c :: t).splitOn ':' = h :: gs → isDigits h = false := by
      intro h gs heq
      rcases splitOn_head heq with rfl | ⟨u, rfl⟩
      · rfl
      · exact isDigits_of_start hdigit.1 u
    simp only [isDigits_of_start hdigit.1, List.isEmpty_cons, Bool.false_and, Bool.or_false]
    split
    · rename_i heq
      simp [hsexagesimal _ _ heq]
    · simp
  · rfl

/-! ## Reading lines -/

/-- The text of the lines. -/
def unlines (ls : List Str) : Str := ls.flatMap fun l => l ++ ['\n']

theorem unlines_append (ls ls' : List Str) : unlines (ls ++ ls') = unlines ls ++ unlines ls' :=
  List.flatMap_append

theorem splitOn_unlines {ls : List Str} (h : ∀ l ∈ ls, '\n' ∉ l) :
    (unlines ls).splitOn '\n' = ls ++ [[]] := by
  induction ls with
  | nil => rfl
  | cons l ls ih =>
      have hcons : unlines (l :: ls) = l ++ '\n' :: unlines ls := by simp [unlines]
      rw [hcons, List.splitOn_append_cons_self_of_not_mem (h l List.mem_cons_self),
        ih fun m hm => h m (List.mem_cons_of_mem _ hm), List.cons_append]

theorem lexLine_eq {l : Str} (h : ¬ ['-', '-', '-'] <+: l) (h' : ¬ ['.', '.', '.'] <+: l) :
    lexLine l = lexText 0 l := by
  rw [lexLine, if_neg (not_or.mpr ⟨h, h'⟩)]

/-- A line with its tokens, and the lines after it. -/
theorem readLine_cons {l : Str} {ts : List (Nat × Token)} (h : lexLine l = some ts)
    {s t : List Frame} (hs : ts.foldlM place s = some t) (ls : List Str) :
    (l :: ls).foldlM readLine s = ls.foldlM readLine t := by
  rw [List.foldlM_cons, readLine, h, Option.bind_some, hs]
  rfl

/-- **A document is read line by line.** -/
theorem read_unlines {ls : List Str} (h : ∀ l ∈ ls, '\n' ∉ l)
    (hprint : ∀ l ∈ ls, l.all isPrintable = true) :
    read (unlines ls) = (ls.foldlM readLine [.doc none]).bind finish := by
  have hall : (unlines ls).all isPrintable = true := by
    rw [unlines, List.all_flatMap, List.all_eq_true]
    intro l hl
    rw [List.all_append, hprint l hl]
    rfl
  rw [read, if_pos hall, splitOn_unlines h, List.foldlM_append]
  congr 1
  cases ls.foldlM readLine [.doc none] <;> rfl

end Yaml

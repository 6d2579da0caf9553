import Mathlib.Data.List.Infix
import Mathlib.Data.List.Basic
import Mathlib.Data.List.TakeWhile

/-!
# Text

Strings as sequences of Unicode scalar values, with the operations of a
string library that the models call: substring test, replacement of single
characters, decimal rendering of naturals.

`Char` ranges over the Unicode scalar values, so `Str` is exactly the value
set of an owned UTF-8 string.
-/

namespace Text

/-- A string, as its scalar values in order. -/
abbrev Str := List Char

/-- What a program panics with. -/
abbrev Panic := Str

/-- A string literal as its scalar values. Irreducible, so that no unifier
decodes it: `simp [lit]` is the only way it opens. -/
@[irreducible] def lit (s : String) : Str := s.toList

/-- Substring test. -/
def contains (s t : Str) : Bool := decide (t <:+: s)

@[simp] theorem contains_iff {s t : Str} : contains s t = true ↔ t <:+: s := by
  simp [contains]

/-- A check of the characters of a text, one by one. As characters are
finitely many, `decide` alone would go through all there are. -/
theorem forall_chars {p : Char → Prop} [DecidablePred p] {s : Str}
    (h : (s.all fun c => p c) = true) : ∀ c ∈ s, p c := by
  intro c hc
  exact of_decide_eq_true (List.all_eq_true.mp h c hc)

/-! ## Cutting -/

section

variable {c : Char} {a a' b b' : Str}

theorem takeWhile_of_notMem (h : c ∉ a) : a.takeWhile (· ≠ c) = a :=
  List.takeWhile_eq_self_iff.mpr fun x hx => by
    simpa using fun he : x = c => h (he ▸ hx)

theorem dropWhile_of_notMem (h : c ∉ a) : a.dropWhile (· ≠ c) = [] :=
  List.dropWhile_eq_nil_iff.mpr fun x hx => by
    simpa using fun he : x = c => h (he ▸ hx)

/-- The text before the first `c`. -/
theorem takeWhile_append_cons (h : c ∉ a) : (a ++ c :: b).takeWhile (· ≠ c) = a := by
  rw [List.takeWhile_append_of_pos fun x hx => by
    simpa using fun he : x = c => h (he ▸ hx)]
  simp

/-- The text from the first `c` on. -/
theorem dropWhile_append_cons (h : c ∉ a) : (a ++ c :: b).dropWhile (· ≠ c) = c :: b := by
  rw [List.dropWhile_append_of_pos fun x hx => by
    simpa using fun he : x = c => h (he ▸ hx)]
  simp

/-- The text before the first `c` and the text after it are determined. -/
theorem append_cons_cancel (ha : c ∉ a) (ha' : c ∉ a') (h : a ++ c :: b = a' ++ c :: b') :
    a = a' ∧ b = b' := by
  have htake := congrArg (List.takeWhile (· ≠ c)) h
  have hdrop := congrArg (List.dropWhile (· ≠ c)) h
  rw [takeWhile_append_cons ha, takeWhile_append_cons ha'] at htake
  rw [dropWhile_append_cons ha, dropWhile_append_cons ha'] at hdrop
  exact ⟨htake, (List.cons.inj hdrop).2⟩

end

/-- The Unicode property `White_Space`. -/
def isWhiteSpace (c : Char) : Bool :=
  let n := c.toNat
  (9 ≤ n && n ≤ 13) || (0x2000 ≤ n && n ≤ 0x200A) ||
    [0x20, 0x85, 0xA0, 0x1680, 0x2028, 0x2029, 0x202F, 0x205F, 0x3000].contains n

/-- `str::trim_end`. -/
def trimEnd (s : Str) : Str := (s.reverse.dropWhile isWhiteSpace).reverse

/-- `str::trim`. -/
def trim (s : Str) : Str := trimEnd (s.dropWhile isWhiteSpace)

/-! ## Replacement -/

/-- Every occurrence of the character `c` replaced by `r`. -/
def replaceChar (c : Char) (r : Str) (s : Str) : Str :=
  s.flatMap fun x => if x = c then r else [x]

@[simp] theorem replaceChar_nil (c : Char) (r : Str) : replaceChar c r [] = [] := rfl

@[simp] theorem replaceChar_append (c : Char) (r s t : Str) :
    replaceChar c r (s ++ t) = replaceChar c r s ++ replaceChar c r t := by
  simp [replaceChar, List.flatMap_append]

/-! ### Successive passes -/

/-- One pass after another, each over what the one before it left. -/
def replacePasses (ps : List (Char × Str)) (s : Str) : Str :=
  ps.foldl (fun s p => replaceChar p.1 p.2 s) s

/-- What a simultaneous pass makes of a character. -/
def substChar (ps : List (Char × Str)) (c : Char) : Str :=
  match ps.find? fun p => p.1 = c with
  | some p => p.2
  | none => [c]

theorem substChar_cons (p : Char × Str) (ps : List (Char × Str)) (c : Char) :
    substChar (p :: ps) c = if c = p.1 then p.2 else substChar ps c := by
  unfold substChar
  by_cases h : c = p.1
  · simp [h]
  · simp [h, Ne.symm h]

/-- A character that no pass replaces stays. -/
theorem substChar_of_notMem {ps : List (Char × Str)} {c : Char} (h : ∀ p ∈ ps, p.1 ≠ c) :
    substChar ps c = [c] := by
  induction ps with
  | nil => rfl
  | cons p ps ih =>
      rw [substChar_cons, if_neg (Ne.symm (h p List.mem_cons_self)),
        ih fun q hq => h q (List.mem_cons_of_mem _ hq)]

/-- **Successive passes are one**, where no pass finds its character in the
text an earlier one put in. -/
theorem replacePasses_eq {ps : List (Char × Str)} (h : ps.Pairwise fun p q => q.1 ∉ p.2)
    (s : Str) : replacePasses ps s = s.flatMap (substChar ps) := by
  induction ps generalizing s with
  | nil => exact (List.flatMap_singleton' s).symm
  | cons p ps ih =>
      obtain ⟨hp, hps⟩ := List.pairwise_cons.mp h
      have hkept : p.2.flatMap (substChar ps) = p.2 := by
        have hall : ∀ c ∈ p.2, substChar ps c = [c] := fun c hc =>
          substChar_of_notMem fun q hq he => hp q hq (he ▸ hc)
        rw [List.flatMap_congr hall, List.flatMap_singleton']
      calc replacePasses (p :: ps) s
          = replacePasses ps (replaceChar p.1 p.2 s) := rfl
        _ = (replaceChar p.1 p.2 s).flatMap (substChar ps) := ih hps _
        _ = s.flatMap (substChar (p :: ps)) := by
          rw [replaceChar, List.flatMap_assoc]
          refine List.flatMap_congr fun c _ => ?_
          rw [substChar_cons]
          split
          · exact hkept
          · exact List.append_nil _

/-! ## Decimal numbers -/

/-- The decimal rendering of a natural number. -/
def decimal (n : Nat) : Str := Nat.toDigits 10 n

theorem decimal_ne_nil (n : Nat) : decimal n ≠ [] := Nat.toDigits_ne_nil

theorem isDigit_of_mem_decimal {n : Nat} {c : Char} (h : c ∈ decimal n) :
    c.isDigit = true :=
  Nat.isDigit_of_mem_toDigits (by decide) (by decide) h

/-- Reading a decimal rendering back: digits only, at least one. -/
def ofDecimal (s : Str) : Option Nat :=
  if s ≠ [] ∧ s.all Char.isDigit then some (Nat.ofDigitChars 10 s 0) else none

@[simp] theorem ofDecimal_decimal (n : Nat) : ofDecimal (decimal n) = some n := by
  have hdig : (decimal n).all Char.isDigit = true :=
    List.all_eq_true.mpr fun _ h => isDigit_of_mem_decimal h
  rw [ofDecimal, if_pos ⟨decimal_ne_nil n, hdig⟩, decimal,
    Nat.ofDigitChars_ten_toDigits]

theorem decimal_injective : Function.Injective decimal := by
  intro a b h
  have := congrArg ofDecimal h
  simpa using this

end Text

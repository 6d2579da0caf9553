import QemuTest.Lib.Text

/-!
# Base64

Padded Base64 over the standard alphabet. `decode_encode` is the round trip;
`length_encode` and `mem_encode` say what an encoded text looks like.
-/

namespace Base64

open Text

def alphabet : Str :=
  ['A', 'B', 'C', 'D', 'E', 'F', 'G', 'H', 'I', 'J', 'K', 'L', 'M', 'N', 'O', 'P', 'Q', 'R',
    'S', 'T', 'U', 'V', 'W', 'X', 'Y', 'Z', 'a', 'b', 'c', 'd', 'e', 'f', 'g', 'h', 'i', 'j',
    'k', 'l', 'm', 'n', 'o', 'p', 'q', 'r', 's', 't', 'u', 'v', 'w', 'x', 'y', 'z', '0', '1',
    '2', '3', '4', '5', '6', '7', '8', '9', '+', '/']

/-- The character of six bits. -/
def digit (n : Nat) : Char := alphabet.getD (n % 64) 'A'

def digit? (c : Char) : Option Nat := alphabet.idxOf? c

/-- Three bytes to four characters; what is left is padded. -/
def encode : List UInt8 → Str
  | [] => []
  | [a] => [digit (a.toNat / 4), digit (a.toNat % 4 * 16), '=', '=']
  | [a, b] =>
      [digit (a.toNat / 4), digit (a.toNat % 4 * 16 + b.toNat / 16),
        digit (b.toNat % 16 * 4), '=']
  | a :: b :: c :: bs =>
      digit (a.toNat / 4) :: digit (a.toNat % 4 * 16 + b.toNat / 16)
        :: digit (b.toNat % 16 * 4 + c.toNat / 64) :: digit (c.toNat % 64) :: encode bs

/-- Four characters to three bytes, fewer where the last ones are padding. -/
def decode : Str → Option (List UInt8)
  | [] => some []
  | [w, x, '=', '='] => do
      let w ← digit? w
      let x ← digit? x
      some [UInt8.ofNat (w * 4 + x / 16)]
  | [w, x, y, '='] => do
      let w ← digit? w
      let x ← digit? x
      let y ← digit? y
      some [UInt8.ofNat (w * 4 + x / 16), UInt8.ofNat (x % 16 * 16 + y / 4)]
  | w :: x :: y :: z :: cs => do
      let w ← digit? w
      let x ← digit? x
      let y ← digit? y
      let z ← digit? z
      let bs ← decode cs
      some (UInt8.ofNat (w * 4 + x / 16) :: UInt8.ofNat (x % 16 * 16 + y / 4)
        :: UInt8.ofNat (y % 4 * 64 + z) :: bs)
  | _ => none

theorem digit?_digit {n : Nat} (h : n < 64) : digit? (digit n) = some n := by
  have hall : ∀ k < 64, digit? (digit k) = some k := by decide
  exact hall n h

theorem digit_mem (n : Nat) : digit n ∈ alphabet := by
  have hall : ∀ k < 64, digit k ∈ alphabet := by decide
  have hmod : digit n = digit (n % 64) := by simp [digit]
  rw [hmod]
  exact hall _ (Nat.mod_lt _ (by decide))

theorem digit_ne_pad (n : Nat) : digit n ≠ '=' := by
  intro h
  have hmem := digit_mem n
  rw [h] at hmem
  exact absurd hmem (by decide)

theorem ofNat_eq {b : UInt8} {n : Nat} (h : n = b.toNat) : UInt8.ofNat n = b := by
  rw [h, UInt8.ofNat_toNat]

/-- **The round trip.** -/
@[simp] theorem decode_encode (bs : List UInt8) : decode (encode bs) = some bs := by
  induction bs using encode.induct with
  | case1 => rfl
  | case2 a =>
      have := a.toNat_lt
      rw [encode, decode]
      simp only [digit?_digit (n := a.toNat / 4) (by omega),
        digit?_digit (n := a.toNat % 4 * 16) (by omega), Option.bind_eq_bind, Option.bind_some]
      rw [ofNat_eq (b := a) (by omega)]
  | case3 a b =>
      have := a.toNat_lt
      have := b.toNat_lt
      rw [encode, decode]
      · simp only [digit?_digit (n := a.toNat / 4) (by omega),
          digit?_digit (n := a.toNat % 4 * 16 + b.toNat / 16) (by omega),
          digit?_digit (n := b.toNat % 16 * 4) (by omega), Option.bind_eq_bind,
          Option.bind_some]
        rw [ofNat_eq (b := a) (by omega), ofNat_eq (b := b) (by omega)]
      · exact digit_ne_pad _
  | case4 a b c bs ih =>
      have := a.toNat_lt
      have := b.toNat_lt
      have := c.toNat_lt
      rw [encode, decode]
      · simp only [digit?_digit (n := a.toNat / 4) (by omega),
          digit?_digit (n := a.toNat % 4 * 16 + b.toNat / 16) (by omega),
          digit?_digit (n := b.toNat % 16 * 4 + c.toNat / 64) (by omega),
          digit?_digit (n := c.toNat % 64) (by omega), ih, Option.bind_eq_bind,
          Option.bind_some]
        rw [ofNat_eq (b := a) (by omega), ofNat_eq (b := b) (by omega),
          ofNat_eq (b := c) (by omega)]
      · exact fun _ h => absurd h (digit_ne_pad _)
      · exact fun h => absurd h (digit_ne_pad _)

/-- An encoded text is made of whole groups of four. -/
theorem length_encode (bs : List UInt8) : (encode bs).length % 4 = 0 := by
  induction bs using encode.induct with
  | case1 => rfl
  | case2 a => simp [encode]
  | case3 a b => simp [encode]
  | case4 a b c bs ih =>
      rw [encode]
      simp only [List.length_cons]
      omega

theorem mem_encode {bs : List UInt8} {c : Char} (h : c ∈ encode bs) :
    c ∈ alphabet ∨ c = '=' := by
  induction bs using encode.induct with
  | case1 => cases h
  | case2 a =>
      simp only [encode, List.mem_cons, List.not_mem_nil, or_false] at h
      rcases h with rfl | rfl | rfl | rfl
      · exact .inl (digit_mem _)
      · exact .inl (digit_mem _)
      · exact .inr rfl
      · exact .inr rfl
  | case3 a b =>
      simp only [encode, List.mem_cons, List.not_mem_nil, or_false] at h
      rcases h with rfl | rfl | rfl | rfl
      · exact .inl (digit_mem _)
      · exact .inl (digit_mem _)
      · exact .inl (digit_mem _)
      · exact .inr rfl
  | case4 a b c' bs ih =>
      simp only [encode, List.mem_cons] at h
      rcases h with rfl | rfl | rfl | rfl | h
      · exact .inl (digit_mem _)
      · exact .inl (digit_mem _)
      · exact .inl (digit_mem _)
      · exact .inl (digit_mem _)
      · exact ih h

/-- Encoded bytes start with a character of the alphabet. -/
theorem head_encode {bs : List UInt8} {c : Char} {cs : Str} (h : encode bs = c :: cs) :
    c ∈ alphabet := by
  cases bs using encode.induct with
  | case1 => cases h
  | case2 a | case3 a b | case4 a b c' bs =>
      rw [encode] at h
      rw [← (List.cons.inj h).1]
      exact digit_mem _

example : encode [0x4d, 0x61, 0x6e] = ['T', 'W', 'F', 'u'] := by decide

end Base64

import QemuTest.Lib.Text

/-!
# Utf8

Lossy decoding of UTF-8: each maximal prefix of an ill-formed sequence
becomes one U+FFFD, decoding goes on at the first byte that does not belong
to it.
-/

namespace Utf8

open Text

/-- `REPLACEMENT CHARACTER`. -/
def replacement : Char := Char.ofNat 0xFFFD

def inRange (lo hi b : UInt8) : Bool := lo ≤ b && b ≤ hi

/-- A continuation byte. -/
def isCont (b : UInt8) : Bool := inRange 0x80 0xBF b

/-- The second byte a three-byte lead admits. -/
def second3 (lead b : UInt8) : Bool :=
  (lead == 0xE0 && inRange 0xA0 0xBF b) || (inRange 0xE1 0xEC lead && isCont b)
    || (lead == 0xED && inRange 0x80 0x9F b) || (inRange 0xEE 0xEF lead && isCont b)

/-- The second byte a four-byte lead admits. -/
def second4 (lead b : UInt8) : Bool :=
  (lead == 0xF0 && inRange 0x90 0xBF b) || (inRange 0xF1 0xF3 lead && isCont b)
    || (lead == 0xF4 && inRange 0x80 0x8F b)

/-- The scalar value of a sequence: the payload bits of its bytes, six for
each continuation byte. -/
def scalar (lead : Nat) (conts : List UInt8) : Char :=
  Char.ofNat (conts.foldl (fun n b => n * 64 + b.toNat % 64) lead)

/-- The first character of a non-empty byte sequence, and how many bytes
after the lead it takes. -/
def decodeFirst (b : UInt8) : List UInt8 → Char × Nat
  | bs =>
      if b < 0x80 then (Char.ofNat b.toNat, 0)
      else if inRange 0xC2 0xDF b then
        match bs with
        | c :: _ => if isCont c then (scalar (b.toNat % 32) [c], 1) else (replacement, 0)
        | [] => (replacement, 0)
      else if inRange 0xE0 0xEF b then
        match bs with
        | c :: d :: _ =>
            if second3 b c then
              if isCont d then (scalar (b.toNat % 16) [c, d], 2) else (replacement, 1)
            else (replacement, 0)
        | [c] => if second3 b c then (replacement, 1) else (replacement, 0)
        | [] => (replacement, 0)
      else if inRange 0xF0 0xF4 b then
        match bs with
        | c :: d :: e :: _ =>
            if second4 b c then
              if isCont d then
                if isCont e then (scalar (b.toNat % 8) [c, d, e], 3)
                else (replacement, 2)
              else (replacement, 1)
            else (replacement, 0)
        | [c, d] =>
            if second4 b c then
              if isCont d then (replacement, 2) else (replacement, 1)
            else (replacement, 0)
        | [c] => if second4 b c then (replacement, 1) else (replacement, 0)
        | [] => (replacement, 0)
      else (replacement, 0)

/-- Decoding with `skip` bytes of the current sequence still to pass over. -/
def lossyFrom : Nat → List UInt8 → Str
  | _, [] => []
  | skip + 1, _ :: bs => lossyFrom skip bs
  | 0, b :: bs =>
      let (c, n) := decodeFirst b bs
      c :: lossyFrom n bs

/-- `String::from_utf8_lossy`. -/
def fromUtf8Lossy (bs : List UInt8) : Str := lossyFrom 0 bs

/-- The bytes of an ASCII text. -/
def asciiBytes (s : Str) : List UInt8 := s.map fun c => UInt8.ofNat c.toNat

/-- A scalar value is the number it is made of, if it is one. -/
theorem scalar_high {lead : Nat} {conts : List UInt8}
    (h : 0x80 ≤ conts.foldl (fun n b => n * 64 + b.toNat % 64) lead) :
    (scalar lead conts).toNat = 0 ∨ 0x80 ≤ (scalar lead conts).toNat := by
  rw [scalar, Char.ofNat]
  by_cases hvalid : (conts.foldl (fun n b => n * 64 + b.toNat % 64) lead).isValidChar
  · rw [dif_pos hvalid]
    exact .inr h
  · rw [dif_neg hvalid]
    exact .inl rfl

theorem toNat_of_inRange {lo hi b : UInt8} (h : inRange lo hi b = true) :
    lo.toNat ≤ b.toNat ∧ b.toNat ≤ hi.toNat := by
  simpa [inRange, UInt8.le_iff_toNat_le] using h

/-- The shortest forms only: a sequence of several bytes is no ASCII character. -/
theorem decodeFirst_high {b : UInt8} (hb : ¬ b < 0x80) (bs : List UInt8) :
    (decodeFirst b bs).1.toNat = 0 ∨ 0x80 ≤ (decodeFirst b bs).1.toNat := by
  have hrep : replacement.toNat = 0 ∨ 0x80 ≤ replacement.toNat := by decide
  have hthree : ∀ c, second3 b c = true → 0xE0 ≤ b.toNat → b.toNat ≤ 0xEF →
      0x2 ≤ b.toNat % 16 * 64 + c.toNat % 64 := by
    intro c hc hlo hhi
    by_cases he : b.toNat = 0xE0
    · have hrange : inRange 0xA0 0xBF c = true := by
        obtain rfl : b = 0xE0 := UInt8.toNat_inj.mp he
        simpa [second3, inRange] using hc
      have := toNat_of_inRange hrange
      simp at this
      omega
    · omega
  have hfour : ∀ c, second4 b c = true → 0xF0 ≤ b.toNat → b.toNat ≤ 0xF4 →
      0x2 ≤ b.toNat % 8 * 64 + c.toNat % 64 := by
    intro c hc hlo hhi
    by_cases he : b.toNat = 0xF0
    · have hrange : inRange 0x90 0xBF c = true := by
        obtain rfl : b = 0xF0 := UInt8.toNat_inj.mp he
        simpa [second4, inRange] using hc
      have := toNat_of_inRange hrange
      simp at this
      omega
    · omega
  unfold decodeFirst
  rw [if_neg hb]
  split
  · next hlead =>
    have hrange := toNat_of_inRange hlead
    simp at hrange
    split
    · split
      · exact scalar_high (by simp only [List.foldl]; omega)
      · exact hrep
    · exact hrep
  split
  · next hlead =>
    have hrange := toNat_of_inRange hlead
    simp at hrange
    split
    · split
      · next hsecond =>
        split
        · have := hthree _ hsecond (by omega) (by omega)
          exact scalar_high (by simp only [List.foldl]; omega)
        · exact hrep
      · exact hrep
    · split <;> exact hrep
    · exact hrep
  split
  · next hlead =>
    have hrange := toNat_of_inRange hlead
    simp at hrange
    split
    · split
      · next hsecond =>
        split
        · split
          · have := hfour _ hsecond (by omega) (by omega)
            exact scalar_high (by simp only [List.foldl]; omega)
          · exact hrep
        · exact hrep
      · exact hrep
    · split
      · split <;> exact hrep
      · exact hrep
    · split <;> exact hrep
    · exact hrep
  · exact hrep

/-- Only an ASCII byte gives an ASCII character. -/
theorem decodeFirst_ascii {b : UInt8} {bs : List UInt8} (hpos : (decodeFirst b bs).1.toNat ≠ 0)
    (h : (decodeFirst b bs).1.toNat < 0x80) : (decodeFirst b bs).1.toNat = b.toNat := by
  by_cases hb : b < 0x80
  · have hlt : b.toNat < 128 := UInt8.lt_iff_toNat_lt.mp hb
    have hfirst : (decodeFirst b bs).1 = Char.ofNat b.toNat := by
      unfold decodeFirst
      rw [if_pos hb]
    rw [hfirst, Char.ofNat, dif_pos (.inl (by omega))]
    rfl
  · have := decodeFirst_high hb bs
    omega

/-- ASCII characters come from bytes of their own. -/
theorem asciiBytes_sublist {text : Str} (htext : ∀ c ∈ text, c.toNat ≠ 0 ∧ c.toNat < 0x80)
    {skip : Nat} {bs : List UInt8} (h : text.Sublist (lossyFrom skip bs)) :
    (asciiBytes text).Sublist bs := by
  induction bs generalizing skip text with
  | nil =>
      cases skip <;>
        · obtain rfl := List.sublist_nil.mp h
          exact List.nil_sublist _
  | cons b bs ih =>
      cases skip with
      | succ skip => exact (ih htext h).cons b
      | zero =>
          have hstep : lossyFrom 0 (b :: bs)
              = (decodeFirst b bs).1 :: lossyFrom (decodeFirst b bs).2 bs := rfl
          rw [hstep] at h
          rcases List.sublist_cons_iff.mp h with h | ⟨rest, rfl, h⟩
          · exact (ih htext h).cons b
          · obtain ⟨hpos, hlow⟩ := htext _ (List.mem_cons_self ..)
            have hb : UInt8.ofNat (decodeFirst b bs).1.toNat = b := by
              rw [decodeFirst_ascii hpos hlow, UInt8.ofNat_toNat]
            have hrest := ih (fun c hc => htext c (List.mem_cons_of_mem _ hc))
              (List.cons_sublist_cons.mp h)
            rw [asciiBytes, List.map_cons, hb]
            exact hrest.cons_cons b

/-- Cut inside a character, a lead byte without its continuation is one
replacement character, and decoding resumes at the line end. -/
example : fromUtf8Lossy [0x61, 0xE2, 0x82, 0x0A] = ['a', replacement, '\n'] := by
  decide

/-- `U+20AC`, three bytes. -/
example : fromUtf8Lossy [0xE2, 0x82, 0xAC] = ['€'] := by decide

end Utf8

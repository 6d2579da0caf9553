import Mathlib.Data.BitVec
import Mathlib.Tactic.Ring

/-!
# X86 — Float80

The 80-bit extended format, as far as integers go in and out of it:
`ofInt` loads one exactly, `toInt` rounds to one under a control word.
`toInt_ofInt`: under every control word an integer comes back unchanged.
-/

namespace X86

/-- An extended-precision value, as its three fields. The integer bit is
explicit: bit 63 of the significand. -/
structure Float80 where
  sign : Bool
  exponent : BitVec 15
  significand : BitVec 64
  deriving DecidableEq, Repr

/-- The rounding control of a control word. -/
inductive Rounding where
  | nearest
  | down
  | up
  | truncate
  deriving DecidableEq, Repr

def Rounding.ofControl (cw : BitVec 16) : Rounding :=
  match (cw.extractLsb' 10 2).toNat with
  | 0 => .nearest
  | 1 => .down
  | 2 => .up
  | _ => .truncate

/-- `m / 2^s`, rounded to an integer. -/
def Rounding.magnitude (r : Rounding) (sign : Bool) (m s : Nat) : Nat :=
  let q := m / 2 ^ s
  let rest := m % 2 ^ s
  match r with
  | .nearest => if 2 ^ s < 2 * rest ∨ (2 * rest = 2 ^ s ∧ q % 2 = 1) then q + 1 else q
  | .down => if sign ∧ rest ≠ 0 then q + 1 else q
  | .up => if !sign ∧ rest ≠ 0 then q + 1 else q
  | .truncate => q

namespace Float80

/-- The exponent at which a significand is an integer as it stands. -/
def integral : Nat := 16383 + 63

/-- An integer of at most 64 bits, normalised. -/
def ofInt (n : Int) : Float80 :=
  if n = 0 then ⟨false, 0, 0⟩
  else
    let k := n.natAbs.log2
    ⟨n < 0, BitVec.ofNat 15 (16383 + k), BitVec.ofNat 64 (n.natAbs * 2 ^ (63 - k))⟩

/-- What an empty stack slot is replaced with: the default NaN. -/
def indefinite : Float80 := ⟨true, 0x7fff, 0xC000000000000000⟩

/-- The 64-bit integer nearest in the sense of the rounding control, and
whether it is exact. `none` is the invalid operation: a NaN, an infinity, an
unsupported encoding, or a value out of range. -/
def toInt (r : Rounding) (x : Float80) : Option (BitVec 64 × Bool) :=
  if x.exponent = 0x7fff then none
  else if x.exponent ≠ 0 ∧ x.significand.toNat < 2 ^ 63 then none
  else
    let e := max 1 x.exponent.toNat
    let m := x.significand.toNat
    let mag :=
      if integral ≤ e then m * 2 ^ (e - integral) else r.magnitude x.sign m (integral - e)
    let exact := integral ≤ e ∨ m % 2 ^ (integral - e) = 0
    if x.sign then
      if mag ≤ 2 ^ 63 then some (BitVec.ofInt 64 (-mag), exact) else none
    else if mag < 2 ^ 63 then some (BitVec.ofNat 64 mag, exact)
    else none

end Float80

/-- A multiple of `2^s` needs no rounding. -/
theorem Rounding.magnitude_mul (r : Rounding) (sign : Bool) (q s : Nat) :
    r.magnitude sign (q * 2 ^ s) s = q := by
  have hpos : 0 < 2 ^ s := Nat.two_pow_pos s
  have hq : q * 2 ^ s / 2 ^ s = q := Nat.mul_div_cancel q hpos
  have hr : q * 2 ^ s % 2 ^ s = 0 := Nat.mul_mod_left q _
  cases r <;> simp [magnitude, hq, hr, hpos.ne]

/-- A significand shifted left by what the exponent is short of `integral`
stands for the integer that was shifted. -/
theorem Float80.toInt_shifted (r : Rounding) {x : Float80} {n s : Nat}
    (hexp : x.exponent.toNat + s = integral) (h1 : 1 ≤ x.exponent.toNat)
    (hsig : x.significand.toNat = n * 2 ^ s)
    (hnorm : x.exponent ≠ 0 → 2 ^ 63 ≤ x.significand.toNat) :
    toInt r x =
      if x.sign then if n ≤ 2 ^ 63 then some (BitVec.ofInt 64 (-n), true) else none
      else if n < 2 ^ 63 then some (BitVec.ofNat 64 n, true)
      else none := by
  have hfull : x.exponent ≠ 0x7fff := by
    intro he
    rw [he] at hexp
    simp [integral] at hexp
    omega
  have hreal : ¬ (x.exponent ≠ 0 ∧ x.significand.toNat < 2 ^ 63) := by
    rintro ⟨hne, hlt⟩
    exact absurd (hnorm hne) (by omega)
  have hmax : max 1 x.exponent.toNat = x.exponent.toNat := by omega
  have hshort : integral - x.exponent.toNat = s := by omega
  have hmag : (if integral ≤ x.exponent.toNat
        then n * 2 ^ s * 2 ^ (x.exponent.toNat - integral)
        else r.magnitude x.sign (n * 2 ^ s) s) = n := by
    split
    · have hs : s = 0 := by omega
      have he : x.exponent.toNat - integral = 0 := by omega
      rw [hs, he, Nat.pow_zero, Nat.mul_one, Nat.mul_one]
    · exact r.magnitude_mul x.sign n s
  have hexact : integral ≤ x.exponent.toNat ∨ n * 2 ^ s % 2 ^ s = 0 :=
    .inr (Nat.mul_mod_left n _)
  rw [toInt, if_neg hfull, if_neg hreal]
  simp only [hmax, hsig, hshort, hmag, hexact, decide_true]

/-- **Integers survive**: a 64-bit integer loaded into the format is stored
back exactly, whatever the rounding. -/
theorem Float80.toInt_ofInt (r : Rounding) (v : BitVec 64) :
    toInt r (ofInt v.toInt) = some (v, true) := by
  by_cases h0 : v.toInt = 0
  · obtain rfl : v = 0#64 := BitVec.eq_of_toInt_eq (by rw [h0]; rfl)
    have hmag : r.magnitude false 0 (integral - 1) = 0 := by
      simpa using r.magnitude_mul false 0 (integral - 1)
    have hlow : ¬ integral ≤ 1 := by decide
    simp [ofInt, toInt, hmag, hlow]
  · have hlo := BitVec.le_toInt v
    have hhi := BitVec.toInt_lt (x := v)
    have hn0 : v.toInt.natAbs ≠ 0 := by omega
    obtain ⟨k, hk⟩ : ∃ k, v.toInt.natAbs.log2 = k := ⟨_, rfl⟩
    have hpow : 2 ^ k ≤ v.toInt.natAbs := hk ▸ Nat.log2_self_le hn0
    have hlt : v.toInt.natAbs < 2 ^ (k + 1) := by
      rw [← hk]
      exact Nat.lt_log2_self
    have hk63 : k ≤ 63 := by
      by_contra hgt
      have hmono : 2 ^ 64 ≤ 2 ^ k := Nat.pow_le_pow_right (by decide) (by omega)
      omega
    have hpos : 0 < 2 ^ (63 - k) := Nat.two_pow_pos _
    -- the significand: within its 64 bits, and normalised
    have hsig : v.toInt.natAbs * 2 ^ (63 - k) < 2 ^ 64 := by
      calc v.toInt.natAbs * 2 ^ (63 - k) < 2 ^ (k + 1) * 2 ^ (63 - k) := by gcongr
        _ = 2 ^ 64 := by rw [← Nat.pow_add]; congr 1; omega
    have hnorm : 2 ^ 63 ≤ v.toInt.natAbs * 2 ^ (63 - k) := by
      calc 2 ^ 63 = 2 ^ k * 2 ^ (63 - k) := by rw [← Nat.pow_add]; congr 1; omega
        _ ≤ _ := Nat.mul_le_mul_right _ hpow
    have hexp : (BitVec.ofNat 15 (16383 + k)).toNat = 16383 + k := by
      rw [BitVec.toNat_ofNat, Nat.mod_eq_of_lt (by omega)]
    have hmant : (BitVec.ofNat 64 (v.toInt.natAbs * 2 ^ (63 - k))).toNat
        = v.toInt.natAbs * 2 ^ (63 - k) := by
      rw [BitVec.toNat_ofNat, Nat.mod_eq_of_lt hsig]
    rw [ofInt, if_neg h0, hk, toInt_shifted r (n := v.toInt.natAbs) (s := 63 - k)
      (by rw [hexp, integral]; omega) (by rw [hexp]; omega) hmant
      (fun _ => by rw [hmant]; exact hnorm)]
    by_cases hneg : v.toInt < 0
    · rw [if_pos (by simpa using hneg), if_pos (by omega),
        show (-(v.toInt.natAbs : Int)) = v.toInt by omega, BitVec.ofInt_toInt]
    · rw [if_neg (by simpa using hneg), if_pos (by omega)]
      have hv : BitVec.ofNat 64 v.toInt.natAbs = v := by
        rw [← BitVec.ofInt_natCast, show (v.toInt.natAbs : Int) = v.toInt by omega,
          BitVec.ofInt_toInt]
      rw [hv]

end X86

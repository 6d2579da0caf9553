import Mathlib.Data.BitVec

/-!
# X86 — Memory

A flat little-endian memory. A value is known by its bytes (`ext_bytes`), so
loads and stores are compared byte by byte.
-/

namespace X86

abbrev Byte := BitVec 8

/-- A byte at every physical address. -/
abbrev Memory := Nat → Byte

/-- Byte `k` of a value, the lowest first. -/
def byteAt {w : Nat} (v : BitVec w) (k : Nat) : Byte := v.extractLsb' (8 * k) 8

/-- The `n` bytes at `a` as one value. -/
def Memory.load (m : Memory) : Nat → (n : Nat) → BitVec (8 * n)
  | _, 0 => 0#0
  | a, n + 1 => m.load (a + 1) n ++ m a

/-- The bytes of a value put at `a`. -/
def Memory.store (m : Memory) (a : Nat) {n : Nat} (v : BitVec (8 * n)) : Memory :=
  fun x => if a ≤ x ∧ x < a + n then byteAt v (x - a) else m x

theorem byteAt_zero {w : Nat} (v : BitVec w) : byteAt v 0 = v.setWidth 8 := by
  apply BitVec.eq_of_getLsbD_eq
  intro i hi
  simp [byteAt, hi]

/-- Two values with the same bytes are the same. -/
theorem ext_bytes {n : Nat} {u v : BitVec (8 * n)}
    (h : ∀ k < n, byteAt u k = byteAt v k) : u = v := by
  apply BitVec.eq_of_getLsbD_eq
  intro i hi
  have hbit := congrArg (fun b => b.getLsbD (i % 8)) (h (i / 8) (by omega))
  simp only [byteAt, BitVec.getLsbD_extractLsb', Nat.div_add_mod,
    Nat.mod_lt i (by omega : 0 < 8), decide_true, Bool.true_and] at hbit
  exact hbit

/-- What is loaded is what lies there. -/
theorem byteAt_load (m : Memory) (a : Nat) {n k : Nat} (h : k < n) :
    byteAt (m.load a n) k = m (a + k) := by
  induction n generalizing a k with
  | zero => omega
  | succ n ih =>
      apply BitVec.eq_of_getLsbD_eq
      intro i hi
      simp only [byteAt, Memory.load, BitVec.getLsbD_extractLsb', hi, decide_true,
        Bool.true_and]
      cases k with
      | zero => simp [BitVec.getLsbD_append, hi]
      | succ k =>
          have hbyte := congrArg (fun b => b.getLsbD i) (ih (a + 1) (by omega : k < n))
          simp only [byteAt, BitVec.getLsbD_extractLsb', hi, decide_true,
            Bool.true_and] at hbyte
          rw [BitVec.getLsbD_append, if_neg (by omega),
            show 8 * (k + 1) + i - 8 = 8 * k + i by omega, hbyte,
            show a + 1 + k = a + (k + 1) by omega]

theorem load_congr {m m' : Memory} {a a' n : Nat}
    (h : ∀ k < n, m (a + k) = m' (a' + k)) : m.load a n = m'.load a' n := by
  apply ext_bytes
  intro k hk
  rw [byteAt_load m a hk, byteAt_load m' a' hk, h k hk]

theorem load_byte (m : Memory) (a : Nat) : m.load a 1 = m a := by
  have h := byteAt_load m a (n := 1) (k := 0) (by omega)
  rw [byteAt_zero, Nat.add_zero] at h
  rw [← h]
  exact (BitVec.setWidth_eq _).symm

/-- Equal loads, equal bytes. -/
theorem load_inj {m m' : Memory} {a a' n : Nat} (h : m.load a n = m'.load a' n)
    {k : Nat} (hk : k < n) : m (a + k) = m' (a' + k) := by
  rw [← byteAt_load m a hk, ← byteAt_load m' a' hk, h]

/-- Loads that differ do so in a quadword. -/
theorem load_ne_word {m m' : Memory} {a b n : Nat}
    (h : m.load a (8 * n) ≠ m'.load b (8 * n)) :
    ∃ q < n, m.load (a + 8 * q) 8 ≠ m'.load (b + 8 * q) 8 := by
  by_contra hall
  push Not at hall
  refine h (load_congr fun k hk => ?_)
  have hword := load_inj (hall (k / 8) (by omega)) (show k % 8 < 8 by omega)
  rwa [Nat.add_assoc, Nat.add_assoc, Nat.div_add_mod] at hword

theorem store_inside (m : Memory) (a : Nat) {n : Nat} (v : BitVec (8 * n)) {k : Nat}
    (hk : k < n) : m.store a v (a + k) = byteAt v k := by
  rw [Memory.store, if_pos ⟨by omega, by omega⟩, Nat.add_sub_cancel_left]

theorem store_outside (m : Memory) {a : Nat} {n : Nat} (v : BitVec (8 * n)) {x : Nat}
    (h : x < a ∨ a + n ≤ x) : m.store a v x = m x := by
  rw [Memory.store, if_neg (by omega)]

/-- A store is read back. -/
@[simp] theorem load_store_same (m : Memory) (a : Nat) {n : Nat} (v : BitVec (8 * n)) :
    (m.store a v).load a n = v := by
  apply ext_bytes
  intro k hk
  rw [byteAt_load _ a hk, store_inside m a v hk]

/-- A store elsewhere does not show. -/
theorem load_store_disjoint (m : Memory) {a : Nat} {n : Nat} (v : BitVec (8 * n))
    {a' n' : Nat} (h : a' + n' ≤ a ∨ a + n ≤ a') :
    (m.store a v).load a' n' = m.load a' n' := by
  apply load_congr
  intro k hk
  exact store_outside m v (by omega)

end X86

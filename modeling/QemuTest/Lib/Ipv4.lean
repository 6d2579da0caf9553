import QemuTest.Lib.Text
import Mathlib.Algebra.Group.Nat.Defs

/-!
# Ipv4

Addresses in dotted form. An octet is written in decimal without leading zeros,
so reading accepts exactly what writing gives.

`network` and `broadcast` are the first and the last address of the block of a
prefix length; the hosts are those in between.
-/

namespace Ipv4

open Text

/-- An octet as it is written. -/
def octet (s : Str) : Option (Fin 256) :=
  match ofDecimal s with
  | none => none
  | some n => if h : n < 256 ∧ decimal n = s then some ⟨n, h.1⟩ else none

theorem octet_eq_some_iff {s : Str} {n : Fin 256} :
    octet s = some n ↔ s = decimal n := by
  constructor
  · intro h
    simp only [octet] at h
    split at h
    · cases h
    · split at h
      · rename_i hn
        obtain rfl := Option.some.inj h
        exact hn.2.symm
      · cases h
  · rintro rfl
    simp [octet, n.isLt]

structure Address where
  a : Fin 256
  b : Fin 256
  c : Fin 256
  d : Fin 256
  deriving DecidableEq, Repr

def Address.render (x : Address) : Str :=
  decimal x.a ++ '.' :: (decimal x.b ++ '.' :: (decimal x.c ++ '.' :: decimal x.d))

def parse (s : Str) : Option Address :=
  match s.splitOn '.' with
  | [a, b, c, d] => do
      let a ← octet a
      let b ← octet b
      let c ← octet c
      let d ← octet d
      return ⟨a, b, c, d⟩
  | _ => none

theorem dot_notMem_decimal (n : Nat) : '.' ∉ decimal n :=
  fun h => absurd (isDigit_of_mem_decimal h) (by decide)

/-- Four parts without a dot, joined by dots. -/
theorem splitOn_dotted {a b c d : Str} (ha : '.' ∉ a) (hb : '.' ∉ b) (hc : '.' ∉ c)
    (hd : '.' ∉ d) :
    (a ++ '.' :: (b ++ '.' :: (c ++ '.' :: d))).splitOn '.' = [a, b, c, d] := by
  rw [List.splitOn_append_cons_self_of_not_mem ha,
    List.splitOn_append_cons_self_of_not_mem hb,
    List.splitOn_append_cons_self_of_not_mem hc, List.splitOn_eq_singleton hd]

/-- **Reading is the inverse of writing.** -/
theorem parse_eq_some_iff {s : Str} {x : Address} : parse s = some x ↔ s = x.render := by
  constructor
  · intro h
    simp only [parse] at h
    split at h
    · rename_i a b c d hsplit
      simp only [Option.bind_eq_bind, Option.bind_eq_some_iff, octet_eq_some_iff,
        Option.pure_def, Option.some.injEq] at h
      obtain ⟨a, rfl, b, rfl, c, rfl, d, rfl, rfl⟩ := h
      have hjoin : ['.'].intercalate (s.splitOn '.') = s := List.intercalate_splitOn '.'
      rw [hsplit] at hjoin
      rw [← hjoin]
      simp [List.intercalate, Address.render]
    · cases h
  · rintro rfl
    have hoctet : ∀ n : Fin 256, octet (decimal n) = some n := fun n =>
      octet_eq_some_iff.mpr rfl
    rw [parse, Address.render, splitOn_dotted (dot_notMem_decimal _) (dot_notMem_decimal _)
      (dot_notMem_decimal _) (dot_notMem_decimal _)]
    simp [hoctet]

/-! ## Networks -/

def Address.toNat (x : Address) : Nat :=
  ((x.a * 256 + x.b) * 256 + x.c) * 256 + x.d

/-- The first address of the block of `x`. -/
def network (len : Nat) (x : Address) : Nat :=
  x.toNat / 2 ^ (32 - len) * 2 ^ (32 - len)

/-- The last one. -/
def broadcast (len : Nat) (x : Address) : Nat :=
  network len x + (2 ^ (32 - len) - 1)

/-- A host of the block of `net`. -/
structure IsHost (len : Nat) (net x : Address) : Prop where
  within : network len x = network len net
  not_network : x.toNat ≠ network len net
  not_broadcast : x.toNat ≠ broadcast len net

/-- In a block of 256 addresses the last octet tells the hosts. -/
theorem isHost_octet_iff (a b c d e : Fin 256) :
    IsHost 24 ⟨a, b, c, e⟩ ⟨a, b, c, d⟩ ↔ d.val ≠ 0 ∧ d.val ≠ 255 := by
  have hnet : ∀ f : Fin 256, network 24 ⟨a, b, c, f⟩ = ((a.val * 256 + b) * 256 + c) * 256 := by
    intro f
    have := f.isLt
    simp only [network, Address.toNat]
    omega
  constructor
  · intro h
    have hlow := h.not_network
    have hhigh := h.not_broadcast
    rw [broadcast, hnet] at hhigh
    rw [hnet] at hlow
    simp only [Address.toNat] at hlow hhigh
    omega
  · rintro ⟨hlow, hhigh⟩
    refine ⟨by rw [hnet, hnet], ?_, ?_⟩
    · rw [hnet]
      simp only [Address.toNat]
      omega
    · rw [broadcast, hnet]
      simp only [Address.toNat]
      omega

end Ipv4

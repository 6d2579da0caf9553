import QemuTest.Lib.X86.Memory

/-!
# X86 — Paging

Page tables in memory, walked by the processor: two levels in 32-bit mode, four
in long mode. Entries are read as far as they say which frame a page has;
privileges are those of the most privileged level, and the bits that record
accesses are not kept.

What the processor has walked it may cache (`Cache`): it may forget an entry or
take one up again whenever it likes. Software that drops an entry it has changed
in the tables sees the tables all the same (`Cache.Fresh`).
-/

namespace X86

/-- A translation of page numbers. -/
abbrev PageMap := Nat → Option Nat

/-! ## Tables -/

/-- Entry `k` of a table of double words, as the address and the bits in it. -/
def Memory.entry32 (m : Memory) (table k : Nat) : BitVec 32 := m.load (table + 4 * k) 4

/-- Entry `k` of a table of quadwords. -/
def Memory.entry64 (m : Memory) (table k : Nat) : BitVec 64 := m.load (table + 8 * k) 8

/-- The present bit. -/
def isPresent {w : Nat} (e : BitVec w) : Bool := e.getLsbD 0

/-- The page-size bit. -/
def isLarge {w : Nat} (e : BitVec w) : Bool := e.getLsbD 7

/-- The frame number of an entry. -/
def frameOf {w : Nat} (e : BitVec w) : Nat := (e.setWidth 52).toNat / 2 ^ 12

/-- The table or page of a present entry. -/
def present {w : Nat} (e : BitVec w) : Option Nat := if isPresent e then some (frameOf e) else none

/-- An entry as it is put together: the frame, and bits below it, present one
of them. -/
theorem present_ofNat {w k b : Nat} (hb : b < 2 ^ 12) (hodd : b % 2 = 1)
    (hw : 2 ^ 12 * k + b < 2 ^ w) (hk : k < 2 ^ 40) :
    present (BitVec.ofNat w (2 ^ 12 * k + b)) = some k := by
  have hbit : isPresent (BitVec.ofNat w (2 ^ 12 * k + b)) = true := by
    rw [isPresent, BitVec.getLsbD, BitVec.toNat_ofNat, Nat.mod_eq_of_lt hw, Nat.testBit_zero,
      decide_eq_true_eq]
    omega
  have hframe : frameOf (BitVec.ofNat w (2 ^ 12 * k + b)) = k := by
    rw [frameOf, BitVec.toNat_setWidth, BitVec.toNat_ofNat, Nat.mod_eq_of_lt hw,
      Nat.mod_eq_of_lt (by omega)]
    omega
  rw [present, if_pos hbit, hframe]

theorem present_zero {w : Nat} : present (0 : BitVec w) = none := by
  simp [present, isPresent]

/-- Entries lie in their tables. -/
theorem entry32_congr {m m' : Memory} {table k : Nat}
    (h : ∀ x, table ≤ x → x < table + 2 ^ 12 → m' x = m x) (hk : k < 2 ^ 10) :
    m'.entry32 table k = m.entry32 table k :=
  load_congr fun j _ => h _ (by omega) (by omega)

/-- Two levels of 1024 entries, without large pages. -/
def Memory.walk32 (m : Memory) (cr3 : BitVec 32) : PageMap := fun p =>
  if p < 2 ^ 20 then
    (present (m.entry32 (2 ^ 12 * frameOf cr3) (p / 2 ^ 10))).bind fun table =>
      present (m.entry32 (2 ^ 12 * table) (p % 2 ^ 10))
  else none

/-- Four levels of 512 entries; an entry of the third may be a page of 2 MB, one
of the second a page of 1 GB. -/
def Memory.walk64 (m : Memory) (cr3 : BitVec 32) : PageMap := fun p =>
  (present (m.entry64 (2 ^ 12 * frameOf cr3) (p / 2 ^ 27 % 2 ^ 9))).bind fun pdpt =>
    let e := m.entry64 (2 ^ 12 * pdpt) (p / 2 ^ 18 % 2 ^ 9)
    (present e).bind fun pd =>
      if isLarge e then some (pd / 2 ^ 18 * 2 ^ 18 + p % 2 ^ 18)
      else
        let e := m.entry64 (2 ^ 12 * pd) (p / 2 ^ 9 % 2 ^ 9)
        (present e).bind fun pt =>
          if isLarge e then some (pt / 2 ^ 9 * 2 ^ 9 + p % 2 ^ 9)
          else present (m.entry64 (2 ^ 12 * pt) (p % 2 ^ 9))

/-- The address a page map gives an address. -/
def PageMap.address (f : PageMap) (a : Nat) : Option Nat :=
  (f (a / 2 ^ 12)).map fun frame => 2 ^ 12 * frame + a % 2 ^ 12

/-! ## Cached translations -/

/-- What the processor does with its entry for a page. -/
inductive CacheAct where
  | keep | drop | walk
  deriving DecidableEq, Repr

/-- The entries the processor has. -/
abbrev Cache := PageMap

namespace Cache

variable {c : Cache} {f g : PageMap} {p : Nat}

/-- The entries after the processor did as it liked, with the tables as they
are. -/
def act (c : Cache) (f : PageMap) (does : Nat → CacheAct) : Cache := fun p =>
  match does p with
  | .keep => c p
  | .drop => none
  | .walk => f p

/-- The translation in force: an entry goes before the tables. -/
def translate (c : Cache) (f : PageMap) : PageMap := fun p => (c p).or (f p)

def empty : Cache := fun _ => none

/-- The entry of one page dropped. -/
def invalidate (c : Cache) (p : Nat) : Cache := Function.update c p none

/-- No entry says anything else than the tables, but for the pages of `stale`. -/
def Fresh (c : Cache) (f : PageMap) (stale : Nat → Prop) : Prop :=
  ∀ p, ¬ stale p → ∀ frame, c p = some frame → f p = some frame

variable {stale : Nat → Prop}

theorem fresh_empty : Fresh empty f stale := fun _ _ _ h => nomatch h

/-- Whatever the processor does, its entries stay fresh. -/
theorem Fresh.act (h : c.Fresh f stale) (does : Nat → CacheAct) :
    (c.act f does).Fresh f stale := by
  intro p hp frame hc
  unfold Cache.act at hc
  cases hdo : does p with
  | keep => exact h p hp frame (by simpa [hdo] using hc)
  | drop => simp [hdo] at hc
  | walk => simpa [hdo] using hc

/-- Fresh entries are not noticed. -/
theorem Fresh.translate (h : c.Fresh f stale) (hp : ¬ stale p) : c.translate f p = f p := by
  unfold Cache.translate
  cases hc : c p with
  | none => rfl
  | some frame => rw [h p hp frame hc]; rfl

/-- A change of the tables makes the pages stale that it moves. -/
theorem Fresh.change (h : c.Fresh f stale) (hg : ∀ p, ¬ stale p → g p = f p) :
    c.Fresh g stale := fun p hp frame hc => by rw [hg p hp, h p hp frame hc]

theorem Fresh.weaken (h : c.Fresh f fun _ => False) : c.Fresh f stale :=
  fun p _ => h p not_false

/-- A stale page is fresh again when its entry is dropped. -/
theorem Fresh.invalidate (h : c.Fresh f (· = p)) : (c.invalidate p).Fresh f fun _ => False := by
  intro q _ frame hq
  by_cases hqp : q = p
  · simp [Cache.invalidate, hqp] at hq
  · exact h q hqp frame (by rwa [Cache.invalidate, Function.update_of_ne hqp] at hq)

end Cache

end X86

import Mathlib.Logic.Function.Basic
import Mathlib.Logic.Nontrivial.Defs

/-!
# Emulation

An instruction emulated outside the processor: the emulator loads its own
registers, executes, and stores them back, each of its registers through a map
of names. `Exact d` says that an emulated write of `d` writes `d` and nothing
else, whatever the registers hold; `exact_iff` says so of the maps.
-/

namespace Emulation

variable {R V : Type}

/-- Register `q` of the emulator is loaded from register `load q`, and register
`r` of the processor is stored from register `store r`. -/
structure Maps (R : Type) where
  load : R → R
  store : R → R

namespace Maps

/-- The registers as the emulator sees them. -/
def view (m : Maps R) (g : R → V) : R → V := fun q => g (m.load q)

/-- One emulated instruction, by what it does to the emulator's registers. -/
def cycle (m : Maps R) (f : (R → V) → R → V) (g : R → V) : R → V :=
  fun r => f (m.view g) (m.store r)

/-- What is loaded is stored back where it came from. -/
def Transparent (m : Maps R) : Prop := ∀ r, m.load (m.store r) = r

/-- A register stored from itself is seen as it is. -/
theorem Transparent.view_self {m : Maps R} {d : R} (h : m.Transparent)
    (hd : m.store d = d) (g : R → V) : m.view g d = g d := by
  have hload : m.load d = d := by
    have := h d
    rwa [hd] at this
  rw [view, hload]

variable [DecidableEq R]

theorem cycle_update (m : Maps R) (d : R) (v : V) (g : R → V) (r : R) :
    m.cycle (fun e => Function.update e d v) g r
      = if m.store r = d then v else g (m.load (m.store r)) := by
  simp only [cycle, Function.update_apply, view]

/-- An emulated write of `d` is a write of `d`. -/
def Exact (V : Type) (m : Maps R) (d : R) : Prop :=
  ∀ (g : R → V) (v : V), m.cycle (fun e => Function.update e d v) g = Function.update g d v

theorem exact_iff [Nontrivial V] {m : Maps R} {d : R} :
    m.Exact V d ↔ m.store d = d ∧ ∀ r, r ≠ d → m.store r ≠ d ∧ m.load (m.store r) = r := by
  constructor
  · intro h
    obtain ⟨x, y, hxy⟩ := exists_pair_ne V
    have hread : ∀ (g : R → V) v r, (if m.store r = d then v else g (m.load (m.store r)))
        = Function.update g d v r := by
      intro g v r
      rw [← cycle_update, h]
    refine ⟨?_, fun r hr => ?_⟩
    · by_contra hd
      have := hread (fun _ => x) y d
      rw [if_neg hd, Function.update_self] at this
      exact hxy this
    · have hstore : m.store r ≠ d := by
        intro hd
        have := hread (fun _ => x) y r
        rw [if_pos hd, Function.update_of_ne hr] at this
        exact hxy this.symm
      refine ⟨hstore, ?_⟩
      by_contra hne
      have := hread (Function.update (fun _ => x) r y) x r
      rw [if_neg hstore, Function.update_of_ne hr, Function.update_self,
        Function.update_of_ne hne] at this
      exact hxy this
  · rintro ⟨hd, hothers⟩ g v
    funext r
    rw [cycle_update]
    by_cases hr : r = d
    · rw [hr, if_pos hd, Function.update_self]
    · rw [if_neg (hothers r hr).1, (hothers r hr).2, Function.update_of_ne hr]

/-- Where two registers are written exactly, the rest is transparent. -/
theorem transparent_of_exact [Nontrivial V] {m : Maps R} {d e : R} (hne : d ≠ e)
    (hd : m.Exact V d) (he : m.Exact V e) : m.Transparent := by
  intro r
  by_cases hr : r = d
  · exact ((exact_iff.mp he).2 r (hr ▸ hne)).2
  · exact ((exact_iff.mp hd).2 r hr).2

/-- In a transparent emulator, a register stored from itself is written exactly. -/
theorem Transparent.exact [Nontrivial V] {m : Maps R} {d : R} (h : m.Transparent)
    (hd : m.store d = d) : m.Exact V d := by
  refine exact_iff.mpr ⟨hd, fun r hr => ⟨fun heq => hr ?_, h r⟩⟩
  calc r = m.load (m.store r) := (h r).symm
    _ = m.load (m.store d) := by rw [heq, hd]
    _ = d := h d

end Maps

end Emulation

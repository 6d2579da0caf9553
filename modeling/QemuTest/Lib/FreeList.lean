import Mathlib.Data.List.Perm.Basic

/-!
# Free lists

A stock of items, some free and some held, with the two moves of a LIFO free
list: the last free item is taken, an item that was held is put back. Both
conserve the stock; with a stock without repetition, nothing is held twice.
-/

namespace FreeList

variable {α : Type}

/-- What is free and what is held are together exactly `all`. -/
def Conserves (all free held : List α) : Prop := (free ++ held).Perm all

theorem Conserves.init (all : List α) : Conserves all all [] := by
  rw [Conserves, List.append_nil]

/-- The last free item is taken. -/
theorem Conserves.take {all free held : List α} {x : α}
    (h : Conserves all (free ++ [x]) held) : Conserves all free (x :: held) := by
  simpa [Conserves] using h

/-- A held item is put back at the end. -/
theorem Conserves.give {all free held held' : List α} {x : α}
    (h : Conserves all free held) (hx : held.Perm (x :: held')) :
    Conserves all (free ++ [x]) held' := by
  have hperm : (free ++ x :: held').Perm all := (hx.symm.append_left free).trans h
  simpa [Conserves] using hperm

theorem Conserves.nodup {all free held : List α} (h : Conserves all free held)
    (hnd : all.Nodup) : (free ++ held).Nodup :=
  h.nodup_iff.mpr hnd

theorem Conserves.nodup_held {all free held : List α} (h : Conserves all free held)
    (hnd : all.Nodup) : held.Nodup :=
  (List.nodup_append.mp (h.nodup hnd)).2.1

theorem Conserves.mem_of_held {all free held : List α} (h : Conserves all free held)
    {x : α} (hx : x ∈ held) : x ∈ all :=
  h.mem_iff.mp (List.mem_append_right _ hx)

/-- Nothing is free iff everything is held. -/
theorem Conserves.exhausted_iff {all free held : List α} (h : Conserves all free held)
    (hnd : all.Nodup) : free = [] ↔ ∀ x ∈ all, x ∈ held := by
  constructor
  · rintro rfl x hx
    exact h.mem_iff.mpr hx
  · intro hall
    by_contra hne
    obtain ⟨x, hx⟩ := List.exists_mem_of_ne_nil free hne
    have hmem : x ∈ all := h.mem_iff.mp (List.mem_append_left _ hx)
    -- an item that is free and held would be there twice
    exact (List.nodup_append.mp (h.nodup hnd)).2.2 x hx x (hall x hmem) rfl

theorem Conserves.length {all free held : List α} (h : Conserves all free held) :
    free.length + held.length = all.length := by
  rw [← List.length_append, h.length_eq]

end FreeList

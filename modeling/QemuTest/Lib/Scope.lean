import Mathlib.Data.List.Nodup
import Mathlib.Data.List.Pairwise

/-!
# Scopes

The locals of a function as a stack: the one declared last is dropped first. A
local offers resources to those declared after it, and uses some of those
offered below it; `free` are the ones the function may still use.

`Sound` says that no resource is offered or used twice, and that every use is
grounded. Each way a function goes on keeps it. Dropping from the top does,
because what a local uses is offered below.
-/

namespace Scope

variable {α ρ : Type} (offers uses : α → List ρ)

/-- What a local uses is offered below it. -/
def Grounded : List α → Prop
  | [] => True
  | a :: below => (∀ r ∈ uses a, r ∈ below.flatMap offers) ∧ Grounded below

structure Sound (free : List ρ) (locals : List α) : Prop where
  grounded : Grounded offers uses locals
  covered : ∀ r ∈ free, r ∈ locals.flatMap offers
  distinct : (locals.flatMap offers).Nodup
  once : (free ++ locals.flatMap uses).Nodup

variable {offers uses}

theorem Grounded.offered {locals : List α} (h : Grounded offers uses locals) {a : α}
    (ha : a ∈ locals) {r : ρ} (hr : r ∈ uses a) : r ∈ locals.flatMap offers := by
  induction locals with
  | nil => cases ha
  | cons b below ih =>
      rw [List.flatMap_cons, List.mem_append]
      rcases List.mem_cons.mp ha with rfl | ha
      · exact .inr (h.1 r hr)
      · exact .inr (ih h.2 ha)

/-- Two locals with a resource in common are the same. -/
theorem eq_of_nodup {f : α → List ρ} {locals : List α} (h : (locals.flatMap f).Nodup)
    {a b : α} (ha : a ∈ locals) (hb : b ∈ locals) {r : ρ} (hr : r ∈ f a) (hs : r ∈ f b) :
    a = b := by
  rw [List.nodup_flatMap] at h
  by_contra hne
  have hsymm : Std.Symm (Function.onFun List.Disjoint f) := ⟨fun _ _ h _ hx hy => h hy hx⟩
  have hdisj : List.Disjoint (f a) (f b) := h.2.forall ha hb hne
  exact hdisj hr hs

namespace Sound

variable {free rest : List ρ} {locals below : List α} {a b : α} {r : ρ}

theorem nil : Sound offers uses [] [] where
  grounded := trivial
  covered := by simp
  distinct := by simp
  once := by simp

theorem offered (h : Sound offers uses free locals) (ha : a ∈ locals)
    (hr : r ∈ uses a) : r ∈ locals.flatMap offers :=
  h.grounded.offered ha hr

theorem unique (h : Sound offers uses free locals) (ha : a ∈ locals) (hb : b ∈ locals)
    (hr : r ∈ uses a) (hs : r ∈ uses b) : a = b :=
  eq_of_nodup (List.nodup_append.mp h.once).2.1 ha hb hr hs

/-- The function gives up what it has not used. -/
theorem giveUp (h : Sound offers uses free locals) : Sound offers uses [] locals where
  grounded := h.grounded
  covered := by simp
  distinct := h.distinct
  once := (List.nodup_append.mp h.once).2.1

/-- A new local offers resources that are none of those there. -/
theorem offer (h : Sound offers uses free locals) (huses : uses a = [])
    (hnd : (offers a).Nodup) (hnew : ∀ r ∈ offers a, r ∉ locals.flatMap offers) :
    Sound offers uses (offers a ++ free) (a :: locals) where
  grounded := ⟨by simp [huses], h.grounded⟩
  covered r hr := by
    rw [List.flatMap_cons, List.mem_append]
    exact (List.mem_append.mp hr).imp_right (h.covered r)
  distinct := by
    rw [List.flatMap_cons]
    exact List.nodup_append.mpr
      ⟨hnd, h.distinct, fun r hr s hs heq => hnew r hr (heq ▸ hs)⟩
  once := by
    rw [List.flatMap_cons, huses, List.nil_append, List.append_assoc]
    refine List.nodup_append.mpr ⟨hnd, h.once, fun r hr s hs heq => hnew r hr ?_⟩
    subst heq
    rcases List.mem_append.mp hs with hs | hs
    · exact h.covered r hs
    · obtain ⟨b, hb, hr⟩ := List.mem_flatMap.mp hs
      exact h.offered hb hr

/-- A new local uses some of the free resources. -/
theorem use (h : Sound offers uses free locals) (hoffers : offers a = [])
    (hperm : free.Perm (uses a ++ rest)) : Sound offers uses rest (a :: locals) where
  grounded := ⟨fun r hr => h.covered r (hperm.mem_iff.mpr (List.mem_append_left _ hr)),
    h.grounded⟩
  covered r hr := by
    rw [List.flatMap_cons, hoffers, List.nil_append]
    exact h.covered r (hperm.mem_iff.mpr (List.mem_append_right _ hr))
  distinct := by simpa [hoffers] using h.distinct
  once := by
    rw [List.flatMap_cons, ← List.append_assoc]
    have hswap : (rest ++ uses a).Perm free := List.perm_append_comm.trans hperm.symm
    exact (hswap.append_right _).nodup_iff.mpr h.once

/-- The top is dropped: nothing below it uses what it offered. -/
theorem drop (h : Sound offers uses free (a :: below)) : Sound offers uses [] below where
  grounded := h.grounded.2
  covered := by simp
  distinct := (List.nodup_append.mp h.distinct).2.1
  once := (List.nodup_append.mp (List.nodup_append.mp h.once).2.1).2.1

/-- A local that offers nothing is moved out, and the function goes on. -/
theorem move (h : Sound offers uses free (a :: below)) (hoffers : offers a = []) :
    Sound offers uses free below where
  grounded := h.grounded.2
  covered r hr := by simpa [hoffers] using h.covered r hr
  distinct := h.drop.distinct
  once := by
    have hsub : (below.flatMap uses).Sublist ((a :: below).flatMap uses) :=
      List.sublist_append_right _ _
    exact h.once.sublist (hsub.append_left free)

end Sound

end Scope

import QemuTest.Lib.X86.Flow

/-!
# X86 — FpuStack

The x87 stack as a stack: `Stacked h` says that it holds `h` values, in the
last `h` slots.
-/

namespace X86.Fpu

variable {f g : Fpu} {h : Nat} {k : Fin 8}

/-- The stack holds `h` values. -/
structure Stacked (f : Fpu) (h : Nat) : Prop where
  top : f.top.val = (8 - h) % 8
  full : ∀ k, f.full k = decide (8 - h ≤ k.val)

theorem stacked_init : f.init.Stacked 0 where
  top := rfl
  full := by
    intro k
    exact (decide_eq_false (by omega)).symm

/-- What is stored from a slot, and whether an exception is pending then, depends
on the control word, the slot's tag and its contents. -/
theorem stored_congr (hcw : g.cw = f.cw) (hfull : g.full k = f.full k)
    (hst : g.st k = f.st k) : g.stored k = f.stored k ∧ g.raises k = f.raises k := by
  have hint : g.integer k = f.integer k := by rw [integer, integer, hcw, hfull, hst]
  have hinvalid : g.masksInvalid = f.masksInvalid := by rw [masksInvalid, masksInvalid, hcw]
  have hinexact : g.masksInexact = f.masksInexact := by rw [masksInexact, masksInexact, hcw]
  rw [stored, stored, raises, raises, hint, hinvalid, hinexact]
  exact ⟨rfl, rfl⟩

/-- A value pushed onto a stack with room. -/
theorem Stacked.push (hf : f.Stacked h) (hroom : h < 8) (x : Float80) :
    (f.push x).Stacked (h + 1) ∧ (f.push x).es = f.es ∧
      (∀ k, k.val = 7 - h → (f.push x).st k = x) ∧
      (∀ k, k.val ≠ 7 - h → (f.push x).st k = f.st k ∧ (f.push x).full k = f.full k) := by
  have hnext : (f.top - 1).val = 7 - h := by
    have := hf.top
    rw [Fin.sub_def]
    simp only [Fin.val_one]
    omega
  have hempty : f.full (f.top - 1) = false := by
    rw [hf.full, hnext]
    exact decide_eq_false (by omega)
  rw [Fpu.push, if_neg (by simp [hempty])]
  refine ⟨⟨?_, fun k => ?_⟩, rfl, fun k hk => ?_, fun k hk => ?_⟩
  · rw [hnext]
    omega
  · show Function.update f.full (f.top - 1) true k = _
    by_cases hk : k = f.top - 1
    · subst hk
      rw [Function.update_self, hnext]
      exact (decide_eq_true (by omega)).symm
    · have hval : k.val ≠ 7 - h := fun he => hk (Fin.ext (he.trans hnext.symm))
      rw [Function.update_of_ne hk, hf.full]
      exact decide_eq_decide.mpr (by omega)
  · rw [show k = f.top - 1 from Fin.ext (hk.trans hnext.symm)]
    exact Function.update_self ..
  · have hne : k ≠ f.top - 1 := fun he => hk (by rw [he, hnext])
    exact ⟨Function.update_of_ne hne _ _, Function.update_of_ne hne _ _⟩

/-- The value on top gone. -/
theorem Stacked.pop (hf : f.Stacked (h + 1)) (hle : h < 8) :
    f.pop.Stacked h ∧ ∀ k, k.val ≠ 7 - h → f.pop.full k = f.full k := by
  have htop : f.top.val = 7 - h := by
    have := hf.top
    omega
  refine ⟨⟨?_, fun k => ?_⟩, fun k hk => ?_⟩
  · show (f.top + 1).val = _
    rw [Fin.add_def]
    simp only [htop, Fin.val_one]
    omega
  · show Function.update f.full f.top false k = _
    by_cases hk : k = f.top
    · subst hk
      rw [Function.update_self, htop]
      exact (decide_eq_false (by omega)).symm
    · have hval : k.val ≠ 7 - h := fun he => hk (Fin.ext (he.trans htop.symm))
      rw [Function.update_of_ne hk, hf.full]
      exact decide_eq_decide.mpr (by omega)
  · exact Function.update_of_ne (fun he => hk (by rw [he, htop])) _ _

/-- After a store the value on top is gone, unless an exception is pending. -/
theorem Stacked.afterStore (hf : f.Stacked (h + 1)) (hle : h < 8)
    (hes : f.afterStore.es = false) :
    f.afterStore.Stacked h ∧ ∀ k, k.val ≠ 7 - h → f.afterStore.full k = f.full k := by
  have hpop := hf.pop hle
  unfold Fpu.afterStore at hes ⊢
  split at hes
  · exact ⟨⟨hpop.1.top, hpop.1.full⟩, hpop.2⟩
  · split at hes
    · rename_i hmask
      rw [if_pos hmask]
      exact ⟨⟨hpop.1.top, hpop.1.full⟩, hpop.2⟩
    · simp at hes

/-- The exception is pending behind the store. -/
theorem afterStore_raises (hf : f.raises f.top = true) : f.afterStore.es = true := by
  unfold raises at hf
  unfold Fpu.afterStore
  split at hf
  · exact hf
  · rw [if_neg (by simpa using hf)]

/-- No exception is pending behind a store that raises none. -/
theorem afterStore_clear (hes : f.es = false) (hf : f.raises f.top = false) :
    f.afterStore.es = false := by
  unfold raises at hf
  unfold Fpu.afterStore
  split at hf
  · exact hf
  · rw [if_pos (by simpa using hf)]
    exact hes

/-- An integer that was loaded is stored back, and raises no exception. -/
theorem Stacked.integer_ofInt (hf : f.Stacked h) (hk : 8 - h ≤ k.val) {v : BitVec 64}
    (hst : f.st k = .ofInt v.toInt) : f.integer k = some (v, true) := by
  rw [integer, hf.full, decide_eq_true hk, if_pos rfl, hst, Float80.toInt_ofInt]

end X86.Fpu

import Mathlib.Logic.Basic
import Mathlib.Data.List.Induction
import Mathlib.Order.WellFounded

/-!
# Runs

Runs of a labelled transition system from a start state: the events in the
order they happened, and the state they led to. `Run.induct` is the one
induction the safety proofs use; `Run.invariant` is its state-only form.
`Leads` is the other half: some run gets to a state with a property,
`Leads.of_measure` is how a loop gets to its end, and `Leads.follow` takes a
second machine along.
-/

namespace Runs

variable {σ α : Type}

/-- `Run step s es t`: from `s`, the events `es` lead to `t`. -/
inductive Run (step : σ → α → σ → Prop) (s : σ) : List α → σ → Prop where
  | nil : Run step s [] s
  | snoc {es : List α} {t u : σ} {e : α} :
      Run step s es t → step t e u → Run step s (es ++ [e]) u

/-- **Induction over a run**: what holds at the start with no events, and is
kept by each step extending the history, holds of every run. -/
theorem Run.induct {step : σ → α → σ → Prop} {s : σ} {P : List α → σ → Prop}
    (h0 : P [] s)
    (hstep : ∀ es t e u, P es t → step t e u → P (es ++ [e]) u)
    {es : List α} {t : σ} (h : Run step s es t) : P es t := by
  induction h with
  | nil => exact h0
  | snoc _ hs ih => exact hstep _ _ _ _ ih hs

/-- What every step keeps holds in every reachable state. -/
theorem Run.invariant {step : σ → α → σ → Prop} {s : σ} {P : σ → Prop}
    (h0 : P s) (hstep : ∀ t e u, P t → step t e u → P u)
    {es : List α} {t : σ} (h : Run step s es t) : P t :=
  Run.induct (P := fun _ t => P t) h0 (fun _ t e u ht hs => hstep t e u ht hs) h

/-- Executing the events one by one gives a run. -/
theorem Run.of_foldlM {step : σ → α → Option σ} {s t : σ} {es : List α}
    (h : es.foldlM step s = some t) :
    Run (fun s e t => step s e = some t) s es t := by
  induction es using List.reverseRecOn generalizing t with
  | nil =>
      obtain rfl : s = t := by simpa using h
      exact .nil
  | append_singleton es e ih =>
      rw [List.foldlM_append] at h
      obtain ⟨u, hu, ht⟩ := Option.bind_eq_some_iff.mp h
      exact .snoc (ih hu) (by simpa using ht)

/-- Every step of a run meets `Q`, a condition on the state before it and its
event. -/
def EveryStep (step : σ → α → σ → Prop) (s : σ) (Q : σ → α → Prop) (es : List α) :
    Prop :=
  ∀ pre e post t, es = pre ++ e :: post → Run step s pre t → Q t e

theorem everyStep_nil (step : σ → α → σ → Prop) (s : σ) (Q : σ → α → Prop) :
    EveryStep step s Q [] := by
  intro pre e post t h
  simp at h

/-- A run determines its last step, and its events the state they lead to. -/
theorem Run.snoc_inv {step : σ → α → σ → Prop} {s u : σ} {es : List α} {e : α}
    (h : Run step s (es ++ [e]) u) : ∃ t, Run step s es t ∧ step t e u := by
  generalize hes : es ++ [e] = fs at h
  cases h with
  | nil => simp at hes
  | snoc hrun hs =>
      obtain ⟨rfl, heq⟩ := List.append_inj' hes rfl
      obtain rfl : e = _ := by simpa using heq
      exact ⟨_, hrun, hs⟩

theorem Run.unique {step : σ → α → σ → Prop}
    (hdet : ∀ t e u v, step t e u → step t e v → u = v) {s t u : σ} {es : List α}
    (h : Run step s es t) (h' : Run step s es u) : t = u := by
  induction h generalizing u with
  | nil =>
      generalize hes : ([] : List α) = fs at h'
      cases h' with
      | nil => rfl
      | snoc _ _ => simp at hes
  | snoc _ hs ih =>
      obtain ⟨v, hv, hu⟩ := h'.snoc_inv
      obtain rfl := ih hv
      exact hdet _ _ _ _ hs hu

/-- One more step: it meets the condition, and so did all before it. -/
theorem everyStep_snoc {step : σ → α → σ → Prop}
    (hdet : ∀ t e u v, step t e u → step t e v → u = v) {s t : σ}
    {Q : σ → α → Prop} {es : List α} {e : α} (h : Run step s es t) :
    EveryStep step s Q (es ++ [e]) ↔ EveryStep step s Q es ∧ Q t e := by
  constructor
  · intro hall
    refine ⟨fun pre f post u heq hu => ?_, hall es e [] t rfl h⟩
    exact hall pre f (post ++ [e]) u (by simp [heq]) hu
  · rintro ⟨hall, hlast⟩ pre f post u heq hu
    rcases List.eq_nil_or_concat post with rfl | ⟨post, g, rfl⟩
    · obtain ⟨rfl, hf⟩ := List.append_inj' heq rfl
      obtain rfl : e = f := by simpa using hf
      exact h.unique hdet hu ▸ hlast
    · refine hall pre f post u ?_ hu
      rw [List.concat_eq_append, ← List.cons_append, ← List.append_assoc] at heq
      exact (List.append_inj' heq rfl).1

/-! ## Getting somewhere -/

theorem Run.trans {step : σ → α → σ → Prop} {s t u : σ} {es fs : List α}
    (h : Run step s es t) (h' : Run step t fs u) : Run step s (es ++ fs) u := by
  induction h' with
  | nil => rwa [List.append_nil]
  | snoc _ hs ih =>
      rw [← List.append_assoc]
      exact ih.snoc hs

/-- Some run from `s` leads to a state with `Q`. -/
def Leads (step : σ → α → σ → Prop) (Q : σ → Prop) (s : σ) : Prop :=
  ∃ es t, Run step s es t ∧ Q t

namespace Leads

variable {step : σ → α → σ → Prop} {P Q : σ → Prop} {s t : σ}

theorem now (h : Q s) : Leads step Q s := ⟨[], s, .nil, h⟩

theorem cons {e : α} (hs : step s e t) (h : Leads step Q t) : Leads step Q s := by
  obtain ⟨es, u, hrun, hu⟩ := h
  exact ⟨[e] ++ es, u, (Run.snoc .nil hs).trans hrun, hu⟩

theorem bind (h : Leads step P s) (hQ : ∀ t, P t → Leads step Q t) : Leads step Q s := by
  obtain ⟨es, t, hrun, ht⟩ := h
  obtain ⟨fs, u, hrun', hu⟩ := hQ t ht
  exact ⟨es ++ fs, u, hrun.trans hrun', hu⟩

/-- What every step keeps also holds where the run leads. -/
theorem keeping {I : σ → Prop} (h : Leads step Q s) (hI : I s)
    (hstep : ∀ t e u, I t → step t e u → I u) : Leads step (fun t => I t ∧ Q t) s := by
  obtain ⟨es, t, hrun, ht⟩ := h
  exact ⟨es, t, hrun, hrun.invariant hI hstep, ht⟩

/-- **A loop gets to its end**: where there is always a step that is the last
one or decreases the measure. -/
theorem of_measure {β : Type} [LT β] [WellFoundedLT β] {I : σ → Prop} (μ : σ → β)
    (h : ∀ s, I s → ∃ e t, step s e t ∧ (Q t ∨ (I t ∧ μ t < μ s))) (hI : I s) :
    Leads step Q s := by
  induction hb : μ s using WellFoundedLT.induction generalizing s with
  | ind b ih =>
      obtain ⟨e, t, hs, ht | ⟨ht, hlt⟩⟩ := h s hI
      · exact cons hs (now ht)
      · exact cons hs (ih (μ t) (hb ▸ hlt) ht rfl)

/-- Seen through `f`, a run is a run of the steps seen through `f`. -/
theorem map {τ β : Type} {step' : τ → β → τ → Prop} {Q' : τ → Prop} (f : σ → τ)
    (hstep : ∀ s e t, step s e t → ∃ e', step' (f s) e' (f t))
    (hQ : ∀ t, Q t → Q' (f t)) (h : Leads step Q s) : Leads step' Q' (f s) := by
  obtain ⟨es, t, hrun, ht⟩ := h
  suffices hmap : ∃ fs, Run step' (f s) fs (f t) by
    obtain ⟨fs, hfs⟩ := hmap
    exact ⟨fs, f t, hfs, hQ t ht⟩
  clear ht
  induction hrun with
  | nil => exact ⟨[], .nil⟩
  | snoc _ hs ih =>
      obtain ⟨fs, hfs⟩ := ih
      obtain ⟨e', he'⟩ := hstep _ _ _ hs
      exact ⟨fs ++ [e'], hfs.snoc he'⟩

/-- **Following**: a run that takes a machine to a state with `Q` takes one that
follows it step by step along, up to the first state with `Q`. -/
theorem follow {τ : Type} {step' : τ → α → τ → Prop} {R : σ → τ → Prop} {d : τ}
    (hstep : ∀ s e t d, R s d → ¬ Q s → step s e t → ∃ d', step' d e d' ∧ R t d')
    (h : Leads step Q s) (hR : R s d) :
    ∃ es u v, Run step s es u ∧ Run step' d es v ∧ R u v ∧ Q u := by
  obtain ⟨es, t, hrun, ht⟩ := h
  suffices hall : ∃ fs u v, Run step s fs u ∧ Run step' d fs v ∧ R u v ∧ (u = t ∨ Q u) by
    obtain ⟨fs, u, v, hu, hv, huv, hend⟩ := hall
    exact ⟨fs, u, v, hu, hv, huv, hend.elim (fun he => he ▸ ht) id⟩
  clear ht
  induction hrun with
  | nil => exact ⟨[], s, d, .nil, .nil, hR, .inl rfl⟩
  | snoc _ hs ih =>
      obtain ⟨fs, u, v, hu, hv, huv, rfl | hend⟩ := ih
      · by_cases hQ : Q u
        · exact ⟨fs, u, v, hu, hv, huv, .inr hQ⟩
        · obtain ⟨v', hv', huv'⟩ := hstep _ _ _ _ huv hQ hs
          exact ⟨_, _, v', hu.snoc hs, hv.snoc hv', huv', .inl rfl⟩
      · exact ⟨fs, u, v, hu, hv, huv, .inr hend⟩

end Leads

end Runs

import QemuTest.Lib.Runs

/-!
# Sends

Machines that send. A loop that sends a text sends it over and over
(`over_and_over`). What a deterministic machine certainly gets to send is all
it ever sends: whatever state a run is in, it has sent a beginning of that
text, and goes on (`Appends.sent`).
-/

namespace Runs

variable {σ β : Type}

/-! ## Over and over -/

theorem flatten_replicate_succ (n : Nat) (l : List β) :
    (List.replicate (n + 1) l).flatten = (List.replicate n l).flatten ++ l := by
  rw [List.replicate_succ', List.flatten_append, List.flatten_singleton]

/-- Copies of a text are at least as long as they are many. -/
theorem le_length_copies {l : List β} (hl : l ≠ []) (n : Nat) :
    n ≤ (List.replicate n l).flatten.length := by
  rw [List.length_flatten, List.map_replicate, List.sum_replicate_nat]
  exact Nat.le_mul_of_pos_right n (List.length_pos_iff.mpr hl)

/-- **Over and over**: where a round gets from the head of a loop to the head
again and sends a text in between, so many rounds send so many copies. How the
machine gets there, `G`, does not matter. -/
theorem over_and_over {G : (σ → Prop) → σ → Prop} (hnow : ∀ {Q s}, Q s → G Q s)
    (hbind : ∀ {Q R s}, G Q s → (∀ t, Q t → G R t) → G R s) {I : σ → Prop}
    {out : σ → List β} {l : List β}
    (hround : ∀ t, I t → G (fun u => I u ∧ out u = out t ++ l) t) {s : σ} (h : I s) (n : Nat) :
    G (fun t => I t ∧ out t = out s ++ (List.replicate n l).flatten) s := by
  induction n with
  | zero => exact hnow ⟨h, by simp⟩
  | succ n ih =>
      refine hbind ih fun t ⟨ht, hlog⟩ => ?_
      rw [flatten_replicate_succ, ← List.append_assoc, ← hlog]
      exact hround t ht

/-! ## All that is sent -/

/-- The steps of a deterministic machine. -/
abbrev Goes (f : σ → Option σ) (s : σ) (_ : Unit) (t : σ) : Prop := f s = some t

theorem Leads.goes {f : σ → Option σ} {Q : σ → Prop} {s t : σ} (h : f s = some t)
    (ht : Leads (Goes f) Q t) : Leads (Goes f) Q s :=
  .cons (e := ()) h ht

/-- A number of steps. -/
def goes (f : σ → Option σ) : Nat → σ → Option σ
  | 0, s => some s
  | n + 1, s => (f s).bind (goes f n)

/-- A step leaves what was sent, and sends one more at most. -/
def Appends (f : σ → Option σ) (out : σ → List β) : Prop :=
  ∀ s t, f s = some t → ∃ l, out t = out s ++ l ∧ l.length ≤ 1

variable {f : σ → Option σ} {out : σ → List β} {s t u : σ} {m n : Nat} {es : List Unit}

theorem goes_add (m n : Nat) (s : σ) : goes f (m + n) s = (goes f m s).bind (goes f n) := by
  induction m generalizing s with
  | zero => rw [Nat.zero_add]; rfl
  | succ m ih =>
      rw [Nat.succ_add, goes, goes, Option.bind_assoc]
      congr 1
      funext t
      exact ih t

/-- A run, by its length. -/
theorem Run.goes (h : Run (Goes f) s es t) : goes f es.length s = some t := by
  induction h with
  | nil => rfl
  | snoc _ hs ih =>
      rw [List.length_append, goes_add, ih]
      show Option.bind (f _) _ = _
      rw [show f _ = some _ from hs]
      rfl

/-- A state so many steps away is reached. -/
theorem Leads.of_goes {Q : σ → Prop} (h : Runs.goes f n s = some t) (ht : Q t) :
    Leads (Goes f) Q s := by
  induction n generalizing s with
  | zero =>
      obtain rfl := Option.some.inj h
      exact .now ht
  | succ n ih =>
      obtain ⟨u, hu, h⟩ := Option.bind_eq_some_iff.mp h
      exact .goes hu (ih h)

namespace Appends

theorem sends (h : Appends f out) (hn : Runs.goes f n s = some t) :
    ∃ l, out t = out s ++ l ∧ l.length ≤ n := by
  induction n generalizing s with
  | zero =>
      obtain rfl := Option.some.inj hn
      exact ⟨[], by simp⟩
  | succ n ih =>
      obtain ⟨u, hu, ht⟩ := Option.bind_eq_some_iff.mp hn
      obtain ⟨l, hl, hlen⟩ := h s u hu
      obtain ⟨l', hl', hlen'⟩ := ih ht
      exact ⟨l ++ l', by rw [hl', hl, List.append_assoc], by rw [List.length_append]; omega⟩

/-- A machine that gets to send each of these texts goes on from every state to
one that it has not sent before. -/
theorem outruns (h : Appends f out) {text : Nat → List β} (hlong : ∀ n, n ≤ (text n).length)
    (hs : out s = []) (hgets : ∀ n, Leads (Goes f) (fun t => out t = text n) s)
    (hrun : Run (Goes f) s es t) :
    ∃ k u, Runs.goes f (1 + k) t = some u ∧ out u = text (es.length + 1) := by
  obtain ⟨fs, u, hfs, hu⟩ := hgets (es.length + 1)
  obtain ⟨l, hl, hlen⟩ := h.sends hfs.goes
  -- a text that long takes longer than the run took
  have hlong' := hlong (es.length + 1)
  rw [← hu, hl, hs, List.nil_append] at hlong'
  obtain ⟨k, hk⟩ := Nat.exists_eq_add_of_le (show es.length + 1 ≤ fs.length by omega)
  have hon := hfs.goes
  rw [hk, Nat.add_assoc, goes_add, hrun.goes, Option.bind_some] at hon
  exact ⟨k, u, hon, hu⟩

/-- **All it ever sends**: in every state of every run it has sent a beginning
of one of them, and goes on. -/
theorem sent (h : Appends f out) {text : Nat → List β} (hlong : ∀ n, n ≤ (text n).length)
    (hs : out s = []) (hgets : ∀ n, Leads (Goes f) (fun t => out t = text n) s)
    (hrun : Run (Goes f) s es t) : (∃ n, out t <+: text n) ∧ ∃ u, f t = some u := by
  obtain ⟨k, u, hon, hu⟩ := h.outruns hlong hs hgets hrun
  constructor
  · obtain ⟨l, hl, -⟩ := h.sends hon
    refine ⟨es.length + 1, ?_⟩
    rw [← hu, hl]
    exact List.prefix_append _ _
  · rw [goes_add] at hon
    obtain ⟨v, hv, -⟩ := Option.bind_eq_some_iff.mp hon
    obtain ⟨w, hw, -⟩ := Option.bind_eq_some_iff.mp hv
    exact ⟨w, hw⟩

/-- From every state of every run one of the texts is sent whole. -/
theorem onward (h : Appends f out) {text : Nat → List β} (hlong : ∀ n, n ≤ (text n).length)
    (hs : out s = []) (hgets : ∀ n, Leads (Goes f) (fun t => out t = text n) s)
    (hrun : Run (Goes f) s es t) : ∃ n, Leads (Goes f) (fun u => out u = text (n + 1)) t := by
  obtain ⟨k, u, hon, hu⟩ := h.outruns hlong hs hgets hrun
  exact ⟨es.length, .of_goes hon hu⟩

/-- **Nothing more**: a machine that gets to a state from which on it stays
silent has, in every state of every run, sent a beginning of what it had sent
there. -/
theorem sent_before (h : Appends f out) {I : σ → Prop} {text : List β}
    (hsilent : ∀ s t, I s → f s = some t → I t ∧ out t = out s)
    (hgets : Leads (Goes f) (fun t => I t ∧ out t = text) s) (hrun : Run (Goes f) s es t) :
    out t <+: text := by
  obtain ⟨fs, u, hfs, hu, rfl⟩ := hgets
  by_cases hle : es.length ≤ fs.length
  · obtain ⟨k, hk⟩ := Nat.exists_eq_add_of_le hle
    have hon : Runs.goes f k t = some u := by
      have := hfs.goes
      rwa [hk, goes_add, hrun.goes, Option.bind_some] at this
    obtain ⟨l, hl, -⟩ := h.sends hon
    exact hl ▸ List.prefix_append _ _
  · obtain ⟨k, hk⟩ := Nat.exists_eq_add_of_le (Nat.le_of_not_le hle)
    have hon : Runs.goes f k u = some t := by
      have := hrun.goes
      rwa [hk, goes_add, hfs.goes, Option.bind_some] at this
    suffices hstay : ∀ k u, I u → Runs.goes f k u = some t → out t = out u by
      exact hstay k u hu hon ▸ List.prefix_refl _
    intro k
    induction k with
    | zero =>
        intro u _ ht
        rw [Option.some.inj ht]
    | succ k ih =>
        intro u hu ht
        obtain ⟨v, hv, ht⟩ := Option.bind_eq_some_iff.mp ht
        obtain ⟨hI, hout⟩ := hsilent u v hu hv
        rw [ih v hI ht, hout]

end Appends

end Runs

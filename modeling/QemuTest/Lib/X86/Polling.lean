import QemuTest.Lib.X86.Flow
import QemuTest.Lib.Runs

/-!
# X86 — Polling

A processor and the status port it polls. The port is the stream of its
answers, one for every `in`, so that with a port there is one run (`ticks`)
and not one for each choice of what is read. `Gets` says that this run comes
to a state with a property, whatever part of the stream is used up.
-/

namespace X86

open Runs

variable {C D : Type}

/-! ## The port -/

/-- What the status port answers, in the order the answers are read. -/
abbrev Port := Nat → Byte

/-- The answer lets the next byte be sent. -/
def ready (b : Byte) : Bool := b &&& 0x20 ≠ 0

/-- A port that says ready again and again. -/
def Port.Fair (port : Port) : Prop := ∀ n, ∃ m, n ≤ m ∧ ready (port m) = true

/-- A port that is always ready. -/
def Port.prompt : Port := fun _ => 0x20

theorem Port.fair_prompt : Port.prompt.Fair := by
  intro n
  exact ⟨n, Nat.le_refl n, (by decide : ready 0x20 = true)⟩

theorem Port.Fair.shift {port : Port} (h : port.Fair) (k : Nat) : Port.Fair fun n => port (k + n) := by
  intro n
  obtain ⟨m, hm, hready⟩ := h (k + n)
  refine ⟨m - k, by omega, ?_⟩
  show ready (port (k + (m - k))) = true
  rwa [Nat.add_sub_cancel' (by omega)]

/-- Each answer of a fair port is ready or brings the next ready one nearer. -/
theorem Port.Fair.rank {port : Port} (h : port.Fair) :
    ∃ rank : Nat → Nat, ∀ n, ready (port n) = true ∨ rank (n + 1) < rank n := by
  have hex : ∀ n, ∃ d, ready (port (n + d)) = true := by
    intro n
    obtain ⟨m, hm, hready⟩ := h n
    exact ⟨m - n, by rwa [Nat.add_sub_cancel' hm]⟩
  refine ⟨fun n => Nat.find (hex n), fun n => ?_⟩
  simp only
  cases hfind : Nat.find (hex n) with
  | zero => exact .inl ((Nat.find_eq_zero (hex n)).mp hfind)
  | succ d =>
      have hready := Nat.find_spec (hex n)
      rw [hfind, Nat.add_succ, ← Nat.succ_add] at hready
      exact .inr (Nat.lt_succ_of_le (Nat.find_min' (hex (n + 1)) hready))

/-! ## The run -/

/-- Does the instruction read the port? -/
def Instr.reads : Instr C D → Bool
  | .inAl => true
  | _ => false

section

variable [DecidableEq C] (P : Program C D) (L : Layout D) (port : Port)

/-- One step of a processor that has read so many answers. -/
def tick (x : State × Nat) : Option (State × Nat) :=
  (P.fetch x.1.rip).bind fun i =>
    (exec P L (port x.2) x.1 i).map fun t => (t, if i.reads then x.2 + 1 else x.2)

/-- A number of steps. -/
def ticks : Nat → State × Nat → Option (State × Nat)
  | 0, x => some x
  | n + 1, x => (ticks n x).bind (tick P L port)

/-- How often the next `n` steps lead to instruction `c`. -/
def visits (c : Nat) (x : State × Nat) : Nat → Nat
  | 0 => 0
  | n + 1 => visits c x n +
      if (ticks P L port (n + 1) x).any fun y => y.1.rip = c then 1 else 0

/-- The steps at the instructions from `lo` on, each with the answer an `in`
reads there. -/
def Ticks (lo : Nat) (x : State × Nat) (inp : Byte) (y : State × Nat) : Prop :=
  lo ≤ x.1.rip ∧ inp = port x.2 ∧ tick P L port x = some y

/-- From `s`, whatever was read before, the program gets to a state with `Q`
through instructions from `lo` on. -/
def Gets (lo : Nat) (Q : State → Prop) (s : State) : Prop :=
  ∀ k, Leads (Ticks P L port lo) (fun y => Q y.1) (s, k)

end

section

variable [DecidableEq C] {P : Program C D} {L : Layout D} {port : Port} {lo k n : Nat}
  {s t : State} {x y : State × Nat} {i : Instr C D} {inp : Byte} {Q R : State → Prop}

/-- The steps of a program, each with the byte its `in` would read. -/
abbrev Steps (P : Program C D) (L : Layout D) (s : State) (inp : Byte) (t : State) : Prop :=
  step P L s inp = some t

theorem steps_intro (hfetch : P.fetch s.rip = some i) (h : exec P L inp s i = some t) :
    Steps P L s inp t :=
  step_eq_some.mpr ⟨i, hfetch, h⟩

/-- An instruction that does not read the port does not depend on it. -/
theorem exec_inp (h : i.reads = false) (inp inp' : Byte) :
    exec P L inp s i = exec P L inp' s i := by
  cases i <;> first | rfl | cases h

/-- A tick is a step that reads the port's next answer. -/
theorem tick_eq_some : tick P L port x = some y ↔ ∃ i, P.fetch x.1.rip = some i ∧
    exec P L (port x.2) x.1 i = some y.1 ∧ y.2 = if i.reads then x.2 + 1 else x.2 := by
  simp only [tick, Option.bind_eq_some_iff, Option.map_eq_some_iff]
  constructor
  · rintro ⟨i, hi, t, ht, rfl⟩
    exact ⟨i, hi, ht, rfl⟩
  · rintro ⟨i, hi, ht, hk⟩
    exact ⟨i, hi, y.1, ht, Prod.ext rfl hk.symm⟩

theorem tick_step (h : tick P L port x = some y) : Steps P L x.1 (port x.2) y.1 := by
  obtain ⟨i, hi, ht, -⟩ := tick_eq_some.mp h
  exact steps_intro hi ht

theorem ticks_intro (hlo : lo ≤ s.rip) (hfetch : P.fetch s.rip = some i)
    (h : exec P L (port k) s i = some t) :
    Ticks P L port lo (s, k) (port k) (t, if i.reads then k + 1 else k) :=
  ⟨hlo, rfl, tick_eq_some.mpr ⟨i, hfetch, h, rfl⟩⟩

/-- What every step keeps, every tick keeps. -/
theorem ticks_invariant {I : State → Prop}
    (hstep : ∀ t e u, I t → Steps P L t e u → I u) (hx : I x.1)
    (h : ticks P L port n x = some y) : I y.1 := by
  induction n generalizing y with
  | zero =>
      obtain rfl := Option.some.inj h
      exact hx
  | succ n ih =>
      obtain ⟨z, hz, hy⟩ := Option.bind_eq_some_iff.mp h
      exact hstep _ _ _ (ih hz) (tick_step hy)

theorem ticks_add (m n : Nat) (x : State × Nat) :
    ticks P L port (m + n) x = (ticks P L port m x).bind (ticks P L port n) := by
  induction n with
  | zero => simp [ticks]
  | succ n ih =>
      rw [Nat.add_succ, ticks, ih, Option.bind_assoc]
      rfl

theorem visits_add {c : Nat} (h : ticks P L port n x = some y) (k : Nat) :
    visits P L port c x (n + k) = visits P L port c x n + visits P L port c y k := by
  induction k with
  | zero => rfl
  | succ k ih =>
      have hlater : ticks P L port (n + (k + 1)) x = ticks P L port (k + 1) y := by
        rw [ticks_add, h, Option.bind_some]
      rw [← Nat.add_assoc, visits, ih, visits, Nat.add_assoc, Nat.add_assoc, hlater]

/-- Steps that all stay away from an instruction do not visit it. -/
theorem visits_eq_zero {c : Nat}
    (h : ∀ m, 0 < m → m ≤ n → ∃ z, ticks P L port m x = some z ∧ z.1.rip ≠ c) :
    visits P L port c x n = 0 := by
  induction n with
  | zero => rfl
  | succ n ih =>
      obtain ⟨z, hz, hne⟩ := h (n + 1) (Nat.succ_pos n) (Nat.le_refl _)
      rw [visits, ih fun m hpos hm => h m hpos (by omega), hz]
      simp [hne]

/-- What is sent stays sent. -/
theorem log_grows (h : exec P L inp s i = some t) : s.log <+: t.log := by
  by_cases hw : i.writes .log = false
  · rw [show t.log = s.log from exec_agree (p := .log) h hw]
  · obtain rfl : i = .outAl := by
      cases i <;> first | rfl | exact absurd rfl hw
    rw [exec] at h
    split at h
    · obtain rfl := Option.some.inj h
      exact List.prefix_append _ _
    · obtain rfl := Option.some.inj h
      exact List.prefix_refl _

theorem ticks_log (h : ticks P L port n x = some y) : x.1.log <+: y.1.log :=
  ticks_invariant (I := fun t => x.1.log <+: t.log) (fun _ _ _ ht hs => by
    obtain ⟨i, -, hexec⟩ := step_eq_some.mp hs
    exact ht.trans (log_grows hexec)) (List.prefix_refl _) h

namespace Gets

theorem now (h : Q s) : Gets P L port lo Q s := fun _ => .now h

theorem bind (h : Gets P L port lo R s) (hQ : ∀ t, R t → Gets P L port lo Q t) :
    Gets P L port lo Q s := fun k => (h k).bind fun y hy => hQ y.1 hy y.2

/-- One step, at an instruction that does not read the port. -/
theorem cons (hlo : lo ≤ s.rip) (hfetch : P.fetch s.rip = some i) (hi : i.reads = false)
    (h : exec P L 0 s i = some t) (hQ : Gets P L port lo Q t) : Gets P L port lo Q s := by
  intro k
  have htick := ticks_intro (k := k) hlo hfetch (exec_inp hi (port k) 0 ▸ h)
  rw [hi] at htick
  exact .cons htick (hQ k)

/-- Where the instructions on the way stand need not be said. -/
theorem anywhere (h : Gets P L port lo Q s) : Gets P L port 0 Q s := fun k =>
  (h k).map id (fun _ _ _ hs => ⟨_, Nat.zero_le _, hs.2⟩) fun _ hy => hy

/-- What every step keeps also holds where the program gets. -/
theorem keeping {I : State → Prop} (h : Gets P L port lo Q s) (hI : I s)
    (hstep : ∀ t e u, I t → Steps P L t e u → I u) :
    Gets P L port lo (fun t => I t ∧ Q t) s := fun k =>
  (h k).keeping (I := fun y => I y.1) hI fun _ _ _ hx hs => hstep _ _ _ hx (tick_step hs.2.2)

/-- A state that is got to is one a run leads to. -/
theorem leads (h : Gets P L port lo Q s) : Leads (Steps P L) Q s :=
  (h 0).map Prod.fst (fun _ _ _ hs => ⟨_, tick_step hs.2.2⟩) fun _ hy => hy

/-- A state that is got to is there after some number of ticks, and none on the
way stands before `lo`. -/
theorem ticks (h : Gets P L port lo Q s) (k : Nat) :
    ∃ n y, ticks P L port n (s, k) = some y ∧ Q y.1 ∧
      ∀ m < n, ∃ z, X86.ticks P L port m (s, k) = some z ∧ lo ≤ z.1.rip := by
  obtain ⟨es, y, hrun, hy⟩ := h k
  suffices hall : ∃ n, X86.ticks P L port n (s, k) = some y ∧
      ∀ m < n, ∃ z, X86.ticks P L port m (s, k) = some z ∧ lo ≤ z.1.rip by
    obtain ⟨n, hn, hbefore⟩ := hall
    exact ⟨n, y, hn, hy, hbefore⟩
  clear hy
  induction hrun with
  | nil => exact ⟨0, rfl, fun m hm => absurd hm (Nat.not_lt_zero m)⟩
  | snoc _ hs ih =>
      obtain ⟨n, hn, hbefore⟩ := ih
      refine ⟨n + 1, by rw [X86.ticks, hn]; exact hs.2.2, fun m hm => ?_⟩
      rcases Nat.lt_succ_iff_lt_or_eq.mp hm with hlt | rfl
      · exact hbefore m hlt
      · exact ⟨_, hn, hs.1⟩

end Gets

end

end X86

import QemuTest.Lib.Sends
import QemuTest.Lib.X86.Polling

/-!
# X86 — Replay

Every run is the beginning of one with a fair port: its bytes are answered
first (`replay`). What is sent is never read (`exec_sending`), so a state that
starts with an empty log goes on as it would have.

A program that sends line after line behind its first ones therefore has sent a
part of that text in every state of every run (`Rounds.sent`), goes on with it
from each of them (`Rounds.resume`), and comes back to every place on its way
(`leads_onward`).
-/

namespace X86

open Runs

variable {C D : Type}

/-! ## Answers in front -/

/-- The port that gives these answers first. -/
def Port.after (reads : List Byte) (port : Port) : Port := fun n =>
  if h : n < reads.length then reads[n] else port (n - reads.length)

namespace Port

variable {reads : List Byte} {port : Port}

@[simp] theorem after_nil : port.after [] = port := by
  funext n
  simp [after]

theorem after_add (k : Nat) : port.after reads (reads.length + k) = port k := by
  simp [after]

theorem after_append (b : Byte) : port.after (reads ++ [b]) = (port.after [b]).after reads := by
  funext n
  simp only [after, List.length_append, List.length_singleton]
  by_cases hlt : n < reads.length
  · rw [dif_pos (by omega), dif_pos hlt, List.getElem_append_left hlt]
  · rw [dif_neg hlt]
    by_cases heq : n = reads.length
    · subst heq
      simp
    · have hpast : ¬ n < reads.length + 1 := by omega
      have hlate : ¬ n - reads.length < 1 := by omega
      simp [hpast, hlate, Nat.sub_sub]

theorem Fair.after (h : port.Fair) : (port.after reads).Fair := by
  intro n
  obtain ⟨m, hm, hready⟩ := h n
  exact ⟨reads.length + m, by omega, by rwa [after_add]⟩

end Port

section

variable [DecidableEq C] {P : Program C D} {L : Layout D} {port port' : Port}
  {k j n : Nat} {s t : State} {i : Instr C D} {inp : Byte}

/-- **Replay**: a run is what a port with its bytes in front makes of the start. -/
theorem replay {es : List Byte} (h : Run (Steps P L) s es t) :
    ∃ n reads, ∀ port : Port, ticks P L (port.after reads) n (s, 0) = some (t, reads.length) := by
  induction h with
  | nil => exact ⟨0, [], fun _ => rfl⟩
  | @snoc es t u e _ hs ih =>
      obtain ⟨n, reads, hn⟩ := ih
      obtain ⟨i, hfetch, hexec⟩ := step_eq_some.mp hs
      by_cases hreads : i.reads = true
      · refine ⟨n + 1, reads ++ [e], fun port => ?_⟩
        rw [ticks, Port.after_append, hn, Option.bind_some]
        refine tick_eq_some.mpr ⟨i, hfetch, ?_, by simp [hreads]⟩
        have hanswer : (port.after [e]).after reads reads.length = e := by
          simp [Port.after]
        rwa [hanswer]
      · refine ⟨n + 1, reads, fun port => ?_⟩
        rw [ticks, hn, Option.bind_some]
        exact tick_eq_some.mpr
          ⟨i, hfetch, (exec_inp (by simpa using hreads) _ e).trans hexec, by simp [hreads]⟩

/-- Answers that were read before do not matter. -/
theorem ticks_shift (hport : ∀ a, port (k + a) = port' (j + a)) {a : Nat} {y : State × Nat}
    (h : ticks P L port n (s, k + a) = some y) :
    ∃ b, y.2 = k + b ∧ ticks P L port' n (s, j + a) = some (y.1, j + b) := by
  induction n generalizing y with
  | zero =>
      obtain rfl := Option.some.inj h
      exact ⟨a, rfl, rfl⟩
  | succ n ih =>
      obtain ⟨z, hz, hy⟩ := Option.bind_eq_some_iff.mp h
      obtain ⟨b, hb, hz'⟩ := ih hz
      obtain ⟨i, hfetch, hexec, hcount⟩ := tick_eq_some.mp hy
      rw [hb, hport] at hexec
      refine ⟨if i.reads then b + 1 else b, ?_, ?_⟩
      · rw [hcount, hb]
        split <;> rfl
      · rw [ticks, hz', Option.bind_some]
        refine tick_eq_some.mpr ⟨i, hfetch, hexec, ?_⟩
        simp only
        split <;> rfl

/-! ## The log -/

/-- The state with more sent before. -/
def State.sending (l : List Byte) (s : State) : State := { s with log := l ++ s.log }

theorem setReg_sending (l : List Byte) (r : Reg) (v : BitVec 64) :
    (s.sending l).setReg r v = (s.setReg r v).sending l := rfl

theorem next_sending (l : List Byte) : (s.sending l).next = s.next.sending l := rfl

omit [DecidableEq C] in
theorem ea_sending (l : List Byte) (m : Mem D) : m.ea L (s.sending l) = m.ea L s := by
  cases m <;> rfl

omit [DecidableEq C] in
theorem read_sending (l : List Byte) (w : Width) (o : Operand D) :
    (s.sending l).read L w o = s.read L w o := by
  cases o with
  | reg r => rfl
  | imm v => rfl
  | mem m => rw [State.read, State.read, ea_sending]; rfl

omit [DecidableEq C] in
theorem store_sending (l : List Byte) (a : Nat) {n : Nat} (v : BitVec (8 * n)) :
    (s.sending l).store L a v = (s.store L a v).map (State.sending l) := by
  unfold State.store
  split <;> rfl

omit [DecidableEq C] in
theorem push_sending (l : List Byte) (v : BitVec 64) :
    (s.sending l).push L v = (s.push L v).map (State.sending l) :=
  store_sending (s := s.setReg .rsp (s.gpr .rsp - 8)) l _ _

omit [DecidableEq C] in
theorem pop_sending (l : List Byte) :
    (s.sending l).pop L = (s.pop L).map fun p => (p.1, p.2.sending l) := by
  show (s.load L (s.gpr .rsp).toNat 8).map _ = _
  rw [State.pop, Option.map_map]
  rfl

/-- **What is sent is not read.** -/
theorem exec_sending (l : List Byte) :
    exec P L inp (s.sending l) i = (exec P L inp s i).map (State.sending l) := by
  cases i with
  | mov w d o | add d o | sub d o | xor d o =>
      rw [exec, exec, read_sending, Option.map_map]
      rfl
  | cmp w a b | test w a b =>
      rw [exec, exec, read_sending, read_sending, Option.map_bind]
      congr 1
      funext x
      show _ = Option.map _ (Option.map _ _)
      rw [Option.map_map]
      rfl
  | div r =>
      have hgpr : (s.sending l).gpr = s.gpr := rfl
      simp only [exec, hgpr, setReg_sending, next_sending]
      split
      · rw [Option.map_none]
      · rw [Option.map_some]
  | finit =>
      rw [exec, exec, apply_ite (Option.map (State.sending l))]
      rfl
  | outAl =>
      rw [exec, exec, apply_ite (Option.map (State.sending l))]
      congr 1
      simp [State.sending, State.next, State.goto, State.al]
  | jcc k c =>
      rw [exec, exec, Option.map_some, apply_ite (State.sending l)]
      rfl
  | push r | pushfq | call c =>
      rw [exec, exec, Option.map_map]
      refine (congrArg (Option.map _) (push_sending l _)).trans ?_
      rw [Option.map_map]
      rfl
  | pop r =>
      rw [exec, exec, pop_sending, Option.map_map, Option.map_map]
      rfl
  | ret =>
      rw [exec, exec, pop_sending, Option.bind_map, Option.map_bind]
      congr 1
      funext p
      show _ = Option.map _ (Option.map _ _)
      rw [Option.map_map]
      rfl
  | lodsb =>
      rw [exec, exec, Option.map_map]
      rfl
  | vload w j m =>
      rw [exec, exec, ea_sending, Option.map_map]
      rfl
  | vstore w m j | fnstcw m | stmxcsr m =>
      rw [exec, exec, ea_sending, Option.map_map]
      refine (congrArg (Option.map _) (store_sending l _ _)).trans ?_
      rw [Option.map_map]
      rfl
  | fldcw m | fild m =>
      rw [exec, exec, ea_sending, apply_ite (Option.map (State.sending l)), Option.map_map]
      rfl
  | ldmxcsr m =>
      rw [exec, exec, ea_sending, Option.map_bind]
      congr 1
      funext v
      rw [Function.comp_apply, apply_ite (Option.map (State.sending l))]
      rfl
  | fistp m =>
      rw [exec, exec, ea_sending, apply_ite (Option.map (State.sending l))]
      congr 1
      have hfpu : (s.sending l).fpu = s.fpu := rfl
      simp only [hfpu]
      cases s.fpu.stored s.fpu.top with
      | none => rfl
      | some v =>
          simp only [store_sending, Option.map_map]
          rfl
  | lea d m =>
      rw [exec, exec, ea_sending]
      rfl
  | dec | inAl | jmp | hlt => rfl

theorem ticks_sending (l : List Byte) :
    ticks P L port n (s.sending l, k)
      = (ticks P L port n (s, k)).map fun y => (y.1.sending l, y.2) := by
  induction n with
  | zero => rfl
  | succ n ih =>
      rw [ticks, ih, ticks]
      cases ticks P L port n (s, k) with
      | none => rfl
      | some y =>
          simp only [Option.map_some, Option.bind_some, tick, exec_sending]
          show (P.fetch y.1.rip).bind _ = _
          cases P.fetch y.1.rip with
          | none => rfl
          | some i => simp [Option.map_map, Function.comp_def]

/-- A step sends one byte at most. -/
theorem exec_log_length (h : exec P L inp s i = some t) : t.log.length ≤ s.log.length + 1 := by
  by_cases hw : i.writes .log = false
  · rw [show t.log = s.log from exec_agree (p := .log) h hw]
    omega
  · obtain rfl : i = .outAl := by
      cases i <;> first | rfl | exact absurd rfl hw
    rw [exec] at h
    split at h
    · obtain rfl := Option.some.inj h
      simp
    · obtain rfl := Option.some.inj h
      exact Nat.le_succ _

theorem ticks_log_length {x y : State × Nat} (h : ticks P L port n x = some y) :
    y.1.log.length ≤ x.1.log.length + n := by
  induction n generalizing y with
  | zero =>
      obtain rfl := Option.some.inj h
      exact Nat.le_refl _
  | succ n ih =>
      obtain ⟨z, hz, hy⟩ := Option.bind_eq_some_iff.mp h
      obtain ⟨i, -, hexec, -⟩ := tick_eq_some.mp hy
      have := ih hz
      have := exec_log_length hexec
      omega

/-! ## Round after round -/

/-- The text behind so many rounds. -/
def rounds (ready ok : List Byte) (m : Nat) : List Byte :=
  ready ++ (List.replicate m ok).flatten

/-- From `s`, with any fair port, a line is sent over and over. -/
def Rounds (P : Program C D) (L : Layout D) (ready ok : List Byte) (s : State) : Prop :=
  ∀ port : Port, port.Fair → ∀ m, Gets P L port 0 (fun t => t.log = rounds ready ok m) s

variable {ready ok : List Byte} {s₀ : State} {es : List Byte}

omit [DecidableEq C] in
theorem rounds_add (m k : Nat) :
    rounds ready ok (m + k) = rounds ready ok m ++ (List.replicate k ok).flatten := by
  rw [rounds, rounds, List.append_assoc, ← List.flatten_append, List.replicate_append_replicate]

theorem le_length_rounds (hok : ok ≠ []) (m : Nat) : m ≤ (rounds ready ok m).length := by
  rw [rounds, List.length_append]
  exact Nat.le_add_left_of_le (le_length_copies hok m)

/-- From one head of the loop to the next, as often as is asked for. -/
theorem heads {I : List Byte → State → Prop} (hlog : ∀ log t, I log t → t.log = log)
    (hstart : ∀ port : Port, port.Fair → Gets P L port 0 (I ready) s)
    (hround : ∀ port : Port, port.Fair → ∀ log t, I log t →
      Gets P L port 0 (I (log ++ ok)) t) (port : Port) (hport : port.Fair) (m : Nat) :
    Gets P L port 0 (I (rounds ready ok m)) s := by
  refine (hstart port hport).bind fun t ht => ?_
  have hround' : ∀ t, I t.log t →
      Gets P L port 0 (fun u => I u.log u ∧ u.log = t.log ++ ok) t := fun t ht =>
    (hround port hport _ t ht).bind fun u hu => .now ⟨by rwa [hlog _ _ hu], hlog _ _ hu⟩
  have hrounds := over_and_over .now .bind hround' (by rwa [hlog _ _ ht]) m
  rw [hlog _ _ ht] at hrounds
  refine hrounds.bind fun u hu => .now ?_
  rw [rounds, ← hu.2]
  exact hu.1

theorem sending_log (s : State) : State.sending s.log { s with log := [] } = s := by
  rw [State.sending, List.append_nil]

/-- A number of ticks as a run of ticks. -/
theorem leads_of_ticks {x y : State × Nat} {Q : State × Nat → Prop}
    (h : ticks P L port n x = some y) (hQ : Q y) : Leads (Ticks P L port 0) Q x := by
  suffices hrun : ∃ es, Run (Ticks P L port 0) x es y by
    obtain ⟨es, hrun⟩ := hrun
    exact ⟨es, y, hrun, hQ⟩
  clear hQ
  induction n generalizing y with
  | zero =>
      obtain rfl := Option.some.inj h
      exact ⟨[], .nil⟩
  | succ n ih =>
      obtain ⟨z, hz, hy⟩ := Option.bind_eq_some_iff.mp h
      obtain ⟨es, hes⟩ := ih hz
      exact ⟨_, hes.snoc ⟨Nat.zero_le _, rfl, hy⟩⟩

/-- **A run is on its way** to every `Q m` that comes late enough. -/
theorem onward {Q : Nat → State → Prop} (hlate : ∀ m t, Q m t → m ≤ t.log.length)
    (h : ∀ port : Port, port.Fair → ∀ m, Gets P L port 0 (Q m) s₀) (hlog : s₀.log = [])
    (hrun : Run (Steps P L) s₀ es s) : ∃ n reads, s.log.length ≤ n ∧
      ∀ port : Port, port.Fair → ∀ m, n ≤ m → ∃ l y,
        ticks P L (port.after reads) l (s, reads.length) = some y ∧ Q m y.1 := by
  obtain ⟨n, reads, hn⟩ := replay hrun
  have hshort := ticks_log_length (hn Port.prompt)
  rw [hlog, List.length_nil, Nat.zero_add] at hshort
  refine ⟨n, reads, hshort, fun port hport m hm => ?_⟩
  have hfair : (port.after reads).Fair := hport.after
  obtain ⟨l, y, hl, hy, -⟩ := (h _ hfair m).ticks 0
  -- to send that much takes longer than the run took
  have hlong := ticks_log_length hl
  rw [hlog, List.length_nil, Nat.zero_add] at hlong
  have hle := hlate m y.1 hy
  obtain ⟨k, rfl⟩ := Nat.exists_eq_add_of_le (show n ≤ l by omega)
  rw [ticks_add, hn, Option.bind_some] at hl
  exact ⟨k, y, hl, hy⟩

/-- Every state of every run leads to some `Q m`. -/
theorem leads_onward {Q : Nat → State → Prop} (hlate : ∀ m t, Q m t → m ≤ t.log.length)
    (h : ∀ port : Port, port.Fair → ∀ m, Gets P L port 0 (Q m) s₀) (hlog : s₀.log = [])
    (hrun : Run (Steps P L) s₀ es s) : Leads (Steps P L) (fun t => ∃ m, Q m t) s := by
  obtain ⟨n, reads, -, hon⟩ := onward hlate h hlog hrun
  obtain ⟨l, y, hl, hy⟩ := hon _ Port.fair_prompt n (Nat.le_refl n)
  have hleads : Leads (Ticks P L (Port.after reads Port.prompt) 0) (fun y => ∃ m, Q m y.1)
      (s, reads.length) := leads_of_ticks hl ⟨n, hy⟩
  refine Leads.map (Q := fun y => ∃ m, Q m y.1) (s := (s, reads.length)) Prod.fst
    (fun x e y hs => ?_) (fun _ hy => hy) hleads
  exact ⟨_, tick_step hs.2.2⟩

/-- A place that a pass of every round comes to is reached from every state of
every run. -/
theorem leads_again (hok : ok ≠ []) {a : Nat}
    (h : ∀ port : Port, port.Fair → ∀ m,
      Gets P L port 0 (fun t => t.rip = a ∧ t.log = rounds ready ok m) s₀)
    (hlog : s₀.log = []) (hrun : Run (Steps P L) s₀ es s) :
    Leads (Steps P L) (fun t => t.rip = a) s := by
  have hlate : ∀ (m : Nat) (t : State), t.rip = a ∧ t.log = rounds ready ok m →
      m ≤ t.log.length := by
    intro m t ht
    rw [ht.2]
    exact le_length_rounds hok m
  refine (leads_onward (Q := fun m t => t.rip = a ∧ t.log = rounds ready ok m)
    hlate h hlog hrun).bind ?_
  rintro t ⟨m, ht⟩
  exact .now ht.1

/-- A run is on its way to any round late enough. -/
theorem Rounds.onward (h : Rounds P L ready ok s₀) (hok : ok ≠ []) (hlog : s₀.log = [])
    (hrun : Run (Steps P L) s₀ es s) : ∃ n reads, s.log.length ≤ n ∧
      ∀ port : Port, port.Fair → ∀ m, n ≤ m → ∃ l y,
        ticks P L (port.after reads) l (s, reads.length) = some y ∧
          y.1.log = rounds ready ok m :=
  X86.onward (Q := fun m t => t.log = rounds ready ok m)
    (fun m t ht => by rw [ht]; exact le_length_rounds hok m) h hlog hrun

/-- **What is sent** is a part of the text, in every state of every run. -/
theorem Rounds.sent (h : Rounds P L ready ok s₀) (hok : ok ≠ []) (hlog : s₀.log = [])
    (hrun : Run (Steps P L) s₀ es s) : ∃ m, s.log <+: rounds ready ok m := by
  obtain ⟨n, reads, -, hon⟩ := h.onward hok hlog hrun
  obtain ⟨l, y, hl, hy⟩ := hon _ Port.fair_prompt n (Nat.le_refl n)
  exact ⟨n, hy ▸ ticks_log hl⟩

/-- **Going on** from any state with an empty log, a run sends the rest of some
round and then round after round. -/
theorem Rounds.resume (h : Rounds P L ready ok s₀) (hok : ok ≠ []) (hlog : s₀.log = [])
    (hrun : Run (Steps P L) s₀ es s) : ∃ m rest, s.log ++ rest = rounds ready ok m ∧
      ∀ port : Port, port.Fair → ∀ k, Gets P L port 0
        (fun t => t.log = rest ++ (List.replicate k ok).flatten) { s with log := [] } := by
  obtain ⟨n, reads, hshort, hon⟩ := h.onward hok hlog hrun
  have hpre : s.log <+: rounds ready ok n := by
    obtain ⟨l, y, hl, hy⟩ := hon _ Port.fair_prompt n (Nat.le_refl n)
    exact hy ▸ ticks_log hl
  obtain ⟨rest, hrest⟩ := hpre
  refine ⟨n, rest, hrest, fun port hport k a => ?_⟩
  obtain ⟨l, y, hl, hy⟩ := hon _ (hport.shift a) (n + k) (Nat.le_add_right n k)
  -- past the recorded reads, the port answers as the given one does from there
  have hshift : ∀ i, Port.after reads (fun i => port (a + i)) (reads.length + i) = port (a + i) :=
    fun i => Port.after_add i
  rw [← Nat.add_zero reads.length] at hl
  obtain ⟨b, -, hl'⟩ := ticks_shift hshift hl
  rw [Nat.add_zero, ← sending_log s, ticks_sending, Option.map_eq_some_iff] at hl'
  obtain ⟨z, hz, heq⟩ := hl'
  refine leads_of_ticks hz ?_
  have hlogs : s.log ++ z.1.log = y.1.log := congrArg (fun x => x.1.log) heq
  rw [hy, rounds_add, ← hrest, List.append_assoc] at hlogs
  exact List.append_cancel_left hlogs

end

end X86

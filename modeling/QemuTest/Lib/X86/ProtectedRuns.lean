import QemuTest.Lib.X86.Protected
import QemuTest.Lib.X86.Polling
import QemuTest.Lib.Sends

/-!
# X86 — Protected runs

What a program in protected mode gets done, whatever the processor caches. As
long as the cached translations are fresh they do not show, so `Gets` speaks of
states without them: an instruction is executed with the tables as they are in
memory (`Gets.cons`). One that changes the tables needs the instruction behind
it that drops the page (`Gets.remap`), or is a move to a control register
(`Gets.control`).
-/

namespace X86.Protected

open Runs

variable {C D σ : Type}

/-! ## Bytes in memory -/

section

variable {L : Layout D} {f : PageMap} {m : Memory} {a b n : Nat}

theorem loadBytes_eq {x : Nat → Nat} (h : ∀ k < n, byte? L f (a + k) = some (x k)) :
    ∃ v, loadBytes L f m a n = some v ∧ ∀ k < n, byteAt v k = m (x k) := by
  suffices hgen : ∀ n a (x : Nat → Nat), (∀ k < n, byte? L f (a + k) = some (x k)) →
      loadBytes L f m a n = some (Memory.load (fun k => m (x k)) 0 n) from
    ⟨_, hgen n a x h, fun k hk => by rw [byteAt_load _ 0 hk, Nat.zero_add]⟩
  clear h
  intro n
  induction n with
  | zero => exact fun _ _ _ => rfl
  | succ n ih =>
      intro a x h
      have hhead := h 0 (Nat.succ_pos n)
      have htail := ih (a + 1) (fun k => x (k + 1)) fun k hk => by
        rw [Nat.add_assoc, Nat.add_comm 1]
        exact h (k + 1) (by omega)
      rw [Nat.add_zero] at hhead
      have hshift : Memory.load (fun k => m (x (k + 1))) 0 n
          = Memory.load (fun k => m (x k)) 1 n :=
        load_congr fun k _ => by rw [Nat.zero_add, Nat.add_comm]
      rw [loadBytes, hhead, Option.bind_some, htail, Option.map_some, hshift]
      rfl

/-- A load of bytes that lie one behind the other. -/
theorem loadBytes_at (h : ∀ k < n, byte? L f (a + k) = some (b + k)) :
    loadBytes L f m a n = some (m.load b n) := by
  obtain ⟨v, hv, hbytes⟩ := loadBytes_eq h
  rw [hv, ext_bytes fun k hk => (hbytes k hk).trans (byteAt_load m b hk).symm]

theorem storeBytes_eq {x : Nat → Nat} {v : BitVec (8 * n)} {k : Nat} (hk : k ≤ n)
    (h : ∀ j < n, byte? L f (a + j) = some (x j)) :
    ∃ m', storeBytes L f m a v k = some m' ∧
      (∀ y, (∀ j < k, x j ≠ y) → m' y = m y) ∧
      ((∀ i < n, ∀ j < n, x i = x j → i = j) → ∀ j < k, m' (x j) = byteAt v j) := by
  induction k with
  | zero => exact ⟨m, rfl, fun _ _ => rfl, fun _ j hj => absurd hj (Nat.not_lt_zero j)⟩
  | succ k ih =>
      obtain ⟨m', hm', hout, hin⟩ := ih (by omega)
      refine ⟨Function.update m' (x k) (byteAt v k), ?_, fun y hy => ?_, fun hinj j hj => ?_⟩
      · rw [storeBytes, h k (by omega), Option.bind_some, hm', Option.map_some]
      · rw [Function.update_of_ne (Ne.symm (hy k (by omega)))]
        exact hout y fun j hj => hy j (by omega)
      · by_cases hjk : j = k
        · rw [hjk, Function.update_self]
        · have hne : x j ≠ x k := fun he => hjk (hinj j (by omega) k (by omega) he)
          rw [Function.update_of_ne hne]
          exact hin hinj j (by omega)

/-- A store of bytes that lie one behind the other. -/
theorem storeBytes_at {v : BitVec (8 * n)} (h : ∀ k < n, byte? L f (a + k) = some (b + k)) :
    storeBytes L f m a v n = some (m.store b v) := by
  obtain ⟨m', hm', hout, hin⟩ := storeBytes_eq (m := m) (v := v) (Nat.le_refl n) h
  rw [hm']
  congr 1
  funext y
  by_cases hy : b ≤ y ∧ y < b + n
  · obtain ⟨k, rfl⟩ := Nat.exists_eq_add_of_le hy.1
    rw [hin (fun i _ j _ he => by omega) k (by omega), store_inside m b v (by omega)]
  · rw [hout y fun j _ => by omega, store_outside m v (by omega)]

end

/-! ## Lines of arithmetic -/

/-- What an instruction that only computes does to registers and flags. -/
def Instr.calc (L : Layout D) (x : Gprs × Flags) : Instr C D → Option (Gprs × Flags)
  | .mov w d o =>
      (o.value L x.1).map fun v =>
        (Function.update x.1 d (w.merge (x.1 d) (w.trunc v)), x.2)
  | .add d v => some (Function.update x.1 d (x.1 d + v), addFlags (x.1 d) v)
  | .or d v =>
      some (Function.update x.1 d (x.1 d ||| v), logicFlags x.2 .dword (x.1 d ||| v))
  | .xor d r =>
      some (Function.update x.1 d (x.1 d ^^^ x.1 r), logicFlags x.2 .dword (x.1 d ^^^ x.1 r))
  | .inc d =>
      some (Function.update x.1 d (x.1 d + 1), { addFlags (x.1 d) 1 with cf := x.2.cf })
  | .dec d =>
      some (Function.update x.1 d (x.1 d - 1), { subFlags (x.1 d) 1 with cf := x.2.cf })
  | .cmp d o => (o.value L x.1).map fun v => (x.1, subFlags (x.1 d) v)
  | .test w d o =>
      (o.value L x.1).map fun v => (x.1, logicFlags x.2 w (w.trunc (x.1 d) &&& w.trunc v))
  | .stc => some (x.1, { x.2 with cf := true })
  | _ => none

/-- A line of them. -/
def calcs (L : Layout D) : List (Instr C D) → Gprs × Flags → Option (Gprs × Flags)
  | [], x => some x
  | i :: l, x => (i.calc L x).bind (calcs L l)

theorem exec_calc [DecidableEq C] {P : Program C D} {L : Layout D} {H : Host D σ} {f : PageMap}
    {s : State σ} {i : Instr C D} {x : Gprs × Flags} (h : i.calc L (s.gpr, s.flags) = some x) :
    exec P L H f s i = some { s with gpr := x.1, flags := x.2, eip := s.eip + 1 } := by
  cases i <;> simp only [Instr.calc, reduceCtorEq] at h
  case mov w d o | cmp d o | test w d o =>
    cases o with
    | mem m => cases h
    | _ => obtain rfl := Option.some.inj h; rfl
  all_goals obtain rfl := Option.some.inj h; rfl

/-! ## What is sent -/

section

variable [DecidableEq C] {P : Program C D} {L : Layout D} {H : Host D σ} {f : PageMap}
  {s t : State σ}

omit [DecidableEq C] in
theorem store_log {a n : Nat} {v : BitVec (8 * n)} (h : s.store L f a v = some t) :
    t.log = s.log := by
  obtain ⟨m, -, rfl⟩ := Option.map_eq_some_iff.mp h
  rfl

omit [DecidableEq C] in
theorem push_log {v : Word} (h : s.push L f v = some t) : t.log = s.log := by
  have hlog : t.log = (s.setReg .esp (s.gpr .esp - 4)).log := store_log h
  exact hlog

omit [DecidableEq C] in
theorem pop_log {x : Word × State σ} (h : s.pop L f = some x) : x.2.log = s.log := by
  obtain ⟨v, -, rfl⟩ := Option.map_eq_some_iff.mp h
  rfl

omit [DecidableEq C] in
theorem stringOp_log {op : StringOp} (h : op.exec L H f s = some t) : t.log = s.log := by
  cases op with
  | stosb | stosd =>
      obtain ⟨u, hu, rfl⟩ := Option.map_eq_some_iff.mp h
      have hlog : u.log = s.log := store_log hu
      exact hlog
  | movsb =>
      obtain ⟨v, -, h⟩ := Option.bind_eq_some_iff.mp h
      obtain ⟨u, hu, rfl⟩ := Option.map_eq_some_iff.mp h
      have hlog : u.log = s.log := store_log hu
      exact hlog
  | insd | outsd =>
      obtain rfl := Option.some.inj h
      rfl

/-- An instruction sends a byte at most. -/
theorem exec_log {i : Instr C D} (h : exec P L H f s i = some t) :
    t.log = s.log ∨ t.log = s.log ++ [s.al] := by
  cases i with
  | outAl =>
      rw [exec] at h
      split at h
      · exact .inr (Option.some.inj h ▸ rfl)
      · exact .inl (Option.some.inj h ▸ rfl)
  | mov w d o =>
      left
      cases o with
      | mem m =>
          rw [exec] at h
          split at h
          · exact Option.some.inj h ▸ rfl
          · obtain ⟨-, h⟩ := Option.ite_none_right_eq_some.mp h
            exact Option.some.inj h ▸ rfl
      | _ =>
          obtain rfl := Option.some.inj h
          rfl
  | store m o =>
      left
      obtain ⟨v, -, h⟩ := Option.bind_eq_some_iff.mp h
      split at h
      · next u hu =>
          have hlog : u.log = s.log := store_log hu
          exact Option.some.inj h ▸ hlog
      · split at h
        · exact Option.some.inj h ▸ rfl
        · cases h
  | cmp d o | test w d o =>
      left
      obtain ⟨v, -, rfl⟩ := Option.map_eq_some_iff.mp h
      rfl
  | push r =>
      left
      obtain ⟨u, hu, rfl⟩ := Option.map_eq_some_iff.mp h
      have hlog : u.log = s.log := push_log hu
      exact hlog
  | call c =>
      left
      obtain ⟨u, hu, rfl⟩ := Option.map_eq_some_iff.mp h
      have hlog : u.log = s.log := push_log hu
      exact hlog
  | pop r =>
      left
      obtain ⟨x, hx, rfl⟩ := Option.map_eq_some_iff.mp h
      have hlog : x.2.log = s.log := pop_log hx
      exact hlog
  | ret =>
      left
      obtain ⟨x, hx, h⟩ := Option.bind_eq_some_iff.mp h
      obtain ⟨n, -, rfl⟩ := Option.map_eq_some_iff.mp h
      have hlog : x.2.log = s.log := pop_log hx
      exact hlog
  | lodsb =>
      left
      obtain ⟨v, -, rfl⟩ := Option.map_eq_some_iff.mp h
      rfl
  | rep op =>
      left
      rw [exec] at h
      split at h
      · exact Option.some.inj h ▸ rfl
      · obtain ⟨u, hu, rfl⟩ := Option.map_eq_some_iff.mp h
        have hlog : u.log = s.log := stringOp_log hu
        exact hlog
  | toControl k | rdmsr | wrmsr =>
      left
      simp only [exec] at h
      split at h
      · exact Option.some.inj h ▸ rfl
      · cases h
  | jcc k c =>
      left
      rw [← Option.some.inj h]
      split <;> rfl
  | _ =>
      left
      obtain rfl := Option.some.inj h
      rfl

theorem appends_log : Appends (step P L H) (fun c => c.log) := by
  intro c d h
  obtain ⟨i, -, h⟩ := Option.bind_eq_some_iff.mp h
  obtain ⟨t, ht, rfl⟩ := Option.map_eq_some_iff.mp h
  rcases exec_log ht with hlog | hlog
  · exact ⟨[], by rw [List.append_nil]; exact hlog, Nat.zero_le _⟩
  · exact ⟨[c.al], hlog, Nat.le_refl _⟩

end

/-! ## The rules -/

section

variable [DecidableEq C] (P : Program C D) (L : Layout D) (H : Host D σ)

/-- No translation but those of the tables is cached. -/
abbrev Cached.Fresh (c : Cached σ) : Prop := c.cache.Fresh c.tables fun _ => False

/-- From `s`, with whatever is cached of the tables, the program gets to a state
with `Q`. -/
def Gets (Q : State σ → Prop) (s : State σ) : Prop :=
  ∀ c : Cached σ, c.toState = s → c.Fresh →
    Leads (Goes (step P L H)) (fun d => Q d.toState ∧ d.Fresh) c

variable {P : Program C D} {L : Layout D} {H : Host D σ} {s t : State σ} {c : Cached σ}
  {i : Instr C D} {Q R : State σ → Prop}

omit [DecidableEq C] in
theorem Cached.Fresh.translate (h : c.Fresh) :
    (c.cache.act c.tables (c.does 0)).translate c.tables = c.tables :=
  funext fun _ => (h.act _).translate not_false

/-- A step from a state with fresh entries. -/
theorem step_fresh (h : c.Fresh) (hfetch : fetch P L c.tables c.toState = some i)
    (hexec : exec P L H c.tables c.toState i = some t) :
    step P L H c = some
      { t with
        cache := i.flush (c.cache.act c.tables (c.does 0))
        does := fun n => c.does (n + 1) } := by
  rw [step, h.translate, hfetch, Option.bind_some, hexec, Option.map_some]

omit [DecidableEq C] in
theorem flush_fresh {e : Cache} {f : PageMap} (h : e.Fresh f fun _ => False) (i : Instr C D) :
    (i.flush e).Fresh f fun _ => False := by
  cases i with
  | toControl k => exact Cache.fresh_empty
  | invlpg a => exact Cache.Fresh.invalidate h.weaken
  | _ => exact h

omit [DecidableEq C] in
/-- Only the page of the code matters to the fetch. -/
theorem fetch_congr {f g : PageMap}
    (h : f ((L.code s.eip).toNat / 2 ^ 12) = g ((L.code s.eip).toNat / 2 ^ 12)) :
    fetch P L f s = fetch P L g s := by
  have haddr : address f (L.code s.eip).toNat = address g (L.code s.eip).toNat := by
    simp only [address, PageMap.address, h]
  rw [fetch, fetch, haddr]

namespace Gets

theorem now (h : Q s) : Gets P L H Q s := by
  rintro c rfl hc
  exact .now ⟨h, hc⟩

theorem bind (h : Gets P L H R s) (hQ : ∀ t, R t → Gets P L H Q t) : Gets P L H Q s := by
  intro c hs hc
  exact (h c hs hc).bind fun d hd => hQ d.toState hd.1 d rfl hd.2

theorem mono (h : Gets P L H R s) (hQ : ∀ t, R t → Q t) : Gets P L H Q s :=
  h.bind fun t ht => now (hQ t ht)

/-- An instruction that leaves the tables. -/
theorem cons (hfetch : fetch P L s.tables s = some i)
    (hexec : exec P L H s.tables s i = some t) (htables : t.tables = s.tables)
    (h : Gets P L H Q t) : Gets P L H Q s := by
  rintro c rfl hc
  refine .goes (step_fresh hc hfetch hexec) (h _ rfl (flush_fresh ?_ i))
  exact (hc.act _).change fun p _ => congrFun htables p

/-- A move to a control register. -/
theorem control {k : ControlReg} (hfetch : fetch P L s.tables s = some (.toControl k))
    (hexec : exec P L H s.tables s (.toControl k) = some t) (h : Gets P L H Q t) :
    Gets P L H Q s := by
  rintro c rfl hc
  exact .goes (step_fresh hc hfetch hexec) (h _ rfl Cache.fresh_empty)

/-- **A page moved**: the entry for it is changed and then dropped. What is
cached of the page in between is not used. -/
theorem remap {m : Mem D} {o : Operand D} {a : Nat}
    (hfetch : fetch P L s.tables s = some (.store m o))
    (hexec : exec P L H s.tables s (.store m o) = some t)
    (hmoved : ∀ p, ¬ p = a / 2 ^ 12 → t.tables p = s.tables p)
    (hdrop : fetch P L t.tables t = some (.invlpg a))
    (hcode : ¬ (L.code t.eip).toNat / 2 ^ 12 = a / 2 ^ 12) (h : Gets P L H Q t.next) :
    Gets P L H Q s := by
  rintro c rfl hc
  refine .goes (step_fresh hc hfetch hexec) ?_
  have hstale : (c.cache.act c.tables (c.does 0)).Fresh t.tables (· = a / 2 ^ 12) :=
    Cache.Fresh.change (hc.act _).weaken hmoved
  -- the page of the code is not the stale one
  have hdrop' : fetch P L (Cache.translate ((c.cache.act c.tables (c.does 0)).act t.tables
      (c.does 1)) t.tables) t = some (.invlpg a) := by
    rw [← hdrop]
    exact fetch_congr ((hstale.act (c.does 1)).translate hcode)
  refine .goes (t := { t.next with
    cache := ((c.cache.act c.tables (c.does 0)).act t.tables (c.does 1)).invalidate (a / 2 ^ 12)
    does := fun n => c.does (n + 2) }) ?_ (h _ rfl (hstale.act _).invalidate)
  unfold step
  exact (congrArg (fun x => Option.bind x _) hdrop').trans rfl

end Gets

end

end X86.Protected

import QemuTest.Asm.BootAvx2
import QemuTest.Asm.Messages

/-!
# Asm — Avx2Verdict

What `verify_loop` of the AVX2 payload reports. An iteration that starts with
the registers `v` sends the line `verdict v` and no other, and comes back with
the same registers and the same image (`iteration_ticks`); so every later
iteration sends that line too (`verdict_sticky`).
-/

namespace QemuTest.Asm.Avx2

open X86 Runs

-- the checks walk down the whole program
set_option maxRecDepth 20000

variable {L : Layout Data} {s t : State} {v : Fin 16 → BitVec 256} {port : Port}
  {log : List Byte} {i : Instr Label Data} {inp : Byte}

/-- The pattern of register `j`: its row of `ymm_patterns`. -/
def pattern (j : Fin 16) : BitVec 256 :=
  Memory.load (fun k => (contents .ymm_patterns).getD k 0) (32 * j.val) 32

/-- The line an iteration sends that starts with these registers. -/
def verdict (v : Fin 16 → BitVec 256) : List Byte :=
  if ∀ j, v j = pattern j then msgLine "AVX2:OK" else msgLine "AVX2:FAIL"

/-- On entry to `verify_loop`: the stack is empty and the image loaded. Nothing
is asked of the registers that are verified. -/
structure Entry (L : Layout Data) (s : State) : Prop where
  rip : s.rip = program.entry .verify_loop
  rsp : s.gpr .rsp = BitVec.ofNat 64 avx2Guest.stackTop
  image : ∀ x, avx2Guest.Holds L s.mem x

/-! ## What every step keeps -/

/-- The loop is under way with the registers `v`. -/
structure Kept (L : Layout Data) (v : Fin 16 → BitVec 256) (s : State) : Prop where
  sound : Sound L s
  past : loadOf 15 < s.rip
  vec : s.vec = v

theorem constants_head : ∀ r, program.constants joins 21 r = none := by
  intro r
  cases r <;> rfl

theorem Entry.kept (h : Entry L s) : Kept L s.vec s where
  sound :=
    { nested :=
        { rsp := by rw [h.rsp, h.rip]; rfl
          site := fun hle => by
            rw [h.rip] at hle
            exact absurd hle (by decide) }
      image := h.image
      constants := fun r v hr => by
        rw [h.rip, show program.entry .verify_loop = 21 from rfl, constants_head] at hr
        cases hr
      printing := fun hle => by
        rw [h.rip] at hle
        exact absurd hle (by decide) }
  past := by
    rw [h.rip]
    decide
  vec := rfl

/-- **Nothing in the loop changes a register.** -/
theorem kept_step (hL : avx2Guest.Fits L) (hs : Kept L v s) (h : Steps program L s inp t) :
    Kept L v t := by
  obtain ⟨i, hfetch, hexec⟩ := step_eq_some.mp h
  obtain ⟨hsound, hedge⟩ := sound_step hL hs.sound hfetch hexec
  have hkeep : ∀ j : Fin 16, i.writes (.vec j) = false ∧ loadOf j < t.rip := by
    intro j
    have hloaded : loadOf j < s.rip := by
      have := hs.past
      simp only [loadOf] at *
      omega
    have hck := allEdges_spec (keepOk_all j) hedge
    simpa [hloaded] using hck
  refine ⟨hsound, (hkeep 15).2, ?_⟩
  rw [← hs.vec]
  funext j
  exact exec_agree (p := .vec j) hexec (hkeep j).1

/-! ## The spill -/

/-- The first `n` registers are spilled. -/
structure Spilled (L : Layout Data) (v : Fin 16 → BitVec 256) (log : List Byte) (n : Nat)
    (s : State) : Prop where
  kept : Kept L v s
  rip : s.rip = 22 + n
  log : s.log = log
  buffer : ∀ j : Fin 16, j.val < n → s.mem.load (bufferOf j) 32 = v j

/-- A spill puts the next register into the buffer. -/
theorem spilled_step (hL : avx2Guest.Fits L) {j : Fin 16} (hs : Spilled L v log j.val s) :
    Gets program L port 22 (Spilled L v log (j.val + 1)) s := by
  have hrip : s.rip = spillOf j := hs.rip
  have hrdi : s.gpr .rdi = BitVec.ofNat 64 0x5000 :=
    hs.kept.sound.constants .rdi (.imm 0x5000) (hrip ▸ spill_rdi j)
  have hea : (Mem.base .rdi (32 * j.val)).ea L s = bufferOf j := ea_base _ hrdi (by omega)
  let t : State := State.next { s with mem := s.mem.store (bufferOf j) (n := 32) (s.vec j) }
  have ht : exec program L 0 s (.vstore .ymm (.base .rdi (32 * j.val)) j) = some t := by
    have hfits : bufferOf j + 32 ≤ L.limit := by
      rw [hL.limit, bufferOf]
      omega
    rw [exec, hea]
    exact congrArg (Option.map State.next) ((store_eq_some (n := 32)).mpr ⟨hfits, rfl⟩)
  have hstep : Steps program L s 0 t := steps_intro (hrip ▸ spill_fetch j) ht
  refine .cons (by rw [hs.rip]; omega) (hrip ▸ spill_fetch j) rfl ht
    (.now ⟨kept_step hL hs.kept hstep, ?_, hs.log, ?_⟩)
  · show s.rip + 1 = _
    rw [hs.rip, Nat.add_assoc]
  · intro j' hj'
    rcases Nat.lt_succ_iff_lt_or_eq.mp hj' with hlt | heq
    · rw [← hs.buffer j' hlt]
      exact load_store_disjoint _ _ (by simp only [bufferOf]; omega)
    · obtain rfl : j' = j := Fin.ext heq
      rw [← hs.kept.vec]
      exact load_store_same _ _ _

/-- **All registers are spilled.** -/
theorem spill_gets (hL : avx2Guest.Fits L) (hs : Spilled L v log 0 s) :
    ∀ n ≤ 16, Gets program L port 22 (Spilled L v log n) s := by
  intro n
  induction n with
  | zero => exact fun _ => .now hs
  | succ n ih =>
      intro hn
      exact (ih (by omega)).bind fun t ht => spilled_step (j := ⟨n, hn⟩) hL ht

/-! ## The comparison -/

theorem length_patterns : (contents .ymm_patterns).length = 512 := by decide

/-- The table of the image holds the patterns. -/
theorem load_pattern {m : Memory} (h : avx2Guest.Holds L m .ymm_patterns) (j : Fin 16) :
    m.load (patternOf L j) 32 = pattern j := by
  refine load_congr fun k hk => ?_
  rw [patternOf, Nat.add_assoc]
  refine h (32 * j.val + k) ?_
  show _ < (contents .ymm_patterns).length
  rw [length_patterns]
  omega

/-- The quadwords of the buffer are those of the table exactly when every
register holds its pattern. -/
theorem same_iff {m : Memory} (h : avx2Guest.Holds L m .ymm_patterns)
    (hbuf : ∀ j : Fin 16, m.load (bufferOf j) 32 = v j) :
    (∀ k < 64, SameWord (L.data .ymm_patterns) 0x5000 m k) ↔ ∀ j, v j = pattern j := by
  constructor
  · intro hall j
    rw [← hbuf j, ← load_pattern h j]
    by_contra hne
    have hwords : m.load (patternOf L j) (8 * 4) ≠ m.load (bufferOf j) (8 * 4) :=
      fun he => hne he.symm
    obtain ⟨q, hq, hword⟩ := load_ne_word hwords
    refine hword ?_
    have hsame := hall (4 * j.val + q) (by omega)
    rw [SameWord] at hsame
    rwa [patternOf, bufferOf, show L.data .ymm_patterns + 32 * j.val + 8 * q
        = L.data .ymm_patterns + 8 * (4 * j.val + q) by omega,
      show 0x5000 + 32 * j.val + 8 * q = 0x5000 + 8 * (4 * j.val + q) by omega]
  · intro hall k hk
    have hrow : m.load (patternOf L ⟨k / 4, by omega⟩) 32
        = m.load (bufferOf ⟨k / 4, by omega⟩) 32 := by
      rw [load_pattern h, hbuf, hall]
    refine load_congr fun b hb => ?_
    have hbyte := load_inj hrow (show 8 * (k % 4) + b < 32 by omega)
    rwa [patternOf, bufferOf,
      show L.data .ymm_patterns + 32 * (k / 4) + (8 * (k % 4) + b)
        = L.data .ymm_patterns + 8 * k + b by omega,
      show 0x5000 + 32 * (k / 4) + (8 * (k % 4) + b) = 0x5000 + 8 * k + b by omega] at hbyte

/-- The loop stands at instruction `n`, with `log` sent. -/
structure At (L : Layout Data) (v : Fin 16 → BitVec 256) (n : Nat) (log : List Byte)
    (s : State) : Prop where
  kept : Kept L v s
  rip : s.rip = n
  log : s.log = log

theorem keeping_at (hL : avx2Guest.Fits L) (hs : Kept L v s) {m : Nat}
    (h : Gets program L port 22 (fun t => t.rip = m ∧ t.log = log) s) :
    Gets program L port 22 (At L v m log) s :=
  (h.keeping hs fun _ _ _ ht hstep => kept_step hL ht hstep).bind
    fun _ ht => .now ⟨ht.1, ht.2.1, ht.2.2⟩

/-- **The comparison decides**: from the spilled registers to the report. -/
theorem decide_gets (hL : avx2Guest.Fits L) (hs : Spilled L v log 16 s) :
    Gets program L port 22
      (At L v (if ∀ j, v j = pattern j then 48 else 51) log) s := by
  have hlimit := hL.limit
  have hhigh := hL.high .ymm_patterns
  have hat : s.rip = 38 := hs.rip
  -- the two pointers and the counter
  let t : State := (s.setReg .rsi (BitVec.ofNat 64 (L.data .ymm_patterns))).next
  have ht : exec program L 0 s (.lea .rsi (.rel .ymm_patterns 0)) = some t := rfl
  let u : State := (t.setReg .rdi 0x5000).next
  have hu : exec program L 0 t (.mov .qword .rdi (.imm 0x5000)) = some u := rfl
  let w : State := (u.setReg .rcx 64).next
  have hw : exec program L 0 u (.mov .qword .rcx (.imm 64)) = some w := rfl
  have hat1 : t.rip = 39 := by
    show s.rip + 1 = 39
    rw [hat]
  have hat2 : u.rip = 40 := by
    show t.rip + 1 = 40
    rw [hat1]
  have hat3 : w.rip = 41 := by
    show u.rip + 1 = 41
    rw [hat2]
  have hcur : Cursor (L.data .ymm_patterns) 0x5000 64 0 0 0 w := ⟨rfl, rfl, rfl⟩
  have hloop : Gets program L port 22 (fun x => x.mem = w.mem ∧ x.log = w.log ∧
      ((∀ k, 0 ≤ k → k < 64 → SameWord (L.data .ymm_patterns) 0x5000 w.mem k) ∧ x.rip = 48 ∨
        (∃ k, 0 ≤ k ∧ k < 64 ∧ ¬ SameWord (L.data .ymm_patterns) 0x5000 w.mem k) ∧
          x.rip = 51)) w :=
    compare_gets compareLoop (by decide) (by omega) (by omega) (by omega) (by decide) hat3 hcur
  have hsame := same_iff (m := w.mem) (hs.kept.sound.image .ymm_patterns)
    fun j => hs.buffer j j.isLt
  refine keeping_at hL hs.kept (.cons (by omega) (by rw [hat]; rfl) rfl ht
    (.cons (by omega) (by rw [hat1]; rfl) rfl hu
      (.cons (by omega) (by rw [hat2]; rfl) rfl hw (hloop.bind ?_))))
  rintro x ⟨-, hlog, ⟨hall, hrip⟩ | ⟨⟨k, -, hk, hne⟩, hrip⟩⟩
  · refine .now ⟨?_, hlog.trans hs.log⟩
    rw [hrip, if_pos (hsame.mp fun k hk => hall k (Nat.zero_le k) hk)]
  · refine .now ⟨?_, hlog.trans hs.log⟩
    rw [hrip, if_neg fun hall => hne (hsame.mpr hall k hk)]

/-! ## The report and the delay -/

theorem message_at (hL : avx2Guest.Fits L) (hport : port.Fair) {x : Data} {n : Nat}
    (hsite : (n + 1, x) ∈ sites) (hlea : program.fetch n = some (.lea .rsi (.rel x 0)))
    (hcall : program.fetch (n + 1) = some (.call (.serial .serial_print)))
    (hdepth : program.depth body (n + 1) = 0) (hlo : 22 ≤ n) (hn : n + 2 < body)
    (hs : At L v n log s) : Gets program L port 22 (At L v (n + 2) (log ++ text x)) s := by
  have hsend : Gets program L port 22 (fun t => t.rip = n + 2 ∧ t.log = s.log ++ text x) s :=
    Guest.message_gets wired hL hport (contents_site _ hsite) (site_nonzero _ hsite) hlea hcall
      hdepth hlo hn hs.rip hs.kept.sound.nested (hs.kept.sound.image x)
  rw [hs.log] at hsend
  exact keeping_at hL hs.kept hsend

/-- A jump. -/
theorem jump_at (hL : avx2Guest.Fits L) {n m : Nat} {c : Label}
    (hjmp : program.fetch n = some (.jmp c)) (hc : program.entry c = m) (hlo : 22 ≤ n)
    (hs : At L v n log s) : Gets program L port 22 (At L v m log) s := by
  have ht : exec program L 0 s (.jmp c) = some (s.goto m) := hc ▸ rfl
  exact keeping_at hL hs.kept (.cons (by rw [hs.rip]; exact hlo) (hs.rip ▸ hjmp) rfl ht
    (.now ⟨rfl, hs.log⟩))

/-- The line goes out. -/
theorem report_gets (hL : avx2Guest.Fits L) (hport : port.Fair)
    (hs : At L v (if ∀ j, v j = pattern j then 48 else 51) log s) :
    Gets program L port 22 (At L v 53 (log ++ verdict v)) s := by
  rw [verdict]
  split at hs
  · rename_i hall
    rw [if_pos hall]
    exact (message_at hL hport (x := .msg_ok) (by decide) rfl rfl rfl (by decide)
      (by decide) hs).bind fun t ht => jump_at hL (c := .delay) rfl rfl (by decide) ht
  · rename_i hno
    rw [if_neg hno]
    exact message_at hL hport (x := .msg_fail) (by decide) rfl rfl rfl (by decide)
      (by decide) hs

/-- The delay, and back to the head of the loop. -/
theorem delay_gets (hL : avx2Guest.Fits L) (hs : At L v 53 log s) :
    Gets program L port 22 (At L v 21 log) s := by
  let t : State := (s.setReg .rcx 0x3000000).next
  have ht : exec program L 0 s (.mov .qword .rcx (.imm 0x3000000)) = some t := rfl
  have hat : t.rip = 54 := by
    show s.rip + 1 = 54
    rw [hs.rip]
  have hspin : Gets program L port 22 (fun u => u.rip = 54 + 2 ∧ u.log = t.log) t :=
    countdown_gets (r := .rcx) (c := .spin) rfl rfl rfl (by decide) hat
  rw [show t.log = log from hs.log] at hspin
  refine (keeping_at hL hs.kept (.cons (by rw [hs.rip]; decide) (by rw [hs.rip]; rfl) rfl ht
    hspin)).bind fun u hu => ?_
  exact jump_at hL (c := .verify_loop) rfl rfl (by decide) hu

/-! ## The iterations -/

/-- From the head of the loop on to its second instruction. -/
theorem head_step (hL : avx2Guest.Fits L) (hs : At L v 21 log s) :
    ∃ t, exec program L 0 s (.mov .qword .rdi (.imm 0x5000)) = some t ∧
      Spilled L v log 0 t := by
  have ht : exec program L 0 s (.mov .qword .rdi (.imm 0x5000))
      = some (s.setReg .rdi 0x5000).next := rfl
  have hstep := steps_intro (L := L) (hs.rip ▸ rfl) ht
  refine ⟨_, ht, kept_step hL hs.kept hstep, ?_, hs.log, fun j hj => absurd hj (Nat.not_lt_zero _)⟩
  show s.rip + 1 = 22
  rw [hs.rip]

/-- **One iteration** reports what the registers are, and is over only where
the next one begins. -/
theorem iteration_ticks (hL : avx2Guest.Fits L) (hport : port.Fair) (hs : At L v 21 log s)
    (r : Nat) :
    ∃ n y, ticks program L port (n + 1) (s, r) = some y ∧ At L v 21 (log ++ verdict v) y.1 ∧
      ∀ m, 0 < m → m ≤ n → ∃ z, ticks program L port m (s, r) = some z ∧ z.1.rip ≠ 21 := by
  obtain ⟨t, ht, hspilled⟩ := head_step hL hs
  have hrest : Gets program L port 22 (At L v 21 (log ++ verdict v)) t :=
    (spill_gets hL hspilled 16 (Nat.le_refl 16)).bind fun _ h16 =>
      (decide_gets hL h16).bind fun _ hat =>
        (report_gets hL hport hat).bind fun _ h53 => delay_gets hL h53
  have hfirst : tick program L port (s, r) = some (t, r) :=
    tick_eq_some.mpr ⟨_, hs.rip ▸ rfl, (exec_inp rfl _ 0).trans ht, rfl⟩
  obtain ⟨n, y, hn, hy, hbefore⟩ := hrest.ticks r
  have hshift : ∀ m, ticks program L port (m + 1) (s, r) = ticks program L port m (t, r) := by
    intro m
    rw [Nat.add_comm, ticks_add]
    exact congrArg (Option.bind · (ticks program L port m)) hfirst
  refine ⟨n, y, (hshift n).trans hn, hy, fun m hpos hm => ?_⟩
  obtain ⟨k, rfl⟩ : ∃ k, m = k + 1 := ⟨m - 1, by omega⟩
  obtain ⟨z, hz, hle⟩ := hbefore k (by omega)
  exact ⟨z, (hshift k).trans hz, by omega⟩

/-- The loop began with the registers `v` and the log `log`, and has finished
`m` iterations: registers and table are as they were, and behind the lines of
these iterations stands at most a part of the next one's. -/
structure Reporting (L : Layout Data) (v : Fin 16 → BitVec 256) (log : List Byte) (m : Nat)
    (s : State) : Prop where
  vec : s.vec = v
  table : avx2Guest.Holds L s.mem .ymm_patterns
  sent : ∃ part, part <+: verdict v ∧ (s.rip = program.entry .verify_loop → part = []) ∧
    s.log = log ++ (List.replicate m (verdict v)).flatten ++ part

/-- How often the loop has come back to its head. -/
def iterations (L : Layout Data) (port : Port) (x : State × Nat) (n : Nat) : Nat :=
  visits program L port (program.entry .verify_loop) x n

/-- An iteration is one iteration. -/
theorem iterations_one {x y : State × Nat} {n : Nat}
    (hn : ticks program L port (n + 1) x = some y) (hy : y.1.rip = 21)
    (hbefore : ∀ m, 0 < m → m ≤ n → ∃ z, ticks program L port m x = some z ∧ z.1.rip ≠ 21) :
    iterations L port x (n + 1) = 1 := by
  have hzero : visits program L port (program.entry .verify_loop) x n = 0 :=
    visits_eq_zero hbefore
  rw [iterations, visits, hzero, hn]
  simp [hy]
  rfl

theorem At.reporting (hs : At L v 21 log s) : Reporting L v log 0 s where
  vec := hs.kept.vec
  table := hs.kept.sound.image .ymm_patterns
  sent := ⟨[], List.nil_prefix, fun _ => rfl, by simp [hs.log]⟩

/-- Between two states that stand at the head of the loop. -/
theorem reporting_between {s t u : State} (hs : At L v 21 log s) (ht : Kept L v t)
    (hu : At L v 21 (log ++ verdict v) u) (hst : s.log <+: t.log) (htu : t.log <+: u.log)
    (hne : t.rip ≠ 21) : Reporting L v log 0 t := by
  obtain ⟨part, hpart⟩ := hst
  rw [hs.log] at hpart
  refine ⟨ht.vec, ht.sound.image .ymm_patterns, part, ?_, fun he => absurd he hne, ?_⟩
  · rw [← hpart, hu.log] at htu
    exact (List.prefix_append_right_inj log).mp htu
  · rw [List.replicate_zero, List.flatten_nil, List.append_nil, hpart]

/-- The lines of an iteration and of those after it. -/
theorem Reporting.shift {m : Nat} (h : Reporting L v (log ++ verdict v) m s) :
    Reporting L v log (1 + m) s where
  vec := h.vec
  table := h.table
  sent := by
    obtain ⟨part, hpart, hhead, hlog⟩ := h.sent
    refine ⟨part, hpart, hhead, ?_⟩
    rw [hlog, Nat.add_comm, List.replicate_succ, List.flatten_cons]
    simp only [List.append_assoc]

/-- **Every step of every iteration.** -/
theorem reporting_ticks (hL : avx2Guest.Fits L) (hport : port.Fair) (hs : At L v 21 log s)
    (r n : Nat) : ∃ z, ticks program L port n (s, r) = some z ∧
      Reporting L v log (iterations L port (s, r) n) z.1 := by
  -- by the steps that are left at the head of the loop
  induction n using Nat.strongRecOn generalizing s log r with
  | ind n ih =>
      obtain ⟨k, y, hk, hy, hbefore⟩ := iteration_ticks hL hport hs r
      rcases Nat.eq_zero_or_pos n with rfl | hpos
      · exact ⟨(s, r), rfl, hs.reporting⟩
      rcases Nat.lt_or_ge k n with hlt | hle
      · -- behind the first iteration
        obtain ⟨m, rfl⟩ : ∃ m, n = (k + 1) + m := ⟨n - (k + 1), by omega⟩
        obtain ⟨z, hz, hrep⟩ := ih m (by omega) hy y.2
        refine ⟨z, by rw [ticks_add, hk]; exact hz, ?_⟩
        have hcount : iterations L port (s, r) (k + 1 + m) = 1 + iterations L port y m :=
          (visits_add hk m).trans (congrArg (· + _) (iterations_one hk hy.rip hbefore))
        exact hcount ▸ hrep.shift
      · -- within it
        obtain ⟨z, hz, hne⟩ := hbefore n hpos hle
        have hrest : ticks program L port (k + 1 - n) z = some y := by
          rw [← hk, ← Nat.add_sub_cancel' (show n ≤ k + 1 by omega), ticks_add, hz]
          simp
        have hkept : Kept L v z.1 :=
          ticks_invariant (fun _ _ _ ht hstep => kept_step hL ht hstep) hs.kept hz
        have hzero : iterations L port (s, r) n = 0 :=
          visits_eq_zero fun m hm hmn => hbefore m hm (hmn.trans hle)
        exact ⟨z, hz, hzero ▸ reporting_between hs hkept hy (ticks_log hz) (ticks_log hrest) hne⟩

/-- There is no last iteration. -/
theorem iterations_unbounded (hL : avx2Guest.Fits L) (hport : port.Fair) (hs : At L v 21 log s)
    (r m : Nat) : ∃ n y log', ticks program L port n (s, r) = some y ∧ At L v 21 log' y.1 ∧
      iterations L port (s, r) n = m := by
  induction m with
  | zero => exact ⟨0, (s, r), log, rfl, hs, rfl⟩
  | succ m ih =>
      obtain ⟨n, y, log', hn, hy, hcount⟩ := ih
      obtain ⟨k, z, hk, hz, hbefore⟩ := iteration_ticks hL hport hy y.2
      refine ⟨n + (k + 1), z, _, by rw [ticks_add, hn]; exact hk, hz, ?_⟩
      have hone : iterations L port y (k + 1) = 1 := iterations_one hk hz.rip hbefore
      calc iterations L port (s, r) (n + (k + 1))
          = iterations L port (s, r) n + iterations L port y (k + 1) := visits_add hn (k + 1)
        _ = m + 1 := by rw [hcount, hone]

theorem fail_ne_ok : msgLine "AVX2:FAIL" ≠ msgLine "AVX2:OK" := by
  unfold msgLine ascii Text.lit
  decide

/-- **The verdict is exact and sticky.** From any entry to the loop, with any
port that says ready again and again, no step faults or changes a register or
the table, and each of the iterations, which never end, sends the verdict on
the registers of that entry. -/
theorem verdict_sticky (hL : avx2Guest.Fits L) (hs : Entry L s) (hport : port.Fair) (r : Nat) :
    (verdict s.vec = msgLine "AVX2:OK" ↔ ∀ j, s.vec j = pattern j) ∧
    (∀ n, ∃ z, ticks program L port n (s, r) = some z ∧
      Reporting L s.vec s.log (iterations L port (s, r) n) z.1) ∧
    ∀ m, ∃ n, iterations L port (s, r) n = m := by
  have hat : At L s.vec 21 s.log s := ⟨hs.kept, hs.rip, rfl⟩
  refine ⟨?_, reporting_ticks hL hport hat r, fun m => ?_⟩
  · rw [verdict]
    split
    · rename_i hall
      exact iff_of_true rfl hall
    · rename_i hno
      exact iff_of_false fail_ne_ok hno
  · obtain ⟨n, -, -, -, -, hcount⟩ := iterations_unbounded hL hport hat r m
    exact ⟨n, hcount⟩

/-- From its start the payload only enters the loop in such a state, and with
the verdict of success. -/
theorem entry_of_run (hL : avx2Guest.Fits L) {s₀ : State} (h₀ : avx2Guest.Boot L s₀)
    {es : List Byte} (h : Run (avx2Guest.Step L) s₀ es s)
    (hrip : s.rip = program.entry .verify_loop) :
    Entry L s ∧ verdict s.vec = msgLine "AVX2:OK" := by
  have hsound : Sound L s := (source_run (j := 0) hL h₀ h).1
  refine ⟨⟨hrip, by rw [hsound.nested.rsp, hrip]; rfl, hsound.image⟩, ?_⟩
  have hvec : ∀ j, s.vec j = pattern j := by
    intro j
    have hpast : loadOf j < s.rip := by
      rw [hrip, show program.entry .verify_loop = 21 from rfl, loadOf]
      omega
    rw [(source_run (j := j) hL h₀ h).2 hpast, load_pattern (hsound.image .ymm_patterns)]
  rw [verdict, if_pos hvec]

/-- A layout of the payload. -/
def layout : Layout Data := Guest.slotLayout fun
  | .msg_ymm_loaded => 0
  | .msg_ready => 1
  | .msg_ok => 2
  | .msg_fail => 3
  | .ymm_patterns => 4

theorem fits_layout : avx2Guest.Fits layout := by
  refine Guest.fits_slots ?_ ?_ ?_ (by decide : program.instrs.length ≤ 128)
  · intro d d' h
    cases d <;> cases d' <;> first | rfl | cases h
  · intro d
    cases d <;> decide
  · intro d
    show (contents d).length ≤ 0x200
    cases d with
    | ymm_patterns => exact Nat.le_of_eq length_patterns
    | msg_ymm_loaded | msg_ready | msg_ok | msg_fail =>
        simp [contents, text, msgLine, ascii, Text.lit]

def labels : List Data := [.msg_ymm_loaded, .msg_ready, .msg_ok, .msg_fail, .ymm_patterns]

theorem mem_labels : ∀ x, x ∈ labels := by
  intro x
  cases x <;> decide

/-- An entry with all registers zero. -/
def zeroed : State := { avx2Guest.start (avx2Guest.image layout labels) with rip := 21 }

theorem entry_zeroed : Entry layout zeroed where
  rip := rfl
  rsp := rfl
  image x := Guest.holds_image fits_layout (mem_labels x)

/-- A port that is ready every third time. -/
def slow : Port := fun k => if k % 3 = 0 then 0x20 else 0

theorem fair_slow : slow.Fair := by
  intro n
  refine ⟨3 * n, by omega, ?_⟩
  rw [slow, if_pos (by omega)]
  rfl

theorem verdict_sticky_zeroed :
    (∀ n, ∃ z, ticks program layout slow n (zeroed, 0) = some z ∧
      Reporting layout zeroed.vec [] (iterations layout slow (zeroed, 0) n) z.1) ∧
    verdict zeroed.vec ≠ msgLine "AVX2:OK" := by
  obtain ⟨hiff, hall, -⟩ := verdict_sticky fits_layout entry_zeroed fair_slow 0
  refine ⟨hall, fun he => ?_⟩
  exact absurd (hiff.mp he 0) (by decide)

end QemuTest.Asm.Avx2

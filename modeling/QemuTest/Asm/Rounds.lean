import QemuTest.Asm.Avx2Verdict
import QemuTest.Asm.ScalarPass
import QemuTest.Lib.X86.Replay
import QemuTest.Lib.X86.Straight

/-!
# Asm — Rounds

The scalar and the AVX2 payload on a processor that keeps its state: behind the
line that says they are ready they report success, round after round.
-/

namespace QemuTest.Asm

open X86 Runs

-- the checks walk down the whole program
set_option maxRecDepth 20000

namespace Scalar

variable {L : Layout Data} {s : State} {port : Port} {log : List Byte}

/-- A pass gets from the head of the loop behind the last check. -/
theorem checks_gets (hL : scalarGuest.Fits L) (hs : At L 2 log s) :
    Gets program L port 0 (At L report log) s :=
  (advances_at (k := 13) (m := 15) hL (by decide) hs).bind fun _ hu => compared_gets hL hu

/-- The report goes out, and the payload gets back to the head of the loop. -/
theorem again_gets (hL : scalarGuest.Fits L) (hport : port.Fair) (hs : At L report log s) :
    Gets program L port 0 (At L 2 (log ++ msgLine "SCALAR:OK")) s := by
  have hreport := report_gets hL hport hs.source.1 hs.rip
  rw [hs.log] at hreport
  refine (keeping_at hL hs.source hreport).bind fun t ht => ?_
  have hjmp : exec program L 0 t (.jmp .state_loop) = some (t.goto 2) := rfl
  have hfetch : program.fetch t.rip = some (.jmp .state_loop) := by
    rw [ht.rip]
    rfl
  exact keeping_at hL ht.source
    (.cons (Nat.zero_le _) hfetch rfl hjmp (.now ⟨rfl, ht.log⟩))

/-- The payload comes to the head of the loop again and again. -/
theorem at_heads (hL : scalarGuest.Fits L) (h₀ : scalarGuest.Boot L s) (port : Port)
    (hport : port.Fair) (m : Nat) : Gets program L port 0
      (At L 2 (X86.rounds (msgLine "SCALAR:READY") (msgLine "SCALAR:OK") m)) s :=
  heads (fun _ _ ht => ht.log) (fun _ hport => ready_gets hL hport h₀)
    (fun _ hport _ _ ht => (checks_gets hL ht).bind fun _ hu => again_gets hL hport hu)
    port hport m

/-- **The scalar payload** reports success round after round. -/
theorem rounds (hL : scalarGuest.Fits L) (h₀ : scalarGuest.Boot L s) :
    Rounds program L (msgLine "SCALAR:READY") (msgLine "SCALAR:OK") s := fun port hport m =>
  (at_heads hL h₀ port hport m).bind fun _ ht => .now ht.log

end Scalar

namespace Avx2

variable {L : Layout Data} {s t : State} {port : Port} {log : List Byte} {inp : Byte}

/-- On the source the payload is sound and what is loaded is right. -/
structure Source (L : Layout Data) (s : State) : Prop where
  sound : Sound L s
  loaded : ∀ j, loadOf j < s.rip → s.vec j = s.mem.load (patternOf L j) 32

theorem source_boot (h₀ : avx2Guest.Boot L s) : Source L s where
  sound :=
    { nested := h₀.nested (by decide)
      image := h₀.image
      constants := by
        rw [h₀.rip]
        exact Known.agrees_nothing
      printing := fun hle => by
        rw [h₀.rip] at hle
        exact absurd hle (by decide) }
  loaded j hlt := by
    rw [h₀.rip] at hlt
    exact absurd hlt (Nat.not_lt_zero _)

theorem source_step (hL : avx2Guest.Fits L) (hs : Source L s) (h : Steps program L s inp t) :
    Source L t := by
  obtain ⟨i, hfetch, hexec⟩ := step_eq_some.mp h
  obtain ⟨hsound, hedge⟩ := sound_step hL hs.sound hfetch hexec
  exact ⟨hsound, fun j => loaded_step hL hs.sound (hs.loaded j) hedge hexec⟩

/-- The bytes at a label lie within the page. -/
theorem within_page (hL : avx2Guest.Fits L) (x : Data) :
    L.data x + (contents x).length ≤ L.limit := by
  have hhigh := hL.high x
  rw [hL.limit]
  exact hhigh.trans (by decide)

/-- No instruction of the payload is one of the x87 unit or loads MXCSR. -/
theorem no_fpu : ∀ i ∈ program.instrs, i.waits = false ∧ i.writes .mxcsr = false := by decide

/-- **The loads**: from the start all registers are loaded. -/
theorem loads_gets (hL : avx2Guest.Fits L) (hs : Source L s) (hrip : s.rip = 0) :
    Gets program L port 0 (fun t => Source L t ∧ t.rip = 17 ∧ t.log = s.log) s := by
  have htame : program.tame joins (fun x => (contents x).length) 0 0 17 = true := by decide
  refine tame_gets (fun _ _ _ => source_step hL) (fun _ ht => ht.sound.constants)
    (within_page hL) (Nat.zero_le _) (by rw [hL.limit]; decide) htame
    (fun t i _ hfetch hi => ?_) (fun t x _ hfetch => ?_) (Nat.le_refl 0) hrip
    (Nat.zero_le _) hs
  · have := (no_fpu i (List.mem_of_getElem? hfetch)).1
    simp [hi] at this
  · have := (no_fpu _ (List.mem_of_getElem? hfetch)).2
    simp [Instr.writes] at this

/-- At the head of the loop on the source. -/
theorem at_of_source (hs : Source L s) (hrip : s.rip = 21) (hlog : s.log = log) :
    At L pattern 21 log s := by
  have hentry : Entry L s :=
    ⟨hrip, by rw [hs.sound.nested.rsp, hrip]; rfl, hs.sound.image⟩
  have hvec : s.vec = pattern := by
    funext j
    rw [hs.loaded j (by rw [hrip, loadOf]; omega), load_pattern (hs.sound.image .ymm_patterns)]
  exact ⟨hvec ▸ hentry.kept, hrip, hlog⟩

/-- A message of the source goes out. -/
theorem send_gets (hL : avx2Guest.Fits L) (hport : port.Fair) {x : Data} {n : Nat}
    (hsite : (n + 1, x) ∈ sites) (hlea : program.fetch n = some (.lea .rsi (.rel x 0)))
    (hcall : program.fetch (n + 1) = some (.call (.serial .serial_print)))
    (hdepth : program.depth body (n + 1) = 0) (hn : n + 2 < body) (hs : Source L s)
    (hrip : s.rip = n) : Gets program L port 0
      (fun t => Source L t ∧ t.rip = n + 2 ∧ t.log = s.log ++ text x) s :=
  (Guest.message_gets wired hL hport (contents_site _ hsite) (site_nonzero _ hsite) hlea hcall
    hdepth (Nat.zero_le _) hn hrip hs.sound.nested (hs.sound.image x)).keeping hs
      fun _ _ _ => source_step hL

/-- The line the loop sends on the source. -/
theorem verdict_pattern : verdict pattern = msgLine "AVX2:OK" := if_pos fun _ => rfl

/-- The payload gets ready. -/
theorem ready_gets (hL : avx2Guest.Fits L) (hport : port.Fair) (h₀ : avx2Guest.Boot L s) :
    Gets program L port 0
      (At L pattern 21 (msgLine "YMM:LOADED" ++ msgLine "AVX2:READY")) s := by
  refine (loads_gets hL (source_boot h₀) h₀.rip).bind ?_
  rintro t ⟨ht, hrip, hlog⟩
  refine (send_gets hL hport (x := .msg_ymm_loaded) (by decide) rfl rfl rfl (by decide) ht
    hrip).bind ?_
  rintro u ⟨hu, hrip', hlog'⟩
  refine (send_gets hL hport (x := .msg_ready) (by decide) rfl rfl rfl (by decide) hu
    hrip').bind ?_
  rintro v ⟨hv, hrip'', hlog''⟩
  refine .now (at_of_source hv hrip'' ?_)
  rw [hlog'', hlog', hlog, h₀.log]
  rfl

/-- The instruction behind the comparison. -/
def report : Nat := 48

/-- An iteration gets from the head of the loop behind the comparison. -/
theorem checks_gets (hL : avx2Guest.Fits L) (hs : At L pattern 21 log s) :
    Gets program L port 0 (At L pattern report log) s := by
  obtain ⟨t, ht, hspilled⟩ := head_step hL hs
  have hrest : Gets program L port 22 (At L pattern report log) t := by
    refine (spill_gets hL hspilled 16 (Nat.le_refl 16)).bind fun u hu => ?_
    have hdecide : Gets program L port 22
        (At L pattern (if ∀ j, pattern j = pattern j then 48 else 51) log) u := decide_gets hL hu
    rwa [if_pos fun _ => rfl] at hdecide
  exact .cons (Nat.zero_le _) (hs.rip ▸ rfl) rfl ht hrest.anywhere

/-- The payload comes to the head of the loop again and again. -/
theorem at_heads (hL : avx2Guest.Fits L) (h₀ : avx2Guest.Boot L s) (port : Port)
    (hport : port.Fair) (m : Nat) : Gets program L port 0 (At L pattern 21 (X86.rounds
      (msgLine "YMM:LOADED" ++ msgLine "AVX2:READY") (msgLine "AVX2:OK") m)) s := by
  refine heads (fun _ _ ht => ht.log) (fun port hport => ready_gets hL hport h₀)
    (fun port hport log t ht k => ?_) port hport m
  obtain ⟨n, y, hn, hy, -⟩ := iteration_ticks hL hport ht k
  rw [verdict_pattern] at hy
  exact leads_of_ticks hn hy

/-- **The AVX2 payload** reports success round after round. -/
theorem rounds (hL : avx2Guest.Fits L) (h₀ : avx2Guest.Boot L s) :
    Rounds program L (msgLine "YMM:LOADED" ++ msgLine "AVX2:READY") (msgLine "AVX2:OK") s :=
  fun port hport m => (at_heads hL h₀ port hport m).bind fun _ ht => .now ht.log

end Avx2

end QemuTest.Asm

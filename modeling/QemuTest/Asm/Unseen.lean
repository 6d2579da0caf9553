import QemuTest.Asm.Rounds
import QemuTest.Lib.X86.Follow

/-!
# Asm — Unseen

What the scalar and the AVX2 payload do not look at again. A destination that
has lost none of the registers that are still to be looked at goes the way of
the source to the report of the pass (`Trailing`), and reports success as the
source does (`joined`).
-/

namespace QemuTest.Asm

open X86 Runs

-- the checks walk down the whole program
set_option maxRecDepth 20000

/-- The destination sends what the source goes on to send, a line last. -/
def Joined (g : Guest) (L : Layout g.Data) (line : List Byte) (s d : State) : Prop :=
  ∃ es u es' v, Run (g.Step L) s es u ∧ Run (g.Step L) d es' v ∧ u.log = s.log ++ v.log ∧
    line <:+ v.log

/-- Two states alike at the load of a text in front of its call send its line both. -/
theorem Guest.joined {g : Guest} {L : Layout g.Data} {f : SerialLabel → g.Label} {body n : Nat}
    (hw : g.Wired f body) (hL : g.Fits L) {x : g.Data} {full : List Byte}
    (hx : g.contents x = full ++ [0]) (h0 : 0 ∉ full)
    (hlea : g.program.fetch n = some (.lea .rsi (.rel x 0)))
    (hcall : g.program.fetch (n + 1) = some (.call (f .serial_print)))
    (hdepth : g.program.depth body (n + 1) = 0) (hn : n + 2 < body) {s d u v : State}
    {es es' : List Byte} (hu : Run (g.Step L) s es u) (hv : Run (g.Step L) d es' v)
    (hrip : u.rip = n) {dead : Part → Bool} (ha : Alike dead s.log u v)
    (hmem : dead .mem = false) (hrsp : dead (.gpr .rsp) = false)
    (hs : Nested g.program L body g.stackTop u) (hm : g.Holds L u.mem x) :
    Joined g L full s d := by
  have hmem' : v.mem = u.mem := ha.agree .mem (by decide) hmem
  have hrsp' : v.gpr .rsp = u.gpr .rsp := ha.agree (.gpr .rsp) (by simp) hrsp
  have hs' : Nested g.program L body g.stackTop v :=
    ⟨by rw [hrsp', ha.rip, hs.rsp], by rw [ha.rip, hmem']; exact hs.site⟩
  obtain ⟨fs, t, ht, -, hlog⟩ := (message_gets hw hL Port.fair_prompt hx h0 hlea hcall hdepth
    (Nat.zero_le n) hn hrip hs hm).leads
  obtain ⟨fs', t', ht', -, hlog'⟩ := (message_gets hw hL Port.fair_prompt hx h0 hlea hcall hdepth
    (Nat.zero_le n) hn (ha.rip.trans hrip) hs' (hmem' ▸ hm)).leads
  refine ⟨_, t, _, t', hu.trans ht, hv.trans ht', ?_, hlog' ▸ List.suffix_append _ _⟩
  rw [hlog, hlog', ha.log, List.append_assoc]

/-! ## The scalar payload -/

namespace Scalar

/-- The instructions in front of which RSI has the address of a text that is
sent. -/
def sends (n : Nat) : Bool := n = 1 || n = 81 || n = failCall || body ≤ n

/-- The registers whose values make no difference in front of instruction `n`:
they are set before they are compared. From the copy of RBX on, RAX and RBX are
compared with each other. -/
def dead (n : Nat) (p : Part) : Bool :=
  (p = .gpr .rax && 65 ≤ n && n ≤ 67) || (p = .gpr .rbx && n = 65) ||
    (scalarGuest.verified.contains p && (program.observedNext p n).isNone &&
      !(p = .gpr .rsi && sends n))

def deadParts : List Part := .gpr .rax :: scalarGuest.verified

theorem mem_deadParts (n : Nat) (p : Part) (h : dead n p = true) : p ∈ deadParts := by
  simp only [dead, Bool.or_eq_true, Bool.and_eq_true, decide_eq_true_eq, List.contains_eq_mem] at h
  rcases h with (⟨⟨rfl, -⟩, -⟩ | ⟨rfl, -⟩) | ⟨⟨hp, -⟩, -⟩
  · exact List.mem_cons_self ..
  · decide
  · exact List.mem_cons_of_mem _ hp

theorem ignores : program.ignores dead deadParts [64, 65] = true := by
  simp only [Program.ignores, dead, observedNext_eq]
  decide

/-- What is lost at the copy of RBX and at the comparison with it makes no
difference behind them. -/
theorem dead_later : ∀ p ∈ deadParts,
    (dead 64 p = true → dead 65 p = true) ∧ (dead 65 p = true → dead 66 p = true) := by
  simp only [dead, observedNext_eq]
  decide

theorem dead_copied : dead 65 (.gpr .rax) = true := by decide

theorem copy_edge : program.allEdges (fun n _ m => m ≠ 65 || n = 64) = true := by decide

variable {L : Layout Data} {s d u v u' : State} {inp : Byte} {pre : List Byte} {port : Port}

/-- The destination goes the way of the source. -/
structure Trailing (L : Layout Data) (pre : List Byte) (u v : State) : Prop where
  source : Source L u
  alike : Alike (dead u.rip) pre u v
  copied : u.rip = 65 → v.gpr .rax = v.gpr .rbx

/-- The flags of a comparison of equal values do not tell which they are. -/
theorem ofSub_self (x y : BitVec 64) : Flags.ofSub .qword x x = Flags.ofSub .qword y y := by
  simp [Flags.ofSub]

/-- The destination trails the source over `mov rax, rbx`: behind it RAX is a
copy on both sides. -/
theorem trailing_copy (hL : scalarGuest.Fits L) (hR : Trailing L pre u v) (hat : u.rip = 64)
    (h : Steps program L u inp u') : ∃ v', Steps program L v inp v' ∧ Trailing L pre u' v' := by
  have hfetch : program.fetch 64 = some (.mov .qword .rax (.reg .rbx)) := rfl
  have hsource := source_step hL hR.source h
  obtain ⟨i, hi, hexec⟩ := step_eq_some.mp h
  obtain rfl := Option.some.inj (hfetch.symm.trans (hat ▸ hi))
  obtain rfl := Option.some.inj hexec
  have hnext : (u.setReg .rax (u.gpr .rbx)).next.rip = 65 := congrArg (· + 1) hat
  refine ⟨(v.setReg .rax (v.gpr .rbx)).next, steps_intro (hR.alike.rip ▸ hi) rfl, hsource, ?_,
    fun _ => ?_⟩
  · have halike : Alike (dead 64) pre u v := hat ▸ hR.alike
    have hcopied : Alike (dead 65) pre u v :=
      halike.later fun p hp => (dead_later p (mem_deadParts 64 p hp)).1 hp
    show Alike (dead (u.setReg .rax (u.gpr .rbx)).next.rip) pre _ _
    rw [hnext]
    refine (hcopied.spoil .rax (u.gpr .rbx) (v.gpr .rbx)).next.mono fun p hp => ?_
    have hne : p ≠ .gpr .rax := by
      rintro rfl
      simp [dead_copied] at hp
    simp [hp, hne]
  · simp [State.next, State.goto, State.setReg]

/-- The destination trails the source over `cmp rax, rbx`: the flags are equal. -/
theorem trailing_compare (hL : scalarGuest.Fits L) (hR : Trailing L pre u v)
    (hat : u.rip = 65) (h : Steps program L u inp u') :
    ∃ v', Steps program L v inp v' ∧ Trailing L pre u' v' := by
  have hfetch : program.fetch 65 = some (.cmp .qword (.reg .rax) (.reg .rbx)) := rfl
  have hsource := source_step hL hR.source h
  have hK := hR.source.2
  rw [hat] at hK
  have hsame : u.gpr .rax = u.gpr .rbx :=
    (hK .rax (.imm 0x1122334455667788) rfl).trans (hK .rbx (.imm 0x1122334455667788) rfl).symm
  obtain ⟨i, hi, hexec⟩ := step_eq_some.mp h
  obtain rfl := Option.some.inj (hfetch.symm.trans (hat ▸ hi))
  obtain rfl := Option.some.inj hexec
  have hnext : u.next.rip = 66 := congrArg (· + 1) hat
  refine ⟨{ v.next with flags := .ofSub .qword (v.gpr .rax) (v.gpr .rbx) },
    steps_intro (hR.alike.rip ▸ hi) rfl, hsource, ?_, fun he => ?_⟩
  · have halike : Alike (dead 65) pre u v := hat ▸ hR.alike
    show Alike (dead u.next.rip) pre { u.next with
      flags := .ofSub .qword (u.gpr .rax) (u.gpr .rbx) } _
    rw [hnext, hsame, hR.copied hat, ofSub_self (v.gpr .rbx) (u.gpr .rbx)]
    exact (halike.next.withFlags _).later fun p hp => (dead_later p (mem_deadParts 65 p hp)).2 hp
  · have : u.next.rip = 65 := he
    omega

/-- **The destination trails** the source from step to step. -/
theorem trailing_step (hL : scalarGuest.Fits L) (hR : Trailing L pre u v)
    (h : Steps program L u inp u') : ∃ v', Steps program L v inp v' ∧ Trailing L pre u' v' := by
  by_cases h64 : u.rip = 64
  · exact trailing_copy hL hR h64 h
  by_cases h65 : u.rip = 65
  · exact trailing_compare hL hR h65 h
  have hsource := source_step hL hR.source h
  obtain ⟨i, hfetch, hexec⟩ := step_eq_some.mp h
  obtain ⟨-, hedge⟩ := sound_step hL hR.source.1 hfetch hexec
  obtain ⟨v', hv', halike⟩ := alike_step ignores mem_deadParts hR.alike (by simp [h64, h65])
    hedge hexec
  refine ⟨v', hv', hsource, halike, fun hat => ?_⟩
  have hck := allEdges_spec copy_edge hedge
  simp [hat, h64] at hck

theorem overlaps_verified {p : Part} (hp : p ∉ scalarGuest.verified) :
    ∀ q ∈ scalarGuest.verified, p.overlaps q = false := by
  intro q hq
  obtain ⟨r, -, rfl⟩ := List.mem_map.mp hq
  have hne : p ≠ .gpr r := fun he => hp (he ▸ hq)
  cases p <;> simp_all [Part.overlaps]

/-- The destination trails the source from the switch on. -/
theorem trailing_start (hs : Source L s) (hmig : scalarGuest.Migrated s d)
    (hchecked : ∀ r ∈ verifiedRegs, ¬ Ahead r s d)
    (htext : sends s.rip = true → d.gpr .rsi = s.gpr .rsi) : Trailing L s.log s d := by
  have hkept : ∀ p, p ∉ scalarGuest.verified → p ≠ .log → p.agree s d := fun p hp =>
    hmig.kept p (overlaps_verified hp)
  have hrsp : d.gpr .rsp = s.gpr .rsp := hkept (.gpr .rsp) (by decide) (by decide)
  have hrax : d.gpr .rax = s.gpr .rax := hkept (.gpr .rax) (by decide) (by decide)
  have hnext : ∀ r ∈ verifiedRegs, (program.observedNext (.gpr r) s.rip).isSome = true →
      d.gpr r = s.gpr r := by
    intro r hr hobs
    by_contra hne
    exact hchecked r hr ⟨hne, hobs, hrsp, fun _ => hrax⟩
  refine ⟨hs, ⟨hmig.rip, by rw [hmig.log, List.append_nil], fun p hp hdead => ?_⟩, fun hat => ?_⟩
  · by_cases hver : p ∈ scalarGuest.verified
    swap
    · exact hkept p hver hp
    obtain ⟨r, hr, rfl⟩ := List.mem_map.mp hver
    simp only [dead, Bool.or_eq_false_iff, Bool.and_eq_false_iff, Bool.not_eq_false',
      Bool.and_eq_true, decide_eq_true_eq, List.contains_eq_mem, hver, decide_true,
      Bool.true_eq_false, false_or, Option.isNone_eq_false_iff] at hdead
    rcases hdead.2 with hobs | ⟨hrsi, hsends⟩
    · exact hnext r hr hobs
    · obtain rfl := Part.gpr.inj hrsi
      exact htext hsends
  · have hK := hs.2
    rw [hat] at hK
    rw [hrax, hnext .rbx (by decide) (by rw [hat]; decide)]
    exact (hK .rax (.imm 0x1122334455667788) rfl).trans
      (hK .rbx (.imm 0x1122334455667788) rfl).symm

/-- The source gets to a report from every state. -/
theorem leads_report (hL : scalarGuest.Fits L) {s₀ : State} (h₀ : scalarGuest.Boot L s₀)
    {es : List Byte} (hsrc : Run (scalarGuest.Step L) s₀ es s) :
    Leads (Steps program L) (fun t => t.rip = report) s := by
  have hpass : ∀ port : Port, port.Fair → ∀ m, Gets program L port 0 (fun t => t.rip = report ∧
      t.log = X86.rounds (msgLine "SCALAR:READY") (msgLine "SCALAR:OK") m) s₀ := by
    intro port hport m
    exact (at_heads hL h₀ port hport m).bind fun t ht =>
      (checks_gets hL ht).bind fun u hu => .now ⟨hu.rip, hu.log⟩
  exact leads_again (by simp [msgLine]) hpass h₀.log hsrc

/-- **Nothing is looked at again**: the destination reports success as the source
does. -/
theorem joined (hL : scalarGuest.Fits L) {s₀ : State} (h₀ : scalarGuest.Boot L s₀)
    {es : List Byte} (hsrc : Run (scalarGuest.Step L) s₀ es s)
    (hmig : scalarGuest.Migrated s d) (hchecked : ∀ r ∈ verifiedRegs, ¬ Ahead r s d)
    (htext : sends s.rip = true → d.gpr .rsi = s.gpr .rsi) :
    Joined scalarGuest L (msgLine "SCALAR:OK") s d := by
  obtain ⟨fs, u, v, hu, hv, hR, hrip⟩ : ∃ fs u v, Run (Steps program L) s fs u ∧
      Run (Steps program L) d fs v ∧ Trailing L s.log u v ∧ u.rip = report :=
    (leads_report hL h₀ hsrc).follow (fun _ _ _ _ hR _ hstep => trailing_step hL hR hstep)
      (trailing_start (source_run hL h₀ hsrc) hmig hchecked htext)
  have halike : Alike (dead report) s.log u v := hrip ▸ hR.alike
  exact Guest.joined wired hL contents_ok ok_nonzero (n := report) rfl rfl rfl (by decide) hu hv
    hrip halike (by decide) (by decide) hR.source.1.nested (hR.source.1.image .msg_ok)

end Scalar

/-! ## The AVX2 payload -/

namespace Avx2

/-- The instruction behind a comparison that fails. -/
def failed : Nat := 51

/-- The registers whose values make no difference in front of instruction `n`,
up to the report: they are still to be loaded, or have been spilled. -/
def dead (n : Nat) (p : Part) : Bool :=
  (List.finRange 16).any fun j => (p = .vec j || p = .xmm j) &&
    (n ≤ loadOf j || (spillOf j < n && (n ≤ report || n = failed)))

def deadParts : List Part := (List.finRange 16).flatMap fun j => [.vec j, .xmm j]

theorem mem_deadParts (n : Nat) (p : Part) (h : dead n p = true) : p ∈ deadParts := by
  simp only [dead, List.any_eq_true, Bool.and_eq_true, Bool.or_eq_true, decide_eq_true_eq] at h
  obtain ⟨j, hj, hp, -⟩ := h
  exact List.mem_flatMap.mpr ⟨j, hj, by simpa using hp⟩

theorem ignores : program.ignores dead deadParts [report, failed] = true := by
  decide +kernel

variable {L : Layout Data} {s d u v u' : State} {inp : Byte} {pre : List Byte} {port : Port}

/-- The destination goes the way of the source. -/
structure Trailing (L : Layout Data) (pre : List Byte) (u v : State) : Prop where
  source : Source L u
  alike : Alike (dead u.rip) pre u v

theorem trailing_step (hL : avx2Guest.Fits L) (hR : Trailing L pre u v)
    (hstop : u.rip ≠ report ∧ u.rip ≠ failed) (h : Steps program L u inp u') :
    ∃ v', Steps program L v inp v' ∧ Trailing L pre u' v' := by
  have hsource := source_step hL hR.source h
  obtain ⟨i, hfetch, hexec⟩ := step_eq_some.mp h
  obtain ⟨-, hedge⟩ := sound_step hL hR.source.sound hfetch hexec
  obtain ⟨v', hv', halike⟩ := alike_step ignores mem_deadParts hR.alike (by simp [hstop])
    hedge hexec
  exact ⟨v', hv', hsource, halike⟩

/-- Nothing that is sent on the source has an `I` in it. -/
theorem not_mem_rounds (m : Nat) : (0x49 : Byte) ∉
    X86.rounds (msgLine "YMM:LOADED" ++ msgLine "AVX2:READY") (msgLine "AVX2:OK") m := by
  have hready : (0x49 : Byte) ∉ msgLine "YMM:LOADED" ++ msgLine "AVX2:READY" := by decide +kernel
  have hok : (0x49 : Byte) ∉ msgLine "AVX2:OK" := by decide +kernel
  rw [X86.rounds, List.mem_append, List.mem_flatten]
  rintro (hin | ⟨l, hl, hin⟩)
  · exact hready hin
  · obtain ⟨-, rfl⟩ := List.mem_replicate.mp hl
    exact hok hin

/-- On the source no comparison fails. -/
theorem not_failed (hL : avx2Guest.Fits L) {s₀ : State} (h₀ : avx2Guest.Boot L s₀)
    {es : List Byte} (hrun : Run (Steps program L) s₀ es u) (hu : Source L u) :
    u.rip ≠ failed := by
  intro hat
  obtain ⟨fs, t, hsend, -, -, hlog⟩ := (send_gets hL Port.fair_prompt (x := .msg_fail)
    (n := failed) (by decide) rfl rfl rfl (by decide) hu hat).leads
  obtain ⟨m, hm⟩ := (rounds hL h₀).sent (by simp [msgLine]) h₀.log (hrun.trans hsend)
  refine not_mem_rounds m (hm.subset ?_)
  rw [hlog]
  exact List.mem_append_right _ (by decide +kernel)

theorem source_of_run (hL : avx2Guest.Fits L) {s₀ : State} (h₀ : avx2Guest.Boot L s₀)
    {es : List Byte} (hrun : Run (Steps program L) s₀ es s) : Source L s :=
  hrun.invariant (source_boot h₀) fun _ _ _ hs hstep => source_step hL hs hstep

/-- The source gets to a report from every state. -/
theorem leads_report (hL : avx2Guest.Fits L) {s₀ : State} (h₀ : avx2Guest.Boot L s₀)
    {es : List Byte} (hsrc : Run (avx2Guest.Step L) s₀ es s) :
    Leads (Steps program L) (fun t => t.rip = report) s := by
  have hpass : ∀ port : Port, port.Fair → ∀ m, Gets program L port 0 (fun t => t.rip = report ∧
      t.log = X86.rounds (msgLine "YMM:LOADED" ++ msgLine "AVX2:READY") (msgLine "AVX2:OK") m)
      s₀ := by
    intro port hport m
    exact (at_heads hL h₀ port hport m).bind fun t ht =>
      (checks_gets hL ht).bind fun u hu => .now ⟨hu.rip, hu.log⟩
  exact leads_again (by simp [msgLine]) hpass h₀.log hsrc

theorem mem_verified {p : Part} : p ∈ avx2Guest.verified ↔ ∃ j, p = .vec j := by
  simp [avx2Guest, eq_comm]

/-- A part that is no vector register arrives. -/
theorem kept_of_migrated (hmig : avx2Guest.Migrated s d) (p : Part)
    (hvec : ∀ j, p ≠ .vec j ∧ p ≠ .xmm j) (hp : p ≠ .log) : p.agree s d := by
  refine hmig.kept p (fun q hq => ?_) hp
  obtain ⟨j, rfl⟩ := mem_verified.mp hq
  have := hvec j
  cases p <;> simp_all [Part.overlaps]

theorem observed_loaded : ∀ n ≤ report, ∀ j : Fin 16, ¬ (n ≤ loadOf j) →
    ¬ (spillOf j < n) → (program.observedNext (.vec j) n).isSome = true := by
  decide

/-- The destination trails the source from a switch in front of the report, or
if it has all registers. -/
theorem trailing_start (hs : Source L s) (hmig : avx2Guest.Migrated s d)
    (hchecked : ∀ j, d.vec j ≠ s.vec j → ¬ Ahead L j s)
    (hat : s.rip ≤ report ∨ ∀ j, d.vec j = s.vec j) : Trailing L s.log s d := by
  have hvec : ∀ j, (decide (s.rip ≤ loadOf j) || (decide (spillOf j < s.rip) &&
      (decide (s.rip ≤ report) || decide (s.rip = failed)))) = false → d.vec j = s.vec j := by
    intro j hdead
    simp only [Bool.or_eq_false_iff, Bool.and_eq_false_iff, decide_eq_false_iff_not] at hdead
    rcases hat with hle | hall
    · by_contra hne
      exact hchecked j hne (.inl (observed_loaded _ hle j hdead.1
        (hdead.2.resolve_right fun h => h.1 hle)))
    · exact hall j
  refine ⟨hs, ⟨hmig.rip, by rw [hmig.log, List.append_nil], fun p hp hdead => ?_⟩⟩
  by_cases hpart : ∀ j, p ≠ .vec j ∧ p ≠ .xmm j
  · exact kept_of_migrated hmig p hpart hp
  push Not at hpart
  obtain ⟨j, hj⟩ := hpart
  simp only [dead, List.any_eq_false, Bool.and_eq_true, not_and, Bool.not_eq_true] at hdead
  have hdead := hdead j (List.mem_finRange j)
  by_cases hpv : p = .vec j
  · subst hpv
    exact hvec j (hdead (by simp))
  · obtain rfl := hj hpv
    show (d.vec j).setWidth 128 = (s.vec j).setWidth 128
    rw [hvec j (hdead (by simp))]

/-! ### A line that is still to be sent -/

/-- Some fair port answered last as the routine's registers have it. -/
theorem exists_answered (s : State) :
    ∃ port : Port, port.Fair ∧ Guest.Answered port body s 1 := by
  let b : Byte := if s.rip = body + 6 then s.al else if s.flags.zf then 0 else 0x20
  refine ⟨Port.after [b] .prompt, Port.fair_prompt.after, ?_, ?_⟩
  · intro hat
    simp [Port.after, b, hat]
  · intro hat
    have hne : s.rip ≠ body + 6 := by omega
    cases hz : s.flags.zf <;> simp [Port.after, b, hne, hz] <;> decide

theorem ofNat_inj {x y : Nat} (hx : x < 2 ^ 64) (hy : y < 2 ^ 64)
    (h : BitVec.ofNat 64 x = BitVec.ofNat 64 y) : x = y := by
  have hval := congrArg BitVec.toNat h
  rwa [BitVec.toNat_ofNat, BitVec.toNat_ofNat, Nat.mod_eq_of_lt hx, Nat.mod_eq_of_lt hy] at hval

/-- The success line is being sent, and none of it is out yet. -/
theorem owes_printing (hL : avx2Guest.Fits L) (hs : Sound L s) (howes : OwesOk L s) :
    Printing L body 0x7c00 (L.data .msg_ok) (text .msg_ok) 50 s 0 := by
  obtain ⟨p, hp, k, hpr⟩ := hs.printing (by rcases howes with h | h <;> omega)
  have hlow := hpr.str.high
  have hhigh : L.data .msg_ok < 0x9c00 := by
    have hlen : 0 < (contents .msg_ok).length := by decide +kernel
    have := hL.high .msg_ok
    simp only [avx2Guest] at this
    omega
  have hk : k ≤ (text p.2).length := by
    cases hpr.sending <;> omega
  have haddr : L.data p.2 + k = L.data .msg_ok := by
    rcases howes with ⟨hrip, hrsi⟩ | ⟨hlo, hhi, hrsi⟩
    · cases hpr.sending with
      | next rip rsi le => exact ofNat_inj (by omega) (by omega) (rsi.symm.trans hrsi)
      | loaded | waiting | polling | ready | done => omega
    · cases hpr.sending with
      | loaded rip rsi | waiting rip rsi | polling rip rsi =>
          exact Nat.succ.inj (ofNat_inj (by omega) (by omega) (rsi.symm.trans hrsi))
      | ready rip port rsi =>
          exact Nat.succ.inj (ofNat_inj (by omega) (by omega) (rsi.symm.trans hrsi))
      | next | done => omega
  -- no other text lies there
  obtain rfl : p = (49, .msg_ok) := by
    have hsite : ∀ p ∈ sites, p.2 = .msg_ok → p = (49, .msg_ok) := by decide
    refine hsite p hp ?_
    by_contra hne
    have happart := hL.apart p.2 .msg_ok hne
    have hlen : (contents p.2).length = (text p.2).length + 1 := by
      rw [contents_site p hp, List.length_append, List.length_singleton]
    have hpos : 0 < (contents .msg_ok).length := by decide +kernel
    simp only [avx2Guest] at happart
    omega
  obtain rfl : k = 0 := by
    dsimp only at haddr
    omega
  exact hpr

/-- A success line that is being sent comes out whole. -/
theorem owed_leads (hL : avx2Guest.Fits L) (hs : Sound L s) (howes : OwesOk L s) :
    Leads (Steps program L) (fun t => t.log = s.log ++ msgLine "AVX2:OK") s := by
  obtain ⟨port, hport, hans⟩ := exists_answered s
  have hbusy : Guest.Busy avx2Guest L port body (L.data .msg_ok) (text .msg_ok) 50
      (text .msg_ok) (s, 1) :=
    ⟨hs.nested, hans, 0, owes_printing hL hs howes, List.drop_zero⟩
  have hleads := Guest.busy_leads wired hL hport (Nat.zero_le _) (by decide) hbusy
  exact Leads.map Prod.fst (fun _ _ _ hs => ⟨_, tick_step hs.2.2⟩) (fun _ hy => hy.2) hleads

/-- The call in front of it sends the success line. -/
theorem called_leads (hL : avx2Guest.Fits L) (hs : Sound L s) (hat : s.rip = 49) :
    Leads (Steps program L) (fun t => t.log = s.log ++ msgLine "AVX2:OK") s := by
  have hfetch : program.fetch s.rip = some (.call (.serial .serial_print)) := by
    rw [hat]
    rfl
  have hslot : (s.gpr .rsp - 8).toNat + 8 ≤ L.limit := by
    rw [hs.nested.rsp, hat, hL.limit]
    decide
  obtain ⟨t, ht⟩ : ∃ t, exec program L 0 s (.call (.serial .serial_print)) = some t :=
    ⟨_, by rw [exec, push_eq_some.mpr ⟨hslot, rfl⟩, Option.map_some]⟩
  obtain ⟨hsound, hedge⟩ := sound_step hL hs hfetch ht
  have hrip : t.rip = body := List.mem_singleton.mp hedge.2
  have hrsi : t.gpr .rsi = BitVec.ofNat 64 (L.data .msg_ok) := by
    rw [show t.gpr .rsi = s.gpr .rsi from exec_agree (p := .gpr .rsi) ht rfl]
    exact hs.constants .rsi (.addr .msg_ok 0) (by rw [hat]; decide)
  have hlog : t.log = s.log := exec_agree (p := .log) ht rfl
  exact .cons (steps_intro hfetch ht) (hlog ▸ owed_leads hL hsound (.inl ⟨.inl hrip, hrsi⟩))

/-- A success line that both still have to send is sent by both. -/
theorem joined_owed (hL : avx2Guest.Fits L) (hs : Sound L s) (hd : Sound L d)
    (hlog : d.log = []) (howed : ∀ t, t = s ∨ t = d → t.rip = 49 ∨ OwesOk L t) :
    Joined avx2Guest L (msgLine "AVX2:OK") s d := by
  have hleads : ∀ t, Sound L t → t = s ∨ t = d →
      Leads (Steps program L) (fun u => u.log = t.log ++ msgLine "AVX2:OK") t := fun t ht hin =>
    (howed t hin).elim (called_leads hL ht) (owed_leads hL ht)
  obtain ⟨es, u, hu, hulog⟩ := hleads s hs (.inl rfl)
  obtain ⟨es', v, hv, hvlog⟩ := hleads d hd (.inr rfl)
  rw [hlog, List.nil_append] at hvlog
  exact ⟨es, u, es', v, hu, hv, by rw [hulog, hvlog], hvlog ▸ List.suffix_refl _⟩

theorem gpr_of_migrated (hmig : avx2Guest.Migrated s d) (r : Reg) : d.gpr r = s.gpr r :=
  kept_of_migrated hmig (.gpr r) (fun _ => ⟨by simp, by simp⟩) (by simp)

theorem arrives_of_migrated (hmig : avx2Guest.Migrated s d) : Arrives s d := by
  have hgpr := gpr_of_migrated hmig
  have hflags : d.flags = s.flags :=
    kept_of_migrated hmig .flags (fun _ => ⟨by simp, by simp⟩) (by simp)
  exact ⟨hgpr _, fun r _ => hgpr r,
    ⟨fun _ _ => hgpr _, fun _ _ _ => hgpr _, fun _ => hgpr _, fun _ => hflags⟩⟩

theorem switched_of_migrated (hmig : avx2Guest.Migrated s d) : Switched s d :=
  hmig.switched (by decide)

/-- **Nothing is looked at again**: the destination reports success as the source
does. -/
theorem joined (hL : avx2Guest.Fits L) {s₀ : State} (h₀ : avx2Guest.Boot L s₀)
    {es : List Byte} (hsrc : Run (avx2Guest.Step L) s₀ es s) (hmig : avx2Guest.Migrated s d)
    (hchecked : ∀ j, d.vec j ≠ s.vec j → ¬ Ahead L j s) :
    Joined avx2Guest L (msgLine "AVX2:OK") s d := by
  have hs := source_of_run hL h₀ hsrc
  by_cases hat : s.rip ≤ report ∨ ∀ j, d.vec j = s.vec j
  · have hstops : Leads (Steps program L) (fun t => t.rip = report ∨ t.rip = failed) s :=
      (leads_report hL h₀ hsrc).bind fun _ ht => .now (.inl ht)
    obtain ⟨fs, u, v, hu, hv, hR, hstop⟩ : ∃ fs u v, Run (Steps program L) s fs u ∧
        Run (Steps program L) d fs v ∧ Trailing L s.log u v ∧
          (u.rip = report ∨ u.rip = failed) :=
      hstops.follow (fun _ _ _ _ hR hno hstep => trailing_step hL hR (not_or.mp hno) hstep)
        (trailing_start hs hmig hchecked hat)
    have hrip := hstop.resolve_right (not_failed hL h₀ (hsrc.trans hu) hR.source)
    have halike : Alike (dead report) s.log u v := hrip ▸ hR.alike
    exact Guest.joined wired hL (x := Data.msg_ok) (contents_site (49, .msg_ok) (by decide))
      (site_nonzero (49, .msg_ok) (by decide)) (n := report) rfl rfl rfl (by decide) hu hv hrip
      halike (by decide) (by decide) hR.source.sound.nested (hR.source.sound.image .msg_ok)
  · -- the comparison is over, and the line still to be sent
    push Not at hat
    obtain ⟨hlate, j, hne⟩ := hat
    have hsw := switched_of_migrated hmig
    have harr := arrives_of_migrated hmig
    have howed : s.rip = 49 ∨ OwesOk L s := by
      by_contra hno
      push Not at hno
      refine hchecked j hne (.inr ⟨?_, hno.2⟩)
      have := hno.1
      simp only [report] at hlate
      omega
    refine joined_owed hL hs.sound (hs.sound.switched hsw harr) hmig.log fun t ht => ?_
    rcases ht with rfl | rfl
    · exact howed
    · rw [OwesOk, hsw.rip, gpr_of_migrated hmig .rsi]
      exact howed

end Avx2

end QemuTest.Asm

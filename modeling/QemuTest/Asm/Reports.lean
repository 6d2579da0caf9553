import QemuTest.Asm.Serial32

/-!
# Asm — Reports

What the boot sectors share that make one check after the other without paging:
each check is reported by a letter, upper case if it passed, and when all are
made, a text follows and the processor halts.
-/

namespace QemuTest.Asm32

open X86 (Byte Memory Port)
open X86.Protected Runs

variable {C D σ : Type} [DecidableEq C] {P : Program C D} {L : Layout D} {H : Host D σ}
  {f : Serial32Label → C} {body : Nat} {ok : D} {text : List Byte} {s t : State σ} {n : Nat}
  {Q : State σ → Prop}

/-- Between two checks: the stack is empty, string instructions go upwards, and
the text to come is in the sector. -/
structure Live (L : Layout D) (ok : D) (text : List Byte) (s : State σ) : Prop extends
    Unpaged s where
  esp : s.gpr .esp = BitVec.ofNat 32 0x7c00
  df : s.df = false
  fair : Port.Fair s.port
  message : CString s.mem (L.data ok) text

/-- A letter, as `mov al, c` has it. -/
def letter (c : Char) : Byte := BitVec.ofNat 8 c.toNat

namespace Live

variable (h : Live L ok text s)

include h

omit [DecidableEq C] in
theorem of (hkept : Kept s t) (hesp : t.gpr .esp = s.gpr .esp)
    (hm : ∀ y, 0x7c00 ≤ y → t.mem y = s.mem y) (hport : ∃ k, t.port = fun n => s.port (k + n)) :
    Live L ok text t where
  toUnpaged := h.toUnpaged.of hkept.control
  esp := hesp.trans h.esp
  df := hkept.df.trans h.df
  fair := by
    obtain ⟨k, hk⟩ := hport
    rw [hk]
    exact h.fair.shift k
  message := {
    low := h.message.low
    high := h.message.high
    chars := fun k hk => by
      rw [hm _ (Nat.le_trans h.message.low (Nat.le_add_right _ _)), h.message.chars k hk]
    nonzero := h.message.nonzero }

omit [DecidableEq C] in
theorem calculated {x : Gprs × X86.Flags} (hc : Calculated s x t) (hesp : x.1 .esp = s.gpr .esp) :
    Live L ok text t :=
  h.of hc.toKept (by rw [hc.gpr, hesp]) (fun y _ => congrFun hc.mem y)
    ⟨0, by rw [hc.port]; funext n; rw [Nat.zero_add]⟩

omit [DecidableEq C] in
theorem stack : Stack s 0x7c00 := ⟨h.settled, h.esp, by decide, by decide⟩

omit [DecidableEq C] in
theorem goto (n : Nat) : Live L ok text (s.goto n) :=
  h.of ⟨rfl, rfl, rfl⟩ rfl (fun _ _ => rfl) ⟨0, by funext n; rw [Nat.zero_add]; rfl⟩

/-- A call of `serial_out`. -/
theorem gets_send (inc : Includes P f body) (hL : Sector P L) (heip : s.eip = n)
    (hf : P.fetch n = some (.call (f .serial_out))) (hnext : n + 1 < P.instrs.length)
    (hQ : ∀ t, t.eip = n + 1 → Live L ok text t → t.dev = s.dev → t.gpr = s.gpr →
      t.log = s.log ++ [s.al] → Gets P L H Q t) : Gets P L H Q s := by
  refine (call_serial_out inc hL h.stack (by decide) h.fair (heip ▸ hnext) (heip ▸ hf)).bind
    fun t ⟨ht, _, hsent⟩ => hQ t (heip ▸ ht) ?_ hsent.dev hsent.gpr hsent.log
  have hesp : (s.gpr .esp).toNat = 0x7c00 := by
    rw [h.esp]
    rfl
  exact h.of hsent.toKept (congrFun hsent.gpr .esp) (fun y hy => hsent.mem y (.inr (hesp ▸ hy)))
    hsent.port

/-- A letter is sent: behind `mov al, c` the program is at the call, or jumps
there. -/
theorem gets_letter {c : Char} {l : C} {out : Nat} (inc : Includes P f body) (hL : Sector P L)
    (heip : s.eip = n)
    (hmov : P.fetch n = some (.mov .byte .eax (.imm (BitVec.ofNat 32 c.toNat))))
    (hjmp : n + 1 = out ∨ P.fetch (n + 1) = some (.jmp l) ∧ P.entry l = out)
    (hcall : P.fetch out = some (.call (f .serial_out))) (hnext : out + 1 < P.instrs.length)
    (hQ : ∀ t, t.eip = out + 1 → Live L ok text t → t.dev = s.dev →
      t.log = s.log ++ [letter c] → Gets P L H Q t) : Gets P L H Q s := by
  refine gets_calc hL h.settled (i := .mov .byte .eax (.imm (BitVec.ofNat 32 c.toNat)))
    (heip ▸ hmov) rfl fun t ht hct hst => ?_
  have hlive : Live L ok text t := h.calculated hct rfl
  have heipt : t.eip = n + 1 := by rw [ht, heip]
  have hal : t.al = letter c := by
    show (t.gpr .eax).setWidth 8 = _
    rw [hct.gpr]
    exact (merge_byte ..).trans (BitVec.eq_of_toNat_eq (by simp [Size.trunc, letter]))
  have hsend : ∀ u, u.eip = out → Live L ok text u → u.dev = t.dev → u.log = t.log →
      u.al = t.al → Gets P L H Q u := by
    intro u hu hlu hdev hlog halu
    refine hlu.gets_send inc hL hu hcall hnext fun v hv hlv hdevv _ hlogv => hQ v hv hlv ?_ ?_
    · rw [hdevv, hdev, hct.dev]
    · rw [hlogv, hlog, halu, hal, hct.log]
  rcases hjmp with rfl | ⟨hjmp, rfl⟩
  · exact hsend t heipt hlive rfl rfl rfl
  · exact gets_jmp hL hst (heipt ▸ hjmp) fun _ => hsend _ rfl (hlive.goto _) rfl rfl rfl

end Live

/-! ## Branches -/

section

variable {k : Cond} {c : C} {p : Prop} [Decidable p]

/-- `jz` behind what sets the zero flag if `p`. -/
theorem gets_jz (hL : Sector P L) (hs : Settled s) (heip : s.eip = n)
    (hf : P.fetch n = some (.jcc .z c)) (hzf : s.flags.zf = decide p)
    (hQ : Gets P L H Q (s.goto (if p then P.entry c else n + 1))) : Gets P L H Q s := by
  refine gets_jcc hL hs (heip ▸ hf) ?_ fun _ => hQ
  rw [Cond.holds, hzf, heip]
  by_cases hp : p <;> simp [hp]

/-- `jnz`. -/
theorem gets_jne (hL : Sector P L) (hs : Settled s) (heip : s.eip = n)
    (hf : P.fetch n = some (.jcc .nz c)) (hzf : s.flags.zf = decide p)
    (hQ : Gets P L H Q (s.goto (if p then n + 1 else P.entry c))) : Gets P L H Q s := by
  refine gets_jcc hL hs (heip ▸ hf) ?_ fun _ => hQ
  rw [Cond.holds, hzf, heip]
  by_cases hp : p <;> simp [hp]

end

/-! ## The end -/

/-- At `hlt`, or at the jump back to it. -/
structure Halted (P : Program C D) (n : Nat) (s : State σ) : Prop extends Unpaged s where
  eip : s.eip = n ∨ s.eip = n + 1

/-- A halted processor stays so. -/
theorem Halted.step {b : C} (hhlt : P.fetch n = some .hlt)
    (hjmp : P.fetch (n + 1) = some (.jmp b)) (hback : P.entry b = n) {c d : Cached σ}
    (h : Halted P n c.toState) (hstep : step P L H c = some d) :
    Halted P n d.toState ∧ d.log = c.log := by
  obtain ⟨i, hi, hstep⟩ := Option.bind_eq_some_iff.mp hstep
  obtain ⟨t, ht, rfl⟩ := Option.map_eq_some_iff.mp hstep
  have hfetch : P.fetch c.eip = some i := (Option.ite_none_right_eq_some.mp hi).2
  rcases h.eip with heip | heip
  · obtain rfl : Instr.hlt = i := Option.some.inj (hhlt.symm.trans (heip ▸ hfetch))
    obtain rfl := Option.some.inj ht
    exact ⟨⟨h.toUnpaged.of rfl, .inr (congrArg (· + 1) heip)⟩, rfl⟩
  · obtain rfl : Instr.jmp b = i := Option.some.inj (hjmp.symm.trans (heip ▸ hfetch))
    obtain rfl := Option.some.inj ht
    exact ⟨⟨h.toUnpaged.of rfl, .inl hback⟩, rfl⟩

/-- **The end of the checks**: a blank and the text are sent, and the processor
halts. -/
theorem Live.gets_finish (h : Live L ok text s) (inc : Includes P f body) (hL : Sector P L)
    (heip : s.eip = n)
    (hline : (P.instrs.drop n).take 5 = [.mov .byte .eax (.imm (BitVec.ofNat 32 ' '.toNat)),
      .call (f .serial_out), .mov .dword .esi (.offset ok), .call (f .serial_out_string), .hlt]) :
    Gets P L H (fun t => Halted P (n + 4) t ∧ t.log = s.log ++ letter ' ' :: text) s := by
  have hall := line_at (l := [.mov .byte .eax (.imm (BitVec.ofNat 32 ' '.toNat)),
    .call (f .serial_out), .mov .dword .esi (.offset ok), .call (f .serial_out_string), .hlt])
    hline (Eq.refl n)
  have hlen : n + 4 < P.instrs.length := fetch_some_lt (hall 4 (by simp))
  refine h.gets_letter (c := ' ') (l := f .wait) inc hL heip (hall 0 (by simp))
    (.inl rfl) (hall 1 (by simp)) (by omega) fun t ht hlive _ hlog => ?_
  refine gets_calc hL hlive.settled (i := .mov .dword .esi (.offset ok))
    (ht ▸ hall 2 (by simp)) rfl fun u hu hcu hsu => ?_
  have hlu : Live L ok text u := hlive.calculated hcu rfl
  have heipu : u.eip = n + 3 := by rw [hu, ht]
  have hesi : u.gpr .esi = BitVec.ofNat 32 (L.data ok) := by rw [hcu.gpr]; rfl
  refine (call_serial_out_string inc hL hlu.df hlu.message hlu.stack (by decide) hlu.fair
    (by rw [heipu]; exact hlen) hesi (heipu ▸ hall 3 (by simp))).mono
    fun v ⟨hv, _, hsent⟩ => ⟨⟨hlu.toUnpaged.of hsent.control, .inl ?_⟩, ?_⟩
  · rw [hv, heipu]
  · rw [hsent.log, hcu.log, hlog, List.append_assoc]
    rfl

/-- What is sent before the final halt is all that is sent. -/
theorem sent_before_halt {b : C} (hhlt : P.fetch n = some .hlt)
    (hjmp : P.fetch (n + 1) = some (.jmp b)) (hback : P.entry b = n) {c d : Cached σ}
    {full : List Byte} {es : List Unit}
    (hgets : Leads (Goes (step P L H)) (fun d => Halted P n d.toState ∧ d.log = full) c)
    (hrun : Run (Goes (step P L H)) c es d) : d.log <+: full :=
  appends_log.sent_before (I := fun d => Halted P n d.toState)
    (fun _ _ h hstep => h.step hhlt hjmp hback hstep) hgets hrun

/-- A memory with a text at an address, and nothing else. -/
@[irreducible] def textMemory (a : Nat) (text : List Byte) : Memory := fun x => text.getD (x - a) 0

theorem cstring_textMemory {a : Nat} (hlow : 0x7c00 ≤ a) (hhigh : a + text.length < 0x8000)
    (h0 : 0 ∉ text) : CString (textMemory a text) a text where
  low := hlow
  high := hhigh
  chars k _ := by
    unfold textMemory
    rw [Nat.add_sub_cancel_left]
  nonzero := h0

/-- A hypervisor without devices. -/
def noDevices : Host D σ where
  emulate _ v := v
  inEax _ v := v
  outEax _ v := v
  insd _ s _ := (s.mem, s.dev)
  outsd _ s _ := s.dev

/-- Where `ENTER_PMODE32` ends, with a line that is always ready. -/
def started (a : Nat) (text : List Byte) : Cached Unit where
  gpr := Function.update (fun _ => 0) .esp 0x7c00
  flags := ⟨false, false, false, false, false, false⟩
  dev := ()
  eip := 0
  df := false
  control := ⟨1, 0, 0, 0⟩
  mem := textMemory a text
  port := Port.prompt
  log := []
  cache := X86.Cache.empty
  does _ _ := .walk

theorem live_started (hlow : 0x7c00 ≤ L.data ok) (hhigh : L.data ok + text.length < 0x8000)
    (h0 : 0 ∉ text) : Live L ok text (started (L.data ok) text).toState where
  paging := by
    show (1 : Word).getLsbD 31 = false
    decide
  esp := rfl
  df := rfl
  fair := Port.fair_prompt
  message := cstring_textMemory hlow hhigh h0

theorem fresh_started (a : Nat) : (started a text).Fresh := X86.Cache.fresh_empty

end QemuTest.Asm32

import QemuTest.Asm.Reports

/-!
# Asm — BootGuest

`boot.asm`: a boot sector that sends one message over and over, with a delay
behind it.
-/

namespace QemuTest.Asm32.Simple

open X86 (Byte Port)
open X86.Protected Runs

/-! ## The program -/

inductive Label where
  | main_loop | spin
  | serial (l : Serial32Label)
  deriving DecidableEq, Repr

inductive Data where
  | message
  deriving DecidableEq, Repr

/-- `"HELLO FROM GUEST", 13, 10`. -/
def messageText : List Byte :=
  [72, 69, 76, 76, 79, 32, 70, 82, 79, 77, 32, 71, 85, 69, 83, 84, 13, 10]

def boot : Program Label Data :=
  [ .label .main_loop,
    movOffset .esi .message,
    call (.serial .serial_out_string),
    mov .ecx 0x3000000,
    .label .spin,
    dec .ecx,
    jne .spin,
    jmp .main_loop ]
  ++ serial32 .serial

theorem includes : Includes boot .serial 6 where
  fetch := line_at (n := 6) (l := (serial32 Label.serial : Program Label Data).instrs) rfl rfl
  serial_out := rfl
  wait := rfl
  serial_out_string := rfl
  next := rfl
  done := rfl

/-! ## The main loop -/

/-- The sector with its message. -/
structure Fits (L : Layout Data) : Prop extends Sector boot L where
  message_low : 0x7c00 ≤ L.data .message
  message_high : L.data .message + messageText.length < 0x8000

variable {σ : Type} {H : Host Data σ} {L : Layout Data} {s t : State σ} {c d : Cached σ}
  {es : List Unit}

/-- At its head, `n` messages sent. -/
structure Head (L : Layout Data) (n : Nat) (s : State σ) : Prop extends
    Live L .message messageText s where
  eip : s.eip = 0
  log : s.log = (List.replicate n messageText).flatten

/-- **One round** sends the message. -/
theorem gets_round (hL : Fits L) (h : Live L .message messageText s ∧ s.eip = 0) :
    Gets boot L H (fun t => (Live L .message messageText t ∧ t.eip = 0) ∧
      t.log = s.log ++ messageText) s := by
  obtain ⟨h, hstart⟩ := h
  refine gets_calc hL.toSector h.settled (i := .mov .dword .esi (.offset .message))
    (by rw [hstart]; rfl) rfl fun t ht hct _ => ?_
  have hlive : Live L .message messageText t := h.calculated hct rfl
  have heip : t.eip = 1 := by rw [ht, hstart]
  have hesi : t.gpr .esi = BitVec.ofNat 32 (L.data .message) := by rw [hct.gpr]; rfl
  refine (call_serial_out_string includes hL.toSector hlive.df hlive.message hlive.stack (by decide)
    hlive.fair (by rw [heip]; decide) hesi (heip ▸ rfl)).bind fun u hcalled => ?_
  obtain ⟨hu, hsu, hsent⟩ := hcalled
  have hesp : (t.gpr .esp).toNat = 0x7c00 := by
    rw [hlive.esp]
    rfl
  have hlu : Live L .message messageText u :=
    hlive.of hsent.toKept (hsent.gpr .esp (by simp))
      (fun y hy => hsent.mem y (.inr (hesp ▸ hy))) hsent.port
  -- the delay
  refine gets_calc hL.toSector hsu (i := .mov .dword .ecx (.imm 0x3000000))
    (by rw [hu, heip]; rfl) rfl fun v hv hcv hsv => ?_
  have hlv : Live L .message messageText v := hlu.calculated hcv rfl
  refine gets_spin hL.toSector hsv (n := 3) (k := 0x2ffffff) (c := .spin)
    (by rw [hv, hu, heip]) rfl rfl rfl (by rw [hcv.gpr]; rfl) (by decide)
    fun w hw hkept hsw hm hport hlog hg => ?_
  have hlw : Live L .message messageText w :=
    hlv.of hkept (hg .esp (by simp)) (fun y _ => congrFun hm y)
      ⟨0, hport.trans (funext fun n => by rw [Nat.zero_add])⟩
  refine gets_jmp hL.toSector hsw (c := .main_loop) (by rw [hw]; rfl) fun _ => .now ?_
  refine ⟨⟨hlw.goto _, rfl⟩, ?_⟩
  rw [State.goto_log, hlog, hcv.log, hsent.log, hct.log]

theorem gets_rounds (hL : Fits L) (h : Head L 0 s) (n : Nat) : Gets boot L H (Head L n) s := by
  have hrounds := over_and_over (G := Gets boot L H) .now .bind (fun _ => gets_round hL)
    ⟨h.toLive, h.eip⟩ n
  rw [h.log, List.replicate_zero, List.flatten_nil, List.nil_append] at hrounds
  exact hrounds.mono fun t ⟨⟨hlive, heip⟩, hlog⟩ => ⟨hlive, heip, hlog⟩

/-! ## Whole runs -/

theorem sends (hL : Fits L) (h : Head L 0 c.toState) (hc : c.Fresh) (n : Nat) :
    Leads (Goes (step boot L H)) (fun d => d.log = (List.replicate n messageText).flatten) c := by
  obtain ⟨es, d, hrun, hd, -⟩ := gets_rounds hL h n c rfl hc
  exact ⟨es, d, hrun, hd.log⟩

theorem messageText_ne_nil : messageText ≠ [] := by simp [messageText]

/-- **All that is sent**: in every state of every run, a beginning of the message
over and over. -/
theorem sent (hL : Fits L) (h : Head L 0 c.toState) (hc : c.Fresh)
    (hrun : Run (Goes (step boot L H)) c es d) :
    ∃ n, d.log <+: (List.replicate n messageText).flatten :=
  (appends_log.sent (le_length_copies messageText_ne_nil) h.log (sends hL h hc) hrun).1

/-- **The guest goes on**: from every state of every run another message is sent. -/
theorem onward (hL : Fits L) (h : Head L 0 c.toState) (hc : c.Fresh)
    (hrun : Run (Goes (step boot L H)) c es d) :
    ∃ n, Leads (Goes (step boot L H))
      (fun u => u.log = (List.replicate (n + 1) messageText).flatten) d :=
  appends_log.onward (le_length_copies messageText_ne_nil) h.log (sends hL h hc) hrun

/-! ## A boot -/

/-- The message behind the code. -/
def layout : Layout Data := slotLayout (fun _ => 0x7d80) 0x100000

theorem fits_layout : Fits layout where
  toSector := sector_slots (by decide) (by decide)
  message_low := by decide
  message_high := by decide

def booted : Cached Unit := started (layout.data .message) messageText

theorem head_booted : Head layout 0 booted.toState where
  toLive := live_started fits_layout.message_low fits_layout.message_high (by simp [messageText])
  eip := rfl
  log := rfl

end QemuTest.Asm32.Simple

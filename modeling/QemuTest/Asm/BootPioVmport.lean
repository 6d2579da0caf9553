import QemuTest.Asm.Reports

/-!
# Asm — BootPioVmport

`boot_pio_vmport.asm`: a boot sector that gives the VMware port three commands
and looks whether what its handler did to the registers has reached the
processor. The hypervisor that completes the port input is a parameter.
-/

namespace QemuTest.Asm32.Vmport

open X86 (Byte Memory Port)
open X86.Protected Runs

/-! ## The program -/

inductive Label where
  | ta_pass | ta_out | tb_pass | tb_out | tc_fail | tc_out | halt
  | serial (l : Serial32Label)
  deriving DecidableEq, Repr

inductive Data where
  | ok_msg
  deriving DecidableEq, Repr

def vmportMagic : Word := 0x564D5868
def vmportPort : Word := 0x5658
def cmdGetversion : Word := 10
def cmdGetramsize : Word := 20
def ramsizeEbx : Word := 0x1177
def magicEsi : Word := 0xABCD1234
def magicEdi : Word := 0x87654321
def magicEbp : Word := 0xFEEDFACE

/-- `"VMPORT_OK", 13, 10`. -/
def okMsg : List Byte := [86, 77, 80, 79, 82, 84, 95, 79, 75, 13, 10]

def bootPioVmport : Program Label Data :=
  [ -- A: CMD_GETVERSION
    mov .ebx 0xDEADBEEF,
    mov .eax vmportMagic,
    mov .ecx cmdGetversion,
    mov .edx vmportPort,
    .ins .inEax,
    cmp .ebx vmportMagic,
    jz .ta_pass,
    movAl 'a',
    jmp .ta_out,
    .label .ta_pass,
    movAl 'A',
    .label .ta_out,
    call (.serial .serial_out),
    -- B: CMD_GETRAMSIZE
    mov .ebx 0xCAFEBABE,
    mov .eax vmportMagic,
    mov .ecx cmdGetramsize,
    mov .edx vmportPort,
    .ins .inEax,
    cmp .ebx ramsizeEbx,
    jz .tb_pass,
    movAl 'b',
    jmp .tb_out,
    .label .tb_pass,
    movAl 'B',
    .label .tb_out,
    call (.serial .serial_out),
    -- C: the other registers
    mov .esi magicEsi,
    mov .edi magicEdi,
    mov .ebp magicEbp,
    mov .ebx 0,
    mov .eax vmportMagic,
    mov .ecx cmdGetversion,
    mov .edx vmportPort,
    .ins .inEax,
    cmp .esi magicEsi,
    jne .tc_fail,
    cmp .edi magicEdi,
    jne .tc_fail,
    cmp .ebp magicEbp,
    jne .tc_fail,
    movAl 'C',
    jmp .tc_out,
    .label .tc_fail,
    movAl 'c',
    .label .tc_out,
    call (.serial .serial_out),
    -- the result marker
    movAl ' ',
    call (.serial .serial_out),
    movOffset .esi .ok_msg,
    call (.serial .serial_out_string),
    .label .halt,
    .ins .hlt,
    jmp .halt ]
  ++ serial32 .serial

theorem includes : Includes bootPioVmport .serial 46 where
  fetch := line_at (n := 46) (l := (serial32 Label.serial : Program Label Data).instrs) rfl rfl
  serial_out := rfl
  wait := rfl
  serial_out_string := rfl
  next := rfl
  done := rfl

/-! ## The start -/

/-- The sector with its text. -/
structure Fits (L : Layout Data) : Prop extends Sector bootPioVmport L where
  message_low : 0x7c00 ≤ L.data .ok_msg
  message_high : L.data .ok_msg + okMsg.length < 0x8000

variable {σ : Type} {H : Host Data σ} {L : Layout Data} {s t : State σ} {c d : Cached σ} {n : Nat}
  {Q : State σ → Prop}

/-- Where protected mode is entered. -/
structure Boot (L : Layout Data) (s : State σ) : Prop extends Live L .ok_msg okMsg s where
  eip : s.eip = 0
  log : s.log = []

/-! ## The commands -/

/-- A command is given to the port. -/
structure Asks (L : Layout Data) (n : Nat) (ebx cmd : Word) (s : State σ) : Prop extends
    Live L .ok_msg okMsg s where
  eip : s.eip = n
  ebx : s.gpr .ebx = ebx
  eax : s.gpr .eax = vmportMagic
  ecx : s.gpr .ecx = cmd
  edx : s.gpr .edx = vmportPort

/-- What comes back. -/
def told (H : Host Data σ) (s : State σ) : Gprs := (H.inEax 0x5658 s.toVcpu).gpr

/-- The stack survives. -/
def KeepsEsp (H : Host Data σ) : Prop := ∀ v, (H.inEax 0x5658 v).gpr .esp = v.gpr .esp

/-- The input is completed. -/
theorem Asks.gets (hH : KeepsEsp H) (hL : Fits L) {ebx cmd : Word} (h : Asks L n ebx cmd s)
    (hf : bootPioVmport.fetch n = some .inEax)
    (hQ : ∀ t, t.eip = n + 1 → Live L .ok_msg okMsg t → t.gpr = told H s → t.log = s.log →
      Gets bootPioVmport L H Q t) : Gets bootPioVmport L H Q s := by
  have hdx : s.dx = 0x5658 := by
    rw [State.dx, h.edx]
    rfl
  have hexec : exec bootPioVmport L H s.tables s .inEax
      = some (s.leave (H.inEax 0x5658 s.toVcpu)).next := by
    rw [exec, hdx]
  refine gets_calm hL.toSector h.settled (h.eip ▸ hf) hexec rfl rfl fun _ => ?_
  refine hQ _ (congrArg (· + 1) h.eip) ?_ rfl rfl
  exact {
    paging := h.paging
    esp := (hH s.toVcpu).trans h.esp
    df := h.df
    fair := h.fair
    message := h.message }

/-- A comparison of a register. -/
theorem gets_cmp {r : Reg} {v : Word} (hL : Fits L) (h : Live L .ok_msg okMsg s) (heip : s.eip = n)
    (hf : bootPioVmport.fetch n = some (.cmp r (.imm v)))
    (hQ : ∀ t, t.eip = n + 1 → Live L .ok_msg okMsg t → t.flags.zf = decide (s.gpr r = v) →
      t.gpr = s.gpr → t.log = s.log → Gets bootPioVmport L H Q t) :
    Gets bootPioVmport L H Q s := by
  refine gets_calc hL.toSector h.settled (i := .cmp r (.imm v)) (heip ▸ hf) rfl fun t ht hct _ =>
    hQ t (by rw [ht, heip]) (h.calculated hct rfl) ?_ hct.gpr hct.log
  rw [hct.flags]
  exact subFlags_zf ..

/-- The instructions of the first two checks. -/
def ebxCheck (ebx cmd want : Word) (low up : Char) (pass out : Label) :
    List (Instr Label Data) :=
  [ .mov .dword .ebx (.imm ebx), .mov .dword .eax (.imm vmportMagic), .mov .dword .ecx (.imm cmd),
    .mov .dword .edx (.imm vmportPort), .inEax, .cmp .ebx (.imm want), .jcc .z pass,
    .mov .byte .eax (.imm (BitVec.ofNat 32 low.toNat)), .jmp out,
    .mov .byte .eax (.imm (BitVec.ofNat 32 up.toNat)), .call (.serial .serial_out) ]

section

variable {ebx cmd want : Word} {low up : Char} {pass out : Label}

theorem gets_asks (hL : Fits L) (h : Live L .ok_msg okMsg s) (heip : s.eip = n)
    (hline : (bootPioVmport.instrs.drop n).take 11 = ebxCheck ebx cmd want low up pass out) :
    Gets bootPioVmport L H (fun t => Asks L (n + 4) ebx cmd t ∧ t.log = s.log) s := by
  have hall := line_at (l := ebxCheck ebx cmd want low up pass out) hline heip
  refine gets_line hL.toSector h.settled (l := (ebxCheck ebx cmd want low up pass out).take 4)
    (fun k hk => ?_) rfl fun t ht hct _ => .now
      ⟨⟨h.calculated hct rfl, ?_, ?_, ?_, ?_, ?_⟩, hct.log⟩
  · have hlt : k < 4 := hk
    rw [hall k (Nat.lt_trans hlt (by simp [ebxCheck])), List.getElem?_take_of_lt hlt]
  · rw [ht, heip]
    rfl
  all_goals
    rw [hct.gpr]
    rfl

/-- The verdict of such a check. -/
theorem gets_answer (hH : KeepsEsp H) (hL : Fits L) (h : Asks L (n + 4) ebx cmd s)
    (hline : (bootPioVmport.instrs.drop n).take 11 = ebxCheck ebx cmd want low up pass out)
    (hpass : bootPioVmport.entry pass = n + 9) (hout : bootPioVmport.entry out = n + 10)
    (hnext : n + 11 < bootPioVmport.instrs.length) :
    Gets bootPioVmport L H (fun t => t.eip = n + 11 ∧ Live L .ok_msg okMsg t ∧
      t.log = s.log ++ [letter (if told H s .ebx = want then up else low)]) s := by
  have hall := line_at (l := ebxCheck ebx cmd want low up pass out) hline (Eq.refl n)
  refine h.gets hH hL (hall 4 (by simp [ebxCheck])) fun t ht hlive hg hlog => ?_
  refine gets_cmp hL hlive ht (hall 5 (by simp [ebxCheck])) fun u hu hlu hzf hgu hlogu => ?_
  refine gets_jz hL.toSector hlu.settled hu (hall 6 (by simp [ebxCheck])) hzf ?_
  have hcall : bootPioVmport.fetch (n + 10) = some (.call (.serial .serial_out)) :=
    hall 10 (by simp [ebxCheck])
  rw [hg]
  by_cases hebx : told H s .ebx = want
  · rw [if_pos hebx, if_pos hebx, hpass]
    refine (hlu.goto _).gets_letter (l := out) includes hL.toSector rfl
      (hall 9 (by simp [ebxCheck])) (.inl rfl) hcall hnext fun v hv hlv _ hlogv => .now ⟨hv, hlv, ?_⟩
    rw [hlogv, State.goto_log, hlogu, hlog]
  · rw [if_neg hebx, if_neg hebx]
    refine (hlu.goto _).gets_letter includes hL.toSector rfl (hall 7 (by simp [ebxCheck]))
      (.inr ⟨hall 8 (by simp [ebxCheck]), hout⟩) hcall hnext
      fun v hv hlv _ hlogv => .now ⟨hv, hlv, ?_⟩
    rw [hlogv, State.goto_log, hlogu, hlog]

end

/-- The last command, with values in the registers that it leaves alone. -/
structure AsksKept (L : Layout Data) (s : State σ) : Prop extends Asks L 29 0 cmdGetversion s where
  esi : s.gpr .esi = magicEsi
  edi : s.gpr .edi = magicEdi
  ebp : s.gpr .ebp = magicEbp

theorem gets_asksKept (hL : Fits L) (h : Live L .ok_msg okMsg s) (heip : s.eip = 22) :
    Gets bootPioVmport L H (fun t => AsksKept L t ∧ t.log = s.log) s := by
  refine gets_line hL.toSector h.settled (line_at (n := 22)
    (l := [.mov .dword .esi (.imm magicEsi), .mov .dword .edi (.imm magicEdi),
      .mov .dword .ebp (.imm magicEbp), .mov .dword .ebx (.imm 0),
      .mov .dword .eax (.imm vmportMagic), .mov .dword .ecx (.imm cmdGetversion),
      .mov .dword .edx (.imm vmportPort)]) rfl heip) rfl fun t ht hct _ => .now
        ⟨⟨⟨h.calculated hct rfl, ?_, ?_, ?_, ?_, ?_⟩, ?_, ?_, ?_⟩, hct.log⟩
  · rw [ht, heip]
    rfl
  all_goals
    rw [hct.gpr]
    rfl

/-- A register compared, and a way out if it has changed. -/
theorem gets_kept {r : Reg} {v : Word} (hL : Fits L) (h : Live L .ok_msg okMsg s)
    (heip : s.eip = n) (hcmp : bootPioVmport.fetch n = some (.cmp r (.imm v)))
    (hjne : bootPioVmport.fetch (n + 1) = some (.jcc .nz .tc_fail))
    (hQ : ∀ t, t.eip = (if s.gpr r = v then n + 2 else 38) → Live L .ok_msg okMsg t →
      t.gpr = s.gpr → t.log = s.log → Gets bootPioVmport L H Q t) :
    Gets bootPioVmport L H Q s := by
  refine gets_cmp hL h heip hcmp fun t ht hlt hzf hg hlog => ?_
  exact gets_jne hL.toSector hlt.settled ht hjne hzf (hQ _ rfl (hlt.goto _) hg hlog)

/-- The registers that a command leaves alone. -/
def Keeps (g : Gprs) : Prop := g .esi = magicEsi ∧ g .edi = magicEdi ∧ g .ebp = magicEbp

instance (g : Gprs) : Decidable (Keeps g) := inferInstanceAs (Decidable (_ ∧ _))

theorem gets_keeps (hH : KeepsEsp H) (hL : Fits L) (h : AsksKept L s) :
    Gets bootPioVmport L H (fun t => t.eip = 40 ∧ Live L .ok_msg okMsg t ∧
      t.log = s.log ++ [letter (if Keeps (told H s) then 'C' else 'c')]) s := by
  have hfail : ∀ u : State σ, u.eip = 38 → Live L .ok_msg okMsg u → u.log = s.log →
      ¬ Keeps (told H s) → Gets bootPioVmport L H (fun t => t.eip = 40 ∧ Live L .ok_msg okMsg t ∧
        t.log = s.log ++ [letter (if Keeps (told H s) then 'C' else 'c')]) u := by
    intro u hu hlu hlogu hno
    refine hlu.gets_letter (c := 'c') (l := .tc_out) includes hL.toSector hu rfl (.inl rfl) rfl
      (by decide) fun v hv hlv _ hlogv => .now ⟨hv, hlv, ?_⟩
    rw [hlogv, hlogu, if_neg hno]
  refine h.toAsks.gets hH hL rfl fun t ht hlive hg hlog => ?_
  refine gets_kept hL hlive ht rfl rfl fun u hu hlu hgu hlogu => ?_
  rw [hg] at hu hgu
  by_cases hesi : told H s .esi = magicEsi
  · rw [if_pos hesi] at hu
    refine gets_kept hL hlu hu rfl rfl fun v hv hlv hgv hlogv => ?_
    rw [hgu] at hv hgv
    by_cases hedi : told H s .edi = magicEdi
    · rw [if_pos hedi] at hv
      refine gets_kept hL hlv hv rfl rfl fun w hw hlw hgw hlogw => ?_
      rw [hgv] at hw
      by_cases hebp : told H s .ebp = magicEbp
      · rw [if_pos hebp] at hw
        refine hlw.gets_letter (c := 'C') includes hL.toSector hw rfl (.inr ⟨rfl, rfl⟩) rfl
          (by decide) fun x hx hlx _ hlogx => .now ⟨hx, hlx, ?_⟩
        rw [hlogx, hlogw, hlogv, hlogu, hlog, if_pos ⟨hesi, hedi, hebp⟩]
      · rw [if_neg hebp] at hw
        exact hfail w hw hlw (by rw [hlogw, hlogv, hlogu, hlog]) fun hk => hebp hk.2.2
    · rw [if_neg hedi] at hv
      exact hfail v hv hlv (by rw [hlogv, hlogu, hlog]) fun hk => hedi hk.2.1
  · rw [if_neg hesi] at hu
    exact hfail u hu hlu (by rw [hlogu, hlog]) fun hk => hesi hk.1

/-! ## Whole runs -/

/-- The states in which a run from `c` gives its three commands. -/
structure Session (H : Host Data σ) (L : Layout Data) (c : Cached σ) (s₁ s₂ s₃ : State σ) :
    Prop where
  reaches : ∀ s ∈ [s₁, s₂, s₃], Leads (Goes (step bootPioVmport L H)) (fun d => d.toState = s) c
  version : Asks L 4 0xDEADBEEF cmdGetversion s₁
  ramsize : Asks L 15 0xCAFEBABE cmdGetramsize s₂
  kept : AsksKept L s₃

/-- The commands' answers are there: EBX as each of them leaves it, and the
registers that they leave alone. -/
structure Answered (version ramsize kept : Gprs) : Prop where
  version : version .ebx = vmportMagic
  ramsize : ramsize .ebx = ramsizeEbx
  kept : Keeps kept

/-- What is sent, by what the three checks found. -/
def report (version ramsize kept : Prop) [Decidable version] [Decidable ramsize]
    [Decidable kept] : List Byte :=
  [letter (if version then 'A' else 'a'), letter (if ramsize then 'B' else 'b'),
    letter (if kept then 'C' else 'c')] ++ letter ' ' :: okMsg

/-- The report on a session. -/
def sessionReport (H : Host Data σ) (s₁ s₂ s₃ : State σ) : List Byte :=
  report (told H s₁ .ebx = vmportMagic) (told H s₂ .ebx = ramsizeEbx) (Keeps (told H s₃))

theorem sends (hH : KeepsEsp H) (hL : Fits L) (h : Boot L c.toState) (hc : c.Fresh) :
    ∃ s₁ s₂ s₃, Session H L c s₁ s₂ s₃ ∧ Leads (Goes (step bootPioVmport L H))
      (fun d => Halted bootPioVmport 44 d.toState ∧ d.log = sessionReport H s₁ s₂ s₃) c := by
  have hlineA : (bootPioVmport.instrs.drop 0).take 11 = ebxCheck 0xDEADBEEF cmdGetversion
    vmportMagic 'a' 'A' .ta_pass .ta_out := rfl
  have hlineB : (bootPioVmport.instrs.drop 11).take 11 = ebxCheck 0xCAFEBABE cmdGetramsize
    ramsizeEbx 'b' 'B' .tb_pass .tb_out := rfl
  obtain ⟨es₁, c₁, hrun₁, ⟨h₁, hlog₁⟩, hfresh₁⟩ :=
    gets_asks (H := H) hL h.toLive h.eip hlineA c rfl hc
  have hB : Gets bootPioVmport L H (fun t => Asks L 15 0xCAFEBABE cmdGetramsize t ∧
      t.log = [letter (if told H c₁.toState .ebx = vmportMagic then 'A' else 'a')])
      c₁.toState := by
    refine (gets_answer hH hL h₁ hlineA rfl rfl (by decide)).bind fun t ⟨heip, hlive, hlog⟩ =>
      (gets_asks hL hlive heip hlineB).mono fun u ⟨hu, hlogu⟩ => ⟨hu, ?_⟩
    rw [hlogu, hlog, hlog₁, h.log, List.nil_append]
  obtain ⟨es₂, c₂, hrun₂, ⟨h₂, hlog₂⟩, hfresh₂⟩ := hB c₁ rfl hfresh₁
  have hC : Gets bootPioVmport L H (fun t => AsksKept L t ∧ t.log = c₂.log
      ++ [letter (if told H c₂.toState .ebx = ramsizeEbx then 'B' else 'b')]) c₂.toState := by
    refine (gets_answer hH hL h₂ hlineB rfl rfl (by decide)).bind fun t ⟨heip, hlive, hlog⟩ =>
      (gets_asksKept hL hlive heip).mono fun u ⟨hu, hlogu⟩ => ⟨hu, ?_⟩
    rw [hlogu, hlog]
  obtain ⟨es₃, c₃, hrun₃, ⟨h₃, hlog₃⟩, hfresh₃⟩ := hC c₂ rfl hfresh₂
  have hend : Gets bootPioVmport L H (fun t => Halted bootPioVmport 44 t ∧
      t.log = sessionReport H c₁.toState c₂.toState c₃.toState) c₃.toState := by
    refine (gets_keeps hH hL h₃).bind fun t ⟨heip, hlive, hlog⟩ =>
      (hlive.gets_finish includes hL.toSector heip rfl).mono fun u ⟨hu, hlogu⟩ => ⟨hu, ?_⟩
    rw [hlogu, hlog, hlog₃, hlog₂]
    rfl
  obtain ⟨es, d, hrun, hd, -⟩ := hend c₃ rfl hfresh₃
  have hrun₂' := hrun₁.trans hrun₂
  have hrun₃' := hrun₂'.trans hrun₃
  refine ⟨c₁.toState, c₂.toState, c₃.toState, ⟨fun s hs => ?_, h₁, h₂, h₃⟩,
    ⟨_, d, hrun₃'.trans hrun, hd⟩⟩
  simp only [List.mem_cons, List.not_mem_nil, or_false] at hs
  rcases hs with rfl | rfl | rfl
  · exact ⟨_, _, hrun₁, rfl⟩
  · exact ⟨_, _, hrun₂', rfl⟩
  · exact ⟨_, _, hrun₃', rfl⟩

/-- In every state of every run a beginning of that report has been sent. -/
theorem sent {s₁ s₂ s₃ : State σ} {es : List Unit}
    (hsends : Leads (Goes (step bootPioVmport L H))
      (fun d => Halted bootPioVmport 44 d.toState ∧ d.log = sessionReport H s₁ s₂ s₃) c)
    (hrun : Run (Goes (step bootPioVmport L H)) c es d) : d.log <+: sessionReport H s₁ s₂ s₃ :=
  sent_before_halt (b := .halt) rfl rfl rfl hsends hrun

/-! ## Hypervisors -/

/-- A command handler that works on the registers as the comments of the test
say: it answers in EBX, and leaves alone what the last check looks at, and the
stack. -/
structure Documented (cmd : Gprs → Gprs) : Prop where
  version : ∀ g, g .eax = vmportMagic → g .ecx = cmdGetversion → cmd g .ebx = vmportMagic
  ramsize : ∀ g, g .eax = vmportMagic → g .ecx = cmdGetramsize → cmd g .ebx = ramsizeEbx
  others : ∀ g, ∀ r ∈ [Reg.esi, .edi, .ebp, .esp], cmd g r = g r

/-- A hypervisor whose handler works on a copy of the registers, and that gives
the processor back the registers of `written` only. -/
def copying (cmd : Gprs → Gprs) (written : Reg → Bool) : Host Data σ :=
  { noDevices with
    inEax := fun _ v => { v with gpr := fun r => if written r then cmd v.gpr r else v.gpr r } }

section

variable {cmd : Gprs → Gprs} {written : Reg → Bool}

theorem told_copying (s : State σ) (r : Reg) :
    told (copying cmd written) s r = if written r then cmd s.gpr r else s.gpr r := rfl

theorem Documented.told_of_mem (hcmd : Documented cmd) (s : State σ) {r : Reg}
    (hr : r ∈ [Reg.esi, .edi, .ebp, .esp]) : told (copying cmd written) s r = s.gpr r := by
  rw [told_copying, hcmd.others s.gpr r hr, ite_self]

theorem Documented.keepsEsp (hcmd : Documented cmd) :
    KeepsEsp (copying cmd written : Host Data σ) := by
  intro v
  show (if written .esp then cmd v.gpr .esp else v.gpr .esp) = v.gpr .esp
  rw [hcmd.others v.gpr .esp (by simp), ite_self]

theorem Documented.keeps (hcmd : Documented cmd) (h : AsksKept L s) :
    Keeps (told (copying cmd written) s) := by
  refine ⟨?_, ?_, ?_⟩
  · rw [hcmd.told_of_mem s (by simp), h.esi]
  · rw [hcmd.told_of_mem s (by simp), h.edi]
  · rw [hcmd.told_of_mem s (by simp), h.ebp]

end

/-- The handler of these two commands. -/
def vmportCommand (g : Gprs) : Gprs := fun r =>
  if r = .ebx then
    if g .ecx = cmdGetversion then vmportMagic
    else if g .ecx = cmdGetramsize then ramsizeEbx else g .ebx
  else g r

theorem documented_vmportCommand : Documented vmportCommand where
  version g _ hecx := by
    rw [vmportCommand, if_pos rfl, if_pos hecx]
  ramsize g _ hecx := by
    rw [vmportCommand, if_pos rfl, if_neg (by rw [hecx]; decide), if_pos hecx]
  others g r hr := by
    refine if_neg ?_
    rintro rfl
    simp at hr

/-! ## A boot -/

/-- The text behind the code. -/
def layout : Layout Data := slotLayout (fun _ => 0x7d80) 0x100000

theorem fits_layout : Fits layout where
  toSector := sector_slots (by decide) (by decide)
  message_low := by decide
  message_high := by decide

def booted : Cached Unit := started (layout.data .ok_msg) okMsg

theorem boot_booted : Boot layout booted.toState where
  toLive := live_started fits_layout.message_low fits_layout.message_high (by simp [okMsg])
  eip := rfl
  log := rfl

end QemuTest.Asm32.Vmport

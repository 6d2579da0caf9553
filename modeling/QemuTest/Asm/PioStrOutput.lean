import Mathlib.Data.List.GetD
import QemuTest.Asm.BootPioStr

/-!
# Asm — PioStrOutput

What `boot_pio_str.asm` sends: once paging is on (`gets_setup`), the buffer is
filled, the accelerator reads a double word into it and writes one from it, and
the main loop sends the outcome over and over. `sends` and `sent` say which line
that is, for any accelerator.
-/

namespace QemuTest.Asm32.PioStr

open X86 (Byte Memory Port PageMap byteAt byteAt_zero)
open X86.Protected Runs

variable {A : Accel} {L : Layout Data} {s t : State Word} {a n : Nat} {Q : State Word → Prop}

/-! ## The buffer -/

/-- Where an address lies. -/
def phys (a : Nat) : Nat := 2 ^ 12 * moved (a / 2 ^ 12) + a % 2 ^ 12

theorem phys_cases (hlo : 0x10000 ≤ a) (hhi : a < 0x13000) :
    a < 0x11000 ∧ phys a = a ∨ 0x11000 ≤ a ∧ a < 0x12000 ∧ phys a = a + 0x20000 ∨
      0x12000 ≤ a ∧ phys a = a + 0x1e000 := by
  obtain hpage | hpage | hpage : a / 2 ^ 12 = 0x10 ∨ a / 2 ^ 12 = 0x11 ∨ a / 2 ^ 12 = 0x12 := by
    omega
  all_goals
    rw [phys, hpage]
    simp only [moved, Function.update_apply, id, Nat.reduceEqDiff, if_false, if_true]
    omega

theorem phys_inj {b : Nat} (hlo : 0x10000 ≤ a) (hhi : a < 0x13000) (hlo' : 0x10000 ≤ b)
    (hhi' : b < 0x13000) (h : phys a = phys b) : a = b := by
  have ha := phys_cases hlo hhi
  have hb := phys_cases hlo' hhi'
  omega

/-- What the guest goes on to need besides the buffer: its sector, and the page
directory and table. -/
def inUse (x : Nat) : Prop :=
  0x7c00 ≤ x ∧ x < 0x7e00 ∨ pageDir ≤ x ∧ x < pageDir + 2 ^ 13

theorem not_inUse_phys (hlo : 0x10000 ≤ a) (hhi : a < 0x13000) : ¬ inUse (phys a) := by
  have := phys_cases hlo hhi
  simp only [inUse, pageDir]
  omega

theorem Paged.byte (h : Paged moved s) (hL : Fits L) (hlo : 0x10000 ≤ a) (hhi : a < 0x13000) :
    byte? L s.tables a = some (phys a) := by
  have hmem := hL.memory
  have hphys := phys_cases hlo hhi
  have haddr : address s.tables a = some (phys a) := by
    rw [address, if_pos (by omega), PageMap.address, h.tables, mapOf, if_pos (by omega),
      Option.map_some, phys]
  rw [byte?, haddr, Option.filter_some, if_pos (decide_eq_true (by omega))]

/-- Between paging and the end of the buffer's use. -/
structure Buffered (L : Layout Data) (s : State Word) : Prop extends Base L s, Paged moved s

namespace Buffered

theorem of (h : Buffered L s) (hL : Fits L) (hesp : t.gpr .esp = s.gpr .esp)
    (hc : t.control = s.control) (hm : ∀ y, inUse y → t.mem y = s.mem y)
    (hport : t.port = s.port) (hlog : t.log = s.log) : Buffered L t where
  toBase := h.toBase.of hL hesp (fun y hlo hhi => hm y (.inl ⟨hlo, hhi⟩)) hport hlog
  toPaged := h.toPaged.of hc fun y hlo hhi => hm y (.inr ⟨hlo, hhi⟩)

theorem target (h : Buffered L s) (hL : Fits L) (hlo : 0x10000 ≤ a) (hhi : a + n ≤ 0x13000) :
    Target L s a n fun k => phys (a + k) where
  byte k hk := h.toPaged.byte hL (by omega) (by omega)
  injective j hj k hk he := by
    have := phys_inj (by omega) (by omega) (by omega) (by omega) he
    omega
  calm m hm := by
    rw [h.toPaged.tables]
    exact h.toPaged.calm fun y hylo hyhi => hm y fun k hk he =>
      not_inUse_phys (a := a + k) (by omega) (by omega) (he ▸ .inr ⟨hylo, hyhi⟩)

/-- A write to the buffer. -/
theorem written {value : Nat → Byte} (h : Buffered L s) (hL : Fits L) (hlo : 0x10000 ≤ a)
    (hhi : a + n ≤ 0x13000) (hesp : t.gpr .esp = s.gpr .esp)
    (hw : Written s (fun k => phys (a + k)) value n t) : Buffered L t :=
  h.of hL hesp hw.control (fun y hy => hw.outside y fun k hk he =>
    not_inUse_phys (a := a + k) (by omega) (by omega) (he ▸ hy)) hw.port hw.log

end Buffered

/-- The buffer is filled, and a double word is to be read into it. -/
structure Insd (L : Layout Data) (s : State Word) : Prop extends Buffered L s where
  eip : s.eip = 35
  ecx : s.gpr .ecx = 1
  edi : s.gpr .edi = word insdTarget
  dx : s.dx = 0xcf8
  dev : s.dev = pciCfgVal
  filled : ∀ k < 0x3000, s.mem (phys (buffer + k)) = 0x41

/-- The register keeps a double word whose low two bits are clear. -/
def Accel.Keeps (A : Accel) : Prop :=
  ∀ v : Word, v.getLsbD 0 = false → v.getLsbD 1 = false → A.latch v = v

/-- The register keeps what the guest writes to it, and the double word read into
the buffer spares the sector and the page tables, wherever else it goes. -/
structure Accel.Sane (A : Accel) (L : Layout Data) : Prop where
  keeps : A.Keeps
  spares : ∀ s, Insd L s → ∀ y, inUse y → A.writeMemory s insdTarget pciCfgVal y = s.mem y

/-- Phases 1 and 2. -/
theorem gets_insd (hA : A.Sane L) (hL : Fits L) (h : Buffered L s) (heip : s.eip = 23) :
    Gets bootPioStr L A.host (Insd L) s := by
  refine gets_line hL.toSector h.toPaged.settled (line_at (n := 23)
    (l := [.mov .dword .edi (.imm (word buffer)),
      .mov .byte .eax (.imm (BitVec.ofNat 32 'A'.toNat)), .mov .dword .ecx (.imm 0x3000)]) rfl heip)
    rfl fun t1 ht1 h1 hs1 => ?_
  refine gets_cld hL.toSector hs1.home (by rw [ht1, heip]; rfl) ?_
  have hb1 : Buffered L { t1.next with df := false } :=
    h.of hL (by show t1.gpr .esp = _; rw [h1.gpr]; rfl) h1.control
      (fun y _ => congrFun h1.mem y) h1.port h1.log
  refine gets_stosb hL.toSector hb1.toPaged.settled.home rfl (n := 0x3000) (a := buffer)
    (by decide) ?_ ?_ ?_ (hb1.target hL (by decide) (by decide)) fun t2 ht2 hg2 hw2 => ?_
  · show t1.gpr .ecx = _
    rw [h1.gpr]
    rfl
  · show t1.gpr .edi = _
    rw [h1.gpr]
    rfl
  · show bootPioStr.fetch (t1.eip + 1) = _
    rw [ht1, heip]
    rfl
  have heip2 : t2.eip = 28 := ht2.trans (by show t1.eip + 1 + 1 = 28; rw [ht1, heip]; rfl)
  have hb2 : Buffered L t2 := hb1.written hL (by decide) (by decide)
    (hg2 .esp (by decide) (by decide) (by decide)) hw2
  have hal : ({ t1.next with df := false } : State Word).al = 0x41 := by
    show (t1.gpr .eax).setWidth 8 = _
    rw [h1.gpr]
    exact merge_byte ..
  -- `out dx, eax`
  refine gets_line hL.toSector hb2.toPaged.settled (line_at (n := 28)
    (l := [.mov .dword .eax (.imm pciCfgVal), .mov .word .edx (.imm pciCfgAddr)]) rfl heip2)
    rfl fun t3 ht3 h3 hs3 => ?_
  have hdx3 : t3.dx = 0xcf8 := by
    show (t3.gpr .edx).setWidth 16 = _
    rw [h3.gpr]
    exact merge_word ..
  have hlatch : A.latch (t3.gpr .eax) = pciCfgVal := by
    rw [h3.gpr]
    exact hA.keeps pciCfgVal rfl rfl
  have hout : exec bootPioStr L A.host t3.tables t3 .outEax
      = some ({ t3 with dev := pciCfgVal } : State Word).next := by
    rw [exec, hdx3, ← hlatch]
    rfl
  refine gets_calm hL.toSector hs3 (by rw [ht3, heip2]; rfl) hout rfl rfl fun hs4 => ?_
  refine gets_line hL.toSector hs4 (line_at (n := 31)
    (l := [.mov .dword .edi (.imm (word insdTarget)), .mov .dword .ecx (.imm 1),
      .mov .word .edx (.imm pciCfgAddr)]) rfl (congrArg (· + 1) (ht3.trans (heip2 ▸ rfl))))
    rfl fun t5 ht5 h5 hs5 => ?_
  have heip5 : t5.eip = 34 := by
    rw [ht5]
    show t3.eip + 1 + 3 = 34
    rw [ht3, heip2]
    rfl
  refine gets_cld hL.toSector hs5.home (by rw [heip5]; rfl) (.now ?_)
  have hmem : t5.mem = t2.mem := h5.mem.trans h3.mem
  exact {
    toBuffered := hb2.of hL (by
      show t5.gpr .esp = _
      rw [h5.gpr]
      show t3.gpr .esp = _
      rw [h3.gpr]
      rfl) (h5.control.trans h3.control) (fun y _ => congrFun hmem y) (h5.port.trans h3.port)
      (h5.log.trans h3.log)
    eip := congrArg (· + 1) heip5
    ecx := by
      show t5.gpr .ecx = _
      rw [h5.gpr]
      rfl
    edi := by
      show t5.gpr .edi = _
      rw [h5.gpr]
      rfl
    dx := by
      show (t5.gpr .edx).setWidth 16 = _
      rw [h5.gpr]
      exact merge_word ..
    dev := h5.dev
    filled := fun k hk => by
      show t5.mem _ = _
      rw [hmem, hw2.inside k hk, hal] }

/-- A double word was read into the buffer, which made the memory `w`; another
one is stored behind it, and is to be written to the port. -/
structure Outsd (L : Layout Data) (w : Memory) (s : State Word) : Prop extends Buffered L s where
  eip : s.eip = 41
  ecx : s.gpr .ecx = 1
  esi : s.gpr .esi = word outsdSrc
  dx : s.dx = 0xcf8
  stored : ∀ k < 4, s.mem (phys (outsdSrc + k)) = byteAt outsdVal k
  rest : ∀ y, (∀ k < 4, phys (outsdSrc + k) ≠ y) → s.mem y = w y

/-- Phases 3a and 3b. -/
theorem gets_outsd (hA : A.Sane L) (hL : Fits L) (h : Insd L s) :
    Gets bootPioStr L A.host (Outsd L (A.writeMemory s insdTarget pciCfgVal)) s := by
  let t : State Word := { s with mem := A.writeMemory s insdTarget pciCfgVal }.setReg .edi
    (s.gpr .edi + s.stride .dword)
  have hedi : (s.gpr .edi).toNat = insdTarget := by rw [h.edi]; rfl
  have hin : StringOp.insd.exec L A.host s.tables s = some t := by
    have hhost : A.host.insd s.dx s (s.gpr .edi).toNat
        = (A.writeMemory s insdTarget pciCfgVal, s.dev) := by
      rw [h.dx, hedi, ← h.dev]
      rfl
    rw [StringOp.exec, hhost]
  have hbt : Buffered L (t.setReg .ecx 0).next :=
    h.toBuffered.of hL rfl rfl (fun y hy => hA.spares s h y hy) rfl rfl
  have htables : t.tables = s.tables :=
    (hbt.toPaged.tables).trans h.toPaged.tables.symm
  refine gets_rep_one hL.toSector (by rw [h.eip]; rfl) h.toPaged.settled.home h.ecx hin rfl
    htables ?_
  refine gets_store hL.toSector (m := .abs outsdSrc) (o := .imm outsdVal) (a := outsdSrc)
    (congrArg (fun n => bootPioStr.fetch (n + 1)) h.eip) hbt.toPaged.settled.home rfl rfl
    (hbt.target hL (by decide) (by decide)) fun t1 ht1 hg1 hw => ?_
  have hb1 : Buffered L t1 := hbt.written hL (by decide) (by decide) (congrFun hg1 .esp) hw
  have heip1 : t1.eip = 37 := ht1.trans (congrArg (· + 1 + 1) h.eip)
  refine gets_line hL.toSector hb1.toPaged.settled (line_at (n := 37)
    (l := [.mov .dword .esi (.imm (word outsdSrc)), .mov .dword .ecx (.imm 1),
      .mov .word .edx (.imm pciCfgAddr)]) rfl heip1) rfl fun t2 ht2 h2 hs2 => ?_
  have heip2 : t2.eip = 40 := by rw [ht2, heip1]; rfl
  refine gets_cld hL.toSector hs2.home (by rw [heip2]; rfl) (.now ?_)
  exact {
    toBuffered := hb1.of hL (by show t2.gpr .esp = _; rw [h2.gpr]; rfl) h2.control
      (fun y _ => congrFun h2.mem y) h2.port h2.log
    eip := congrArg (· + 1) heip2
    ecx := by
      show t2.gpr .ecx = _
      rw [h2.gpr]
      rfl
    esi := by
      show t2.gpr .esi = _
      rw [h2.gpr]
      rfl
    dx := by
      show (t2.gpr .edx).setWidth 16 = _
      rw [h2.gpr]
      exact merge_word ..
    stored := fun k hk => by
      show t2.mem _ = _
      rw [h2.mem, hw.inside k hk]
    rest := fun y hy => by
      show t2.mem _ = _
      rw [h2.mem, hw.outside y hy]
      rfl }

/-- The bytes that are sent over and over: what lies in the buffer, the double
word read back, the marker. -/
def line (w : Memory) (v : Word) : List Byte :=
  ((List.range 33).map fun k => w (phys (outputStart + k))) ++ (List.range 4).map (byteAt v)
    ++ marker

theorem length_line (w : Memory) (v : Word) : (line w v).length = 54 := by
  simp [line, marker]

/-- The line ends with a line end. -/
theorem line_end (w : Memory) (v : Word) : line w v = (line w v).take 52 ++ [13, 10] := rfl

section

variable {w : Memory} {v : Word} {k : Nat}

theorem line_buffer (hk : k < 33) : (line w v).getD k 0 = w (phys (outputStart + k)) := by
  rw [line, List.append_assoc, List.getD_append _ _ _ _ (by simpa using hk)]
  simp [List.getD_eq_getElem?_getD, hk]

theorem line_readback (hk : k < 4) : (line w v).getD (33 + k) 0 = byteAt v k := by
  rw [line, List.append_assoc, List.getD_append_right _ _ _ _ (by simp),
    List.getD_append _ _ _ _ (by simpa using hk)]
  simp [List.getD_eq_getElem?_getD, hk]

theorem line_marker : (line w v).getD (37 + k) 0 = marker.getD k 0 := by
  rw [line, List.getD_append_right _ _ _ _ (by simp)]
  simp

end

/-- In the main loop, with `l` in the buffer. -/
structure Output (l : List Byte) (s : State Word) : Prop extends Paged moved s where
  esp : s.gpr .esp = word 0x7c00
  fair : Port.Fair s.port
  output : ∀ k < 54, s.mem (phys (outputStart + k)) = l.getD k 0

/-- Phases 3c to 4. -/
theorem gets_ready {w : Memory} (hL : Fits L) (h : Outsd L w s) :
    Gets bootPioStr L A.host (fun t => t.eip = 50 ∧ t.log = [] ∧
      Output (line w (A.latch (A.readMemory s outsdSrc))) t) s := by
  let v : Word := A.latch (A.readMemory s outsdSrc)
  let t : State Word := { s with dev := v }.setReg .esi (s.gpr .esi + s.stride .dword)
  have hesi : (s.gpr .esi).toNat = outsdSrc := by rw [h.esi]; rfl
  have hexec : StringOp.outsd.exec L A.host s.tables s = some t := by
    have hhost : A.host.outsd s.dx s (s.gpr .esi).toNat = v := by
      rw [h.dx, hesi]
      rfl
    rw [StringOp.exec, hhost]
  refine gets_rep_one hL.toSector (by rw [h.eip]; rfl) h.toPaged.settled.home h.ecx hexec rfl
    rfl ?_
  have hbt : Buffered L (t.setReg .ecx 0).next :=
    h.toBuffered.of hL rfl rfl (fun _ _ => rfl) rfl rfl
  -- `in eax, dx`
  refine gets_line hL.toSector hbt.toPaged.settled (line_at (n := 42)
    (l := [.mov .word .edx (.imm pciCfgAddr)]) rfl (congrArg (· + 1) h.eip)) rfl
    fun t1 ht1 h1 hs1 => ?_
  have heip1 : t1.eip = 43 := ht1.trans (congrArg (· + 1 + 1) h.eip)
  have hdx1 : t1.dx = 0xcf8 := by
    show (t1.gpr .edx).setWidth 16 = _
    rw [h1.gpr]
    exact merge_word ..
  have hin : exec bootPioStr L A.host t1.tables t1 .inEax = some (t1.setReg .eax v).next := by
    have hdev : t1.dev = v := h1.dev
    rw [exec, hdx1, ← hdev]
    rfl
  refine gets_calm hL.toSector hs1 (by rw [heip1]; rfl) hin rfl rfl fun hs2 => ?_
  have hb2 : Buffered L (t1.setReg .eax v).next :=
    hbt.of hL (by show t1.gpr .esp = _; rw [h1.gpr]; rfl) h1.control
      (fun y _ => congrFun h1.mem y) h1.port h1.log
  refine gets_store hL.toSector (m := .abs readbackDst) (o := .reg .eax) (a := readbackDst)
    (v := v) (congrArg (fun n => bootPioStr.fetch (n + 1)) heip1) hs2.home rfl
    (congrArg some (State.setReg_self ..)) (hb2.target hL (by decide) (by decide))
    fun t3 ht3 hg3 hw3 => ?_
  have hb3 : Buffered L t3 := hb2.written hL (by decide) (by decide) (congrFun hg3 .esp) hw3
  have heip3 : t3.eip = 45 := ht3.trans (congrArg (· + 1 + 1) heip1)
  -- the marker
  refine gets_line hL.toSector hb3.toPaged.settled (line_at (n := 45)
    (l := [.mov .dword .esi (.offset .marker), .mov .dword .edi (.imm (word outputEnd)),
      .mov .dword .ecx (.imm (word marker.length))]) rfl heip3) rfl fun t4 ht4 h4 hs4 => ?_
  have heip4 : t4.eip = 48 := by rw [ht4, heip3]; rfl
  refine gets_cld hL.toSector hs4.home (by rw [heip4]; rfl) ?_
  have hb5 : Buffered L { t4.next with df := false } :=
    hb3.of hL (by show t4.gpr .esp = _; rw [h4.gpr]; rfl) h4.control
      (fun y _ => congrFun h4.mem y) h4.port h4.log
  have hlow := hL.marker_low
  have hhigh := hL.marker_high
  refine gets_movsb hL.toSector hb5.toPaged.settled.home rfl (n := marker.length)
    (a := outputEnd) (b := L.data .marker) (y := fun k => L.data .marker + k) (by decide)
    ?_ ?_ (congrArg (fun n => bootPioStr.fetch (n + 1)) heip4) ?_
    (hb5.target hL (by decide) (by decide))
    (fun k hk => byte_home hb5.toPaged.settled.home hL.limit (by omega) (by omega))
    (fun j hj k hk he => ?_) fun t6 ht6 hg6 hw6 => .now ?_
  · show t4.gpr .ecx = _
    rw [h4.gpr]
    rfl
  · show t4.gpr .edi = _
    rw [h4.gpr]
    rfl
  · show t4.gpr .esi = _
    rw [h4.gpr]
    rfl
  · refine not_inUse_phys (a := outputEnd + j) (Nat.le_trans (by decide) (Nat.le_add_right _ _))
      (by simp only [outputEnd, marker, List.length_cons, List.length_nil] at *; omega) ?_
    rw [he]
    exact .inl ⟨by omega, by omega⟩
  have hstart : outputStart = 0x10ff0 := rfl
  have hdst : readbackDst = outputStart + 33 := rfl
  have hend : outputEnd = outputStart + 37 := rfl
  have hsrc : outsdSrc = 0x11ffe := rfl
  have hlen : marker.length = 17 := rfl
  -- different addresses of the buffer lie apart
  have hapart : ∀ j k, j < 54 → k < 54 → j ≠ k → phys (outputStart + j) ≠ phys (outputStart + k) :=
    fun j k hj hk hne he => hne (by
      have := phys_inj (by omega) (by omega) (by omega) (by omega) he
      omega)
  have hb6 : Buffered L t6 := hb5.written hL (by decide) (by decide)
    (hg6 .esp (by decide) (by decide) (by decide)) hw6
  refine ⟨ht6.trans (congrArg (· + 1 + 1) heip4), hb6.log, hb6.toPaged, hb6.esp, hb6.fair,
    fun k hk => ?_⟩
  · by_cases hmarker : 37 ≤ k
    · obtain ⟨j, rfl⟩ := Nat.exists_eq_add_of_le hmarker
      have hin := hw6.inside j (by omega)
      rw [hend, Nat.add_assoc] at hin
      rw [hin, line_marker]
      exact hb5.image j (by omega)
    have hbefore : t6.mem (phys (outputStart + k)) = t3.mem (phys (outputStart + k)) := by
      rw [hw6.outside _ fun j hj => by
        rw [hend, Nat.add_assoc]
        exact hapart _ _ (by omega) hk (by omega)]
      exact congrFun h4.mem _
    rw [hbefore]
    by_cases hread : 33 ≤ k
    · obtain ⟨j, rfl⟩ := Nat.exists_eq_add_of_le hread
      have hin := hw3.inside j (by omega)
      rw [hdst, Nat.add_assoc] at hin
      rw [hin, line_readback (by omega)]
    · rw [hw3.outside _ fun j hj => by
        rw [hdst, Nat.add_assoc]
        exact hapart _ _ (by omega) hk (by omega), line_buffer (by omega)]
      show t1.mem _ = _
      rw [h1.mem]
      refine h.rest _ fun j hj he => ?_
      have := phys_inj (by omega) (by omega) (by omega) (by omega) he
      omega

/-! ## The main loop -/

theorem includes : Includes bootPioStr .serial 61 where
  fetch := line_at (n := 61) (l := (serial32 Label.serial : Program Label Data).instrs) rfl rfl
  serial_out := rfl
  wait := rfl
  serial_out_string := rfl
  next := rfl
  done := rfl

/-- Nothing but registers, flags and the stack has changed, or it was sent. -/
theorem Output.of {l : List Byte} (h : Output l s) (hesp : t.gpr .esp = s.gpr .esp)
    (hc : t.control = s.control) (hm : ∀ y, 0x7c00 ≤ y → t.mem y = s.mem y)
    (hport : ∃ k, t.port = fun n => s.port (k + n)) : Output l t where
  toPaged := h.toPaged.of hc fun y hlo _ => hm y (Nat.le_trans (by decide) hlo)
  esp := hesp.trans h.esp
  fair := by
    obtain ⟨k, hk⟩ := hport
    rw [hk]
    exact h.fair.shift k
  output k hk := by
    have hphys := phys_cases (a := outputStart + k)
      (by simp only [outputStart]; omega) (by simp only [outputStart]; omega)
    rw [hm _ (by simp only [outputStart] at hphys ⊢; omega), h.output k hk]

/-- With `k` bytes of the line sent, and `m` to go. -/
structure Sending (l : List Byte) (log : List Byte) (k m : Nat) (t : State Word) : Prop extends
    Output l t where
  eip : t.eip = if m = 0 then 57 else 52
  esi : t.gpr .esi = word (outputStart + k)
  ecx : t.gpr .ecx = word m
  log : t.log = log ++ l.take k

/-- A round of the loop sends one byte. -/
theorem Sending.round {l log : List Byte} {k m : Nat} (h : Sending l log k (m + 1) t)
    (hL : Fits L) (hl : l.length = 54) (hk : k + (m + 1) = 54)
    (hQ : ∀ u, Sending l log (k + 1) m u → Gets bootPioStr L A.host Q u) :
    Gets bootPioStr L A.host Q t := by
  have heip : t.eip = 52 := h.eip
  have hstart : outputStart = 0x10ff0 := rfl
  -- `mov al, [esi]`
  have hbyte : ∀ j < 1, byte? L t.tables (outputStart + k + j)
      = some (phys (outputStart + k + j)) := fun j hj =>
    h.toPaged.byte hL (by omega) (by omega)
  obtain ⟨v, hv, hbytes⟩ := loadBytes_eq (m := t.mem) (n := 1) hbyte
  have hea : t.ea L (.base .esi 0 : Mem Data) = outputStart + k := by
    show (t.gpr .esi + BitVec.ofNat 32 0).toNat = _
    rw [h.esi, word_add, toNat_word (by omega), Nat.add_zero]
  have hload : exec bootPioStr L A.host t.tables t (.mov .byte .eax (.mem (.base .esi 0)))
      = some (t.setReg .eax (Size.byte.merge (t.gpr .eax) (v.setWidth 32))).next := by
    have hread : t.read L t.tables .byte (.mem (.base .esi 0)) = some (v.setWidth 32) := by
      rw [State.read, hea]
      exact congrArg (Option.map _) hv
    rw [exec, hread]
  refine gets_calm hL.toSector h.toPaged.settled (by rw [heip]; rfl) hload rfl rfl fun hs1 => ?_
  have hal : ((t.setReg .eax (Size.byte.merge (t.gpr .eax) (v.setWidth 32))).next).al
      = l.getD k 0 := by
    have hlow : v = l.getD k 0 := by
      rw [← h.output k (by omega)]
      refine Eq.trans ?_ (hbytes 0 (by decide))
      rw [byteAt_zero]
      exact (BitVec.setWidth_eq _).symm
    show ((State.setReg _ _ _).gpr .eax).setWidth 8 = _
    rw [State.setReg_self, merge_byte, ← hlow]
    exact BitVec.setWidth_setWidth_of_le _ (by decide)
  have hstack : Stack (t.setReg .eax (Size.byte.merge (t.gpr .eax) (v.setWidth 32))).next 0x7c00 :=
    ⟨hs1, (State.setReg_of_ne _ _ (by decide)).trans h.esp, by decide, by decide⟩
  refine (call_serial_out includes hL.toSector hstack (by decide) h.fair
    (by show t.eip + 1 + 1 < _; rw [heip]; decide)
    (congrArg (fun n => bootPioStr.fetch (n + 1)) heip)).bind fun u hcalled => ?_
  obtain ⟨heipu, hsu, hsent⟩ := hcalled
  have hgu : ∀ r, r ≠ .eax → u.gpr r = t.gpr r := fun r hr => by
    rw [hsent.gpr]
    exact State.setReg_of_ne _ _ hr
  have hespu : (((t.setReg .eax (Size.byte.merge (t.gpr .eax) (v.setWidth 32))).next).gpr
      .esp).toNat = 0x7c00 := by
    rw [hstack.esp]
    rfl
  have hou : Output l u := h.toOutput.of (hgu .esp (by decide)) hsent.control
    (fun y hy => hsent.mem y (.inr (hespu ▸ hy))) hsent.port
  -- `inc esi`
  have heipu' : u.eip = 54 := heipu.trans (congrArg (· + 1 + 1) heip)
  refine gets_line hL.toSector hsu (line_at (n := 54) (l := [.inc .esi]) rfl heipu') rfl
    fun w hw hcw hsw => ?_
  have hgw : w.gpr = Function.update u.gpr .esi (u.gpr .esi + 1) := by rw [hcw.gpr]
  refine gets_count hL.toSector hsw (n := 55) (k := m) (c := .next_byte)
    (by rw [hw, heipu']; rfl) rfl rfl ?_ (by omega) fun x hx hkept _ hm hport hlog hg => hQ x ?_
  · rw [hgw, Function.update_of_ne (by decide), hgu .ecx (by decide), h.ecx]
  exact {
    toOutput := hou.of (by rw [hg, hgw]; rfl) (hkept.control.trans hcw.control)
      (fun y _ => by rw [hm, hcw.mem])
      ⟨0, by rw [hport, hcw.port]; funext n; rw [Nat.zero_add]⟩
    eip := hx
    ecx := by rw [hg, Function.update_self]
    esi := by
      rw [hg, hgw, Function.update_of_ne (by decide), Function.update_self, hgu .esi (by decide),
        h.esi]
      exact word_add (outputStart + k) 1
    log := by
      rw [hlog, hcw.log, hsent.log, hal]
      show t.log ++ _ = _
      rw [h.log, List.append_assoc, List.getD_eq_getElem _ _ (by omega),
        ← List.take_succ_eq_append_getElem] }

theorem Sending.all {l log : List Byte} {k m : Nat} (h : Sending l log k m t) (hL : Fits L)
    (hl : l.length = 54) (hk : k + m = 54) :
    Gets bootPioStr L A.host (Sending l log 54 0) t := by
  induction m generalizing k t with
  | zero =>
      obtain rfl : k = 54 := hk
      exact .now h
  | succ m ih => exact h.round hL hl hk fun u hu => ih hu (by omega)

/-- **One round of the main loop** sends the line. -/
theorem gets_round {l : List Byte} (hL : Fits L) (hl : l.length = 54)
    (h : s.eip = 50 ∧ Output l s) :
    Gets bootPioStr L A.host
      (fun t => (t.eip = 50 ∧ Output l t) ∧ t.log = s.log ++ l) s := by
  obtain ⟨heip, h⟩ := h
  refine gets_line hL.toSector h.toPaged.settled (line_at (n := 50)
    (l := [.mov .dword .esi (.imm (word outputStart)),
      .mov .dword .ecx (.imm (word (outputEnd - outputStart + marker.length)))]) rfl heip) rfl
    fun t ht hct hst => ?_
  have hsending : Sending l s.log 0 54 t := {
    toOutput := h.of (by rw [hct.gpr]; rfl) hct.control (fun y _ => congrFun hct.mem y)
      ⟨0, by rw [hct.port]; funext n; rw [Nat.zero_add]⟩
    eip := by rw [ht, heip]; rfl
    esi := by rw [hct.gpr]; rfl
    ecx := by rw [hct.gpr]; rfl
    log := by rw [hct.log, List.take_zero, List.append_nil] }
  refine (hsending.all hL hl rfl).bind fun u hu => ?_
  have heipu : u.eip = 57 := hu.eip
  -- the delay
  refine gets_line hL.toSector hu.toPaged.settled (line_at (n := 57)
    (l := [.mov .dword .ecx (.imm 0x3000000)]) rfl heipu) rfl fun v hv hcv hsv => ?_
  refine gets_spin hL.toSector hsv (n := 58) (k := 0x2ffffff) (c := .spin)
    (by rw [hv, heipu]; rfl) rfl rfl rfl (by rw [hcv.gpr]; rfl) (by decide)
    fun w hw hkept hsw hm hport hlog hg => ?_
  refine gets_jmp hL.toSector hsw (c := .main_loop) (by rw [hw]; rfl) fun _ =>
    .now ⟨⟨rfl, ?_⟩, ?_⟩
  · refine hu.toOutput.of ?_ (hkept.control.trans hcv.control) (fun y _ => ?_)
      ⟨0, (hport.trans hcv.port).trans (funext fun n => by rw [Nat.zero_add])⟩
    · show w.gpr .esp = _
      rw [hg .esp (by decide), hcv.gpr]
      rfl
    · show w.mem y = _
      rw [hm, hcv.mem]
  · show w.log = _
    rw [hlog, hcv.log, hu.log, ← hl, List.take_length]

/-! ## Whole runs -/

/-- The states in which a run from `c` asks the accelerator: for the read into
the buffer, and for the write from it. -/
structure Crossing (A : Accel) (L : Layout Data) (c : Cached Word) (s₁ s₃ : State Word) : Prop where
  reads : Leads (Goes (step bootPioStr L A.host)) (fun d => d.toState = s₁) c
  insd : Insd L s₁
  writes : Leads (Goes (step bootPioStr L A.host)) (fun d => d.toState = s₃) c
  outsd : Outsd L (A.writeMemory s₁ insdTarget pciCfgVal) s₃

/-- The line that is sent then. -/
def Accel.sentLine (A : Accel) (s₁ s₃ : State Word) : List Byte :=
  line (A.writeMemory s₁ insdTarget pciCfgVal) (A.latch (A.readMemory s₃ outsdSrc))

variable {c d : Cached Word} {es : List Unit}

/-- The line is sent over and over. -/
theorem sends (hA : A.Sane L) (hL : Fits L) (h : Boot L c.toState) (hc : c.Fresh) :
    ∃ s₁ s₃, Crossing A L c s₁ s₃ ∧ ∀ n, Leads (Goes (step bootPioStr L A.host))
      (fun d => d.log = (List.replicate n (A.sentLine s₁ s₃)).flatten) c := by
  have hsetup : Gets bootPioStr L A.host (Insd L) c.toState :=
    (gets_setup hL h).bind fun t ⟨heip, hb, hp⟩ => gets_insd hA hL ⟨hb, hp⟩ heip
  obtain ⟨es₁, c₁, hrun₁, h₁, hfresh₁⟩ := hsetup c rfl hc
  obtain ⟨es₃, c₃, hrun₃, h₃, hfresh₃⟩ := gets_outsd hA hL h₁ c₁ rfl hfresh₁
  refine ⟨c₁.toState, c₃.toState, ⟨⟨_, _, hrun₁, rfl⟩, h₁, ⟨_, _, hrun₁.trans hrun₃, rfl⟩, h₃⟩,
    fun n => ?_⟩
  have hloop : Gets bootPioStr L A.host
      (fun t => t.log = (List.replicate n (A.sentLine c₁.toState c₃.toState)).flatten)
      c₃.toState :=
    (gets_ready hL h₃).bind fun t ⟨heip, hlog, ht⟩ =>
      (over_and_over (G := Gets bootPioStr L A.host) .now .bind
        (fun _ => gets_round hL (length_line _ _)) ⟨heip, ht⟩ n).mono
          fun u hu => by
            rw [hu.2, hlog, List.nil_append]
            rfl
  obtain ⟨es, d, hrun, hd, -⟩ := hloop c₃ rfl hfresh₃
  exact ⟨_, d, (hrun₁.trans hrun₃).trans hrun, hd⟩

/-- **All that is sent**: in every state of every run, a beginning of that line
over and over, and the run goes on. -/
theorem sent (hlog : c.log = []) {l : List Byte} (hl : l ≠ [])
    (hsends : ∀ n, Leads (Goes (step bootPioStr L A.host))
      (fun d => d.log = (List.replicate n l).flatten) c)
    (hrun : Run (Goes (step bootPioStr L A.host)) c es d) :
    (∃ n, d.log <+: (List.replicate n l).flatten) ∧
      ∃ u, step bootPioStr L A.host d = some u :=
  appends_log.sent (le_length_copies hl) hlog hsends hrun

/-! ## Accelerators -/

/-- The bytes go where the page tables say, and come from there. -/
structure Accel.Translates (A : Accel) (L : Layout Data) : Prop where
  write : ∀ s a v m, storeBytes L s.tables s.mem a (n := 4) v 4 = some m → A.writeMemory s a v = m
  read : ∀ s a v, loadBytes L s.tables s.mem a 4 = some v → A.readMemory s a = v

/-- Only the first byte of a write goes there: the others go behind it. -/
def Accel.Contiguous (A : Accel) : Prop :=
  ∀ s a v x, address s.tables a = some x → A.writeMemory s a v = s.mem.store x (n := 4) v

/-- A write takes the address for a physical one. -/
def Accel.Untranslated (A : Accel) : Prop :=
  ∀ s a v, A.writeMemory s a v = s.mem.store a (n := 4) v

/-- What the guest asks for is the four bytes around the boundary. -/
theorem Insd.stored (hL : Fits L) (h : Insd L s) :
    ∃ m, storeBytes L s.tables s.mem insdTarget (n := 4) pciCfgVal 4 = some m ∧
      (∀ y, (∀ j < 4, phys (insdTarget + j) ≠ y) → m y = s.mem y) ∧
      ∀ j < 4, m (phys (insdTarget + j)) = byteAt pciCfgVal j := by
  have T : Target L s insdTarget 4 fun k => phys (insdTarget + k) :=
    h.target hL (by decide) (by decide)
  obtain ⟨m, hm, hout, hin⟩ := storeBytes_eq (m := s.mem) (v := (pciCfgVal : BitVec (8 * 4)))
    (Nat.le_refl 4) T.byte
  exact ⟨m, hm, hout, hin T.injective⟩

/-- Around the boundary that `outsd` crosses lies the double word stored there. -/
theorem Outsd.loaded {w : Memory} (hL : Fits L) (h : Outsd L w s) :
    loadBytes L s.tables s.mem outsdSrc 4 = some outsdVal := by
  have T : Target L s outsdSrc 4 fun k => phys (outsdSrc + k) :=
    h.target hL (by decide) (by decide)
  obtain ⟨v, hv, hbytes⟩ := loadBytes_eq (m := s.mem) T.byte
  have hval : v = outsdVal :=
    X86.ext_bytes fun k hk => (hbytes k hk).trans (h.stored k hk)
  rw [hv, hval]

theorem Accel.Translates.spares (hA : A.Translates L) (hL : Fits L) (h : Insd L s) {y : Nat}
    (hy : inUse y) : A.writeMemory s insdTarget pciCfgVal y = s.mem y := by
  obtain ⟨m, hm, hout, -⟩ := h.stored hL
  rw [hA.write _ _ _ _ hm]
  exact hout y fun j hj he => not_inUse_phys (a := insdTarget + j)
    (by simp only [insdTarget]; omega) (by simp only [insdTarget]; omega) (he ▸ hy)

/-- The low two bits of the register read as zero. -/
def latchAddress (v : Word) : Word := v &&& 0xfffffffc

def Accel.translating (L : Layout Data) : Accel where
  writeMemory s a v := (storeBytes L s.tables s.mem a (n := 4) v 4).getD s.mem
  readMemory s a := (loadBytes L s.tables s.mem a 4).getD (0 : Word)
  latch := latchAddress

def Accel.contiguous (L : Layout Data) : Accel where
  writeMemory s a v := (address s.tables a).elim s.mem fun x => s.mem.store x (n := 4) v
  readMemory s a := (loadBytes L s.tables s.mem a 4).getD (0 : Word)
  latch := latchAddress

theorem keeps_latchAddress {A : Accel} (h : A.latch = latchAddress) : A.Keeps := by
  intro v h0 h1
  have hmask : ∀ i < 32, (0xfffffffc : Word).getLsbD i = decide (2 ≤ i) := by decide
  rw [h, latchAddress]
  apply BitVec.eq_of_getLsbD_eq
  intro i hi
  rw [BitVec.getLsbD_and, hmask i hi]
  by_cases hlow : 2 ≤ i
  · rw [decide_eq_true hlow, Bool.and_true]
  · obtain rfl | rfl : i = 0 ∨ i = 1 := by omega
    · rw [h0, Bool.false_and]
    · rw [h1, Bool.false_and]

theorem translates_translating (L : Layout Data) : (Accel.translating L).Translates L where
  write s a v m h := by
    show (storeBytes L s.tables s.mem a (n := 4) v 4).getD s.mem = m
    rw [h, Option.getD_some]
  read s a v h := by
    show (loadBytes L s.tables s.mem a 4).getD (0 : Word) = v
    rw [h, Option.getD_some]

theorem contiguous_contiguous (L : Layout Data) : (Accel.contiguous L).Contiguous := by
  intro s a v x h
  show (address s.tables a).elim s.mem (fun x => s.mem.store x (n := 4) v) = _
  rw [h, Option.elim_some]

/-! ## A boot -/

/-- The marker behind the code. -/
def layout : Layout Data := slotLayout (fun _ => 0x7da0) 0x100000

theorem fits_layout : Fits layout where
  toSector := sector_slots (by decide) (by decide)
  marker_low := by decide
  marker_high := by decide
  memory := by decide

@[irreducible] def bootMemory (a : Nat) : Memory := fun x => marker.getD (x - a) 0

theorem bootMemory_image (a k : Nat) : bootMemory a (a + k) = marker.getD k 0 := by
  unfold bootMemory
  rw [Nat.add_sub_cancel_left]

/-- Where `ENTER_PMODE32` ends, with a line that is always ready. -/
def booted : Cached Word where
  gpr := Function.update (fun _ => 0) .esp (word 0x7c00)
  flags := ⟨false, false, false, false, false, false⟩
  dev := 0
  eip := 0
  df := false
  control := ⟨1, 0, 0, 0⟩
  mem := bootMemory (layout.data .marker)
  port := Port.prompt
  log := []
  cache := X86.Cache.empty
  does _ _ := .walk

theorem boot_booted : Boot layout booted.toState where
  esp := rfl
  image k _ := bootMemory_image _ k
  fair := Port.fair_prompt
  log := rfl
  paging := rfl
  longMode := rfl
  pae := rfl
  eip := rfl

theorem fresh_booted : booted.Fresh := X86.Cache.fresh_empty

end QemuTest.Asm32.PioStr

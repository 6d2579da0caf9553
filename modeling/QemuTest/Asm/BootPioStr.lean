import QemuTest.Asm.Serial32

/-!
# Asm — BootPioStr

`boot_pio_str.asm`: a boot sector that turns paging on, moves two pages to
frames that do not follow each other, and has a double word written and one read
by string instructions across their boundaries. What it then sends over and over
shows where the bytes went.

The string instructions are completed by an accelerator, which is a parameter
(`Accel`): what its `write_memory` makes of memory, what its `read_memory` finds
there.
-/

namespace QemuTest.Asm32.PioStr

open X86 (Byte Memory Port PageMap byteAt)
open X86.Protected

/-! ## The program -/

inductive Label where
  | fill_pt | main_loop | next_byte | spin
  | serial (l : Serial32Label)
  deriving DecidableEq, Repr

inductive Data where
  | marker
  deriving DecidableEq, Repr

/-- `BUFFER`, the page-aligned work buffer. -/
def buffer : Nat := 0x10000
def insdTarget : Nat := 0x10FFD
def outsdSrc : Nat := 0x11FFE
def readbackDst : Nat := 0x11011
def outputStart : Nat := 0x10FF0
def outputEnd : Nat := 0x11015
def pciCfgAddr : Word := 0x0CF8
def pciCfgVal : Word := 0x43434444
def outsdVal : Word := 0x59595858
def pageDir : Nat := 0x20000
def pageTable : Nat := 0x21000
def remapPhys : Nat := 0x30000
def remapPhys2 : Nat := 0x31000

/-- `"HELLO VIA OUTSB", 13, 10`. -/
def marker : List Byte :=
  [72, 69, 76, 76, 79, 32, 86, 73, 65, 32, 79, 85, 84, 83, 66, 13, 10]

abbrev word (n : Nat) : Word := BitVec.ofNat 32 n

def bootPioStr : Program Label Data :=
  [ -- the page directory is cleared
    mov .edi (word pageDir),
    .ins (.xor .eax .eax),
    mov .ecx 1024,
    .ins .cld,
    rep .stosd,
    -- the page table maps the first 4 MB to themselves
    mov .edi (word pageTable),
    mov .eax 0x03,
    mov .ecx 1024,
    .label .fill_pt,
    Asm32.store (.base .edi 0) .eax,
    .ins (.add .edi 4),
    .ins (.add .eax 0x1000),
    dec .ecx,
    jne .fill_pt,
    .ins (.store (.abs pageDir) (.imm (word (pageTable ||| 0x03)))),
    -- paging on
    mov .eax (word pageDir),
    .ins (.toControl .cr3),
    .ins (.fromControl .cr0),
    .ins (.or .eax 0x80000000),
    .ins (.toControl .cr0),
    -- two pages moved
    .ins (.store (.abs (pageTable + 0x11 * 4)) (.imm (word (remapPhys2 ||| 0x03)))),
    .ins (.invlpg 0x11000),
    .ins (.store (.abs (pageTable + 0x12 * 4)) (.imm (word (remapPhys ||| 0x03)))),
    .ins (.invlpg 0x12000),
    -- phase 1
    mov .edi (word buffer),
    movAl 'A',
    mov .ecx 0x3000,
    .ins .cld,
    rep .stosb,
    -- phase 2
    mov .eax pciCfgVal,
    movDx pciCfgAddr,
    .ins .outEax,
    -- phase 3a
    mov .edi (word insdTarget),
    mov .ecx 1,
    movDx pciCfgAddr,
    .ins .cld,
    rep .insd,
    -- phase 3b
    .ins (.store (.abs outsdSrc) (.imm outsdVal)),
    -- phase 3c
    mov .esi (word outsdSrc),
    mov .ecx 1,
    movDx pciCfgAddr,
    .ins .cld,
    rep .outsd,
    -- phase 3d
    movDx pciCfgAddr,
    .ins .inEax,
    Asm32.store (.abs readbackDst) .eax,
    -- phase 4
    movOffset .esi .marker,
    mov .edi (word outputEnd),
    mov .ecx (word marker.length),
    .ins .cld,
    rep .movsb,
    .label .main_loop,
    mov .esi (word outputStart),
    mov .ecx (word (outputEnd - outputStart + marker.length)),
    .label .next_byte,
    .ins (.mov .byte .eax (.mem (.base .esi 0))),
    call (.serial .serial_out),
    .ins (.inc .esi),
    dec .ecx,
    jne .next_byte,
    mov .ecx 0x3000000,
    .label .spin,
    dec .ecx,
    jne .spin,
    jmp .main_loop ]
  ++ serial32 .serial

/-! ## The accelerator -/

/-- The accelerator and the register of the host bridge behind the port:
`latch` is what it keeps of a double word written to it. -/
structure Accel where
  writeMemory : State Word → Nat → Word → Memory
  readMemory : State Word → Nat → Word
  latch : Word → Word

def Accel.host (A : Accel) : Host Data Word where
  emulate _ v := v
  inEax p v := if p = 0xcf8 then { v with gpr := Function.update v.gpr .eax v.dev } else v
  outEax p v := if p = 0xcf8 then { v with dev := A.latch (v.gpr .eax) } else v
  insd p s a := if p = 0xcf8 then (A.writeMemory s a s.dev, s.dev) else (s.mem, s.dev)
  outsd p s a := if p = 0xcf8 then A.latch (A.readMemory s a) else s.dev

/-! ## The start -/

/-- The sector with its marker, and enough memory. -/
structure Fits (L : Layout Data) : Prop extends Sector bootPioStr L where
  marker_low : 0x7c00 ≤ L.data .marker
  marker_high : L.data .marker + marker.length ≤ 0x7e00
  memory : 0x32000 ≤ L.limit

/-- Nothing has been sent yet, the stack is empty, and the sector holds the
marker. -/
structure Base (L : Layout Data) (s : State Word) : Prop where
  esp : s.gpr .esp = word 0x7c00
  image : ∀ k < marker.length, s.mem (L.data .marker + k) = marker.getD k 0
  fair : Port.Fair s.port
  log : s.log = []

/-- Paging is off, and will not be that of long mode. -/
structure Flat (s : State Word) : Prop extends Unpaged s where
  longMode : s.control.longMode = false
  pae : s.control.pae = false

theorem Flat.of {s t : State Word} (h : Flat s) (hc : t.control = s.control) : Flat t :=
  ⟨h.toUnpaged.of hc, hc ▸ h.longMode, hc ▸ h.pae⟩

/-- Where protected mode is entered. -/
structure Boot (L : Layout Data) (s : State Word) : Prop extends Base L s, Flat s where
  eip : s.eip = 0

variable {A : Accel} {L : Layout Data} {frame : Nat → Nat} {s t : State Word} {m m' : Memory}
  {a n : Nat} {Q : State Word → Prop}

theorem Base.of (h : Base L s) (hL : Fits L) (hesp : t.gpr .esp = s.gpr .esp)
    (hm : ∀ y, 0x7c00 ≤ y → y < 0x7e00 → t.mem y = s.mem y) (hport : t.port = s.port)
    (hlog : t.log = s.log) : Base L t where
  esp := hesp.trans h.esp
  image k hk := by
    have hlow := hL.marker_low
    have hhigh := hL.marker_high
    rw [hm _ (by omega) (by omega), h.image k hk]
  fair := hport ▸ h.fair
  log := hlog.trans h.log

/-! ## The tables -/

/-- The page directory and the page table, which gives page `k` the frame
`frame k`. -/
structure Tabled (frame : Nat → Nat) (m : Memory) : Prop where
  dir : m.entry32 pageDir 0 = word (pageTable + 3)
  rest : ∀ k, 0 < k → k < 2 ^ 10 → m.entry32 pageDir k = 0
  table : ∀ k < 2 ^ 10, m.entry32 pageTable k = word (2 ^ 12 * frame k + 3)
  small : ∀ k < 2 ^ 10, frame k < 2 ^ 20

/-- The first 4 MB mapped. -/
def mapOf (frame : Nat → Nat) : PageMap := fun p => if p < 2 ^ 10 then some (frame p) else none

theorem present_word {k : Nat} (hk : k < 2 ^ 20) : X86.present (word (2 ^ 12 * k + 3)) = some k :=
  X86.present_ofNat (by decide) (by decide) (by omega) (by omega)

theorem Tabled.walk (h : Tabled frame m) : m.walk32 (word pageDir) = mapOf frame := by
  funext p
  have hbase : 2 ^ 12 * X86.frameOf (word pageDir) = pageDir := by decide
  have htable : X86.present (word (pageTable + 3)) = some (pageTable / 2 ^ 12) :=
    present_word (k := 0x21) (by decide)
  rw [Memory.walk32, hbase, mapOf]
  by_cases hlow : p < 2 ^ 10
  · rw [if_pos (by omega), if_pos hlow, Nat.div_eq_of_lt hlow, h.dir, htable, Option.bind_some,
      Nat.mod_eq_of_lt hlow, show 2 ^ 12 * (pageTable / 2 ^ 12) = pageTable by decide, h.table p hlow,
      present_word (h.small p hlow)]
  · rw [if_neg hlow]
    by_cases hhigh : p < 2 ^ 20
    · rw [if_pos hhigh, h.rest _ (by omega) (by omega), X86.present_zero, Option.bind_none]
    · rw [if_neg hhigh]

/-- The tables lie in two pages. -/
theorem Tabled.congr (h : Tabled frame m)
    (hm : ∀ y, pageDir ≤ y → y < pageDir + 2 ^ 13 → m' y = m y) : Tabled frame m' := by
  have hdir : ∀ k < 2 ^ 10, m'.entry32 pageDir k = m.entry32 pageDir k := fun k hk =>
    X86.entry32_congr (fun y hlo hhi => hm y hlo
      (Nat.lt_trans hhi (Nat.add_lt_add_left (by decide) _))) hk
  have htable : ∀ k < 2 ^ 10, m'.entry32 pageTable k = m.entry32 pageTable k := fun k hk =>
    X86.entry32_congr (fun y hlo hhi => hm y
      (Nat.le_trans (by decide) hlo) (Nat.lt_of_lt_of_le hhi (by decide))) hk
  exact {
    dir := (hdir 0 (by decide)).trans h.dir
    rest := fun k hk hlt => (hdir k hlt).trans (h.rest k hk hlt)
    table := fun k hk => (htable k hk).trans (h.table k hk)
    small := h.small }

/-- One entry of the page table replaced. -/
theorem Tabled.replace (h : Tabled frame m) {k f : Nat} (hk : k < 2 ^ 10) (hf : f < 2 ^ 20)
    (hin : ∀ j < 4, m' (pageTable + 4 * k + j) = byteAt (word (2 ^ 12 * f + 3)) j)
    (hout : ∀ y, (∀ j < 4, pageTable + 4 * k + j ≠ y) → m' y = m y) :
    Tabled (Function.update frame k f) m' := by
  have hdir : ∀ j < 2 ^ 10, m'.entry32 pageDir j = m.entry32 pageDir j := fun j hj =>
    X86.entry32_congr (fun y _ hhi => hout y fun i hi => by
      simp only [pageDir, pageTable] at *
      omega) hj
  exact {
    dir := (hdir 0 (by decide)).trans h.dir
    rest := fun j hj hlt => (hdir j hlt).trans (h.rest j hj hlt)
    table := fun j hj => by
      by_cases hjk : j = k
      · rw [hjk, Function.update_self]
        refine X86.ext_bytes (n := 4) fun i hi => ?_
        rw [Memory.entry32, X86.byteAt_load _ _ hi, hin i hi]
      · rw [Function.update_of_ne hjk, ← h.table j hj]
        refine X86.load_congr fun i hi => hout _ fun i' hi' => ?_
        omega
    small := fun j hj => by
      by_cases hjk : j = k
      · rw [hjk, Function.update_self]
        exact hf
      · rw [Function.update_of_ne hjk]
        exact h.small j hj }

/-- Paging is on, with these frames; that of the boot sector is its own. -/
structure Paged (frame : Nat → Nat) (s : State Word) : Prop where
  paging : s.control.paging = true
  longMode : s.control.longMode = false
  pae : s.control.pae = false
  cr3 : s.control.cr3 = word pageDir
  tabled : Tabled frame s.mem
  home : frame 7 = 7

namespace Paged

theorem calm (h : Paged frame s)
    (hm : ∀ y, pageDir ≤ y → y < pageDir + 2 ^ 13 → m y = s.mem y) :
    s.control.tables m = mapOf frame := by
  rw [Control.tables, if_pos h.paging, if_neg (by rw [h.longMode]; decide),
    if_neg (by rw [h.pae]; decide), h.cr3, (h.tabled.congr hm).walk]

theorem tables (h : Paged frame s) : s.tables = mapOf frame := h.calm fun _ _ _ => rfl

theorem settled (h : Paged frame s) : Settled s where
  home := by
    rw [h.tables, mapOf, if_pos (by decide), h.home]
  calm m hm := by
    rw [h.tables]
    exact h.calm fun y hlo _ => hm y (.inr (Nat.le_trans (by decide) hlo))

theorem of (h : Paged frame s) (hc : t.control = s.control)
    (hm : ∀ y, pageDir ≤ y → y < pageDir + 2 ^ 13 → t.mem y = s.mem y) : Paged frame t :=
  ⟨hc ▸ h.paging, hc ▸ h.longMode, hc ▸ h.pae, hc ▸ h.cr3, h.tabled.congr hm, h.home⟩

end Paged

/-! ## Paging -/

/-- The page directory is cleared. -/
theorem gets_clear (hL : Fits L) (h : Boot L s) :
    Gets bootPioStr L A.host (fun t => t.eip = 5 ∧ Base L t ∧ Flat t ∧
      ∀ k < 2 ^ 12, t.mem (pageDir + k) = 0) s := by
  refine gets_line hL.toSector h.toUnpaged.settled (line_at (n := 0)
    (l := [.mov .dword .edi (.imm (word pageDir)), .xor .eax .eax,
      .mov .dword .ecx (.imm 1024)]) rfl h.eip) rfl fun t1 ht1 h1 _ => ?_
  have hun1 : Flat t1 := h.toFlat.of h1.control
  refine gets_cld hL.toSector hun1.toUnpaged.settled.home (by rw [ht1, h.eip]; rfl) ?_
  have hun2 : Flat { t1.next with df := false } := hun1.of rfl
  refine gets_stosd hL.toSector hun2.toUnpaged.settled.home rfl (n := 1024) (a := pageDir)
    (by decide) ?_ ?_ (fun _ => 0) ?_
    (hun2.toUnpaged.target (Nat.le_trans (by decide) hL.memory) (by decide)) (fun _ j _ => ?_)
    fun t ht hg hw => .now ⟨?_, ?_, hun2.of hw.control, hw.inside⟩
  · show t1.gpr .ecx = _
    rw [h1.gpr]
    rfl
  · show t1.gpr .edi = _
    rw [h1.gpr]
    rfl
  · show bootPioStr.fetch (t1.eip + 1) = _
    rw [ht1, h.eip]
    rfl
  · have heax : t1.gpr .eax = 0 := by
      rw [h1.gpr]
      exact BitVec.xor_self
    show byteAt (t1.gpr .eax) j = 0
    rw [heax]
    exact BitVec.extractLsb'_zero
  · rw [ht]
    show t1.eip + 1 + 1 = 5
    rw [ht1, h.eip]
    rfl
  · refine h.toBase.of hL ?_ (fun y hlo hhi => ?_) (hw.port.trans h1.port) (hw.log.trans h1.log)
    · rw [hg .esp (by decide) (by decide) (by decide)]
      show t1.gpr .esp = _
      rw [h1.gpr]
      rfl
    · rw [hw.outside y fun k hk => by simp only [pageDir]; omega]
      exact congrFun h1.mem y

/-- With the entries of the first `d` pages made, and `m` to go. -/
structure Listed (L : Layout Data) (d m : Nat) (t : State Word) : Prop extends
    Base L t, Flat t where
  eip : t.eip = if m = 0 then 13 else 8
  ecx : t.gpr .ecx = word m
  edi : t.gpr .edi = word (pageTable + 4 * d)
  eax : t.gpr .eax = word (2 ^ 12 * d + 3)
  dir : ∀ k < 2 ^ 12, t.mem (pageDir + k) = 0
  table : ∀ k < d, t.mem.entry32 pageTable k = word (2 ^ 12 * k + 3)

/-- A round of the loop writes one entry of the page table. -/
theorem Listed.round {d m : Nat} (h : Listed L d (m + 1) t) (hL : Fits L) (hd : d + (m + 1) = 1024)
    (hQ : ∀ u, Listed L (d + 1) m u → Gets bootPioStr L A.host Q u) :
    Gets bootPioStr L A.host Q t := by
  have heip : t.eip = 8 := h.eip
  have hea : t.ea L (.base .edi 0 : Mem Data) = pageTable + 4 * d := by
    show (t.gpr .edi + BitVec.ofNat 32 0).toNat = _
    rw [h.edi, word_add, toNat_word (by simp only [pageTable]; omega), Nat.add_zero]
  have hroom : pageTable + 4 * d + 4 ≤ 0x32000 := by simp only [pageTable]; omega
  refine gets_store hL.toSector (o := .reg .eax) (v := word (2 ^ 12 * d + 3)) (by rw [heip]; rfl)
    h.toUnpaged.settled.home hea (congrArg some h.eax) (h.toUnpaged.target (Nat.le_trans hroom hL.memory) (by omega))
    fun t1 ht1 hg1 hw => ?_
  have hun1 : Flat t1 := h.toFlat.of hw.control
  refine gets_line hL.toSector hun1.toUnpaged.settled (line_at (n := 9)
    (l := [.add .edi 4, .add .eax 0x1000]) rfl (by rw [ht1, heip])) rfl fun t2 ht2 h2 hs2 => ?_
  have hg2 : t2.gpr = Function.update (Function.update t.gpr .edi (t.gpr .edi + 4)) .eax
      (t.gpr .eax + 0x1000) := by
    rw [h2.gpr, hg1]
    rfl
  refine gets_count hL.toSector hs2 (n := 11) (k := m) (c := .fill_pt)
    (by rw [ht2, ht1, heip]; rfl) rfl rfl ?_ (by omega) fun u hu hkept _ hm hport hlog hg =>
      hQ u ?_
  · rw [hg2]
    exact h.ecx
  have hmem : u.mem = t1.mem := hm.trans h2.mem
  have hother : ∀ y, y < pageTable + 4 * d ∨ pageTable + 4 * d + 4 ≤ y → u.mem y = t.mem y := by
    intro y hy
    rw [hmem]
    exact hw.outside y fun k hk => by omega
  exact {
    toBase := h.toBase.of hL (by rw [hg, hg2]; rfl)
      (fun y _ hhi => hother y (.inl (by simp only [pageTable]; omega)))
      ((hport.trans h2.port).trans hw.port) ((hlog.trans h2.log).trans hw.log)
    toFlat := hun1.of (hkept.control.trans h2.control)
    eip := hu
    ecx := by rw [hg, Function.update_self]
    edi := by
      rw [hg, hg2]
      show t.gpr .edi + BitVec.ofNat 32 4 = _
      rw [h.edi]
      exact word_add (pageTable + 4 * d) 4
    eax := by
      rw [hg, hg2]
      show t.gpr .eax + BitVec.ofNat 32 0x1000 = _
      rw [h.eax, show 2 ^ 12 * (d + 1) + 3 = 2 ^ 12 * d + 3 + 0x1000 by omega]
      exact word_add (2 ^ 12 * d + 3) 0x1000
    dir := fun k hk => by
      rw [hother _ (.inl (by simp only [pageDir, pageTable]; omega)), h.dir k hk]
    table := fun k hk => by
      by_cases hlast : k = d
      · rw [hlast]
        refine X86.ext_bytes (n := 4) fun i hi => ?_
        rw [Memory.entry32, X86.byteAt_load _ _ hi, hmem, hw.inside i hi]
      · rw [← h.table k (by omega)]
        exact X86.load_congr fun i hi => hother _ (.inl (by omega)) }

/-- The page table maps every page to itself. -/
theorem Listed.all {d m : Nat} (h : Listed L d m t) (hL : Fits L) (hd : d + m = 1024) :
    Gets bootPioStr L A.host (Listed L 1024 0) t := by
  induction m generalizing d t with
  | zero =>
      obtain rfl : d = 1024 := hd
      exact .now h
  | succ m ih => exact h.round hL hd fun u hu => ih hu (by omega)

/-- With the directory entry both tables are set up. -/
theorem Listed.tabled (h : Listed L 1024 0 t)
    (hin : ∀ j < 4, m (pageDir + j) = byteAt (word (pageTable + 3)) j)
    (hout : ∀ y, (∀ j < 4, pageDir + j ≠ y) → m y = t.mem y) : Tabled id m where
  dir := X86.ext_bytes (n := 4) fun i hi => by
    rw [Memory.entry32, X86.byteAt_load _ _ hi]
    exact hin i hi
  rest k hk hlt := X86.ext_bytes (n := 4) fun i hi => by
    rw [Memory.entry32, X86.byteAt_load _ _ hi, hout _ fun j hj => by omega, Nat.add_assoc,
      h.dir _ (by omega)]
    exact (BitVec.extractLsb'_zero).symm
  table k hk := (h.table k hk).symm ▸ X86.load_congr fun i hi => hout _ fun j hj => by
    simp only [pageDir, pageTable]
    omega
  small k hk := Nat.lt_trans hk (by decide)

/-- Paging is turned on. -/
theorem gets_paging (hL : Fits L) (h : Listed L 1024 0 s) :
    Gets bootPioStr L A.host (fun t => t.eip = 19 ∧ Base L t ∧ Paged id t) s := by
  have heip : s.eip = 13 := h.eip
  refine gets_store hL.toSector (o := .imm (word (pageTable ||| 0x03))) (a := pageDir)
    (m := .abs pageDir) (by rw [heip]; rfl) h.toUnpaged.settled.home rfl rfl
    (h.toUnpaged.target (Nat.le_trans (by decide) hL.memory) (by decide)) fun t1 ht1 hg1 hw => ?_
  have hun1 : Flat t1 := h.toFlat.of hw.control
  refine gets_line hL.toSector hun1.toUnpaged.settled (line_at (n := 14)
    (l := [.mov .dword .eax (.imm (word pageDir))]) rfl (by rw [ht1, heip])) rfl
    fun t2 ht2 h2 hs2 => ?_
  have heip2 : t2.eip = 15 := by rw [ht2, ht1, heip]; rfl
  have hun2 : Flat t2 := hun1.of h2.control
  have hcr3 : (t2.control.set (t2.gpr .eax) .cr3).allowed = true := by
    show (!(t2.control.paging && t2.control.longMode) || t2.control.pae) = true
    rw [hun2.paging]
    rfl
  refine gets_toControl hL.toSector hs2 (by rw [heip2]; rfl) hcr3
    fun t3 ht3 hg3 hm3 hport3 hlog3 hc3 => ?_
  have hun3 : Flat t3 := by
    refine ⟨⟨?_⟩, ?_, ?_⟩ <;> rw [hc3]
    exacts [hun2.paging, hun2.longMode, hun2.pae]
  refine gets_fromControl hL.toSector hun3.toUnpaged.settled (by rw [ht3, heip2]; rfl)
    fun t4 ht4 hk4 hs4 hm4 hport4 hlog4 hg4 => ?_
  refine gets_line hL.toSector hs4 (line_at (n := 17) (l := [.or .eax 0x80000000]) rfl
    (by rw [ht4, ht3, heip2])) rfl fun t5 ht5 h5 hs5 => ?_
  have hun5 : Flat t5 := hun3.of (h5.control.trans hk4.control)
  have heip5 : t5.eip = 18 := by rw [ht5, ht4, ht3, heip2]; rfl
  have hcr0 : (t5.control.set (t5.gpr .eax) .cr0).allowed = true := by
    show (!(_ && t5.control.longMode) || _) = true
    rw [hun5.longMode, Bool.and_false]
    rfl
  refine gets_toControl hL.toSector hs5 (by rw [heip5]; rfl) hcr0
    fun t6 ht6 hg6 hm6 hport6 hlog6 hc6 => .now ⟨by rw [ht6, heip5], ?_, ?_⟩
  all_goals have hmem : t6.mem = t1.mem := by rw [hm6, h5.mem, hm4, hm3, h2.mem]
  · refine h.toBase.of hL ?_ (fun y hlo hhi => ?_) ?_ ?_
    · rw [hg6, h5.gpr]
      show t4.gpr .esp = _
      rw [hg4, Function.update_of_ne (by decide), hg3, h2.gpr, ← hg1]
      rfl
    · rw [hmem, hw.outside y fun k hk => by simp only [pageDir]; omega]
    · rw [hport6, h5.port, hport4, hport3, h2.port, hw.port]
    · rw [hlog6, h5.log, hlog4, hlog3, h2.log, hw.log]
  · refine ⟨?_, ?_, ?_, ?_, h.tabled ?_ ?_, rfl⟩
    · rw [hc6, h5.gpr]
      show (t4.gpr .eax ||| 0x80000000).getLsbD 31 = true
      rw [BitVec.getLsbD_or]
      exact Bool.or_true _
    · rw [hc6]
      exact hun5.longMode
    · rw [hc6]
      exact hun5.pae
    · rw [hc6]
      show t5.control.cr3 = _
      rw [h5.control, hk4.control, hc3, h2.gpr]
      rfl
    · rw [hmem]
      exact hw.inside
    · rw [hmem]
      exact hw.outside

/-- **A page moved**: its entry is replaced, and what is cached of it dropped. -/
theorem gets_moved {k f : Nat} (hL : Fits L) (h : Base L s) (hp : Paged frame s)
    (hself : frame 0x21 = 0x21) (heip : s.eip = n)
    (hf : bootPioStr.fetch n = some (.store (.abs (pageTable + 4 * k))
      (.imm (word (2 ^ 12 * f + 3)))))
    (hdrop : bootPioStr.fetch (n + 1) = some (.invlpg (2 ^ 12 * k))) (hk : k < 2 ^ 10)
    (hhome : k ≠ 7) (hframe : f < 2 ^ 20) :
    Gets bootPioStr L A.host (fun t => t.eip = n + 2 ∧ Base L t ∧
      Paged (Function.update frame k f) t) s := by
  have hbyte : ∀ j < 4, byte? L s.tables (pageTable + 4 * k + j)
      = some (pageTable + 4 * k + j) := by
    intro j hj
    have hmem := hL.memory
    have hpage : (pageTable + 4 * k + j) / 2 ^ 12 = 0x21 := by simp only [pageTable]; omega
    have haddr : address s.tables (pageTable + 4 * k + j) = some (pageTable + 4 * k + j) := by
      rw [address, if_pos (by simp only [pageTable]; omega), PageMap.address, hpage, hp.tables,
        mapOf, if_pos (by decide), hself, Option.map_some]
      congr 1
      omega
    rw [byte?, haddr, Option.filter_some,
      if_pos (decide_eq_true (by simp only [pageTable]; omega))]
  let v : BitVec (8 * 4) := word (2 ^ 12 * f + 3)
  let t : State Word := { s with mem := s.mem.store (pageTable + 4 * k) v }.next
  have hexec : exec bootPioStr L A.host s.tables s (.store (.abs (pageTable + 4 * k))
      (.imm (word (2 ^ 12 * f + 3)))) = some t := by
    have hstore : s.store L s.tables (pageTable + 4 * k) v
        = some { s with mem := s.mem.store (pageTable + 4 * k) v } := by
      rw [State.store, storeBytes_at hbyte, Option.map_some]
    rw [exec, Operand.value, Option.bind_some, State.ea, hstore]
  have houtside : ∀ y, y < pageTable + 4 * k ∨ pageTable + 4 * k + 4 ≤ y → t.mem y = s.mem y :=
    fun y hy => X86.store_outside _ _ hy
  have hpt : Paged (Function.update frame k f) t := {
    paging := hp.paging
    longMode := hp.longMode
    pae := hp.pae
    cr3 := hp.cr3
    tabled := hp.tabled.replace hk hframe (fun j hj => X86.store_inside _ _ v hj)
      fun y hy => houtside y (by
        by_contra hno
        exact hy (y - (pageTable + 4 * k)) (by omega) (by omega))
    home := by rw [Function.update_of_ne (Ne.symm hhome), hp.home] }
  have hpage : 2 ^ 12 * k / 2 ^ 12 = k := Nat.mul_div_cancel_left k (by decide)
  refine .remap (t := t) (a := 2 ^ 12 * k) (fetch_home hL.toSector hp.settled.home (heip ▸ hf)) hexec
    (fun p hne => ?_) (fetch_home hL.toSector hpt.settled.home ?_) ?_
    (.now ⟨by rw [← heip]; rfl, ?_, hpt.of rfl fun _ _ _ => rfl⟩)
  · rw [hpt.tables, hp.tables, mapOf, mapOf, Function.update_of_ne (hpage ▸ hne)]
  · show bootPioStr.fetch (s.eip + 1) = _
    rw [heip]
    exact hdrop
  · have hlt := fetch_some_lt hdrop
    have hlo := hL.low _ hlt
    have hhi := hL.high _ hlt
    show ¬ (L.code (s.eip + 1)).toNat / 2 ^ 12 = _
    rw [heip, hpage]
    omega
  · exact h.of hL rfl (fun y _ hhi => houtside y (.inl (by simp only [pageTable]; omega))) rfl rfl

/-- The frames of the two moved pages. -/
def moved : Nat → Nat := Function.update (Function.update id 0x11 0x31) 0x12 0x30

/-- **Paging as the test wants it**, whatever is cached meanwhile. -/
theorem gets_setup (hL : Fits L) (h : Boot L s) :
    Gets bootPioStr L A.host (fun t => t.eip = 23 ∧ Base L t ∧ Paged moved t) s := by
  refine (gets_clear hL h).bind fun t1 ⟨heip1, hb1, hun1, hdir⟩ => ?_
  refine gets_line hL.toSector hun1.toUnpaged.settled (line_at (n := 5)
    (l := [.mov .dword .edi (.imm (word pageTable)), .mov .dword .eax (.imm 0x03),
      .mov .dword .ecx (.imm 1024)]) rfl heip1) rfl fun t2 ht2 h2 _ => ?_
  have hlisted : Listed L 0 1024 t2 := {
    toBase := hb1.of hL (by rw [h2.gpr]; rfl) (fun y _ _ => congrFun h2.mem y) h2.port h2.log
    toFlat := hun1.of h2.control
    eip := by rw [ht2, heip1]; rfl
    ecx := by rw [h2.gpr]; rfl
    edi := by rw [h2.gpr]; rfl
    eax := by rw [h2.gpr]; rfl
    dir := fun k hk => by rw [h2.mem, hdir k hk]
    table := fun k hk => absurd hk (Nat.not_lt_zero k) }
  refine (hlisted.all hL rfl).bind fun t3 h3 => ?_
  refine (gets_paging hL h3).bind fun t4 ⟨heip4, hb4, hp4⟩ => ?_
  refine (gets_moved (k := 0x11) (f := 0x31) hL hb4 hp4 rfl heip4 rfl rfl (by decide) (by decide)
    (by decide)).bind fun t5 ⟨heip5, hb5, hp5⟩ => ?_
  exact gets_moved (k := 0x12) (f := 0x30) hL hb5 hp5 rfl heip5 rfl rfl (by decide) (by decide)
    (by decide)

end QemuTest.Asm32.PioStr

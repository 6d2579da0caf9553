import QemuTest.Asm.BootFpSse
import QemuTest.Asm.Messages
import QemuTest.Lib.X86.Replay
import QemuTest.Lib.X86.Straight

/-!
# Asm — FpSsePass

The FP/SSE payload on a processor that keeps its state. What it stores for its
comparisons is what it loaded (`Intact`), so that each of them is passed, and
it reports success round after round (`rounds`).
-/

namespace QemuTest.Asm.FpSse

open X86 Runs

-- the checks walk down the whole program
set_option maxRecDepth 20000

variable {L : Layout Data} {s t : State} {inp : Byte} {i : Instr Label Data} {port : Port}
  {log : List Byte} {n m : Nat}

/-! ## What is stored -/

/-- The copies the payload makes for its comparisons. -/
inductive Copy where
  | cw | mxcsr
  | xmm (j : Fin 16)
  | x87 (m : Fin 4)
  deriving DecidableEq

namespace Copy

def all : List Copy := [.cw, .mxcsr] ++ (List.finRange 16).map .xmm ++ (List.finRange 4).map .x87

theorem mem_all (c : Copy) : c ∈ all := by
  cases c <;> simp [all]

/-- The instruction that stores it, and the last one in front of which it is
still there. -/
def store : Copy → Nat
  | .cw => 29
  | .mxcsr => 33
  | .xmm j => 38 + j.val
  | .x87 m => fistpOf m

def last : Copy → Nat
  | .cw => 33
  | .mxcsr => 37
  | .xmm _ => 64
  | .x87 _ => 81

def size : Copy → Nat
  | .cw => 2
  | .mxcsr => 4
  | .xmm _ => 16
  | .x87 _ => 8

/-- Where it lies, and where what was loaded does. -/
def place (L : Layout Data) : Copy → Nat
  | .cw => L.data .x87_cw_seen
  | .mxcsr => L.data .mxcsr_seen
  | .xmm j => 0x5000 + 16 * j.val
  | .x87 m => cellOf m

def original (L : Layout Data) : Copy → Nat
  | .cw => L.data .x87_cw_value + 0
  | .mxcsr => L.data .mxcsr_value + 0
  | .xmm j => L.data .xmm_patterns + 16 * j.val
  | .x87 m => valueAt L m

/-- A copy is what was loaded. -/
def Right (L : Layout Data) (s : State) (c : Copy) : Prop :=
  c.store < s.rip → s.rip ≤ c.last →
    s.mem.load (c.place L) c.size = s.mem.load (c.original L) c.size

/-- Does it lie in the image? -/
def inImage : Copy → Bool
  | .cw | .mxcsr => true
  | _ => false

/-- No way leads around the store, and behind that of a copy in the image
nothing is stored. -/
def ok (c : Copy) : Bool :=
  program.allEdges fun n i m =>
    !(c.store < m && m ≤ c.last) || n = c.store ||
      (c.store < n && n ≤ c.last && (!c.inImage || !i.writes .mem))

theorem ok_all : ∀ c ∈ all, c.ok = true := by decide

end Copy

/-- What the payload loaded stays. -/
theorem original_step (hL : fpSseGuest.Fits L) (hs : Sound L s)
    (hedge : Edge program s.rip i t.rip) (h : exec program L inp s i = some t) (c : Copy) :
    t.mem.load (c.original L) c.size = s.mem.load (c.original L) c.size := by
  cases c with
  | cw => exact load_step hL hs hedge h .x87_cw_value rfl (by decide)
  | mxcsr => exact load_step hL hs hedge h .mxcsr_value rfl (by decide)
  | xmm j =>
      refine load_step hL hs hedge h .xmm_patterns rfl ?_
      rw [length_patterns, Copy.size]
      omega
  | x87 m =>
      refine load_step hL hs hedge h .x87_values rfl ?_
      rw [length_values, Copy.size]
      omega

theorem observed_store : ∀ p ∈ observed, (program.observedNext p (storeOf p)).isSome = true := by
  simp only [observedNext_eq]
  decide

/-- **On a processor that keeps its state**: every part is what was loaded, in
its register and where it is stored, and no x87 exception is pending. -/
structure Intact (L : Layout Data) (s : State) : Prop where
  sound : Sound L s
  holding : ∀ p ∈ observed, (program.observedNext p s.rip).isSome → Holding L s p
  shaped : Shaped s
  loaded : Loaded L s
  clear : s.fpu.es = false
  right : ∀ c, Copy.Right L s c

/-- What is stored is what was loaded. -/
theorem copy_store (hs : Intact L s) {c : Copy}
    (hat : s.rip = c.store) (hedge : Edge program s.rip i t.rip)
    (h : exec program L inp s i = some t) :
    t.mem.load (c.place L) c.size = s.mem.load (c.original L) c.size := by
  obtain ⟨hcw, hmxcsr, hxmm⟩ := store_fetch
  have hholding : ∀ p ∈ observed, s.rip = storeOf p → Holding L s p := fun p hp hrip =>
    hs.holding p hp (hrip ▸ observed_store p hp)
  cases c with
  | cw =>
      obtain rfl := Option.some.inj (hcw.symm.trans (hat ▸ hedge.1))
      exact (exec_fnstcw h).trans (hholding .cw (by decide) hat)
  | mxcsr =>
      obtain rfl := Option.some.inj (hmxcsr.symm.trans (hat ▸ hedge.1))
      exact (exec_stmxcsr h).trans (hholding .mxcsr (by decide) hat)
  | xmm j =>
      obtain ⟨hfetch, hconst⟩ := hxmm j
      obtain rfl := Option.some.inj (hfetch.symm.trans (hat ▸ hedge.1))
      have hrdi : s.gpr .rdi = BitVec.ofNat 64 0x5000 :=
        hs.sound.constants .rdi (.imm 0x5000) (hat ▸ hconst)
      have hstored : t.mem.load (0x5000 + 16 * j.val) 16 = (s.vec j).setWidth 128 :=
        exec_vstore h hrdi (by omega)
      exact hstored.trans (hholding (.xmm j) (by simp [observed]) hat)
  | x87 m =>
      obtain ⟨hfetch, hconst, -⟩ := fistp_fetch m
      have hat' : s.rip = fistpOf m := hat
      obtain rfl := Option.some.inj (hfetch.symm.trans (hat' ▸ hedge.1))
      have hrdi : s.gpr .rdi = BitVec.ofNat 64 0x6000 :=
        hs.sound.constants .rdi (.imm 0x6000) (hat' ▸ hconst)
      have hea : (Mem.base Reg.rdi (8 * m.val)).ea L s = cellOf m :=
        ea_base (8 * m.val) hrdi (by omega)
      obtain ⟨-, -, hsome, -⟩ := exec_fistp h
      have htop : s.fpu.top = slotOf m := by
        have := (hs.shaped (by rw [hat', fistpOf]; omega) (by rw [hat', fistpOf]; omega)
          hs.clear).top
        rw [hat', height_fistp.1] at this
        exact Fin.ext (by rw [this, slotOf_val]; omega)
      have hint := stored_of_loaded (m := m) hs.shaped hs.loaded
        (by rw [hat']; simp only [fildOf, fistpOf]; omega) hat'.le
      rw [hea, htop] at hsome
      have hstored : s.fpu.stored (slotOf m) = some (s.mem.load (valueAt L m) 8) := by
        rw [Fpu.stored, hint]
      exact hsome _ hstored

/-- Behind its store a copy stays. -/
theorem copy_stays (hL : fpSseGuest.Fits L) (hs : Sound L s) {c : Copy}
    (hlo : c.store < s.rip) (hhi : s.rip ≤ c.last)
    (hquiet : c.inImage = true → i.writes .mem = false) (hedge : Edge program s.rip i t.rip)
    (h : exec program L inp s i = some t) :
    t.mem.load (c.place L) c.size = s.mem.load (c.place L) c.size := by
  cases c with
  | cw | mxcsr => rw [show t.mem = s.mem from exec_agree (p := .mem) h (hquiet rfl)]
  | xmm j =>
      simp only [Copy.store, Copy.last] at hlo hhi
      refine load_congr fun k hk => ?_
      simp only [Copy.size] at hk
      refine scratch_step hL hs hedge h (by omega) (by omega)
        (by simp only [Copy.place]; omega) (fun j' hat => ?_) fun m hat => ?_
      · simp only [Copy.place]
        omega
      · simp only [fistpOf] at hat
        omega
  | x87 m =>
      simp only [Copy.store, Copy.last, fistpOf] at hlo hhi
      refine load_congr fun k hk => ?_
      simp only [Copy.size] at hk
      refine scratch_step hL hs hedge h (by omega) (by omega)
        (by simp only [Copy.place, cellOf]; omega) (fun j' hat => ?_) fun m' hat => ?_
      · omega
      · simp only [fistpOf, Copy.place, cellOf] at hat ⊢
        omega

/-- Outside the loop's checks no instruction touches the x87 unit. -/
theorem clear_all : program.allEdges (fun _ i m =>
    (3 ≤ m && m ≤ 69) || !i.writes .tags) = true := by decide

/-- **Every step keeps all of it.** -/
theorem intact_step (hL : fpSseGuest.Fits L) (hs : Intact L s) (h : Steps program L s inp t) :
    Intact L t := by
  obtain ⟨i, hfetch, hexec⟩ := step_eq_some.mp h
  obtain ⟨hsound, hedge⟩ := sound_step hL hs.sound hfetch hexec
  have hloaded := loaded_step hL hs.sound hs.shaped hs.loaded hedge hexec
  refine ⟨hsound, fun p hp => holding_step hL hs.sound hp (hs.holding p hp) hedge hexec,
    shaped_step hs.shaped hedge hexec, hloaded, ?_, fun c hlo hhi => ?_⟩
  · have hck := allEdges_spec clear_all hedge
    simp only [Bool.or_eq_true, Bool.and_eq_true, decide_eq_true_eq, Bool.not_eq_true'] at hck
    rcases hck with ⟨hlo, hhi⟩ | hquiet
    · exact (hloaded hlo hhi).1
    · exact (exec_agree (p := .tags) hexec hquiet).2.2.trans hs.clear
  · rw [original_step hL hs.sound hedge hexec c]
    have hck := allEdges_spec (Copy.ok_all c c.mem_all) hedge
    simp only [hlo, hhi, decide_true, Bool.and_self, Bool.not_true, Bool.false_or,
      Bool.or_eq_true, Bool.and_eq_true, decide_eq_true_eq, Bool.not_eq_true'] at hck
    rcases hck with hat | ⟨⟨hlo', hhi'⟩, hquiet⟩
    · exact copy_store hs hat hedge hexec
    · rw [copy_stays hL hs.sound hlo' hhi' (fun hin => hquiet.resolve_left (by simp [hin]))
        hedge hexec]
      exact hs.right c hlo' hhi'

theorem intact_boot (hL : fpSseGuest.Fits L) (h₀ : fpSseGuest.Boot L s)
    (hclear : s.fpu.es = false) : Intact L s := by
  obtain ⟨hsound, hholding, hshaped, hloaded⟩ := source_run hL h₀ .nil
  refine ⟨hsound, hholding, hshaped, hloaded, hclear, fun c hlo => ?_⟩
  rw [h₀.rip] at hlo
  exact absurd hlo (Nat.not_lt_zero _)

/-! ## One round -/

/-- The loop stands at instruction `n`, with `log` sent. -/
structure At (L : Layout Data) (n : Nat) (log : List Byte) (s : State) : Prop where
  intact : Intact L s
  rip : s.rip = n
  log : s.log = log

theorem keeping_at (hL : fpSseGuest.Fits L) (hs : Intact L s)
    (h : Gets program L port 0 (fun t => t.rip = m ∧ t.log = log) s) :
    Gets program L port 0 (At L m log) s :=
  (h.keeping hs fun _ _ _ ht hstep => intact_step hL ht hstep).bind
    fun _ ht => .now ⟨ht.1, ht.2.1, ht.2.2⟩

theorem within_page (hL : fpSseGuest.Fits L) (x : Data) :
    L.data x + (contents x).length ≤ L.limit := by
  have hhigh := hL.high x
  rw [hL.limit]
  exact hhigh.trans (by decide)

/-- The MXCSR that is loaded has no reserved bits. -/
theorem mxcsr_value (hs : Sound L s) :
    (s.mem.load (L.data .mxcsr_value + 0) 4).toNat < 2 ^ 16 := by
  have hvalue : s.mem.load (L.data .mxcsr_value + 0) 4
      = Memory.load (fun k => (contents .mxcsr_value).getD k 0) 0 4 := by
    refine load_congr fun k hk => ?_
    rw [Nat.add_zero, Nat.zero_add]
    exact hs.image .mxcsr_value rfl k hk
  rw [hvalue]
  decide

theorem ldmxcsr_operand : ∀ i ∈ program.instrs, i.writes .mxcsr = true →
    i = .ldmxcsr (.rel .mxcsr_value 0) := by decide

/-- **A line of the loop** is gone down to its end. -/
theorem line_at (hL : fpSseGuest.Fits L)
    (htame : program.tame joins (fun x => (contents x).length) 0x7e00 n m = true)
    (hle : n ≤ m) (hs : At L n log s) : Gets program L port 0 (At L m log) s := by
  have hgets : Gets program L port 0 (fun t => Intact L t ∧ t.rip = m ∧ t.log = s.log) s := by
    refine tame_gets (fun _ _ _ => intact_step hL) (fun _ ht => ht.sound.constants)
      (within_page hL) (by rw [hL.limit]; decide) (by rw [hL.limit]; decide) htame
      (fun t i ht _ _ => ht.clear) (fun t x ht hfetch => ?_) (Nat.zero_le _) hs.rip hle hs.intact
    obtain ⟨rfl⟩ := Instr.ldmxcsr.inj (ldmxcsr_operand _ (List.mem_of_getElem? hfetch) rfl)
    exact mxcsr_value ht.sound
  rw [hs.log] at hgets
  exact hgets.bind fun _ ht => .now ⟨ht.1, ht.2.1, ht.2.2⟩

/-- A comparison of a copy with what was loaded is passed. -/
theorem check_at (hL : fpSseGuest.Fits L) {w : Width} {a b : Mem Data} {x y out : Nat}
    (hP : CellCheck program w a b n out) (hs : At L n log s) (ha : a.ea L s = x)
    (hb : ∀ v, b.ea L (s.setReg .rax v).next = y) (hx : x + w.bytes ≤ L.limit)
    (hy : y + w.bytes ≤ L.limit) (heq : s.mem.load x w.bytes = s.mem.load y w.bytes) :
    Gets program L port 0 (At L (n + 3) log) s := by
  have hgets : Gets program L port 0 (fun t => t.rip = n + 3 ∧ t.log = s.log) s :=
    cell_gets hP (Nat.zero_le _) hs.rip ha hb hx hy heq
  rw [hs.log] at hgets
  exact keeping_at hL hs.intact hgets

/-- The loads and the spin. -/
theorem loads_at (hL : fpSseGuest.Fits L) (hs : At L 2 log s) :
    Gets program L port 0 (At L 29 log) s := by
  refine (line_at (m := 27) hL (by decide) (by decide) hs).bind fun t ht => ?_
  have hspin : Gets program L port 0 (fun u => u.rip = 27 + 2 ∧ u.log = t.log) t :=
    countdown_gets (r := .rcx) (c := .spin) rfl rfl rfl (Nat.zero_le _) ht.rip
  rw [ht.log] at hspin
  exact keeping_at hL ht.intact hspin

/-- The control words. -/
theorem controls_at (hL : fpSseGuest.Fits L) (hs : At L 29 log s) :
    Gets program L port 0 (At L 37 log) s := by
  have hcell : ∀ (x : Data) k, k ≤ (contents x).length → L.data x + k ≤ L.limit :=
    fun x k hk => (Nat.add_le_add_left hk _).trans (within_page hL x)
  refine (line_at (m := 30) hL (by decide) (by decide) hs).bind fun t ht => ?_
  refine (check_at hL cwCheck ht (x := L.data .x87_cw_seen + 0)
    (y := L.data .x87_cw_value + 0) rfl (fun _ => rfl) (hcell .x87_cw_seen 2 (by decide))
    (hcell .x87_cw_value 2 (by decide)) ?_).bind fun u hu => ?_
  · exact ht.intact.right .cw (by rw [ht.rip]; decide) (by rw [ht.rip]; decide)
  refine (line_at (m := 34) hL (by decide) (by decide) hu).bind fun v hv => ?_
  refine check_at hL mxcsrCheck hv (x := L.data .mxcsr_seen + 0)
    (y := L.data .mxcsr_value + 0) rfl (fun _ => rfl) (hcell .mxcsr_seen 4 (by decide))
    (hcell .mxcsr_value 4 (by decide)) ?_
  exact hv.intact.right .mxcsr (by rw [hv.rip]; decide) (by rw [hv.rip]; decide)

/-- The quadwords of the stored registers are those of the patterns. -/
theorem sameWord_of_right (hs : Intact L s) (hlo : 53 < s.rip) (hhi : s.rip ≤ 64) {k : Nat}
    (hk : k < 32) : SameWord (L.data .xmm_patterns) 0x5000 s.mem k := by
  have hrow := hs.right (.xmm ⟨k / 2, by omega⟩) (by simp only [Copy.store]; omega) hhi
  simp only [Copy.place, Copy.original, Copy.size] at hrow
  refine load_congr fun b hb => ?_
  have hbyte := load_inj hrow (show 8 * (k % 2) + b < 16 by omega)
  rwa [show 0x5000 + 16 * (k / 2) + (8 * (k % 2) + b) = 0x5000 + 8 * k + b by omega,
    show L.data .xmm_patterns + 16 * (k / 2) + (8 * (k % 2) + b)
      = L.data .xmm_patterns + 8 * k + b by omega, eq_comm] at hbyte

/-- The XMM registers. -/
theorem registers_at (hL : fpSseGuest.Fits L) (hs : At L 37 log s) :
    Gets program L port 0 (At L 64 log) s := by
  have hlimit := hL.limit
  have hhigh := hL.high .xmm_patterns
  refine (line_at (m := 54) hL (by decide) (by decide) hs).bind fun t ht => ?_
  -- the two pointers and the counter
  let u : State := (t.setReg .rsi (BitVec.ofNat 64 (L.data .xmm_patterns))).next
  have hu : exec program L 0 t (.lea .rsi (.rel .xmm_patterns 0)) = some u := rfl
  let v : State := (u.setReg .rdi 0x5000).next
  have hv : exec program L 0 u (.mov .qword .rdi (.imm 0x5000)) = some v := rfl
  let w : State := (v.setReg .rcx 32).next
  have hw : exec program L 0 v (.mov .qword .rcx (.imm 32)) = some w := rfl
  have hat1 : u.rip = 55 := congrArg (· + 1) ht.rip
  have hat2 : v.rip = 56 := congrArg (· + 1) hat1
  have hat3 : w.rip = 57 := congrArg (· + 1) hat2
  have hcur : Cursor (L.data .xmm_patterns) 0x5000 32 0 0 0 w := ⟨rfl, rfl, rfl⟩
  have hloop : Gets program L port 0 (fun x => x.mem = w.mem ∧ x.log = w.log ∧
      ((∀ k, 0 ≤ k → k < 32 → SameWord (L.data .xmm_patterns) 0x5000 w.mem k) ∧ x.rip = 64 ∨
        (∃ k, 0 ≤ k ∧ k < 32 ∧ ¬ SameWord (L.data .xmm_patterns) 0x5000 w.mem k) ∧
          x.rip = 88)) w :=
    compare_gets compareLoop (Nat.zero_le _) (by omega) (by omega) (by omega) (by decide)
      hat3 hcur
  refine keeping_at hL ht.intact (.cons (Nat.zero_le _) (by rw [ht.rip]; rfl) rfl hu
    (.cons (Nat.zero_le _) (by rw [hat1]; rfl) rfl hv
      (.cons (Nat.zero_le _) (by rw [hat2]; rfl) rfl hw (hloop.bind ?_))))
  rintro x ⟨-, hlog, ⟨-, hrip⟩ | ⟨⟨k, -, hk, hne⟩, -⟩⟩
  · exact .now ⟨hrip, hlog.trans ht.log⟩
  · exact absurd (sameWord_of_right ht.intact (by rw [ht.rip]; decide) (by rw [ht.rip]; decide)
      hk) hne

theorem check_rdi : ∀ m, program.constants joins (checkOf m) .rdi = some (.imm 0x6000) := by
  decide

/-- The comparison of one x87 value. -/
theorem value_at (hL : fpSseGuest.Fits L) (m : Fin 4) (hs : At L (checkOf m) log s) :
    Gets program L port 0 (At L (checkOf m + 3) log) s := by
  have hlen : L.data .x87_values + 32 ≤ L.limit := by
    have := within_page hL .x87_values
    rwa [length_values] at this
  have hlimit := hL.limit
  have hcell : ∀ v, (Mem.base Reg.rdi (8 * m.val)).ea L (s.setReg .rax v).next = cellOf m := by
    intro v
    refine ea_base (8 * m.val) ?_ (by omega)
    show Function.update s.gpr .rax v .rdi = _
    rw [Function.update_of_ne (by decide)]
    exact hs.intact.sound.constants .rdi (.imm 0x6000) (hs.rip ▸ check_rdi m)
  refine check_at hL (valueCheck m) hs (x := valueAt L m) rfl hcell ?_ ?_ ?_
  · show valueAt L m + 8 ≤ _
    rw [valueAt]
    omega
  · show cellOf m + 8 ≤ _
    rw [cellOf]
    omega
  · refine (hs.intact.right (.x87 m) ?_ ?_).symm
    · rw [hs.rip, Copy.store, fistpOf, checkOf]
      omega
    · rw [hs.rip, Copy.last, checkOf]
      omega

/-- The x87 values. -/
theorem values_at (hL : fpSseGuest.Fits L) (hs : At L 64 log s) :
    Gets program L port 0 (At L 81 log) s :=
  (line_at (m := 69) hL (by decide) (by decide) hs).bind fun _ h0 =>
    (value_at hL 0 h0).bind fun _ h1 => (value_at hL 1 h1).bind fun _ h2 =>
      (value_at hL 2 h2).bind fun _ h3 => value_at hL 3 h3

theorem contents_ready : fpSseGuest.contents .msg_ready = msgLine "FPSSE:READY" ++ [0] := rfl

theorem contents_ok : fpSseGuest.contents .msg_ok = msgLine "FPSSE:OK" ++ [0] := rfl

theorem ready_nonzero : (0 : Byte) ∉ msgLine "FPSSE:READY" := by
  unfold msgLine ascii Text.lit
  decide

theorem ok_nonzero : (0 : Byte) ∉ msgLine "FPSSE:OK" := by
  unfold msgLine ascii Text.lit
  decide

/-- The report, and back to the head of the loop. -/
theorem again_at (hL : fpSseGuest.Fits L) (hport : port.Fair) (hs : At L 81 log s) :
    Gets program L port 0 (At L 2 (log ++ msgLine "FPSSE:OK")) s := by
  have hreport := Guest.message_gets wired hL hport contents_ok ok_nonzero (n := 81) rfl rfl rfl
    (Nat.zero_le _) (by decide) hs.rip hs.intact.sound.nested
    (hs.intact.sound.image .msg_ok rfl)
  rw [hs.log] at hreport
  refine (keeping_at hL hs.intact hreport).bind fun t ht => ?_
  have hjmp : exec program L 0 t (.jmp .state_loop) = some (t.goto 2) := rfl
  have hfetch : program.fetch t.rip = some (.jmp .state_loop) := by
    rw [ht.rip]
    rfl
  exact keeping_at hL ht.intact
    (.cons (Nat.zero_le _) hfetch rfl hjmp (.now ⟨rfl, ht.log⟩))

/-- The instruction behind the last check. -/
def report : Nat := 81

/-- From the head of the loop behind the last check. -/
theorem checks_at (hL : fpSseGuest.Fits L) (hs : At L 2 log s) :
    Gets program L port 0 (At L report log) s :=
  (loads_at hL hs).bind fun _ h29 => (controls_at hL h29).bind fun _ h37 =>
    (registers_at hL h37).bind fun _ h64 => values_at hL h64

/-- The payload gets ready, when no x87 exception is pending at its start. -/
theorem ready_gets (hL : fpSseGuest.Fits L) (hport : port.Fair) (h₀ : fpSseGuest.Boot L s)
    (hclear : s.fpu.es = false) : Gets program L port 0 (At L 2 (msgLine "FPSSE:READY")) s := by
  have hboot := intact_boot hL h₀ hclear
  have hready := Guest.message_gets wired hL hport contents_ready ready_nonzero (n := 0) rfl rfl
    rfl (Nat.zero_le _) (by decide) h₀.rip hboot.sound.nested
    (hboot.sound.image .msg_ready rfl)
  rw [h₀.log, List.nil_append] at hready
  exact keeping_at hL hboot hready

/-- The payload comes to the head of the loop again and again. -/
theorem at_heads (hL : fpSseGuest.Fits L) (h₀ : fpSseGuest.Boot L s)
    (hclear : s.fpu.es = false) (port : Port) (hport : port.Fair) (m : Nat) :
    Gets program L port 0
      (At L 2 (X86.rounds (msgLine "FPSSE:READY") (msgLine "FPSSE:OK") m)) s :=
  heads (fun _ _ ht => ht.log) (fun _ hport => ready_gets hL hport h₀ hclear)
    (fun _ hport _ _ ht => (checks_at hL ht).bind fun _ h81 => again_at hL hport h81)
    port hport m

/-- **The FP/SSE payload** reports success round after round. -/
theorem rounds (hL : fpSseGuest.Fits L) (h₀ : fpSseGuest.Boot L s)
    (hclear : s.fpu.es = false) :
    Rounds program L (msgLine "FPSSE:READY") (msgLine "FPSSE:OK") s := fun port hport m =>
  (at_heads hL h₀ hclear port hport m).bind fun _ ht => .now ht.log

end QemuTest.Asm.FpSse

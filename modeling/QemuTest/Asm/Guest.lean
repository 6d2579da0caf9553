import QemuTest.Asm.Serial64
import QemuTest.Lib.X86.Constants
import QemuTest.Lib.Runs

/-!
# Asm — Guest

A 64-bit payload: its program from the point where the processor is set up,
the data behind it, the top of its stack, and the parts of the state it claims
to verify. A run of it starts with the image in memory. `Switched` is the switch
to a destination that may have anything in its registers; under `Migrated` it
has lost nothing but verified parts.
-/

namespace QemuTest.Asm

open X86 Runs

/-! ## The switch -/

/-- The switch from source to destination, between two instructions: the place in
the program and the memory arrive, the destination's log is empty. -/
structure Switched (s d : State) : Prop where
  rip : d.rip = s.rip
  mem : d.mem = s.mem
  log : d.log = []

/-- What the serial routine goes on with arrives: where its string is, the
character at hand, the port, and the outcome of a test. -/
structure SerialArrives (body : Nat) (s d : State) : Prop where
  rsi : body ≤ s.rip → s.rip < body + 12 → d.gpr .rsi = s.gpr .rsi
  rax : body < s.rip → s.rip < body + 5 ∨ body + 7 < s.rip → s.rip < body + 11 →
    d.gpr .rax = s.gpr .rax
  rdx : s.rip = body + 5 ∨ s.rip = body + 10 → d.gpr .rdx = s.gpr .rdx
  flags : s.rip = body + 2 → d.flags = s.flags

section

variable {C D : Type} {P : Program C D} {L : Layout D} {body top : Nat} {s d : State}

/-- The stack discipline survives the switch if the stack pointer does. -/
theorem Switched.nested (h : Switched s d) (hrsp : d.gpr .rsp = s.gpr .rsp)
    (hs : Nested P L body top s) : Nested P L body top d where
  rsp := by rw [hrsp, h.rip, hs.rsp]
  site := by
    intro hle
    rw [h.mem]
    exact hs.site (h.rip ▸ hle)

/-- The serial routine goes on where it was. -/
theorem Switched.printing (h : Switched s d) (ha : SerialArrives body s d) {a ret k : Nat}
    {full : List Byte} (hs : Printing L body top a full ret s k) :
    Printing L body top a full ret d k := by
  refine ⟨?_, by rw [h.mem]; exact hs.site, by rw [h.mem]; exact hs.str⟩
  have hal : body < s.rip → s.rip < body + 5 ∨ body + 7 < s.rip → s.rip < body + 11 →
      d.al = s.al := by
    intro hlo hin hhi
    rw [State.al, ha.rax hlo hin hhi, State.al]
  have hrip := h.rip
  cases hs.sending with
  | next rip rsi le => exact .next (by rwa [hrip]) (by rwa [ha.rsi (by omega) (by omega)]) le
  | loaded rip rsi le al =>
      have hal := hal (by omega) (by omega) (by omega)
      refine .loaded ?_ (by rwa [ha.rsi (by omega) (by omega)]) le (by rwa [hal])
      rw [hrip, hal]
      refine rip.imp_right fun hat => ⟨hat.1, ?_⟩
      rw [ha.flags hat.1]
      exact hat.2
  | waiting rip rsi lt al =>
      exact .waiting (by rwa [hrip]) (by rwa [ha.rsi (by omega) (by omega)]) lt
        (by rwa [hal (by omega) (by omega) (by omega)])
  | polling rip rsi lt saved =>
      exact .polling (by rwa [hrip]) (by rwa [ha.rsi (by omega) (by omega)]) lt (by rwa [h.mem])
  | ready rip port rsi lt al =>
      exact .ready (by rwa [hrip]) (by rwa [ha.rdx (.inr rip)])
        (by rwa [ha.rsi (by omega) (by omega)]) lt (by rwa [hal (by omega) (by omega) (by omega)])
  | done rip eq => exact .done (by rwa [hrip]) eq

end

/-! ## Payloads -/

structure Guest where
  Label : Type
  Data : Type
  [decLabel : DecidableEq Label]
  [decData : DecidableEq Data]
  program : Program Label Data
  contents : Data → List Byte
  stackTop : Nat
  verified : List Part

attribute [instance] Guest.decLabel Guest.decData

namespace Guest

/-- The layout of a payload: its image is the sectors read to `0x7e00`, within
the one 2 MB page that is mapped. -/
structure Fits (g : Guest) (L : Layout g.Data) : Prop where
  code : L.Injective g.program
  limit : L.limit = 0x200000
  low : ∀ d, 0x7e00 ≤ L.data d
  high : ∀ d, L.data d + (g.contents d).length ≤ 0x9c00
  apart : ∀ d d', d ≠ d' → L.data d + (g.contents d).length ≤ L.data d' ∨
    L.data d' + (g.contents d').length ≤ L.data d

/-- The bytes of a data label are in memory. -/
def Holds (g : Guest) (L : Layout g.Data) (m : Memory) (d : g.Data) : Prop :=
  ∀ k < (g.contents d).length, m (L.data d + k) = (g.contents d).getD k 0

/-- The start: the stack is empty, the image loaded. -/
structure Boot (g : Guest) (L : Layout g.Data) (s : State) : Prop where
  rip : s.rip = 0
  rsp : s.gpr .rsp = BitVec.ofNat 64 g.stackTop
  image : ∀ d, g.Holds L s.mem d
  log : s.log = []

/-- The steps of the guest, each with the byte its `in` would read. -/
abbrev Step (g : Guest) (L : Layout g.Data) (s : State) (inp : Byte) (t : State) : Prop :=
  step g.program L s inp = some t

/-- A switch by which nothing is lost but what the payload verifies. -/
structure Migrated (g : Guest) (s d : State) : Prop where
  rip : d.rip = s.rip
  kept : ∀ p : Part, (∀ q ∈ g.verified, p.overlaps q = false) → p ≠ .log → p.agree s d
  log : d.log = []

/-- Some verified part did not arrive. -/
def Differs (g : Guest) (s d : State) : Prop := ∃ p ∈ g.verified, ¬ p.agree s d

variable {g : Guest} {L : Layout g.Data} {s t d : State} {m : Memory}

/-! ## The image -/

/-- A message of the image is a string for the serial routine. -/
theorem cstring_of_holds (hL : g.Fits L) {x : g.Data} (hm : g.Holds L m x)
    {full : List Byte} (hx : g.contents x = full ++ [0]) (h0 : 0 ∉ full) :
    CString m (L.data x) full where
  low := hL.low x
  high := by
    have := hL.high x
    rw [hx, List.length_append, List.length_singleton] at this
    omega
  nonzero := h0
  chars := by
    intro k hk
    rw [hm k (by rw [hx, List.length_append, List.length_singleton]; omega), hx]
    by_cases hlt : k < full.length
    · simp [List.getD_eq_getElem?_getD, List.getElem?_append_left hlt]
    · obtain rfl : k = full.length := by omega
      simp [List.getD_eq_getElem?_getD]

/-- A change below the image leaves it alone. -/
theorem Holds.of_below (hL : g.Fits L) {x : g.Data} (hm : g.Holds L s.mem x)
    (hmem : ∀ a, 0x7e00 ≤ a → t.mem a = s.mem a) : g.Holds L t.mem x := by
  intro k hk
  have := hL.low x
  rw [hmem _ (by omega), hm k hk]

/-! ## What is lost -/

theorem Migrated.gpr (h : g.Migrated s d) {r : Reg}
    (hr : ∀ q ∈ g.verified, (Part.gpr r).overlaps q = false) : d.gpr r = s.gpr r :=
  h.kept (.gpr r) hr (by simp)

theorem Migrated.switched (h : g.Migrated s d)
    (hm : ∀ q ∈ g.verified, Part.mem.overlaps q = false) : Switched s d :=
  ⟨h.rip, h.kept .mem hm (by simp), h.log⟩

theorem holds_switched (h : Switched s d) {x : g.Data} (hx : g.Holds L s.mem x) :
    g.Holds L d.mem x := by
  rw [h.mem]
  exact hx

/-- At the start the discipline holds. -/
theorem Boot.nested (h : g.Boot L s) {body : Nat} (hbody : 0 < body) :
    Nested g.program L body g.stackTop s where
  rsp := by
    have hd : g.program.depth body 0 = 0 := by
      simp only [Program.depth, List.take_zero, List.filter_nil, List.length_nil,
        Nat.sub_zero, if_neg (show ¬ body ≤ 0 by omega)]
    rw [h.rsp, h.rip, hd, Nat.mul_zero, Nat.sub_zero]
  site := by
    intro hle
    rw [h.rip] at hle
    omega

/-! ## A layout

The text from `0x7e00` on, four bytes an instruction, and behind it the data
in slots of one sector. -/

/-- The layout with data label `d` in slot `slot d`. -/
def slotLayout {D : Type} (slot : D → Nat) : Layout D where
  code n := BitVec.ofNat 64 (0x7e00 + 4 * n)
  data d := 0x8000 + 0x200 * slot d
  limit := 0x200000

theorem fits_slots {slot : g.Data → Nat} (hinj : ∀ d d', slot d = slot d' → d = d')
    (hslot : ∀ d, slot d < 14) (hlen : ∀ d, (g.contents d).length ≤ 0x200)
    (hsize : g.program.instrs.length ≤ 128) : g.Fits (slotLayout slot) where
  code := by
    intro m hm n hn heq
    have := congrArg BitVec.toNat heq
    simp only [slotLayout, BitVec.toNat_ofNat] at this
    omega
  limit := rfl
  low d := by simp only [slotLayout]; omega
  high d := by
    have := hslot d
    have := hlen d
    simp only [slotLayout]
    omega
  apart d d' hne := by
    have hslots : slot d ≠ slot d' := fun he => hne (hinj d d' he)
    have := hlen d
    have := hlen d'
    simp only [slotLayout]
    omega

/-- The image of a payload with the data labels `ds`. -/
def image (g : Guest) (L : Layout g.Data) (ds : List g.Data) : Memory := fun a =>
  match ds.find? fun d => L.data d ≤ a && a < L.data d + (g.contents d).length with
  | some d => (g.contents d).getD (a - L.data d) 0
  | none => 0

theorem holds_image (hL : g.Fits L) {ds : List g.Data} {x : g.Data} (hx : x ∈ ds) :
    g.Holds L (g.image L ds) x := by
  intro k hk
  have hin : (ds.find? fun d => L.data d ≤ L.data x + k &&
      L.data x + k < L.data d + (g.contents d).length).isSome = true := by
    rw [List.find?_isSome]
    exact ⟨x, hx, by simpa using hk⟩
  obtain ⟨y, hy⟩ := Option.isSome_iff_exists.mp hin
  have hmem := List.find?_some hy
  simp only [Bool.and_eq_true, decide_eq_true_eq] at hmem
  -- no other label lies there
  obtain rfl : y = x := by
    by_contra hne
    have := hL.apart y x hne
    omega
  rw [image, hy]
  show (g.contents y).getD (L.data y + k - L.data y) 0 = _
  rw [Nat.add_sub_cancel_left]

/-- The processor where the payload takes over. -/
def start (g : Guest) (m : Memory) : State where
  rip := 0
  gpr r := if r = .rsp then BitVec.ofNat 64 g.stackTop else 0
  flags := ⟨false, false, false, false, false, false⟩
  vec _ := 0
  mxcsr := 0x1f80
  fpu := .start
  mem := m
  log := []

theorem boot_start (hL : g.Fits L) {ds : List g.Data} (hds : ∀ d, d ∈ ds) :
    g.Boot L (g.start (g.image L ds)) where
  rip := rfl
  rsp := rfl
  image d := holds_image hL (hds d)
  log := rfl

/-! ## The serial routine in a payload -/

/-- The payload ends with the serial routine and keeps the stack discipline
around it. -/
structure Wired (g : Guest) (f : SerialLabel → g.Label) (body : Nat) : Prop where
  includes : Includes g.program f body
  entry : g.program.entry (f .serial_print) = body
  nested : wellNested g.program body = true
  top_low : 24 ≤ g.stackTop
  top_high : g.stackTop ≤ 0x7e00

variable {f : SerialLabel → g.Label} {body : Nat} {inp : Byte}
  {i : Instr g.Label g.Data}

/-- The discipline along a step. -/
theorem Wired.nested_step (hw : g.Wired f body) (hL : g.Fits L)
    (hs : Nested g.program L body g.stackTop s) (hfetch : g.program.fetch s.rip = some i)
    (h : exec g.program L inp s i = some t) :
    Nested g.program L body g.stackTop t ∧ Edge g.program s.rip i t.rip :=
  X86.nested_step hw.nested hL.code hw.top_low (by have := hw.top_high; omega) hs hfetch h

/-- Into the routine leads only a call. -/
theorem Wired.call_of_enter (hw : g.Wired f body) (hedge : Edge g.program s.rip i t.rip)
    (hout : s.rip < body) (hin : body ≤ t.rip) : ∃ c, i = .call c := by
  have hck := allEdges_spec (Bool.and_eq_true_iff.mp hw.nested).1 hedge
  have hnot : ¬ body ≤ s.rip := by omega
  cases i <;> simp [nestOk, hin, hnot] at hck
  case call c => exact ⟨c, rfl⟩

/-! ## A string that is not there -/

/-- The serial routine is called, or on its way to the next character, with its
string outside the mapped memory. -/
inductive Stranded (g : Guest) (L : Layout g.Data) (f : SerialLabel → g.Label) (body : Nat)
    (s : State) : Prop where
  | called (call : g.program.fetch s.rip = some (.call (f .serial_print)))
      (rsi : L.limit ≤ (s.gpr .rsi).toNat)
  | next (rip : s.rip = body ∨ s.rip = body + 11) (rsi : L.limit ≤ (s.gpr .rsi).toNat)
  | loaded (rip : (s.rip = body + 1 ∧ s.al ≠ 0) ∨ (s.rip = body + 2 ∧ s.flags.zf = false))
      (rsi : L.limit ≤ (s.gpr .rsi).toNat)
  | waiting (lo : body + 3 ≤ s.rip) (hi : s.rip ≤ body + 10)
      (rsi : L.limit ≤ (s.gpr .rsi).toNat)

/-- How many characters it has at hand, at most. -/
def atHand (body : Nat) (s : State) : Nat := if s.rip = body ∨ s.rip = body + 11 then 0 else 1

theorem atHand_le : atHand body s ≤ 1 := by
  rw [atHand]
  split <;> omega

theorem atHand_within (hlo : body < s.rip) (hhi : s.rip ≤ body + 10) : atHand body s = 1 :=
  if_neg (by omega)

/-- While a character waits the routine goes in a circle, with the string
pointer as it is. -/
theorem waiting_instr (hw : g.Wired f body) {n : Nat} (hlo : 3 ≤ n) (hhi : n ≤ 9)
    (hrip : s.rip = body + n) (hfetch : g.program.fetch s.rip = some i) :
    i.writes (.gpr .rsi) = false ∧ i.writes .log = false ∧ i ≠ .ret ∧
      ∀ m ∈ i.succs g.program s.rip, body + 3 ≤ m ∧ m ≤ body + 10 := by
  have hinstr := hw.includes.instr hfetch (n := n) (by omega) hrip
  have hwait := hw.includes.wait_tx
  obtain rfl | rfl | rfl | rfl | rfl | rfl | rfl :
      n = 3 ∨ n = 4 ∨ n = 5 ∨ n = 6 ∨ n = 7 ∨ n = 8 ∨ n = 9 := by omega
  all_goals
    obtain rfl := Option.some.inj hinstr
    refine ⟨rfl, rfl, by simp, fun m hm => ?_⟩
    simp only [Instr.succs, List.mem_cons, List.not_mem_nil, or_false] at hm
    omega

/-- **Nothing behind it is sent**: the load of the next character faults. -/
theorem stranded_step (hw : g.Wired f body) (hs : g.Stranded L f body s)
    (hfetch : g.program.fetch s.rip = some i) (h : exec g.program L inp s i = some t) :
    g.Stranded L f body t ∧ t.log.length + atHand body t ≤ s.log.length + atHand body s := by
  have hinstr := fun n hn => hw.includes.instr (s := s) hfetch (n := n) hn
  cases hs with
  | called call rsi =>
      obtain rfl := Option.some.inj (call.symm.trans hfetch)
      have hrip : t.rip = body := by
        rw [← hw.entry]
        exact List.mem_singleton.mp (exec_succ h (by simp))
      refine ⟨.next (.inl hrip) ?_, ?_⟩
      · rwa [show t.gpr .rsi = s.gpr .rsi from exec_agree (p := .gpr .rsi) h rfl]
      · rw [show t.log = s.log from exec_agree (p := .log) h rfl, atHand, if_pos (.inl hrip)]
        omega
  | next rip rsi =>
      rcases rip with rip | rip
      · obtain rfl := Option.some.inj
          (show some Instr.lodsb = some i from hinstr 0 (by omega) rip)
        simp only [exec, Option.map_eq_some_iff, load_eq_some] at h
        obtain ⟨v, ⟨hle, -⟩, -⟩ := h
        omega
      · obtain rfl := Option.some.inj
          (show some (Instr.jmp (f .next)) = some i from hinstr 11 (by omega) rip)
        obtain rfl := Option.some.inj h
        have hnext : (s.goto (g.program.entry (f .next))).rip = body := hw.includes.next
        refine ⟨.next (.inl hnext) rsi, ?_⟩
        rw [atHand, if_pos (.inl hnext)]
        exact Nat.le_add_right _ _
  | loaded rip rsi =>
      rcases rip with ⟨rip, al⟩ | ⟨rip, zf⟩
      · obtain rfl := Option.some.inj
          (show some (Instr.test .byte (.reg .rax) (.reg .rax)) = some i from
            hinstr 1 (by omega) rip)
        obtain rfl := Option.some.inj h
        refine ⟨.loaded (.inr ⟨by simp [State.next, State.goto, rip], ?_⟩) rsi, ?_⟩
        · exact decide_eq_false fun hz => al ((trunc_byte_and_self _).mp hz)
        · rw [atHand_within (s := s) (by omega) (by omega)]
          exact Nat.add_le_add_left atHand_le _
      · obtain rfl := Option.some.inj
          (show some (Instr.jcc .z (f .done)) = some i from hinstr 2 (by omega) rip)
        obtain rfl := Option.some.inj h
        simp only [Cond.holds, zf, Bool.false_eq_true, if_false]
        refine ⟨.waiting ?_ ?_ rsi, ?_⟩
        · simp [State.next, State.goto, rip]
        · simp [State.next, State.goto, rip]
        · rw [atHand_within (s := s) (by omega) (by omega)]
          exact Nat.add_le_add_left atHand_le _
  | waiting lo hi rsi =>
      have hnow : atHand body s = 1 := atHand_within (by omega) (by omega)
      by_cases hout : s.rip = body + 10
      · obtain rfl := Option.some.inj
          (show some Instr.outAl = some i from hinstr 10 (by omega) hout)
        have hrip : t.rip = body + 11 := by
          have := List.mem_singleton.mp (exec_succ h (by simp))
          omega
        refine ⟨.next (.inr hrip) ?_, ?_⟩
        · rwa [show t.gpr .rsi = s.gpr .rsi from exec_agree (p := .gpr .rsi) h rfl]
        · rw [hnow, atHand, if_pos (.inr hrip)]
          simp only [exec] at h
          split at h <;> obtain rfl := Option.some.inj h <;> simp [State.next, State.goto]
      · obtain ⟨hrsi, hlog, hret, hsucc⟩ := waiting_instr hw (n := s.rip - body) (by omega)
          (by omega) (by omega) hfetch
        obtain ⟨hlo, hhi⟩ := hsucc _ (exec_succ h hret)
        refine ⟨.waiting hlo hhi ?_, ?_⟩
        · rwa [show t.gpr .rsi = s.gpr .rsi from exec_agree (p := .gpr .rsi) h hrsi]
        · rw [show t.log = s.log from exec_agree (p := .log) h hlog, hnow]
          exact Nat.add_le_add_left atHand_le _

/-- The routine sends the character at hand at most. -/
theorem stranded_run (hw : g.Wired f body) (hd : g.Stranded L f body d) {es : List Byte}
    (h : Run (g.Step L) d es t) : t.log.length ≤ d.log.length + 1 := by
  have hall : g.Stranded L f body t ∧
      t.log.length + atHand body t ≤ d.log.length + atHand body d := by
    refine h.invariant (P := fun t => g.Stranded L f body t ∧
      t.log.length + atHand body t ≤ d.log.length + atHand body d) ⟨hd, Nat.le_refl _⟩ ?_
    rintro u e v ⟨hu, hle⟩ hstep
    obtain ⟨i, hfetch, hexec⟩ := step_eq_some.mp hstep
    obtain ⟨hv, hle'⟩ := stranded_step hw hu hfetch hexec
    exact ⟨hv, hle'.trans hle⟩
  have hone : atHand body d ≤ 1 := atHand_le
  omega

/-! ## Giving up

A payload that meets a failed check sends one message and halts. -/

/-- Where the failing branches meet: the call that sends the message, and the
endless halt behind it. -/
structure FailPath (g : Guest) (f : SerialLabel → g.Label) (body call : Nat) : Prop where
  send : g.program.fetch call = some (.call (f .serial_print))
  depth : g.program.depth body call = 0
  hlt : g.program.fetch (call + 1) = some .hlt
  again : ∃ c, g.program.fetch (call + 2) = some (.jmp c) ∧ g.program.entry c = call + 1

/-- The guest is giving up with the message `full`, which lies at `x`, and has
sent nothing else. -/
inductive Failing (g : Guest) (L : Layout g.Data) (body call : Nat) (x : g.Data)
    (full : List Byte) (s : State) : Prop where
  | call (rip : s.rip = call) (rsi : s.gpr .rsi = BitVec.ofNat 64 (L.data x))
      (log : s.log = [])
  | print {k : Nat} (pr : Printing L body g.stackTop (L.data x) full (call + 1) s k)
      (log : s.log = full.take k)
  | halted (rip : s.rip = call + 1 ∨ s.rip = call + 2) (log : s.log = full)

theorem take_append_getD {full : List Byte} {k : Nat} (h : k < full.length) :
    full.take k ++ [full.getD k 0] = full.take (k + 1) := by
  rw [List.take_succ_eq_append_getElem h, List.getD_eq_getElem?_getD,
    List.getElem?_eq_getElem h, Option.getD_some]

/-- **Giving up is final.** -/
theorem failing_step (hw : g.Wired f body) {call : Nat} (hp : g.FailPath f body call)
    (hL : g.Fits L) {x : g.Data} {full : List Byte} (hx : g.contents x = full ++ [0])
    (h0 : 0 ∉ full) (hs : Nested g.program L body g.stackTop s)
    (hm : g.Holds L s.mem x) (hfail : Failing g L body call x full s)
    (hfetch : g.program.fetch s.rip = some i)
    (h : exec g.program L inp s i = some t) : Failing g L body call x full t := by
  obtain ⟨c, hagain, hc⟩ := hp.again
  cases hfail with
  | call rip rsi log =>
      obtain rfl := Option.some.inj (hp.send.symm.trans (rip ▸ hfetch))
      obtain ⟨hpr, hlog⟩ := printing_call hs hw.top_low hw.top_high hw.entry
        (by rw [rip, hp.depth]) (cstring_of_holds hL hm hx h0) rsi h
      rw [rip] at hpr
      exact .print hpr (by rw [hlog, log]; rfl)
  | print pr log =>
      rcases printing_step hw.includes hw.nested hL.code hs hw.top_low hw.top_high
        (fetch_lt hp.hlt) pr hfetch h with ⟨hpr, hlog⟩ | ⟨hk, hpr, hlog⟩ | ⟨hk, hrip, -, hlog⟩
      · exact .print hpr (by rw [hlog, log])
      · exact .print hpr (by rw [hlog, log, take_append_getD hk])
      · exact .halted (.inl hrip) (by rw [hlog, log, hk, List.take_length])
  | halted rip log =>
      rcases rip with rip | rip
      · obtain rfl := Option.some.inj (hp.hlt.symm.trans (rip ▸ hfetch))
        obtain rfl := Option.some.inj h
        exact .halted (.inr (by simp [State.next, State.goto, rip])) log
      · obtain rfl := Option.some.inj (hagain.symm.trans (rip ▸ hfetch))
        obtain rfl := Option.some.inj h
        exact .halted (.inl hc) log

theorem Failing.sent {call : Nat} {x : g.Data} {full : List Byte}
    (h : Failing g L body call x full s) : s.log <+: full := by
  cases h with
  | call _ _ log => rw [log]; exact List.nil_prefix
  | print _ log => rw [log]; exact List.take_prefix _ _
  | halted _ log => rw [log]

end Guest

end QemuTest.Asm

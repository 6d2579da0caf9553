import QemuTest.Asm.BootScalar
import QemuTest.Asm.Messages

/-!
# Asm — ScalarPass

One pass of the scalar payload on a processor that keeps its state: from the
start it gets behind the last check (`pass_gets`). From there on nothing is
looked at any more, and the success line goes out whatever the registers hold
(`report_gets`).
-/

namespace QemuTest.Asm.Scalar

open X86 Runs

-- the checks walk down the whole program
set_option maxRecDepth 20000

variable {L : Layout Data} {s t d : State} {n : Nat} {port : Port}

/-- The instruction behind the last check. -/
def report : Nat := 80

theorem contents_ready : scalarGuest.contents .msg_ready = msgLine "SCALAR:READY" ++ [0] := rfl

theorem contents_ok : scalarGuest.contents .msg_ok = msgLine "SCALAR:OK" ++ [0] := rfl

theorem ready_nonzero : (0 : Byte) ∉ msgLine "SCALAR:READY" := by
  unfold msgLine ascii Text.lit
  decide

theorem ok_nonzero : (0 : Byte) ∉ msgLine "SCALAR:OK" := by
  unfold msgLine ascii Text.lit
  decide

/-- A state of the source at instruction `n`, with `log` sent. -/
structure At (L : Layout Data) (n : Nat) (log : List Byte) (s : State) : Prop where
  source : Source L s
  rip : s.rip = n
  log : s.log = log

variable {log : List Byte} {i : Instr Label Data}

theorem keeping_at (hL : scalarGuest.Fits L) (hs : Source L s) {m : Nat}
    (h : Gets program L port 0 (fun t => t.rip = m ∧ t.log = log) s) :
    Gets program L port 0 (At L m log) s :=
  (h.keeping hs fun _ _ _ ht hstep => source_step hL ht hstep).bind
    fun _ ht => .now ⟨ht.1, ht.2.1, ht.2.2⟩

/-- Down to instruction `m`. -/
theorem advances_at (hL : scalarGuest.Fits L) {k m : Nat}
    (h : program.advances joins k n = some m) (hs : At L n log s) :
    Gets program L port 0 (At L m log) s := by
  refine (advances_gets (fun _ ht => ht.2) (fun _ _ _ ht hstep => source_step hL ht hstep)
    (hs.rip.symm ▸ h) (Nat.zero_le _) hs.source).bind fun t ht => .now ⟨ht.1, ht.2.1, ?_⟩
  rw [ht.2.2, hs.log]

/-- An instruction that leaves the flags `f`, and the check of two of them. -/
theorem flags_at (hL : scalarGuest.Fits L) {f : Flags} {v w : BitVec 64} {k j : Cond}
    (hi : i.direct = true)
    (hf : ∀ s t, At L n log s → exec program L 0 s i = some t → t.flags = f)
    (hv : k.taken (decide (f.image &&& v = 0)) = false)
    (hw : j.taken (decide (f.image &&& w = 0)) = false)
    (hdepth : program.depth body (n + 1) = 0)
    (hcode : codeAt n [i, .pushfq, .pop .rax, .test .qword (.reg .rax) (.imm v),
      .jcc k .fail, .test .qword (.reg .rax) (.imm w), .jcc j .fail] = true)
    (hs : At L n log s) : Gets program L port 0 (At L (n + 7) log) s := by
  obtain ⟨t, ht, hnext, hsame⟩ := exec_direct (P := program) (L := L) (s := s) hi 0
  have hstep : scalarGuest.Step L s 0 t :=
    steps_intro (by rw [hs.rip]; exact codeAt_fetch (j := 0) hcode (by simp)) ht
  have hsrc := source_step hL hs.source hstep
  have hflags := hf s t hs ht
  have hat : t.rip = n + 1 := by rw [hnext, hs.rip]
  have hrsp : (t.gpr .rsp).toNat = 0x7000 := by
    rw [hsrc.1.nested.rsp, hat, hdepth]
    rfl
  have hlimit := hL.limit
  refine .cons (Nat.zero_le _) (by rw [hs.rip]; exact codeAt_fetch (j := 0) hcode (by simp))
    (direct_reads hi) ht (keeping_at hL hsrc ?_)
  rw [← hflags] at hv hw
  refine (transfer_gets (codeAt_fetch (j := 1) hcode (by simp))
    (codeAt_fetch (j := 2) hcode (by simp)) (Nat.zero_le _) hat (by omega) (by omega)).bind ?_
  rintro u ⟨hrip, hrax, hlog⟩
  refine (bits_get (codeAt_fetch (j := 3) hcode (by simp))
    (codeAt_fetch (j := 4) hcode (by simp)) (Nat.zero_le _) hrip hrax hv).bind ?_
  rintro x ⟨hrip, hrax, hlog'⟩
  refine (bits_get (codeAt_fetch (j := 5) hcode (by simp))
    (codeAt_fetch (j := 6) hcode (by simp)) (Nat.zero_le _) hrip hrax hw).bind ?_
  rintro y ⟨hrip, -, hlast⟩
  exact .now ⟨hrip, by rw [hlast, hlog', hlog, hsame, hs.log]⟩

/-- RAX and RBX agree, as the comparison finds. -/
theorem compare_flags (hs : At L 65 log s)
    (h : exec program L 0 s (.cmp .qword (.reg .rax) (.reg .rbx)) = some t) :
    t.flags = .ofSub .qword 0x1122334455667788 0x1122334455667788 := by
  have hK := hs.source.2
  rw [hs.rip] at hK
  obtain rfl := Option.some.inj h
  simp only [Width.trunc, hK .rax (.imm 0x1122334455667788) rfl,
    hK .rbx (.imm 0x1122334455667788) rfl, Value.eval]

/-- The flags behind `sub rax, 2` are those of one less two. -/
theorem subtract_flags (hs : At L 73 log s)
    (h : exec program L 0 s (.sub .rax (.imm 2)) = some t) : t.flags = .ofSub .qword 1 2 := by
  have hK := hs.source.2
  rw [hs.rip] at hK
  obtain rfl := Option.some.inj h
  simp only [hK .rax (.imm 1) rfl, Value.eval, Width.trunc]

/-- The payload gets ready. -/
theorem ready_gets (hL : scalarGuest.Fits L) (hport : port.Fair) (h₀ : scalarGuest.Boot L s) :
    Gets program L port 0 (At L 2 (msgLine "SCALAR:READY")) s := by
  have hboot := source_boot h₀
  have hready := Guest.message_gets wired hL hport contents_ready ready_nonzero (n := 0) rfl rfl
    rfl (Nat.zero_le _) (by decide) h₀.rip hboot.1.nested (hboot.1.image .msg_ready)
  rw [h₀.log, List.nil_append] at hready
  exact keeping_at hL hboot hready

/-- The loads: from the start a run gets to the spin, with all registers loaded
and the line sent that says the payload is ready. -/
theorem loads_gets (hL : scalarGuest.Fits L) (hport : port.Fair) (h₀ : scalarGuest.Boot L s) :
    Gets program L port 0 (At L 15 (msgLine "SCALAR:READY")) s :=
  (ready_gets hL hport h₀).bind fun _ ht =>
    advances_at (k := 13) (m := 15) hL (by decide) ht

/-- From the spin behind the last check. -/
theorem compared_gets (hL : scalarGuest.Fits L) (hs : At L 15 log s) :
    Gets program L port 0 (At L report log) s := by
  -- the spin, and the comparisons with what was loaded
  have hspin : Gets program L port 0 (fun t => t.rip = 15 + 2 ∧ t.log = s.log) s :=
    countdown_gets (r := .rcx) (c := .spin) rfl rfl rfl (Nat.zero_le _) hs.rip
  rw [hs.log] at hspin
  refine (keeping_at hL hs.source hspin).bind fun v hv => ?_
  refine (advances_at (k := 33) (m := 65) hL (by decide) hv).bind fun w hw => ?_
  -- the flags
  refine (flags_at (v := 1) (w := 0x40) (k := .nz) (j := .z) hL rfl
    (fun _ _ => compare_flags) (by decide) (by decide) rfl (by decide) hw).bind fun x hx => ?_
  refine (advances_at (k := 1) (m := 73) hL (by decide) hx).bind fun y hy => ?_
  exact flags_at (v := 1) (w := 0x80) (k := .z) (j := .z) hL rfl
    (fun _ _ => subtract_flags) (by decide) (by decide) rfl (by decide) hy

/-- **A pass**: from the start a run gets behind the last check, with nothing
sent but the line that says it is ready. -/
theorem pass_gets (hL : scalarGuest.Fits L) (hport : port.Fair) (h₀ : scalarGuest.Boot L s) :
    Gets program L port 0 (At L report (msgLine "SCALAR:READY")) s :=
  (loads_gets hL hport h₀).bind fun _ hu => compared_gets hL hu

/-- **The report**: behind the last check the success line goes out, whatever
the verified registers hold. -/
theorem report_gets (hL : scalarGuest.Fits L) (hport : port.Fair) (hs : Sound L s)
    (hrip : s.rip = report) : Gets program L port 0
      (fun t => t.rip = report + 2 ∧ t.log = s.log ++ msgLine "SCALAR:OK") s :=
  Guest.message_gets wired hL hport contents_ok ok_nonzero rfl rfl rfl (Nat.zero_le _)
    (by decide) hrip hs.nested (hs.image .msg_ok)

/-! ## A destination without a register -/

/-- The state arrives, all but R12. -/
def garbled (s : State) : State :=
  { s with gpr := Function.update s.gpr .r12 (~~~ s.gpr .r12), log := [] }

theorem garbled_ne (s : State) : (garbled s).gpr .r12 ≠ s.gpr .r12 := by
  have hr12 : (garbled s).gpr .r12 = ~~~ s.gpr .r12 := by simp [garbled]
  intro h
  have hbit := congrArg (fun v : BitVec 64 => v.getLsbD 0) (hr12.symm.trans h)
  simp at hbit

theorem migrated_garbled (s : State) : scalarGuest.Migrated s (garbled s) where
  rip := rfl
  kept := by
    intro p hp hlog
    have hr12 : p.overlaps (.gpr .r12) = false := hp _ (by decide)
    cases p with
    | gpr r =>
        refine Function.update_of_ne (fun he => ?_) _ _
        subst he
        simp [Part.overlaps] at hr12
    | log => exact absurd rfl hlog
    | tags => exact ⟨rfl, rfl, rfl⟩
    | _ => rfl
  log := rfl

/-- A layout of the payload. -/
def layout : Layout Data := Guest.slotLayout fun
  | .msg_ready => 0
  | .msg_ok => 1
  | .msg_fail => 2

theorem fits_layout : scalarGuest.Fits layout := by
  refine Guest.fits_slots ?_ ?_ ?_ (by decide : program.instrs.length ≤ 128)
  · intro d d' h
    cases d <;> cases d' <;> first | rfl | cases h
  · intro d
    cases d <;> decide
  · intro d
    show (contents d).length ≤ 0x200
    cases d <;> simp [contents, db, msgLine, ascii, Text.lit]

def labels : List Data := [.msg_ready, .msg_ok, .msg_fail]

theorem mem_labels : ∀ x, x ∈ labels := by
  intro x
  cases x <;> decide

/-- The start, with the image laid out so. -/
def booted : State := scalarGuest.start (scalarGuest.image layout labels)

theorem boot_booted : scalarGuest.Boot layout booted :=
  Guest.boot_start fits_layout mem_labels

end QemuTest.Asm.Scalar

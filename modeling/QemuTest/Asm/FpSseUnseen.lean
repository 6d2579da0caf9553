import QemuTest.Asm.FpSsePass
import QemuTest.Asm.Unseen

/-!
# Asm — FpSseUnseen

What the FP/SSE payload does not look at again. A destination that has lost none
of the parts that are still to be looked at goes the way of the source to the
report of the pass (`Trailing`), and reports success as the source does
(`joined`). Of the x87 values it may have lost what does not show in the
integers that are stored.
-/

namespace QemuTest.Asm.FpSse

open X86 Runs

-- the checks walk down the whole program
set_option maxRecDepth 20000

/-- The branches of the failed checks. -/
def failed : List Nat := branches.map Prod.fst

/-- What makes no difference in front of instruction `n`: the control words and
XMM registers that are set before they are stored, the upper halves, and the
tags once the last value is off the stack. What the x87 slots hold is looked at
apart. -/
def dead (n : Nat) (p : Part) : Bool :=
  (observed.contains p && (program.observedNext p n).isNone) ||
    (p = .tags && fistpOf 3 < n && (n ≤ report || failed.contains n)) ||
    match p with
    | .vec _ | .x87 _ => true
    | _ => false

def deadParts : List Part :=
  .tags :: observed ++ (List.finRange 16).map .vec ++ (List.finRange 8).map .x87

theorem mem_deadParts (n : Nat) (p : Part) (h : dead n p = true) : p ∈ deadParts := by
  simp only [dead, Bool.or_eq_true, Bool.and_eq_true, decide_eq_true_eq,
    List.contains_eq_mem] at h
  simp only [deadParts, List.cons_append, List.mem_cons, List.mem_append, List.mem_map]
  rcases h with (⟨hp, -⟩ | ⟨⟨rfl, -⟩, -⟩) | hp
  · exact .inr (.inl (.inl hp))
  · exact .inl rfl
  · cases p <;> simp_all

/-- The stores of the x87 values, and where the checks are over. -/
def special : List Nat := (List.finRange 4).map fistpOf ++ report :: failed

theorem ignores : program.ignores dead deadParts special = true := by
  simp only [Program.ignores, dead, observedNext_eq]
  decide +kernel

variable {L : Layout Data} {s d u v u' v' : State} {inp : Byte} {pre : List Byte} {port : Port}
  {i : Instr Label Data} {m : Fin 4} {n : Nat}

/-- The destination goes the way of the source: the values that are still on the
stack pass their checks. -/
structure Trailing (L : Layout Data) (pre : List Byte) (u v : State) : Prop where
  intact : Intact L u
  alike : Alike (dead u.rip) pre u v
  fit : ∀ m, fildOf m < u.rip → u.rip ≤ fistpOf m → ¬ Spoiled L v m

theorem dead_gpr (n : Nat) (r : Reg) : dead n (.gpr r) = false := by
  have hobs : Part.gpr r ∉ observed := by
    cases r <;> decide
  simp [dead, hobs]

theorem dead_mem (n : Nat) : dead n .mem = false := by
  have hobs : Part.mem ∉ observed := by decide
  simp [dead, hobs]

theorem dead_tags (h : n ≤ fistpOf 3) : dead n .tags = false := by
  have hobs : Part.tags ∉ observed := by decide
  have hlate : ¬ fistpOf 3 < n := by omega
  simp [dead, hobs, hlate]

theorem dead_tags_last : dead (fistpOf 3 + 1) .tags = true := by decide

namespace Trailing

theorem mem (h : Trailing L pre u v) : v.mem = u.mem :=
  h.alike.agree .mem (by simp) (dead_mem _)

theorem gpr (h : Trailing L pre u v) (r : Reg) : v.gpr r = u.gpr r :=
  h.alike.agree (.gpr r) (by simp) (dead_gpr _ r)

/-- A destination that trails the source is sound. -/
theorem sound (h : Trailing L pre u v) : Sound L v where
  nested :=
    ⟨by rw [h.gpr, h.alike.rip, h.intact.sound.nested.rsp],
      by rw [h.alike.rip, h.mem]; exact h.intact.sound.nested.site⟩
  image x hx := by
    rw [h.mem]
    exact h.intact.sound.image x hx
  constants := fun r x hr => by
    rw [h.alike.rip] at hr
    rw [h.gpr]
    exact h.intact.sound.constants r x hr

/-- The stack of the destination has the shape of the source's while it holds
values. -/
theorem tags (h : Trailing L pre u v) (hhi : u.rip ≤ fistpOf 3) : Part.tags.agree u v :=
  h.alike.agree .tags (by simp) (dead_tags hhi)

theorem shaped (h : Trailing L pre u v) (hhi : u.rip ≤ fistpOf 3) : Shaped v := by
  obtain ⟨htop, hfull, hes⟩ := h.tags hhi
  intro hlo hle hesv
  rw [h.alike.rip] at hlo hle
  have hst := h.intact.shaped hlo hle (hes ▸ hesv)
  rw [h.alike.rip]
  exact ⟨by rw [htop]; exact hst.top, fun k => by rw [hfull]; exact hst.full k⟩

end Trailing

/-- A value gets on the stack where it is loaded, and nowhere else. -/
theorem on_stack (hedge : Edge program u.rip i u'.rip) (hlo : fildOf m < u'.rip)
    (hhi : u'.rip ≤ fistpOf m) :
    (fildOf m < u.rip ∧ u.rip ≤ fistpOf m ∧ u.rip ≠ fistpOf m) ∨
      (u.rip = fildOf m ∧ i = .fild (.rel .x87_values (8 * (3 - m.val)))) := by
  have hlo' : 3 ≤ u'.rip := by
    simp only [fildOf] at hlo
    omega
  have hhi' : u'.rip ≤ 69 := by
    simp only [fistpOf] at hhi
    omega
  simp only [fildOf, fistpOf] at hlo hhi
  rcases height_cases hedge hlo' hhi' with ⟨-, hrip⟩ | ⟨m', rfl, hrip, hnext⟩ |
    ⟨m', -, hrip, hnext⟩ | ⟨hquiet, -, -, hheight⟩
  · omega
  · by_cases hm : m' = m
    · subst hm
      exact .inr ⟨hrip, rfl⟩
    · have hval : m'.val ≠ m.val := fun he => hm (Fin.ext he)
      simp only [fildOf, fistpOf] at hrip ⊢
      exact .inl ⟨by omega, by omega, by omega⟩
  · simp only [fildOf, fistpOf] at hrip ⊢
    exact .inl ⟨by omega, by omega, by omega⟩
  · have hin := le_height_iff.mp (hheight ▸ le_height_iff.mpr
      ⟨show fildOf m < u'.rip from hlo, show u'.rip ≤ fistpOf m from hhi⟩)
    refine .inl ⟨hin.1, hin.2, fun hat => ?_⟩
    -- the store is not quiet
    obtain rfl := Option.some.inj ((fistp_fetch m).1.symm.trans (hat ▸ hedge.1))
    cases hquiet

/-- A value that is stored as what was loaded passes its check. -/
theorem not_spoiled (h : v.fpu.integer (slotOf m) = some (v.mem.load (valueAt L m) 8, true)) :
    ¬ Spoiled L v m := by
  rintro (⟨hraises, -⟩ | hne)
  · simp [Fpu.raises, h] at hraises
  · simp [found, Fpu.stored, h] at hne

/-- A value just loaded passes its check. -/
theorem fit_load (hshape : Shaped v) (hat : v.rip = fildOf m)
    (h : exec program L inp v (.fild (.rel .x87_values (8 * (3 - m.val)))) = some v') :
    ¬ Spoiled L v' m := by
  obtain ⟨hes, hfpu⟩ := exec_fild h
  have hst := hshape (by rw [hat, fildOf]; omega) (by rw [hat, fildOf]; omega) hes
  rw [hat, height_fild.1] at hst
  obtain ⟨hstacked, -, hnew, -⟩ := hst.push (by omega)
    (.ofInt (BitVec.toInt (v.mem.load (valueAt L m) 8)))
  have hfpu' : v'.fpu = v.fpu.push (.ofInt (BitVec.toInt (v.mem.load (valueAt L m) 8))) := hfpu
  have hmem : v'.mem = v.mem := exec_agree (p := .mem) h rfl
  refine not_spoiled ?_
  rw [hmem, hfpu']
  exact hstacked.integer_ofInt (by rw [slotOf_val]; omega) (hnew _ (by rw [slotOf_val]; omega))

/-- Behind any instruction the values on the stack pass their checks as before. -/
theorem fit_step (hL : fpSseGuest.Fits L) (hR : Trailing L pre u v)
    (hedge : Edge program u.rip i u'.rip) (h : exec program L inp v i = some v')
    (hrip : v'.rip = u'.rip) (hes : u'.rip ≤ fistpOf 3 → v'.fpu.es = false) :
    ∀ m, fildOf m < u'.rip → u'.rip ≤ fistpOf m → ¬ Spoiled L v' m := by
  intro m hlo hhi
  have hedge' : Edge program v.rip i v'.rip := by
    rw [hR.alike.rip, hrip]
    exact hedge
  have hle : u'.rip ≤ fistpOf 3 := hhi.trans (by simp only [fistpOf]; omega)
  rcases on_stack hedge hlo hhi with ⟨hlo', hhi', hne⟩ | ⟨hload, rfl⟩
  · have hshape := hR.shaped (hhi'.trans (by simp only [fistpOf]; omega))
    have hck := allEdges_spec (valueOk_all m) hedge
    simp only [hlo', hhi', decide_true, Bool.and_self, Bool.not_true, Bool.false_or,
      Bool.and_eq_true, Bool.not_eq_true'] at hck
    rw [← hR.alike.rip] at hlo' hhi' hne
    rw [← hrip] at hlo hhi
    have hold := hR.fit m (hR.alike.rip ▸ hlo') (hR.alike.rip ▸ hhi')
    rcases stored_step hshape hlo' hhi' hne hck.1.2 hedge' h hlo hhi with ⟨hst, hra⟩ | ⟨-, -, hpend⟩
    · have hcell := cell_step (m := m) hL hR.sound hedge' h
        (by simp only [fildOf] at hlo'; omega) (by simp only [fistpOf] at hhi'; omega) hne
      rwa [Spoiled, found, hst, hra, hcell, value_step hL hR.sound hedge' h]
    · simp [hes hle] at hpend
  · have hlow : fildOf m ≤ fistpOf 3 := by
      simp only [fildOf, fistpOf]
      omega
    exact fit_load (hR.shaped (hload ▸ hlow)) (hR.alike.rip.trans hload) h

/-- The destination trails the source over every instruction but the stores of
the x87 values. -/
theorem trailing_plain (hL : fpSseGuest.Fits L) (hR : Trailing L pre u v)
    (hat : u.rip ∉ special) (h : Steps program L u inp u') :
    ∃ v', Steps program L v inp v' ∧ Trailing L pre u' v' := by
  have hintact := intact_step hL hR.intact h
  obtain ⟨i, hfetch, hexec⟩ := step_eq_some.mp h
  obtain ⟨-, hedge⟩ := sound_step hL hR.intact.sound hfetch hexec
  obtain ⟨v', hv', halike⟩ := alike_step ignores mem_deadParts hR.alike hat hedge hexec
  refine ⟨v', hv', hintact, halike, ?_⟩
  obtain ⟨i', hfetch', hexec'⟩ := step_eq_some.mp hv'
  obtain rfl := Option.some.inj (hfetch.symm.trans (hR.alike.rip ▸ hfetch'))
  refine fit_step hL hR hedge hexec' halike.rip fun hle => ?_
  obtain ⟨-, -, hes⟩ : Part.tags.agree u' v' := halike.agree .tags (by simp) (dead_tags hle)
  rw [hes, hintact.clear]

theorem agree_both {p : Part} (hu : p.agree u u') (hv : p.agree v v') (h : p.agree u v) :
    p.agree u' v' := by
  cases p <;> simp_all [Part.agree]

/-- Behind a store nothing is looked at that was not before. -/
theorem dead_stored : ∀ p ∈ deadParts, ∀ m, dead (fistpOf m) p = true →
    dead (fistpOf m + 1) p = true := by
  simp only [dead, observedNext_eq]
  decide +kernel

/-- The value on top of the stack is the one that is stored. -/
theorem top_of_shaped (hshape : Shaped v) (hat : v.rip = fistpOf m) (hes : v.fpu.es = false) :
    v.fpu.Stacked (3 - m.val + 1) ∧ v.fpu.top = slotOf m := by
  have hst := hshape (by rw [hat, fistpOf]; omega) (by rw [hat, fistpOf]; omega) hes
  rw [hat, height_fistp.1, show 4 - m.val = 3 - m.val + 1 by omega] at hst
  refine ⟨hst, Fin.ext ?_⟩
  rw [hst.top, slotOf_val]
  omega

theorem ea_cell (hs : Sound L v) (hat : v.rip = fistpOf m) :
    (Mem.base Reg.rdi (8 * m.val)).ea L v = cellOf m :=
  ea_base (8 * m.val) (hs.constants .rdi (.imm 0x6000) (hat ▸ (fistp_fetch m).2.1)) (by omega)

/-- The store of a value that passes its check puts there what was loaded. -/
theorem store_fits (hL : fpSseGuest.Fits L) (inp : Byte) (hs : Sound L v) (hshape : Shaped v)
    (hat : v.rip = fistpOf m) (hes : v.fpu.es = false) (hfit : ¬ Spoiled L v m) :
    ∃ v', exec program L inp v (.fistp (.base .rdi (8 * m.val))) = some v' ∧
      v'.mem.load (cellOf m) 8 = v.mem.load (valueAt L m) 8 ∧
      (m.val < 3 → v'.fpu.es = false) := by
  have hea := ea_cell hs hat
  have hroom : cellOf m + 8 ≤ L.limit := by
    rw [hL.limit, cellOf]
    omega
  obtain ⟨-, htop⟩ := top_of_shaped hshape hat hes
  obtain ⟨v', hv'⟩ : ∃ v', exec program L inp v (.fistp (.base .rdi (8 * m.val))) = some v' := by
    rw [exec, if_neg (by simp [hes]), hea]
    split
    · exact ⟨_, by rw [store_eq_some.mpr ⟨hroom, rfl⟩, Option.map_some]⟩
    · exact ⟨_, rfl⟩
  obtain ⟨-, hfpu, hsome, hnone⟩ := exec_fistp hv'
  rw [htop, hea] at hsome
  rw [htop] at hnone
  rw [Spoiled, not_or, not_and, not_not, found] at hfit
  refine ⟨v', hv', ?_, fun hm => ?_⟩
  · rw [← hfit.2]
    cases hst : v.fpu.stored (slotOf m) with
    | some x => exact hsome x hst
    | none => rw [hnone hst, Option.getD_none]
  · rw [hfpu]
    refine Fpu.afterStore_clear hes ?_
    rw [htop]
    by_contra hraises
    exact hfit.1 (by simpa using hraises) hm

theorem fit_source (hu : Intact L u) (hat : u.rip = fistpOf m) : ¬ Spoiled L u m :=
  not_spoiled (stored_of_loaded hu.shaped hu.loaded
    (by rw [hat]; simp only [fildOf, fistpOf]; omega) hat.le)

/-- Behind the store the stack has lost its top. -/
theorem stacked_store (hshape : Shaped v) (hat : v.rip = fistpOf m) (hes : v.fpu.es = false)
    {x : Mem Data} (h : exec program L inp v (.fistp x) = some v') (hes' : v'.fpu.es = false) :
    v'.fpu.Stacked (3 - m.val) := by
  obtain ⟨-, hfpu, -⟩ := exec_fistp h
  rw [hfpu] at hes' ⊢
  exact ((top_of_shaped hshape hat hes).1.afterStore (by omega) hes').1

/-- Two stores of one value to one address keep two equal memories equal. -/
theorem mem_stored {x : Mem Data} {a : Nat} (hu : x.ea L u = a) (hv : x.ea L v = a)
    (hmem : v.mem = u.mem) (h : exec program L inp u (.fistp x) = some u')
    (h' : exec program L inp v (.fistp x) = some v')
    (hcell : v'.mem.load a 8 = u'.mem.load a 8) : v'.mem = u'.mem := by
  funext b
  by_cases hb : b < a ∨ a + 8 ≤ b
  · rw [exec_mem h (by simpa only [Instr.target, hu] using hb),
      exec_mem h' (by simpa only [Instr.target, hv] using hb), hmem]
  · obtain ⟨k, rfl⟩ := Nat.exists_eq_add_of_le (show a ≤ b by omega)
    exact load_inj hcell (by omega)

/-- The destination trails the source over the store of an x87 value. -/
theorem trailing_store (hL : fpSseGuest.Fits L) (hR : Trailing L pre u v)
    (hat : u.rip = fistpOf m) (h : Steps program L u inp u') :
    ∃ v', Steps program L v inp v' ∧ Trailing L pre u' v' := by
  have hintact := intact_step hL hR.intact h
  have hu := hR.intact
  have hle : u.rip ≤ fistpOf 3 := by
    simp only [hat, fistpOf]
    omega
  have hatv : v.rip = fistpOf m := hR.alike.rip.trans hat
  have hshape := hR.shaped hle
  have hesv : v.fpu.es = false := (hR.tags hle).2.2.trans hu.clear
  obtain ⟨i, hfetch, hexec⟩ := step_eq_some.mp h
  obtain ⟨-, hedge⟩ := sound_step hL hu.sound hfetch hexec
  obtain rfl := Option.some.inj ((fistp_fetch m).1.symm.trans (hat ▸ hfetch))
  obtain ⟨v', hv', hcell, hclear⟩ := store_fits hL inp hR.sound hshape hatv hesv
    (hR.fit m (by rw [hat]; simp only [fildOf, fistpOf]; omega) hat.le)
  -- the source stores the value as well
  obtain ⟨w, hw, hcell', -⟩ := store_fits hL inp hu.sound hu.shaped hat hu.clear
    (fit_source hu hat)
  obtain rfl : w = u' := Option.some.inj (hw.symm.trans hexec)
  have hrip : w.rip = u.rip + 1 := List.mem_singleton.mp hedge.2
  have hrip' : v'.rip = w.rip := by
    rw [hrip, ← hR.alike.rip]
    exact List.mem_singleton.mp (exec_succ hv' (by simp))
  have hmem : v'.mem = w.mem := by
    refine mem_stored (ea_cell hu.sound hat) (ea_cell hR.sound hatv) hR.mem hw hv' ?_
    rw [hcell, hcell', hR.mem]
  have hlog : w.log = pre ++ v'.log := by
    rw [show w.log = u.log from exec_agree (p := .log) hw rfl,
      show v'.log = v.log from exec_agree (p := .log) hv' rfl, hR.alike.log]
  have hes : w.rip ≤ fistpOf 3 → v'.fpu.es = false := fun hin =>
    hclear (by simp only [hrip, hat, fistpOf] at hin; omega)
  refine ⟨v', steps_intro (hR.alike.rip ▸ hfetch) hv', hintact, ⟨hrip', hlog, fun p hp hd => ?_⟩,
    fit_step hL hR hedge hv' hrip' hes⟩
  have hlater : Alike (dead w.rip) pre u v := hR.alike.later fun p hp => by
    rw [hat] at hp
    rw [hrip, hat]
    exact dead_stored p (mem_deadParts _ p hp) m hp
  by_cases hwrites : (Instr.fistp (.base .rdi (8 * m.val)) : Instr Label Data).writes p = false
  · exact agree_both (exec_agree hw hwrites) (exec_agree hv' hwrites) (hlater.agree p hp hd)
  · cases p <;> simp only [Instr.writes, Instr.writesReg, not_true_eq_false] at hwrites
    case tags =>
      have hin : w.rip ≤ fistpOf 3 := by
        by_contra hout
        have hlast : w.rip = fistpOf 3 + 1 := by
          simp only [hrip, hat, fistpOf] at hout ⊢
          omega
        rw [hlast, dead_tags_last] at hd
        cases hd
      have hst := stacked_store hu.shaped hat hu.clear hw hintact.clear
      have hst' := stacked_store hshape hatv hesv hv' (hes hin)
      exact ⟨Fin.ext (hst'.top.trans hst.top.symm), funext fun k => by rw [hst'.full, hst.full],
        (hes hin).trans hintact.clear.symm⟩
    case mem => exact hmem

/-- **The destination trails** the source from step to step, up to the report or
a failed check. -/
theorem trailing_step (hL : fpSseGuest.Fits L) (hR : Trailing L pre u v)
    (hstop : u.rip ≠ report ∧ u.rip ∉ failed) (h : Steps program L u inp u') :
    ∃ v', Steps program L v inp v' ∧ Trailing L pre u' v' := by
  by_cases hstore : ∃ m, u.rip = fistpOf m
  · obtain ⟨m, hat⟩ := hstore
    exact trailing_store hL hR hat h
  · refine trailing_plain hL hR (fun hspecial => ?_) h
    rcases List.mem_append.mp hspecial with hin | hin
    · obtain ⟨m, -, hat⟩ := List.mem_map.mp hin
      exact hstore ⟨m, hat.symm⟩
    · exact (List.mem_cons.mp hin).elim hstop.1 hstop.2

/-- On the source no check fails: it would send no more than a failure line. -/
theorem not_failed (hL : fpSseGuest.Fits L) {s₀ : State} (h₀ : fpSseGuest.Boot L s₀)
    (hclear : s₀.fpu.es = false) {es : List Byte} (hrun : Run (Steps program L) s₀ es u)
    (hu : Sound L u) : u.rip ∉ failed := by
  intro hin
  obtain ⟨b, hb, hat⟩ := List.mem_map.mp hin
  obtain ⟨-, rest, -, hgets⟩ := (rounds hL h₀ hclear).resume (by simp [msgLine]) h₀.log hrun
  obtain ⟨fs, t, hrun', hlog⟩ := (hgets _ Port.fair_prompt 30).leads
  have hsound : Sound L { u with log := [] } := ⟨⟨hu.nested.rsp, hu.nested.site⟩, hu.image,
    hu.constants⟩
  obtain ⟨f, hf, hsent⟩ := (lost_run hL hsound (.branch hb hat.symm rfl) hrun').sent
  have hshort : ∀ f ∈ failures, (msgLine f).length < 30 := by decide +kernel
  have hle := hsent.length_le
  have hlong := le_length_copies (show msgLine "FPSSE:OK" ≠ [] by simp [msgLine]) 30
  rw [hlog, List.length_append] at hle
  have := hshort f hf
  omega

/-- The source gets to a report from every state. -/
theorem leads_report (hL : fpSseGuest.Fits L) {s₀ : State} (h₀ : fpSseGuest.Boot L s₀)
    (hclear : s₀.fpu.es = false) {es : List Byte} (hsrc : Run (fpSseGuest.Step L) s₀ es s) :
    Leads (Steps program L) (fun t => t.rip = report) s := by
  have hpass : ∀ port : Port, port.Fair → ∀ m, Gets program L port 0 (fun t => t.rip = report ∧
      t.log = X86.rounds (msgLine "FPSSE:READY") (msgLine "FPSSE:OK") m) s₀ := by
    intro port hport m
    exact (at_heads hL h₀ hclear port hport m).bind fun t ht =>
      (checks_at hL ht).bind fun u hu => .now ⟨hu.rip, hu.log⟩
  exact leads_again (by simp [msgLine]) hpass h₀.log hsrc

theorem overlaps_verified {p : Part} (hp : p ∉ fpSseGuest.verified) (hvec : ∀ j, p ≠ .vec j) :
    ∀ q ∈ fpSseGuest.verified, p.overlaps q = false := by
  intro q hq
  have hne : p ≠ q := fun he => hp (he ▸ hq)
  have hq' : ∀ j, q ≠ .vec j := by
    rintro j rfl
    simp [fpSseGuest] at hq
  cases p <;> cases q <;> simp_all [Part.overlaps]

/-- The destination trails the source from the switch on. -/
theorem trailing_start (hs : Intact L s) (hmig : fpSseGuest.Migrated s d)
    (hchecked : ¬ Ahead s d) : Trailing L s.log s d := by
  have hkept : ∀ p, p ∉ fpSseGuest.verified → (∀ j, p ≠ .vec j) → p ≠ .log → p.agree s d :=
    fun p hp hvec => hmig.kept p (overlaps_verified hp hvec)
  have hmem : d.mem = s.mem := hkept .mem (by decide) (by simp) (by simp)
  have htags : Part.tags.agree s d := hkept .tags (by decide) (by simp) (by simp)
  refine ⟨hs, ⟨hmig.rip, by rw [hmig.log, List.append_nil], fun p hp hdead => ?_⟩,
    fun m hlo hhi hspoiled => ?_⟩
  · have hvec : ∀ j, p ≠ .vec j := by
      rintro j rfl
      simp [dead] at hdead
    by_cases hver : p ∈ fpSseGuest.verified
    swap
    · exact hkept p hver hvec hp
    have hobs : p ∈ observed := by
      rcases List.mem_append.mp hver with hin | hin
      · exact hin
      · obtain ⟨m, -, rfl⟩ := List.mem_map.mp hin
        simp [dead] at hdead
    by_contra hne
    refine hchecked (.inl ⟨p, hobs, hne, ?_⟩)
    simp only [dead, Bool.or_eq_false_iff, Bool.and_eq_false_iff, List.contains_eq_mem, hobs,
      decide_true, Bool.true_eq_false, false_or, Option.isNone_eq_false_iff] at hdead
    exact hdead.1.1
  · refine hchecked (.inr ⟨htags, m, hlo, hhi, hspoiled.imp_right fun hne hst => hne ?_⟩)
    rw [Fpu.stored, stored_of_loaded hs.shaped hs.loaded hlo hhi] at hst
    rw [hmem]
    exact (Option.some.inj hst).symm

/-- **Nothing is looked at again**: the destination reports success as the source
does. -/
theorem joined (hL : fpSseGuest.Fits L) {s₀ : State} (h₀ : fpSseGuest.Boot L s₀)
    (hclear : s₀.fpu.es = false) {es : List Byte} (hsrc : Run (fpSseGuest.Step L) s₀ es s)
    (hmig : fpSseGuest.Migrated s d) (hchecked : ¬ Ahead s d) :
    Joined fpSseGuest L (msgLine "FPSSE:OK") s d := by
  have hs : Intact L s := hsrc.invariant (intact_boot hL h₀ hclear)
    fun _ _ _ ht hstep => intact_step hL ht hstep
  have hstops : Leads (Steps program L) (fun t => t.rip = report ∨ t.rip ∈ failed) s :=
    (leads_report hL h₀ hclear hsrc).bind fun _ ht => .now (.inl ht)
  obtain ⟨fs, u, v, hu, hv, hR, hstop⟩ : ∃ fs u v, Run (Steps program L) s fs u ∧
      Run (Steps program L) d fs v ∧ Trailing L s.log u v ∧
        (u.rip = report ∨ u.rip ∈ failed) :=
    hstops.follow (fun _ _ _ _ hR hno hstep => trailing_step hL hR (not_or.mp hno) hstep)
      (trailing_start hs hmig hchecked)
  have hrip := hstop.resolve_right (not_failed hL h₀ hclear (hsrc.trans hu) hR.intact.sound)
  exact Guest.joined wired hL contents_ok ok_nonzero (n := report) rfl rfl rfl (by decide) hu hv
    hrip hR.alike (dead_mem _) (dead_gpr _ _) hR.intact.sound.nested
    (hR.intact.sound.image .msg_ok rfl)

/-! ## A layout of the payload -/

def layout : Layout Data := Guest.slotLayout fun
  | .msg_ready => 0
  | .msg_ok => 1
  | .msg_fail_x87_cw => 2
  | .msg_fail_mxcsr => 3
  | .msg_fail_xmm => 4
  | .msg_fail_x87_data => 5
  | .x87_cw_value => 6
  | .x87_cw_seen => 7
  | .mxcsr_value => 8
  | .mxcsr_seen => 9
  | .x87_values => 10
  | .xmm_patterns => 11

theorem fits_layout : fpSseGuest.Fits layout := by
  refine Guest.fits_slots ?_ ?_ ?_ (by decide : program.instrs.length ≤ 128)
  · intro d d' h
    cases d <;> cases d' <;> first | rfl | cases h
  · intro d
    cases d <;> decide
  · intro d
    show (contents d).length ≤ 0x200
    cases d with
    | xmm_patterns => exact length_patterns.le.trans (by decide)
    | x87_values => exact length_values.le.trans (by decide)
    | _ => simp [contents, db, dw, dd, msgLine, ascii, Text.lit]

def labels : List Data :=
  [.msg_ready, .msg_ok, .msg_fail_x87_cw, .msg_fail_mxcsr, .msg_fail_xmm, .msg_fail_x87_data,
    .x87_cw_value, .x87_cw_seen, .mxcsr_value, .mxcsr_seen, .x87_values, .xmm_patterns]

theorem mem_labels : ∀ x, x ∈ labels := by
  intro x
  cases x <;> decide

end QemuTest.Asm.FpSse

import QemuTest.Macro.Distinct
import QemuTest.Main.Tokens
import QemuTest.Process.Command

/-!
# Macro — Selectable

Selecting and excluding by one parameter: for which properties of an entry the
text `k=v` of its label is a filter token.
-/

namespace QemuTest

open Text Words

variable {β : Type}

/-- The text of a property selects the entry as a token, and excludes it with
a dash in front, whatever the skip reason. -/
structure Selectable (e : TestEntry β) (p : Str × Str) : Prop where
  accepted : TestFilter.parse (shownProperty p) = .ok ⟨[shownProperty p], []⟩
  selected : ∀ skip, TestFilter.matches ⟨[shownProperty p], []⟩ e.label skip = true
  negated : TestFilter.parse ('-' :: shownProperty p) = .ok ⟨[], [shownProperty p]⟩
  excluded : ∀ skip, TestFilter.matches ⟨[], [shownProperty p]⟩ e.label skip = false

/-- Two words with a `=` in between are a token. -/
theorem isToken_shownProperty_iff (p : Str × Str) :
    IsToken (shownProperty p) ↔ IsWord p.1 ∧ IsWord p.2 := by
  have hshown : shownProperty p = p.1 ++ '=' :: p.2 := by simp [shownProperty]
  rw [isToken_iff_words, hshown]
  constructor
  · rintro ⟨hcount, hparts⟩
    rw [List.count_append, List.count_cons_self] at hcount
    have hk : '=' ∉ p.1 := List.count_eq_zero.mp (by omega)
    have hv : '=' ∉ p.2 := List.count_eq_zero.mp (by omega)
    rw [List.splitOn_append_cons_self_of_not_mem hk, List.splitOn_eq_singleton hv] at hparts
    exact ⟨hparts p.1 (by simp), hparts p.2 (by simp)⟩
  · rintro ⟨hk, hv⟩
    rw [List.splitOn_append_cons_self_of_not_mem hk.equals_notMem,
      List.splitOn_eq_singleton hv.equals_notMem, List.count_append, List.count_cons_self,
      List.count_eq_zero_of_not_mem hk.equals_notMem,
      List.count_eq_zero_of_not_mem hv.equals_notMem]
    simp [hk, hv]

/-- A token alone is a filter with one piece. -/
theorem parse_token {t : Str} (h : IsToken t) (negated : Bool) :
    TestFilter.parse (Piece.written ⟨negated, t⟩)
      = .ok (TestFilter.ofPieces [⟨negated, t⟩]) := by
  have hpieces : pieces (writePieces [⟨negated, t⟩]) = [⟨negated, t⟩] :=
    pieces_writePieces (by simp) (by simpa using h)
  have hwritten : writePieces [⟨negated, t⟩] = Piece.written ⟨negated, t⟩ := by
    simp [writePieces]
  rw [hwritten] at hpieces
  rw [parse_eq_ok_iff, hpieces]
  exact ⟨by simpa using h, rfl⟩

/-- **Parameter values are selectable**: the text of a visible property is a
token that selects the entry, and excludes it with a dash, iff its key and its
value are words. -/
theorem selectable_iff (e : TestEntry β) (p : Str × Str) (hp : p ∈ e.props) :
    Selectable e p ↔ IsWord p.1 ∧ IsWord p.2 := by
  rw [← isToken_shownProperty_iff]
  constructor
  · intro h
    obtain ⟨hall, heq⟩ := parse_eq_ok_iff.mp h.accepted
    have hmem : shownProperty p ∈ (TestFilter.ofPieces (pieces (shownProperty p))).include_
        ++ (TestFilter.ofPieces (pieces (shownProperty p))).exclude := by
      rw [heq]
      simp
    obtain ⟨piece, hpiece, hvalue⟩ := mem_of_mem_ofPieces hmem
    exact hvalue ▸ hall piece hpiece
  · intro htok
    have hocc : shownProperty p <:+: e.label :=
      (infix_label_iff htok e).mpr (.inr ⟨p, hp, List.infix_refl _⟩)
    refine ⟨parse_token htok false, fun skip => ?_, parse_token htok true, fun skip => ?_⟩
    · simp [TestFilter.matches, hocc]
    · simp [TestFilter.matches, hocc]

/-- `cpu=qemu64` selects. -/
theorem selectable_qemu64 :
    Selectable (⟨lit "test_cpu", [(lit "cpu", CpuModel.Qemu64.display)], (), none⟩ :
      TestEntry Unit) (lit "cpu", CpuModel.Qemu64.display) :=
  (selectable_iff _ _ (List.mem_singleton_self _)).mpr
    ((isToken_shownProperty_iff _).mp (rmatch_iff.mp (by decide +kernel)))

/-- The CPU models of `test_os_boot`. -/
def cpuFn : WrittenFn Str where
  first := .args [⟨lit "cpu",
    .multi [literal (lit "Cpu::Host"), literal (lit "Cpu::HaswellV2")] false⟩] false
  attrs := []
  ident := lit "test_os_boot"
  inputs := [(lit "cpu", lit "Cpu")]

def cpuEval (_ty text : Str) : Value CpuModel :=
  if text = lit "Cpu::HaswellV2" then .base .HaswellV2 else .base .Host

def cpuDisplay : Value CpuModel → Str
  | .base cpu => cpu.display
  | _ => []

theorem ok_cpuFn : cpuFn.Ok literalSyn := by
  refine WrittenFn.ok_of_literals ?_ ?_ (by decide) ?_
  · simp [cpuFn, WrittenFn.stack, WrittenAttr.specs, ValueForm.written]
  · simp [cpuFn, WrittenFn.stack, WrittenAttr.specs, WrittenFn.params]
  · simp [cpuFn, WrittenFn.params, skipName, lit]

/-- The entry for `Haswell-v2` is registered, and its property is refused. -/
theorem not_selectable_haswell :
    cpuFn.Ok literalSyn ∧
      ∃ entries, cpuFn.registered literalSyn cpuEval cpuDisplay (fun _ => ()) = some entries ∧
        ∃ e ∈ entries, (lit "cpu", lit "Haswell-v2") ∈ e.props ∧
          TestFilter.parse (lit "cpu=Haswell-v2")
            = .error (invalidToken (lit "cpu=Haswell-v2")) := by
  have hraw : ¬ cpuFn.Raw := by simp [WrittenFn.Raw, cpuFn, lit]
  refine ⟨ok_cpuFn, _, registered_eq ok_cpuFn (absurd · hraw) cpuEval cpuDisplay
    fun _ => (), ?_⟩
  have hprops : ((cpuFn.stack.flatMap WrittenAttr.configs).map
        (cpuFn.properties cpuEval cpuDisplay))
      = [[(lit "cpu", lit "host")], [(lit "cpu", lit "Haswell-v2")]] := by decide +kernel
  have hmem : [(lit "cpu", lit "Haswell-v2")] ∈ ((cpuFn.stack.flatMap
      WrittenAttr.configs).map (cpuFn.properties cpuEval cpuDisplay)) := by
    rw [hprops]
    simp
  obtain ⟨c, hc, hshown⟩ := List.mem_map.mp hmem
  refine ⟨_, List.mem_map_of_mem hc, ?_, by decide +kernel⟩
  change (lit "cpu", lit "Haswell-v2") ∈ cpuFn.properties cpuEval cpuDisplay c
  rw [hshown]
  exact List.mem_singleton_self _

end QemuTest

import QemuTest.Lib.Path
import QemuTest.Main.Label

/-!
# Process — KeepLogs

`save_serial_log` of `process.rs`: the file below `KEEP_LOGS` that the serial
log of a test is copied to, named after the label and the process id.

The sanitizer replaces the characters a label writes between its parts. A path
separator in a name or a value stays, and the file is then not one of the
directory that was created.
-/

namespace QemuTest

open Text Path

variable {β : Type}

/-- `label.replace(['(', ')', ',', ' ', '='], "_")`. -/
def sanitize (label : Str) : Str :=
  label.map fun c => if c ∈ ['(', ')', ',', ' ', '='] then '_' else c

/-- What the name of a kept log ends in. -/
def logSuffix (pid : Nat) : Str := '-' :: (decimal pid ++ lit ".log")

def logName (label : Str) (pid : Nat) : Str := sanitize label ++ logSuffix pid

def logDest (dir label : Str) (pid : Nat) : Str := Path.join dir (logName label pid)

/-- How `save_serial_log` ends. -/
inductive SaveOutcome where
  | skipped
  | createFailed
  | copied (dest : Place)
  | copyFailed
  deriving DecidableEq

/-- `save_serial_log` in a tree where a file can be written to every directory
that is there; `writable` tells whether `KEEP_LOGS` can be created. -/
def saveSerialLog (keep_logs : Option Str) (label : Str) (pid : Nat)
    (dirs : List Place) (writable : Bool) : SaveOutcome × List Place :=
  match keep_logs with
  | none => (.skipped, dirs)
  | some dir =>
      if label = [] then (.skipped, dirs)
      else if !writable then (.createFailed, dirs)
      else
        let dirs := createDirAll dirs (place dir)
        let dest := place (logDest dir label pid)
        if dest.parent ∈ dirs then (.copied dest, dirs) else (.copyFailed, dirs)

/-- The log of a label lands where it is promised: its name has no separator,
the file is a child of the directory, whatever was there before the copy finds
its directory, and no other process writes the same file. Whether the file
system takes the name (one with a NUL, or too long) is not asked here. -/
structure KeptInPlace (dir label : Str) (pid : Nat) : Prop where
  no_separator : '/' ∉ logName label pid
  child : place (logDest dir label pid) = (place dir).child (logName label pid)
  copied : ∀ dirs, label ≠ [] →
    (saveSerialLog (some dir) label pid dirs true).1
      = .copied (place (logDest dir label pid))
  distinct : ∀ label' pid', pid' ≠ pid →
    place (logDest dir label' pid') ≠ place (logDest dir label pid)

theorem slash_mem_sanitize {label : Str} : '/' ∈ sanitize label ↔ '/' ∈ label := by
  simp only [sanitize, List.mem_map]
  constructor
  · rintro ⟨c, hc, heq⟩
    split at heq
    · exact absurd heq (by decide)
    · exact heq ▸ hc
  · exact fun h => ⟨'/', h, by decide⟩

theorem slash_notMem_logSuffix (pid : Nat) : '/' ∉ logSuffix pid := by
  have hdecimal : '/' ∉ decimal pid := fun h => absurd (isDigit_of_mem_decimal h) (by decide)
  simp [logSuffix, hdecimal, lit]

theorem slash_mem_logName {label : Str} {pid : Nat} :
    '/' ∈ logName label pid ↔ '/' ∈ label := by
  rw [logName, List.mem_append, or_iff_left (slash_notMem_logSuffix pid),
    slash_mem_sanitize]

theorem length_logSuffix (pid : Nat) : 5 ≤ (logSuffix pid).length := by
  simp [logSuffix, lit]

/-- The end of a name tells the process id. -/
theorem pid_of_suffix {name : Str} {pid pid' : Nat} (h : logSuffix pid <:+ name)
    (h' : logSuffix pid' <:+ name) : pid = pid' := by
  have hrev : ∀ n, (logSuffix n).reverse
      = (lit ".log").reverse ++ ((decimal n).reverse ++ ['-']) := by
    intro n
    simp [logSuffix]
  have hdash : ∀ n, '-' ∉ (decimal n).reverse := by
    intro n hmem
    exact absurd (isDigit_of_mem_decimal (List.mem_reverse.mp hmem)) (by decide)
  obtain ⟨a, ha⟩ := h
  obtain ⟨b, hb⟩ := h'
  have heq := congrArg List.reverse (ha.trans hb.symm)
  simp only [List.reverse_append, hrev, List.append_assoc, List.singleton_append] at heq
  have hcut := List.append_cancel_left heq
  have hdigits := (append_cons_cancel (hdash pid) (hdash pid') hcut).1
  exact decimal_injective (List.reverse_injective hdigits)

/-- Every destination ends as its name does. -/
theorem logDest_suffix (dir label : Str) (pid : Nat) :
    ∃ a, logDest dir label pid = a ++ logSuffix pid := by
  unfold logDest Path.join
  split
  · exact ⟨sanitize label, rfl⟩
  · split
    · exact ⟨dir ++ sanitize label, by simp [logName]⟩
    · exact ⟨dir ++ '/' :: sanitize label, by simp [logName]⟩

theorem logDest_distinct {dir label label' : Str} {pid pid' : Nat} (h : pid' ≠ pid) :
    place (logDest dir label' pid') ≠ place (logDest dir label pid) := by
  intro heq
  have hlast : ∀ l n, ∃ name,
      (place (logDest dir l n)).names.getLast? = some name ∧ logSuffix n <:+ name := by
    intro l n
    obtain ⟨a, ha⟩ := logDest_suffix dir l n
    rw [place, ha]
    exact getLast?_parts (slash_notMem_logSuffix n)
      (Nat.le_trans (by omega) (length_logSuffix n))
  obtain ⟨name, hname, hsuf⟩ := hlast label pid
  obtain ⟨name', hname', hsuf'⟩ := hlast label' pid'
  rw [heq, hname] at hname'
  obtain rfl := Option.some.inj hname'
  exact h (pid_of_suffix hsuf' hsuf)

/-- A label without a separator keeps its log in place. -/
theorem keptInPlace_of_notMem {label : Str} (h : '/' ∉ label) (dir : Str) (pid : Nat) :
    KeptInPlace dir label pid := by
  have hname : '/' ∉ logName label pid := mt slash_mem_logName.mp h
  have hlen : 5 ≤ (logName label pid).length := by
    rw [logName, List.length_append]
    exact Nat.le_trans (length_logSuffix pid) (Nat.le_add_left _ _)
  have hchild : place (logDest dir label pid) = (place dir).child (logName label pid) :=
    place_join hname (fun he => by simp [he] at hlen) (fun he => by simp [he] at hlen) dir
  refine ⟨hname, hchild, fun dirs hne => ?_, fun _ _ => logDest_distinct⟩
  have hparent : (place (logDest dir label pid)).parent ∈ createDirAll dirs (place dir) := by
    rw [hchild, parent_child]
    exact mem_createDirAll dirs (place dir)
  simp [saveSerialLog, hne, hparent]

/-- A label holds the characters of its name, keys and values, and its own
separators. -/
theorem slash_mem_label (e : TestEntry β) :
    '/' ∈ e.label ↔ '/' ∈ e.name ∨ ∃ p ∈ e.props, '/' ∈ p.1 ∨ '/' ∈ p.2 := by
  have hjoin : ∀ l : List Str, '/' ∈ QemuTest.join (lit ", ") l ↔ ∃ s ∈ l, '/' ∈ s := by
    intro l
    rw [sep_eq]
    induction l with
    | nil => simp [QemuTest.join]
    | cons s l ih =>
        cases l with
        | nil => simp [QemuTest.join]
        | cons s' l =>
            rw [QemuTest.join, List.mem_append, List.mem_append, ih,
              List.exists_mem_cons_iff]
            · simp
            · simp
  rw [label_eq, List.mem_append, labelTail]
  split
  · rename_i hp
    simp [List.isEmpty_iff.mp hp]
  · simp [hjoin]

/-- **Kept logs land in place**: the log of an entry does, for every directory
and process, iff its name and its visible keys and values have no path
separator. -/
theorem keptInPlace_iff (e : TestEntry β) (dir : Str) (pid : Nat) :
    KeptInPlace dir e.label pid ↔
      '/' ∉ e.name ∧ ∀ p ∈ e.props, '/' ∉ p.1 ∧ '/' ∉ p.2 := by
  have hlabel : '/' ∉ e.label ↔ '/' ∉ e.name ∧ ∀ p ∈ e.props, '/' ∉ p.1 ∧ '/' ∉ p.2 := by
    rw [slash_mem_label]
    simp only [not_or, not_exists, not_and]
  rw [← hlabel]
  constructor
  · exact fun h hmem => h.no_separator (slash_mem_logName.mpr hmem)
  · exact fun h => keptInPlace_of_notMem h dir pid

/-- The entry of `test_os_boot` with firmware. -/
def ovmfEntry : TestEntry Unit where
  name := lit "test_os_boot"
  props := [(lit "cpu", lit "host"), (lit "machine", lit "q35"), (lit "smp", lit "1"),
    (lit "ovmf", lit "payload/OVMF_CODE.fd"), (lit "io_thread", lit "true")]
  test_fn := ()
  skip := none

/-- The log of `ovmfEntry` is not copied: there is no directory for it. -/
theorem not_keptInPlace_ovmf :
    ¬ KeptInPlace (lit "logs") ovmfEntry.label 4711 ∧
      (saveSerialLog (some (lit "logs")) ovmfEntry.label 4711 [] true).1 = .copyFailed := by
  refine ⟨fun h => ?_, by decide +kernel⟩
  exact h.no_separator (by decide +kernel)

end QemuTest

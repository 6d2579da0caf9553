import QemuTest.Junit
import QemuTest.Util.Filter

/-!
# Main — Select

The selection part of `main`: the closure given to `filter` over the
registered entries, with its two paths (without and with a filter) and its
effects (the printed SKIP lines and the skip results kept for JUnit).

`EntryClass` names the three things that can happen to an entry;
`consider_eq` is the one fact about the closure the rest uses.
-/

namespace QemuTest

open Text

/-- A registered test: its name, what `props_fn` returns, its body, and its
skip reason. -/
structure TestEntry (β : Type) where
  name : Str
  props : List (Str × Str)
  test_fn : β
  skip : Option Str

variable {β : Type}

/-- `Vec<String>::join`. -/
def join (sep : Str) : List Str → Str
  | [] => []
  | [s] => s
  | s :: ss => s ++ sep ++ join sep ss

def TestEntry.label (e : TestEntry β) : Str :=
  if e.props.isEmpty then e.name
  else
    let params := e.props.map fun p => p.1 ++ ['='] ++ p.2
    e.name ++ ['('] ++ join (lit ", ") params ++ [')']

def TestEntry.properties (e : TestEntry β) : List (Str × Str) := e.props

/-! ## The filter closure -/

/-- What the closure does with one entry: whether it keeps it, the lines it
prints and the results it pushes. -/
structure Effect where
  keep : Bool
  printed : List Str
  pushed : List TestResult
  deriving DecidableEq

def skipLine (label reason : Str) : Str :=
  lit "SKIP: " ++ label ++ lit " (" ++ reason ++ lit ")"

def skipResult (e : TestEntry β) (reason : Str) : TestResult where
  label := e.label
  properties := e.properties
  outcome := .Skip reason
  duration := 0

/-- The report of a skipped entry: a printed line, and a result when a JUnit
path is set. -/
def reportSkip (junit : Bool) (e : TestEntry β) (reason : Str) : Effect where
  keep := false
  printed := [skipLine e.label reason]
  pushed := if junit then [skipResult e reason] else []

/-- The closure `main` filters the entries with. -/
def consider (filter : Option TestFilter) (junit : Bool) (e : TestEntry β) : Effect :=
  let label := e.label
  match filter with
  | none =>
      match e.skip with
      | some reason => reportSkip junit e reason
      | none => ⟨true, [], []⟩
  | some filter =>
      let matched := filter.matches label e.skip
      let skipped_by_annotation :=
        e.skip.isSome && filter.matches label none && !matched
      match skipped_by_annotation, e.skip with
      | true, some reason => { reportSkip junit e reason with keep := matched }
      | _, _ => ⟨matched, [], []⟩

/-- A reference into `TESTS`: the entry and its slot. -/
abbrev EntryRef (β : Type) := TestEntry β × Nat

/-- `TESTS.iter()`. -/
def slots (tests : List (TestEntry β)) : List (EntryRef β) := tests.zipIdx

/-- What the selection leaves behind. -/
structure Selection (β : Type) where
  tests : List (EntryRef β)
  printed : List Str
  skip_results : List TestResult

/-- `.filter(..).collect()`: the closure runs once on each entry, in order. -/
def select (filter : Option TestFilter) (junit : Bool) :
    List (EntryRef β) → Selection β
  | [] => ⟨[], [], []⟩
  | r :: rs =>
      let effect := consider filter junit r.1
      let rest := select filter junit rs
      { tests := if effect.keep then r :: rest.tests else rest.tests
        printed := effect.printed ++ rest.printed
        skip_results := effect.pushed ++ rest.skip_results }

/-! ## The three classes -/

inductive EntryClass where
  | run
  | skipReported
  | dropped
  deriving DecidableEq, Repr

/-- What each class means for the closure's effect. -/
def EntryClass.effect (c : EntryClass) (junit : Bool) (e : TestEntry β) : Effect :=
  match c with
  | .run => ⟨true, [], []⟩
  | .skipReported => reportSkip junit e (e.skip.getD [])
  | .dropped => ⟨false, [], []⟩

/-- The class the tokens and the skip reason give. -/
def EntryClass.of (f : TestFilter) (e : TestEntry β) : EntryClass :=
  if f.Rejects e.label then .dropped
  else if e.skip.isNone || !f.include_.isEmpty then .run
  else .skipReported

theorem not_rejects_empty (label : Str) : ¬ TestFilter.empty.Rejects label := by
  simp [TestFilter.Rejects, TestFilter.empty]

/-- **The closure, decided**: whatever the filter, its effect is that of the
class the tokens and the skip reason give; no filter is the filter without
tokens. -/
theorem consider_eq (filter : Option TestFilter) (junit : Bool) (e : TestEntry β) :
    consider filter junit e
      = (EntryClass.of (filter.getD .empty) e).effect junit e := by
  cases filter with
  | none =>
      have hrej := not_rejects_empty e.label
      cases hs : e.skip with
      | none => simp [consider, EntryClass.of, hrej, hs, EntryClass.effect]
      | some reason =>
          have hinc : TestFilter.empty.include_.isEmpty = true := rfl
          simp [consider, EntryClass.of, hrej, hs, EntryClass.effect, hinc]
  | some f =>
      rw [Option.getD_some]
      by_cases hrej : f.Rejects e.label
      · -- rejected labels match neither with nor without the skip reason
        simp only [consider, matches_of_rejects hrej, EntryClass.of, if_pos hrej,
          EntryClass.effect, Bool.and_false, Bool.false_and]
      · cases hs : e.skip with
        | none =>
            simp [consider, hs, matches_of_not_rejects hrej, EntryClass.of, hrej,
              EntryClass.effect]
        | some reason =>
            by_cases hinc : f.include_.isEmpty = true
            · simp [consider, hs, matches_of_not_rejects hrej, EntryClass.of, hrej,
                hinc, EntryClass.effect, reportSkip]
            · simp [consider, hs, matches_of_not_rejects hrej, EntryClass.of, hrej,
                hinc, EntryClass.effect]

/-! ## The selection, by class -/

/-- The entries of one class, in order. -/
def ofClass (f : TestFilter) (c : EntryClass) (rs : List (EntryRef β)) :
    List (EntryRef β) :=
  rs.filter fun r => EntryClass.of f r.1 = c

/-- The loop collects the three classes: what runs is what is of class `run`,
what is printed and pushed is what is of class `skipReported`. -/
theorem select_eq (filter : Option TestFilter) (junit : Bool)
    (rs : List (EntryRef β)) :
    let f := filter.getD .empty
    let skipped := ofClass f .skipReported rs
    select filter junit rs =
      { tests := ofClass f .run rs
        printed := skipped.map fun r => skipLine r.1.label (r.1.skip.getD [])
        skip_results :=
          if junit then skipped.map fun r => skipResult r.1 (r.1.skip.getD [])
          else [] } := by
  intro f skipped
  induction rs with
  | nil => simp [select, skipped, ofClass]
  | cons r rs ih =>
      simp only [select, ih, consider_eq, skipped, ofClass, List.filter_cons]
      -- the head adds to the part its class names, and to no other
      cases hc : EntryClass.of (filter.getD .empty) r.1 with
      | run => simp [f, EntryClass.effect]
      | dropped => simp [f, EntryClass.effect]
      | skipReported => cases junit <;> simp [f, EntryClass.effect, reportSkip]

end QemuTest

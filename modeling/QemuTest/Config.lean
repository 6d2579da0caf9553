import QemuTest.Lib.Text
import Mathlib.Algebra.Group.Nat.Defs

/-!
# Config

The numeric settings of `config.rs`, read from the environment: `TEST_JOBS`
and `TEST_REPEAT`. An absent variable gives the default, a text that is no
`usize` the error of its `context`.
-/

namespace QemuTest

open Text

/-- `usize` on the 64-bit targets the tests run on. -/
def usizeSize : Nat := 2 ^ 64

/-- A leading `+` taken off. -/
def dropPlus : Str → Str
  | [] => []
  | c :: s => if c = '+' then s else c :: s

/-- `str::parse::<usize>`: an optional `+`, then ASCII digits, in range. -/
def parseUsize (s : Str) : Option Nat :=
  match ofDecimal (dropPlus s) with
  | some n => if n < usizeSize then some n else none
  | none => none

structure Config where
  test_jobs : Option Str
  test_repeat : Option Str
  deriving DecidableEq, Repr

def defaultTestJobs : Nat := 1

def Config.testJobs (c : Config) : Except Str Nat :=
  match c.test_jobs with
  | none => .ok defaultTestJobs
  | some value =>
      match parseUsize value with
      | none => .error (lit "invalid TEST_JOBS value")
      | some jobs => .ok jobs

def Config.testRepeat (c : Config) : Except Str Nat :=
  match c.test_repeat with
  | none => .ok 1
  | some value =>
      match parseUsize value with
      | none => .error (lit "invalid TEST_REPEAT value")
      | some n =>
          if n = 0 then .error (lit "TEST_REPEAT must be at least 1")
          else .ok n

theorem parseUsize_lt {s : Str} {n : Nat} (h : parseUsize s = some n) :
    n < usizeSize := by
  simp only [parseUsize] at h
  split at h
  · split at h
    · cases h
      assumption
    · cases h
  · cases h

theorem dropPlus_decimal (n : Nat) : dropPlus (decimal n) = decimal n := by
  cases hd : decimal n with
  | nil => rfl
  | cons c s =>
      have hdig : c.isDigit = true := isDigit_of_mem_decimal (n := n) (by simp [hd])
      have hc : c ≠ '+' := by
        intro he
        subst he
        exact absurd hdig (by decide)
      exact if_neg hc

/-- Every value below the word size is accepted in its decimal form. -/
theorem parseUsize_decimal {n : Nat} (h : n < usizeSize) :
    parseUsize (decimal n) = some n := by
  simp [parseUsize, dropPlus_decimal, h]

/-- An accepted repeat count is at least one. -/
theorem Config.testRepeat_pos {c : Config} {n : Nat} (h : c.testRepeat = .ok n) :
    1 ≤ n := by
  simp only [Config.testRepeat] at h
  split at h
  · cases h
    omega
  · split at h
    · cases h
    · split at h
      · cases h
      · cases h
        omega

end QemuTest

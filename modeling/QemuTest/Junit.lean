import QemuTest.Lib.Xml

/-!
# Junit

The JUnit writer of `junit.rs`: `xmlEscape` as five successive replacements,
`formatJunit` as the string it builds line by line.

Over the string sits the list of pieces it prints (`junitPieces`); the two
are tied by `formatJunit_eq`, and everything later is said about the pieces.
Seconds are formatted by a parameter, of which only the alphabet is used.
-/

namespace QemuTest

open Text Xml

/-! ## Results -/

inductive TestOutcome where
  | Pass
  | Fail (msg : Str)
  | Skip (reason : Str)
  deriving DecidableEq, Repr

/-- A duration in nanoseconds. -/
abbrev Duration := Nat

structure TestResult where
  label : Str
  properties : List (Str × Str)
  outcome : TestOutcome
  duration : Duration
  deriving DecidableEq, Repr

def TestOutcome.isFail : TestOutcome → Bool
  | .Fail _ => true
  | _ => false

def TestOutcome.isSkip : TestOutcome → Bool
  | .Skip _ => true
  | _ => false

@[simp] theorem isFail_pass : TestOutcome.Pass.isFail = false := rfl
@[simp] theorem isFail_fail (m : Str) : (TestOutcome.Fail m).isFail = true := rfl
@[simp] theorem isFail_skip (m : Str) : (TestOutcome.Skip m).isFail = false := rfl
@[simp] theorem isSkip_pass : TestOutcome.Pass.isSkip = false := rfl
@[simp] theorem isSkip_fail (m : Str) : (TestOutcome.Fail m).isSkip = false := rfl
@[simp] theorem isSkip_skip (m : Str) : (TestOutcome.Skip m).isSkip = true := rfl

/-- The rendering `{:.3}` of `as_secs_f64`: a string of digits and a dot. -/
structure SecsFormat where
  fmt : Duration → Str
  alphabet : ∀ d, ∀ c ∈ fmt d, c.isDigit = true ∨ c = '.'

/-- The rendering with the milliseconds cut off, exact on whole ones. -/
def SecsFormat.millis : SecsFormat where
  fmt d :=
    let ms := d / 1000000
    decimal (ms / 1000) ++ '.' :: (decimal (1000 + ms % 1000)).drop 1
  alphabet := by
    intro d c hc
    rcases List.mem_append.mp hc with hc | hc
    · exact .inl (isDigit_of_mem_decimal hc)
    · rcases List.mem_cons.mp hc with rfl | hc
      · exact .inr rfl
      · exact .inl (isDigit_of_mem_decimal (List.mem_of_mem_drop hc))

/-! ## The writer -/

def xmlEscape (s : Str) : Str :=
  replaceChar '\'' ['&', 'a', 'p', 'o', 's', ';']
    (replaceChar '"' ['&', 'q', 'u', 'o', 't', ';']
      (replaceChar '>' ['&', 'g', 't', ';']
        (replaceChar '<' ['&', 'l', 't', ';']
          (replaceChar '&' ['&', 'a', 'm', 'p', ';'] s))))

/-- `writeln!`: the formatted text and a line feed. -/
def writeln (s : Str) : Str := s ++ ['\n']

/-- The `<property .. />` line of one property. -/
def propertyLine (p : Str × Str) : Str :=
  writeln (lit "        <property name=\"" ++ xmlEscape p.1
    ++ lit "\" value=\"" ++ xmlEscape p.2 ++ lit "\" />")

def propertiesBlock (props : List (Str × Str)) : Str :=
  if props.isEmpty then []
  else
    writeln (lit "      <properties>")
      ++ props.flatMap propertyLine
      ++ writeln (lit "      </properties>")

def outcomeBlock : TestOutcome → Str
  | .Fail msg =>
      writeln (lit "      <failure message=\"" ++ xmlEscape msg
        ++ lit "\">" ++ xmlEscape msg ++ lit "</failure>")
  | .Skip reason =>
      writeln (lit "      <skipped message=\"" ++ xmlEscape reason
        ++ lit "\" />")
  | .Pass => []

def testcaseEmptyLine (name time : Str) : Str :=
  writeln (lit "    <testcase name=\"" ++ name
    ++ lit "\" classname=\"qemu-test\" time=\"" ++ time ++ lit "\" />")

def testcaseOpenLine (name time : Str) : Str :=
  writeln (lit "    <testcase name=\"" ++ name
    ++ lit "\" classname=\"qemu-test\" time=\"" ++ time ++ lit "\">")

/-- The loop body of `format_junit`: a passing result without properties is
one self-closing line, every other result an open element. -/
def resultBlock (secs : SecsFormat) (result : TestResult) : Str :=
  let name := xmlEscape result.label
  let time := secs.fmt result.duration
  if result.outcome = .Pass ∧ result.properties.isEmpty then
    testcaseEmptyLine name time
  else
    testcaseOpenLine name time
      ++ propertiesBlock result.properties
      ++ outcomeBlock result.outcome
      ++ writeln (lit "    </testcase>")

def xmlLine : Str := writeln (lit "<?xml version=\"1.0\" encoding=\"UTF-8\"?>")

def testsuitesLine (total failures skipped time : Str) : Str :=
  writeln (lit "<testsuites tests=\"" ++ total
    ++ lit "\" failures=\"" ++ failures
    ++ lit "\" skipped=\"" ++ skipped
    ++ lit "\" time=\"" ++ time ++ lit "\">")

def testsuiteLine (total failures skipped time : Str) : Str :=
  writeln (lit "  <testsuite name=\"qemu-test\" tests=\"" ++ total
    ++ lit "\" failures=\"" ++ failures
    ++ lit "\" skipped=\"" ++ skipped
    ++ lit "\" time=\"" ++ time ++ lit "\">")

def formatJunit (secs : SecsFormat) (results : List TestResult)
    (total_duration : Duration) : Str :=
  let total := decimal results.length
  let failures := decimal (results.filter fun r => r.outcome.isFail).length
  let skipped := decimal (results.filter fun r => r.outcome.isSkip).length
  let time := secs.fmt total_duration
  xmlLine
    ++ testsuitesLine total failures skipped time
    ++ testsuiteLine total failures skipped time
    ++ results.flatMap (resultBlock secs)
    ++ writeln (lit "  </testsuite>")
    ++ writeln (lit "</testsuites>")

/-! ## Five passes are one -/

theorem xmlEscape_append (s t : Str) :
    xmlEscape (s ++ t) = xmlEscape s ++ xmlEscape t := by
  simp [xmlEscape]

/-- The five passes in their order. -/
def escapePasses : List (Char × Str) :=
  [('&', ['&', 'a', 'm', 'p', ';']), ('<', ['&', 'l', 't', ';']), ('>', ['&', 'g', 't', ';']),
    ('"', ['&', 'q', 'u', 'o', 't', ';']), ('\'', ['&', 'a', 'p', 'o', 's', ';'])]

theorem substChar_escapePasses (c : Char) : substChar escapePasses c = escapeChar c := by
  rcases escapeChar_cases c with
    rfl | rfl | rfl | rfl | rfl | ⟨h1, h2, h3, h4, h5, he⟩
  · rfl
  · rfl
  · rfl
  · rfl
  · rfl
  · rw [he]
    exact substChar_of_notMem (by simp [escapePasses, Ne.symm h1, Ne.symm h2, Ne.symm h3,
      Ne.symm h4, Ne.symm h5])

/-- The order of the passes makes them one simultaneous pass: `&` is replaced
before any entity text exists. -/
theorem xmlEscape_eq (s : Str) : xmlEscape s = escape s := by
  have hpasses : xmlEscape s = replacePasses escapePasses s := rfl
  rw [hpasses, replacePasses_eq (by decide), escape]
  exact List.flatMap_congr fun c _ => substChar_escapePasses c

/-- **Escaping**: the passes are the one map of the characters, so they go
over a concatenation part by part, leave no markup character but `&`, and are
undone by decoding the entities, also in a text that holds entity text. -/
theorem xmlEscape_exact (s : Str) :
    xmlEscape s = s.flatMap escapeChar ∧
    (∀ t, xmlEscape (s ++ t) = xmlEscape s ++ xmlEscape t) ∧
    (∀ x, x = '<' ∨ x = '>' ∨ x = '"' ∨ x = '\'' → x ∉ xmlEscape s) ∧
    decode (xmlEscape s) = s := by
  refine ⟨xmlEscape_eq s, xmlEscape_append s, fun x hx => ?_, ?_⟩
  · rw [xmlEscape_eq]
    exact notMem_escape s hx
  · rw [xmlEscape_eq, decode_escape]

/-! ## The pieces the writer prints -/

def propertyAttrs (p : Str × Str) : List Attr :=
  [(lit "name", escape p.1), (lit "value", escape p.2)]

def propertyPiece (p : Str × Str) : Piece :=
  ⟨lit "\n        ", .empty (lit "property") (propertyAttrs p)⟩

def propertiesPieces (props : List (Str × Str)) : List Piece :=
  if props.isEmpty then []
  else
    ⟨lit "\n      ", .start (lit "properties") []⟩
      :: (props.flatMap fun p => [propertyPiece p])
      ++ [⟨lit "\n      ", .stop (lit "properties")⟩]

def messageAttrs (msg : Str) : List Attr := [(lit "message", escape msg)]

def outcomePieces : TestOutcome → List Piece
  | .Fail msg =>
      [⟨lit "\n      ", .start (lit "failure") (messageAttrs msg)⟩,
        ⟨escape msg, .stop (lit "failure")⟩]
  | .Skip reason =>
      [⟨lit "\n      ", .empty (lit "skipped") (messageAttrs reason)⟩]
  | .Pass => []

def testcaseAttrs (secs : SecsFormat) (r : TestResult) : List Attr :=
  [(lit "name", escape r.label),
    (lit "classname", lit "qemu-test"),
    (lit "time", secs.fmt r.duration)]

def resultPieces (secs : SecsFormat) (r : TestResult) : List Piece :=
  if r.outcome = .Pass ∧ r.properties.isEmpty then
    [⟨lit "\n    ", .empty (lit "testcase") (testcaseAttrs secs r)⟩]
  else
    [⟨lit "\n    ", .start (lit "testcase") (testcaseAttrs secs r)⟩]
      ++ propertiesPieces r.properties
      ++ outcomePieces r.outcome
      ++ [⟨lit "\n    ", .stop (lit "testcase")⟩]

/-- The counters both suite elements carry. -/
def countAttrs (secs : SecsFormat) (results : List TestResult)
    (total_duration : Duration) : List Attr :=
  [(lit "tests", decimal results.length),
    (lit "failures", decimal (results.filter fun r => r.outcome.isFail).length),
    (lit "skipped", decimal (results.filter fun r => r.outcome.isSkip).length),
    (lit "time", secs.fmt total_duration)]

def suiteAttrs (secs : SecsFormat) (results : List TestResult)
    (total_duration : Duration) : List Attr :=
  (lit "name", lit "qemu-test") :: countAttrs secs results total_duration

def xmlDecl : Tag := .pi (lit "xml version=\"1.0\" encoding=\"UTF-8\"")

/-- The pieces after the XML declaration. -/
def suitesPieces (secs : SecsFormat) (results : List TestResult)
    (total_duration : Duration) : List Piece :=
  [⟨lit "\n", .start (lit "testsuites")
      (countAttrs secs results total_duration)⟩]
    ++ [⟨lit "\n  ", .start (lit "testsuite")
      (suiteAttrs secs results total_duration)⟩]
    ++ results.flatMap (resultPieces secs)
    ++ [⟨lit "\n  ", .stop (lit "testsuite")⟩]
    ++ [⟨lit "\n", .stop (lit "testsuites")⟩]

def junitPieces (secs : SecsFormat) (results : List TestResult)
    (total_duration : Duration) : List Piece :=
  ⟨[], xmlDecl⟩ :: suitesPieces secs results total_duration

theorem prints_propertyLine (p : Str × Str) :
    Prints (propertyLine p) [propertyPiece p] := by
  have hline := Prints.line (lit "        ")
    (.empty (lit "property") (propertyAttrs p))
  simpa [lit, propertyLine, writeln, xmlEscape_eq, Tag.render, Attr.render,
    propertyAttrs, propertyPiece] using hline

theorem prints_propertiesBlock (props : List (Str × Str)) :
    Prints (propertiesBlock props) (propertiesPieces props) := by
  unfold propertiesBlock propertiesPieces
  split
  · exact Prints.nil
  · have hopen := Prints.line (lit "      ") (.start (lit "properties") [])
    have hprops := Prints.flatMap fun p (_ : p ∈ props) => prints_propertyLine p
    have hclose := Prints.line (lit "      ") (.stop (lit "properties"))
    simpa [lit, writeln, Tag.render] using (hopen.append hprops).append hclose

theorem prints_outcomeBlock (o : TestOutcome) :
    Prints (outcomeBlock o) (outcomePieces o) := by
  cases o with
  | Pass => exact Prints.nil
  | Fail msg =>
      have hline := Prints.textLine (lit "      ")
        (.start (lit "failure") (messageAttrs msg)) (escape msg)
        (.stop (lit "failure"))
      simpa [lit, outcomeBlock, outcomePieces, writeln, xmlEscape_eq, Tag.render,
        Attr.render, messageAttrs] using hline
  | Skip reason =>
      have hline := Prints.line (lit "      ")
        (.empty (lit "skipped") (messageAttrs reason))
      simpa [lit, outcomeBlock, outcomePieces, writeln, xmlEscape_eq, Tag.render,
        Attr.render, messageAttrs] using hline

theorem prints_testcaseEmptyLine (secs : SecsFormat) (r : TestResult) :
    Prints (testcaseEmptyLine (xmlEscape r.label) (secs.fmt r.duration))
      [⟨lit "\n    ", .empty (lit "testcase") (testcaseAttrs secs r)⟩] := by
  have hline := Prints.line (lit "    ")
    (.empty (lit "testcase") (testcaseAttrs secs r))
  simpa [lit, testcaseEmptyLine, writeln, xmlEscape_eq, Tag.render, Attr.render,
    testcaseAttrs] using hline

theorem prints_testcaseOpenLine (secs : SecsFormat) (r : TestResult) :
    Prints (testcaseOpenLine (xmlEscape r.label) (secs.fmt r.duration))
      [⟨lit "\n    ", .start (lit "testcase") (testcaseAttrs secs r)⟩] := by
  have hline := Prints.line (lit "    ")
    (.start (lit "testcase") (testcaseAttrs secs r))
  simpa [lit, testcaseOpenLine, writeln, xmlEscape_eq, Tag.render, Attr.render,
    testcaseAttrs] using hline

theorem prints_resultBlock (secs : SecsFormat) (r : TestResult) :
    Prints (resultBlock secs r) (resultPieces secs r) := by
  have hclose : Prints (writeln (lit "    </testcase>"))
      [⟨lit "\n    ", .stop (lit "testcase")⟩] := by
    simpa [lit, writeln, Tag.render] using
      Prints.line (lit "    ") (.stop (lit "testcase"))
  unfold resultBlock resultPieces
  split
  · exact prints_testcaseEmptyLine secs r
  · exact (((prints_testcaseOpenLine secs r).append
      (prints_propertiesBlock r.properties)).append
        (prints_outcomeBlock r.outcome)).append hclose

theorem xmlLine_eq : xmlLine = xmlDecl.render ++ ['\n'] := by
  simp [lit, xmlLine, writeln, xmlDecl, Tag.render]

theorem prints_testsuitesLine (secs : SecsFormat) (results : List TestResult)
    (d : Duration) :
    Prints
      (testsuitesLine (decimal results.length)
        (decimal (results.filter fun r => r.outcome.isFail).length)
        (decimal (results.filter fun r => r.outcome.isSkip).length) (secs.fmt d))
      [⟨lit "\n", .start (lit "testsuites") (countAttrs secs results d)⟩] := by
  have hline := Prints.line []
    (.start (lit "testsuites") (countAttrs secs results d))
  simpa [lit, testsuitesLine, writeln, Tag.render, Attr.render, countAttrs]
    using hline

theorem prints_testsuiteLine (secs : SecsFormat) (results : List TestResult)
    (d : Duration) :
    Prints
      (testsuiteLine (decimal results.length)
        (decimal (results.filter fun r => r.outcome.isFail).length)
        (decimal (results.filter fun r => r.outcome.isSkip).length) (secs.fmt d))
      [⟨lit "\n  ", .start (lit "testsuite") (suiteAttrs secs results d)⟩] := by
  have hline := Prints.line (lit "  ")
    (.start (lit "testsuite") (suiteAttrs secs results d))
  simpa [lit, testsuiteLine, writeln, Tag.render, Attr.render, countAttrs,
    suiteAttrs] using hline

/-- **The document is its pieces**: `format_junit`'s string is the rendering
of `junitPieces` and a final line feed. -/
theorem formatJunit_eq (secs : SecsFormat) (results : List TestResult)
    (total_duration : Duration) :
    formatJunit secs results total_duration
      = (junitPieces secs results total_duration).flatMap Piece.render
        ++ ['\n'] := by
  have hresults := Prints.flatMap fun r (_ : r ∈ results) =>
    prints_resultBlock secs r
  have hend : Prints (writeln (lit "  </testsuite>"))
      [⟨lit "\n  ", .stop (lit "testsuite")⟩] := by
    simpa [lit, writeln, Tag.render] using
      Prints.line (lit "  ") (.stop (lit "testsuite"))
  have hends : Prints (writeln (lit "</testsuites>"))
      [⟨lit "\n", .stop (lit "testsuites")⟩] := by
    simpa [lit, writeln, Tag.render] using
      Prints.line [] (.stop (lit "testsuites"))
  have hall := ((((prints_testsuitesLine secs results total_duration).append
    (prints_testsuiteLine secs results total_duration)).append
      hresults).append hend).append hends
  unfold Prints at hall
  rw [junitPieces, List.flatMap_cons, suitesPieces, List.append_assoc, ← hall,
    formatJunit, xmlLine_eq]
  simp [Piece.render]

end QemuTest

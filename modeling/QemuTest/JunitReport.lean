import QemuTest.Junit

/-!
# JunitReport

What a consumer of the report relies on: that it is well-formed XML, and
that reading it back gives the results that were written. The reader
`readReport` knows the element forms the CI summary selects
(`/testsuites/testsuite`, `testcase`, `failure/@message`, `skipped`) and
nothing of the writer.

The writer escapes markup but passes control characters through, so the
first property holds exactly on legal texts (`wellFormed_formatJunit_iff`);
the second holds for every list of results (`readReport_formatJunit`).
-/

namespace QemuTest

open Text Xml

/-! ## The printed pieces are escaped -/

/-- Digits and dots are not markup. -/
theorem plain_of_digits {s : Str} (h : ∀ c ∈ s, c.isDigit = true ∨ c = '.') :
    ∀ c ∈ s, c ≠ '&' ∧ c ≠ '<' ∧ c ≠ '>' ∧ c ≠ '"' ∧ c ≠ '\'' := by
  intro c hc
  rcases h c hc with hdig | rfl
  · refine ⟨?_, ?_, ?_, ?_, ?_⟩ <;> rintro rfl <;> simp at hdig
  · decide

theorem plain_decimal (n : Nat) :
    ∀ c ∈ decimal n, c ≠ '&' ∧ c ≠ '<' ∧ c ≠ '>' ∧ c ≠ '"' ∧ c ≠ '\'' :=
  plain_of_digits fun _ hc => .inl (isDigit_of_mem_decimal hc)

theorem isEscaped_decimal (n : Nat) : IsEscaped (decimal n) :=
  isEscaped_of_plain (plain_decimal n)

theorem SecsFormat.isEscaped (secs : SecsFormat) (d : Duration) :
    IsEscaped (secs.fmt d) :=
  isEscaped_of_plain (plain_of_digits (secs.alphabet d))

theorem isEscaped_lit {s : String} (h : escape (lit s) = lit s) :
    IsEscaped (lit s) := ⟨lit s, h.symm⟩

theorem escaped_propertyPiece (p : Str × Str) : (propertyPiece p).Escaped := by
  have hvalue := AttrsEscaped.nil.cons (k := lit "value") (by unfold lit; decide)
    (by simp) (isEscaped_escape p.2)
  have hname := hvalue.cons (k := lit "name") (by unfold lit; decide)
    (by simp [lit]) (isEscaped_escape p.1)
  exact ⟨isEscaped_lit (by unfold lit; decide), by unfold lit; decide, hname⟩

theorem escaped_messageAttrs (msg : Str) : AttrsEscaped (messageAttrs msg) :=
  AttrsEscaped.nil.cons (by unfold lit; decide) (by simp) (isEscaped_escape msg)

theorem escaped_testcaseAttrs (secs : SecsFormat) (r : TestResult) :
    AttrsEscaped (testcaseAttrs secs r) := by
  have htime := AttrsEscaped.nil.cons (k := lit "time") (by unfold lit; decide)
    (by simp) (secs.isEscaped r.duration)
  have hclass := htime.cons (k := lit "classname") (by unfold lit; decide)
    (by simp [lit]) (isEscaped_lit (s := "qemu-test") (by unfold lit; decide))
  exact hclass.cons (by unfold lit; decide) (by simp [lit]) (isEscaped_escape _)

theorem escaped_countAttrs (secs : SecsFormat) (results : List TestResult)
    (d : Duration) : AttrsEscaped (countAttrs secs results d) := by
  have htime := AttrsEscaped.nil.cons (k := lit "time") (by unfold lit; decide)
    (by simp) (secs.isEscaped d)
  have hskipped := htime.cons (k := lit "skipped") (by unfold lit; decide)
    (by simp [lit])
    (isEscaped_decimal (results.filter fun r => r.outcome.isSkip).length)
  have hfailures := hskipped.cons (k := lit "failures") (by unfold lit; decide)
    (by simp [lit])
    (isEscaped_decimal (results.filter fun r => r.outcome.isFail).length)
  exact hfailures.cons (by unfold lit; decide) (by simp [lit])
    (isEscaped_decimal results.length)

theorem escaped_suiteAttrs (secs : SecsFormat) (results : List TestResult)
    (d : Duration) : AttrsEscaped (suiteAttrs secs results d) :=
  (escaped_countAttrs secs results d).cons (by unfold lit; decide)
    (by simp [lit, countAttrs]) (isEscaped_lit (by unfold lit; decide))

theorem escaped_propertiesPieces (props : List (Str × Str)) :
    ∀ p ∈ propertiesPieces props, p.Escaped := by
  intro p hp
  unfold propertiesPieces at hp
  split at hp
  · cases hp
  · simp only [List.cons_append, List.mem_cons, List.mem_append,
      List.mem_flatMap, List.not_mem_nil, or_false] at hp
    rcases hp with rfl | ⟨q, -, rfl⟩ | rfl
    · exact ⟨isEscaped_lit (by unfold lit; decide), by unfold lit; decide, AttrsEscaped.nil⟩
    · exact escaped_propertyPiece q
    · exact ⟨isEscaped_lit (by unfold lit; decide),
        Tag.escaped_stop (by unfold lit; decide)⟩

theorem escaped_outcomePieces (o : TestOutcome) :
    ∀ p ∈ outcomePieces o, p.Escaped := by
  intro p hp
  cases o with
  | Pass => cases hp
  | Fail msg =>
      simp only [outcomePieces, List.mem_cons, List.not_mem_nil, or_false] at hp
      rcases hp with rfl | rfl
      · exact ⟨isEscaped_lit (by unfold lit; decide), by unfold lit; decide,
          escaped_messageAttrs msg⟩
      · exact ⟨isEscaped_escape msg, Tag.escaped_stop (by unfold lit; decide)⟩
  | Skip reason =>
      simp only [outcomePieces, List.mem_singleton] at hp
      subst hp
      exact ⟨isEscaped_lit (by unfold lit; decide), by unfold lit; decide,
        escaped_messageAttrs reason⟩

theorem escaped_resultPieces (secs : SecsFormat) (r : TestResult) :
    ∀ p ∈ resultPieces secs r, p.Escaped := by
  intro p hp
  have hattrs := escaped_testcaseAttrs secs r
  unfold resultPieces at hp
  split at hp
  · rw [List.mem_singleton] at hp
    subst hp
    exact ⟨isEscaped_lit (by unfold lit; decide), by unfold lit; decide, hattrs⟩
  · simp only [List.mem_append, List.mem_singleton] at hp
    rcases hp with ((rfl | hp) | hp) | rfl
    · exact ⟨isEscaped_lit (by unfold lit; decide), by unfold lit; decide, hattrs⟩
    · exact escaped_propertiesPieces r.properties p hp
    · exact escaped_outcomePieces r.outcome p hp
    · exact ⟨isEscaped_lit (by unfold lit; decide),
        Tag.escaped_stop (by unfold lit; decide)⟩

theorem escaped_junitPieces (secs : SecsFormat) (results : List TestResult)
    (d : Duration) : ∀ p ∈ junitPieces secs results d, p.Escaped := by
  intro p hp
  simp only [junitPieces, suitesPieces, List.mem_cons, List.mem_append,
    List.mem_flatMap, List.not_mem_nil, or_false] at hp
  rcases hp with rfl | (((rfl | rfl) | ⟨r, -, hp⟩) | rfl) | rfl
  · exact ⟨⟨[], rfl⟩, show '?' ∉ _ by unfold lit; decide⟩
  · exact ⟨isEscaped_lit (by unfold lit; decide), by unfold lit; decide,
      escaped_countAttrs secs results d⟩
  · exact ⟨isEscaped_lit (by unfold lit; decide), by unfold lit; decide,
      escaped_suiteAttrs secs results d⟩
  · exact escaped_resultPieces secs r p hp
  · exact ⟨isEscaped_lit (by unfold lit; decide), Tag.escaped_stop (by unfold lit; decide)⟩
  · exact ⟨isEscaped_lit (by unfold lit; decide), Tag.escaped_stop (by unfold lit; decide)⟩

/-! ## The nodes the pieces stand for -/

def propertyNodes (p : Str × Str) : List Node :=
  textNodes (lit "\n        ")
    ++ [.elem (lit "property") (propertyAttrs p) []]

def propertiesNodes (props : List (Str × Str)) : List Node :=
  if props.isEmpty then []
  else
    textNodes (lit "\n      ")
      ++ [.elem (lit "properties") []
        (props.flatMap propertyNodes ++ textNodes (lit "\n      "))]

def outcomeNodes : TestOutcome → List Node
  | .Fail msg =>
      textNodes (lit "\n      ")
        ++ [.elem (lit "failure") (messageAttrs msg)
          ([] ++ textNodes (escape msg))]
  | .Skip reason =>
      textNodes (lit "\n      ")
        ++ [.elem (lit "skipped") (messageAttrs reason) []]
  | .Pass => []

/-- The children of a `testcase`. -/
def caseNodes (r : TestResult) : List Node :=
  if r.outcome = .Pass ∧ r.properties.isEmpty then []
  else
    propertiesNodes r.properties ++ outcomeNodes r.outcome
      ++ textNodes (lit "\n    ")

def resultNodes (secs : SecsFormat) (r : TestResult) : List Node :=
  textNodes (lit "\n    ")
    ++ [.elem (lit "testcase") (testcaseAttrs secs r) (caseNodes r)]

def suiteNodes (secs : SecsFormat) (results : List TestResult) (d : Duration) :
    List Node :=
  textNodes (lit "\n  ")
    ++ [.elem (lit "testsuite") (suiteAttrs secs results d)
      (results.flatMap (resultNodes secs) ++ textNodes (lit "\n  "))]

def junitNodes (secs : SecsFormat) (results : List TestResult) (d : Duration) :
    List Node :=
  [.pi (lit "xml version=\"1.0\" encoding=\"UTF-8\"")]
    ++ (textNodes (lit "\n")
      ++ [.elem (lit "testsuites") (countAttrs secs results d)
        (suiteNodes secs results d ++ textNodes (lit "\n"))])

theorem builds_propertiesPieces (props : List (Str × Str)) :
    Builds (propertiesPieces props) (propertiesNodes props) := by
  unfold propertiesPieces propertiesNodes
  split
  · exact Builds.nil
  · exact (Builds.flatMap fun p _ => Builds.empty _ _ _).elem _ _ _ _

theorem builds_outcomePieces (o : TestOutcome) :
    Builds (outcomePieces o) (outcomeNodes o) := by
  cases o with
  | Pass => exact Builds.nil
  | Fail msg => exact Builds.nil.elem _ _ _ _
  | Skip reason => exact Builds.empty _ _ _

theorem builds_resultPieces (secs : SecsFormat) (r : TestResult) :
    Builds (resultPieces secs r) (resultNodes secs r) := by
  unfold resultPieces resultNodes caseNodes
  split
  · exact Builds.empty _ _ _
  · have hbody := (builds_propertiesPieces r.properties).append
      (builds_outcomePieces r.outcome)
    have helem := hbody.elem (lit "\n    ") (lit "testcase")
      (testcaseAttrs secs r) (lit "\n    ")
    rwa [← List.append_assoc] at helem

theorem builds_junitPieces (secs : SecsFormat) (results : List TestResult)
    (d : Duration) :
    Builds (junitPieces secs results d) (junitNodes secs results d) := by
  have hresults := Builds.flatMap fun r (_ : r ∈ results) =>
    builds_resultPieces secs r
  have hsuite := hresults.elem (lit "\n  ") (lit "testsuite")
    (suiteAttrs secs results d) (lit "\n  ")
  have hsuites := hsuite.elem (lit "\n") (lit "testsuites")
    (countAttrs secs results d) (lit "\n")
  have hall := (Builds.pi [] (lit "xml version=\"1.0\" encoding=\"UTF-8\"")).append
    hsuites
  simpa [junitPieces, suitesPieces, xmlDecl, junitNodes, suiteNodes,
    textNodes] using hall

theorem parse_formatJunit (secs : SecsFormat) (results : List TestResult)
    (d : Duration) :
    parse (formatJunit secs results d)
      = some (junitNodes secs results d ++ textNodes ['\n']) := by
  rw [formatJunit_eq]
  exact parse_render (fun p hp => (escaped_junitPieces secs results d p hp).clean)
    (builds_junitPieces secs results d) (by decide)

/-! ## Well-formedness -/

/-- A result all of whose texts are legal XML characters. -/
def TestResult.legal (r : TestResult) : Bool :=
  r.label.all isChar && (r.properties.all fun p => p.1.all isChar && p.2.all isChar)
    && match r.outcome with
      | .Pass => true
      | .Fail msg => msg.all isChar
      | .Skip reason => reason.all isChar

theorem all_isChar_digits {s : Str} (h : ∀ c ∈ s, c.isDigit = true ∨ c = '.') :
    s.all isChar = true := by
  rw [List.all_eq_true]
  intro c hc
  rcases h c hc with hdig | rfl
  · simp only [Char.isDigit, Bool.and_eq_true, decide_eq_true_eq] at hdig
    obtain ⟨hlo, hhi⟩ := hdig
    have h1 : 48 ≤ c.toNat := hlo
    have h2 : c.toNat ≤ 57 := hhi
    have hbase : (0x20 ≤ c.toNat && c.toNat ≤ 0xD7FF) = true := by
      simp only [Bool.and_eq_true, decide_eq_true_eq]
      omega
    simp [isChar, hbase]
  · decide

theorem all_isChar_decimal (n : Nat) : (decimal n).all isChar = true :=
  all_isChar_digits fun _ hc => .inl (isDigit_of_mem_decimal hc)

theorem SecsFormat.all_isChar (secs : SecsFormat) (d : Duration) :
    (secs.fmt d).all isChar = true :=
  all_isChar_digits (secs.alphabet d)

/-- Literal text of the writer is legal: the side condition of every line. -/
theorem all_isChar_writeln {s : Str} : (writeln s).all isChar = s.all isChar := by
  rw [writeln, List.all_append, show ['\n'].all isChar = true by decide, Bool.and_true]

theorem all_isChar_propertyLine (p : Str × Str) :
    (propertyLine p).all isChar = (p.1.all isChar && p.2.all isChar) := by
  simp only [propertyLine, all_isChar_writeln, xmlEscape_eq, List.all_append,
    all_isChar_escape,
    show (lit "        <property name=\"").all isChar = true by unfold lit; decide,
    show (lit "\" value=\"").all isChar = true by unfold lit; decide,
    show (lit "\" />").all isChar = true by unfold lit; decide,
    Bool.true_and, Bool.and_true]

theorem all_isChar_propertiesBlock (props : List (Str × Str)) :
    (propertiesBlock props).all isChar
      = props.all fun p => p.1.all isChar && p.2.all isChar := by
  cases props with
  | nil => rfl
  | cons p props =>
      simp only [propertiesBlock, List.isEmpty_cons, Bool.false_eq_true, if_false,
        List.all_append, List.all_flatMap, all_isChar_writeln,
        all_isChar_propertyLine,
        show (lit "      <properties>").all isChar = true by unfold lit; decide,
        show (lit "      </properties>").all isChar = true by unfold lit; decide,
        Bool.true_and, Bool.and_true]

theorem all_isChar_outcomeBlock (o : TestOutcome) :
    (outcomeBlock o).all isChar
      = match o with
        | .Pass => true
        | .Fail msg => msg.all isChar
        | .Skip reason => reason.all isChar := by
  cases o with
  | Pass => rfl
  | Fail msg =>
      simp only [outcomeBlock, all_isChar_writeln, xmlEscape_eq, List.all_append,
        all_isChar_escape,
        show (lit "      <failure message=\"").all isChar = true by unfold lit; decide,
        show (lit "\">").all isChar = true by unfold lit; decide,
        show (lit "</failure>").all isChar = true by unfold lit; decide,
        Bool.true_and, Bool.and_true, Bool.and_self]
  | Skip reason =>
      simp only [outcomeBlock, all_isChar_writeln, xmlEscape_eq, List.all_append,
        all_isChar_escape,
        show (lit "      <skipped message=\"").all isChar = true by unfold lit; decide,
        show (lit "\" />").all isChar = true by unfold lit; decide,
        Bool.true_and, Bool.and_true]

/-- One result's block is legal exactly when its texts are: every text of the
result is written into the block, whichever of the four shapes it has. -/
theorem all_isChar_resultBlock (secs : SecsFormat) (r : TestResult) :
    (resultBlock secs r).all isChar = r.legal := by
  have hname : (xmlEscape r.label).all isChar = r.label.all isChar := by
    rw [xmlEscape_eq, all_isChar_escape]
  have hopen : (lit "    <testcase name=\"").all isChar = true := by unfold lit; decide
  have hclass : (lit "\" classname=\"qemu-test\" time=\"").all isChar = true := by
    unfold lit; decide
  unfold resultBlock
  split
  · rename_i h
    obtain ⟨hpass, hprops⟩ := h
    have hnil : r.properties = [] := by simpa using hprops
    simp only [testcaseEmptyLine, all_isChar_writeln, List.all_append, hname,
      hopen, hclass, secs.all_isChar,
      show (lit "\" />").all isChar = true by unfold lit; decide, Bool.true_and,
      Bool.and_true]
    simp [TestResult.legal, hpass, hnil]
  · simp only [testcaseOpenLine, all_isChar_writeln, List.all_append, hname,
      hopen, hclass, secs.all_isChar, all_isChar_propertiesBlock,
      all_isChar_outcomeBlock,
      show (lit "\">").all isChar = true by unfold lit; decide,
      show (lit "    </testcase>").all isChar = true by unfold lit; decide,
      Bool.true_and, Bool.and_true]
    rfl

theorem all_isChar_formatJunit (secs : SecsFormat) (results : List TestResult)
    (d : Duration) :
    (formatJunit secs results d).all isChar = results.all TestResult.legal := by
  simp only [formatJunit, xmlLine, testsuitesLine, testsuiteLine,
    all_isChar_writeln, List.all_append, all_isChar_decimal, secs.all_isChar,
    List.all_flatMap, all_isChar_resultBlock,
    show (lit "<?xml version=\"1.0\" encoding=\"UTF-8\"?>").all isChar = true by
      unfold lit; decide,
    show (lit "<testsuites tests=\"").all isChar = true by unfold lit; decide,
    show (lit "  <testsuite name=\"qemu-test\" tests=\"").all isChar = true by
      unfold lit; decide,
    show (lit "\" failures=\"").all isChar = true by unfold lit; decide,
    show (lit "\" skipped=\"").all isChar = true by unfold lit; decide,
    show (lit "\" time=\"").all isChar = true by unfold lit; decide,
    show (lit "\">").all isChar = true by unfold lit; decide,
    show (lit "  </testsuite>").all isChar = true by unfold lit; decide,
    show (lit "</testsuites>").all isChar = true by unfold lit; decide,
    Bool.true_and, Bool.and_true]

/-- **Well-formedness, exactly**: the report is well-formed XML 1.0 if and
only if every label, property and message consists of legal characters. The
markup is right for every input; only the characters are not checked. -/
theorem wellFormed_formatJunit_iff (secs : SecsFormat)
    (results : List TestResult) (total_duration : Duration) :
    WellFormed (formatJunit secs results total_duration)
      ↔ ∀ r ∈ results, r.legal = true := by
  have hlegal := all_isChar_formatJunit secs results total_duration
  constructor
  · intro h
    rw [← List.all_eq_true, ← hlegal, List.all_eq_true]
    exact h.legal
  · intro h
    refine ⟨?_, ?_⟩
    · rw [← List.all_eq_true, hlegal, List.all_eq_true]
      exact h
    · have hpieces := escaped_junitPieces secs results total_duration
      have hlex := lex_render (fun p hp => (hpieces p hp).clean)
        (show '<' ∉ ['\n'] by decide)
      have hbuild := builds_junitPieces secs results total_duration [] [] [] ['\n']
      rw [List.append_nil] at hbuild
      refine ⟨_, _, _, by rw [formatJunit_eq]; exact hlex,
        fun p hp => (hpieces p hp).ok, by decide, hbuild, ?_⟩
      simp [junitNodes, textNodes, lit, Node.isElem, Node.isMisc, isSpace,
        List.filter_cons]

/-- A failing remote command whose error output is coloured. -/
def colouredFailure : TestResult where
  label := lit "test_live_migration_os(machine=q35, smp=1, stress_ng=true)"
  properties := []
  outcome := .Fail
    (lit "remote command failed (exit Some(1)): stderr=\x1b[31mfailed stdout=")
  duration := 0

theorem not_wellFormed_colouredFailure :
    ¬ WellFormed (formatJunit .millis [colouredFailure] 0) := by
  intro h
  have hesc := h.legal '\x1b' (by decide +kernel)
  revert hesc
  decide

/-! ## Reading a report -/

/-- The counters of a suite element. -/
structure Counts where
  tests : Nat
  failures : Nat
  skipped : Nat
  time : Str
  deriving DecidableEq, Repr

/-- The outcome a `testcase` element shows; a failure keeps its message
attribute and its text apart. -/
inductive CaseOutcome where
  | passed
  | failure (message text : Str)
  | skipped (message : Str)
  deriving DecidableEq, Repr

structure Case where
  name : Str
  properties : List (Str × Str)
  outcome : CaseOutcome
  time : Str
  deriving DecidableEq, Repr

structure Report where
  suites : Counts
  suite : Counts
  cases : List Case
  deriving DecidableEq, Repr

def readCounts (as : List Attr) : Option Counts := do
  let tests ← (attr as (lit "tests")).bind ofDecimal
  let failures ← (attr as (lit "failures")).bind ofDecimal
  let skipped ← (attr as (lit "skipped")).bind ofDecimal
  let time ← attr as (lit "time")
  return ⟨tests, failures, skipped, time⟩

def readProperty (e : List Attr × List Node) : Option (Str × Str) := do
  let key ← attr e.1 (lit "name")
  let value ← attr e.1 (lit "value")
  return (key, value)

def readProperties (ns : List Node) : Option (List (Str × Str)) :=
  match elems (lit "properties") ns with
  | [] => some []
  | [(_, cs)] => (elems (lit "property") cs).mapM readProperty
  | _ => none

/-- `failure` before `skipped` before neither, as the summary step selects
them. -/
def readOutcome (ns : List Node) : Option CaseOutcome :=
  match elems (lit "failure") ns with
  | [(as, cs)] => (attr as (lit "message")).map fun m => .failure m (textOf cs)
  | [] =>
      match elems (lit "skipped") ns with
      | [(as, _)] => (attr as (lit "message")).map .skipped
      | [] => some .passed
      | _ => none
  | _ => none

def readCase (e : List Attr × List Node) : Option Case := do
  let name ← attr e.1 (lit "name")
  let time ← attr e.1 (lit "time")
  let properties ← readProperties e.2
  let outcome ← readOutcome e.2
  return ⟨name, properties, outcome, time⟩

/-- Reads a document as a report: one `testsuites`, one `testsuite` in it,
its `testcase` children in order. -/
def readReport (s : Str) : Option Report := do
  let nodes ← parse s
  match elems (lit "testsuites") nodes with
  | [(as, ns)] =>
      match elems (lit "testsuite") ns with
      | [(bs, ms)] =>
          let suites ← readCounts as
          let suite ← readCounts bs
          let cases ← (elems (lit "testcase") ms).mapM readCase
          return ⟨suites, suite, cases⟩
      | _ => none
  | _ => none

/-- What a written result is read back as. -/
def caseOf (secs : SecsFormat) (r : TestResult) : Case where
  name := r.label
  properties := r.properties
  outcome :=
    match r.outcome with
    | .Pass => .passed
    | .Fail msg => .failure msg msg
    | .Skip reason => .skipped reason
  time := secs.fmt r.duration

def countsOf (secs : SecsFormat) (results : List TestResult) (d : Duration) :
    Counts where
  tests := results.length
  failures := (results.filter fun r => r.outcome.isFail).length
  skipped := (results.filter fun r => r.outcome.isSkip).length
  time := secs.fmt d

theorem decode_decimal (n : Nat) : decode (decimal n) = decimal n :=
  decode_of_plain (plain_decimal n)

theorem SecsFormat.decode_fmt (secs : SecsFormat) (d : Duration) :
    decode (secs.fmt d) = secs.fmt d :=
  decode_of_plain (plain_of_digits (secs.alphabet d))

theorem readCounts_countAttrs (secs : SecsFormat) (results : List TestResult)
    (d : Duration) :
    readCounts (countAttrs secs results d) = some (countsOf secs results d) := by
  simp [readCounts, countAttrs, attr_cons, lit, decode_decimal, secs.decode_fmt,
    countsOf]

theorem readCounts_suiteAttrs (secs : SecsFormat) (results : List TestResult)
    (d : Duration) :
    readCounts (suiteAttrs secs results d) = some (countsOf secs results d) := by
  simp [readCounts, suiteAttrs, countAttrs, attr_cons, lit, decode_decimal,
    secs.decode_fmt, countsOf]

theorem elems_propertyNodes (props : List (Str × Str)) :
    elems (lit "property") (props.flatMap propertyNodes)
      = props.map fun p => (propertyAttrs p, []) := by
  induction props with
  | nil => rfl
  | cons p props ih =>
      simp [List.flatMap_cons, propertyNodes, elems_elem, ih]

theorem readProperty_propertyAttrs (p : Str × Str) (ns : List Node) :
    readProperty (propertyAttrs p, ns) = some p := by
  simp [readProperty, propertyAttrs, attr_cons, lit]

/-- Reading the elements of a list one by one, when each reads back. -/
theorem mapM_map_some {α β γ : Type} {f : α → β} {g : β → Option γ} {h : α → γ}
    (hg : ∀ a, g (f a) = some (h a)) (xs : List α) :
    (xs.map f).mapM g = some (xs.map h) := by
  induction xs with
  | nil => rfl
  | cons x xs ih => simp [hg, ih]

theorem elems_outcomeNodes_properties (o : TestOutcome) :
    elems (lit "properties") (outcomeNodes o) = [] := by
  cases o <;> simp [outcomeNodes, elems_elem, lit]

theorem elems_propertiesNodes {key : Str} (hkey : lit "properties" ≠ key)
    (props : List (Str × Str)) : elems key (propertiesNodes props) = [] := by
  unfold propertiesNodes
  split
  · rfl
  · simp [elems_elem, hkey]

theorem elems_properties_caseNodes (props : List (Str × Str)) (o : TestOutcome)
    (h : props ≠ []) :
    elems (lit "properties")
        (propertiesNodes props ++ outcomeNodes o ++ textNodes (lit "\n    "))
      = [([], props.flatMap propertyNodes ++ textNodes (lit "\n      "))] := by
  have hempty : props.isEmpty = false := by simpa using h
  simp only [propertiesNodes, hempty, Bool.false_eq_true, if_false, elems_append,
    elems_textNodes, elems_outcomeNodes_properties, elems_elem, if_true,
    elems_nil, List.nil_append, List.append_nil]

theorem readProperties_caseNodes (r : TestResult) :
    readProperties (caseNodes r) = some r.properties := by
  have hread := mapM_map_some (f := fun p => (propertyAttrs p, []))
    (fun p => readProperty_propertyAttrs p []) r.properties
  unfold caseNodes
  split
  · rename_i h
    have hnil : r.properties = [] := by simpa using h.2
    rw [hnil]
    rfl
  · by_cases hprops : r.properties = []
    · simp [readProperties, propertiesNodes, hprops,
        elems_outcomeNodes_properties]
    · rw [readProperties, elems_properties_caseNodes _ _ hprops]
      simp only [elems_append, elems_propertyNodes, elems_textNodes,
        List.append_nil, hread, List.map_id']

theorem readOutcome_caseNodes (secs : SecsFormat) (r : TestResult) :
    readOutcome (caseNodes r) = some (caseOf secs r).outcome := by
  have hfail := elems_propertiesNodes
    (show lit "properties" ≠ lit "failure" by simp [lit]) r.properties
  have hskip := elems_propertiesNodes
    (show lit "properties" ≠ lit "skipped" by simp [lit]) r.properties
  have hne : lit "skipped" ≠ lit "failure" := by simp [lit]
  unfold caseNodes
  split
  · rename_i h
    simp [readOutcome, caseOf, h.1]
  · cases ho : r.outcome with
    | Pass => simp [readOutcome, caseOf, ho, hfail, hskip, outcomeNodes]
    | Fail msg =>
        simp [readOutcome, caseOf, ho, hfail, outcomeNodes, elems_elem,
          messageAttrs, attr_cons]
    | Skip reason =>
        simp [readOutcome, caseOf, ho, hfail, hskip, outcomeNodes, elems_elem,
          messageAttrs, attr_cons, hne]

theorem readCase_testcase (secs : SecsFormat) (r : TestResult) :
    readCase (testcaseAttrs secs r, caseNodes r) = some (caseOf secs r) := by
  have hname : attr (testcaseAttrs secs r) (lit "name") = some r.label := by
    simp [testcaseAttrs, attr_cons]
  have htime : attr (testcaseAttrs secs r) (lit "time")
      = some (secs.fmt r.duration) := by
    simp [testcaseAttrs, attr_cons, lit, secs.decode_fmt]
  simp [readCase, hname, htime, readProperties_caseNodes,
    readOutcome_caseNodes secs]
  rfl

theorem elems_resultNodes (secs : SecsFormat) (results : List TestResult) :
    elems (lit "testcase") (results.flatMap (resultNodes secs))
      = results.map fun r => (testcaseAttrs secs r, caseNodes r) := by
  induction results with
  | nil => rfl
  | cons r results ih =>
      simp [List.flatMap_cons, resultNodes, elems_elem, ih]

/-- Each result has exactly one of the three outcomes. -/
theorem length_outcomes (results : List TestResult) :
    results.length
      = (results.filter fun r => r.outcome.isFail).length
        + (results.filter fun r => r.outcome.isSkip).length
        + (results.filter fun r => r.outcome = .Pass).length := by
  induction results with
  | nil => rfl
  | cons r results ih =>
      cases ho : r.outcome <;> simp [ho] <;> omega

/-- **Round trip**: for every list of results, reading the written report
gives the results back in order, each failure with its text equal to its
message, and both suite elements count the results, the failures and the
skips, so that the remaining number is the number of passes. -/
theorem readReport_formatJunit (secs : SecsFormat) (results : List TestResult)
    (total_duration : Duration) :
    readReport (formatJunit secs results total_duration)
        = some
          { suites := countsOf secs results total_duration
            suite := countsOf secs results total_duration
            cases := results.map (caseOf secs) }
      ∧ (countsOf secs results total_duration).tests
          - (countsOf secs results total_duration).failures
          - (countsOf secs results total_duration).skipped
        = (results.filter fun r => r.outcome = .Pass).length := by
  constructor
  · have hcases := mapM_map_some (f := fun r => (testcaseAttrs secs r, caseNodes r))
      (readCase_testcase secs) results
    have hsuites : elems (lit "testsuites")
        (junitNodes secs results total_duration ++ textNodes ['\n'])
        = [(countAttrs secs results total_duration,
          suiteNodes secs results total_duration ++ textNodes (lit "\n"))] := by
      simp only [junitNodes, elems_append, elems_textNodes, elems_elem, if_true,
        List.nil_append, List.append_nil]
      rfl
    have hsuite : elems (lit "testsuite")
        (suiteNodes secs results total_duration ++ textNodes (lit "\n"))
        = [(suiteAttrs secs results total_duration,
          results.flatMap (resultNodes secs) ++ textNodes (lit "\n  "))] := by
      simp only [suiteNodes, elems_append, elems_textNodes, elems_elem, if_true,
        elems_nil, List.nil_append, List.append_nil]
    simp [readReport, parse_formatJunit, hsuites, hsuite, elems_resultNodes,
      hcases, readCounts_countAttrs, readCounts_suiteAttrs]
  · have hlen := length_outcomes results
    simp only [countsOf]
    omega

end QemuTest

import RocmTests.Monitored.Cudamemtest
import RocmTests.Monitored.RunOne
import RocmTests.Text.RegexWhole

/-!
# The parser of the Apex suite's log

`parse_unittest_output` reads the verbose output of `unittest` line by line.  A
sub-test is pending from its header line until a line that is read as its outcome.
-/

namespace RocmTests
namespace Apex

open Text Text.Re
open Markers (isSpace strip)
open Monitored.Cudamemtest (isDecimal)
open Monitored.Validation (contains startsWith)

/-! ## Lines -/

/-- No pattern here has a word boundary. -/
def noWord : Char → Bool := fun _ => false

/-- `[^\s(]`. -/
def isNameChar (c : Char) : Bool := !isSpace c && c ≠ '('

/-- `[^)]`. -/
def notClose (c : Char) : Bool := c ≠ ')'

/-- `[^\s(]+\s+\([^)]*\.[^)]*\)`. -/
def testId : Re :=
  cat [plus isNameChar, plus isSpace, lit "(",
    seq (star notClose) (cat [lit ".", star notClose, lit ")"])]

/-- `\s+\[[^\]]+\]`. -/
def testParam : Re := cat [plus isSpace, lit "[", plus fun c => c ≠ ']', lit "]"]

/-- `_START_LINE`: the name in the first group, the rest of the line in the second. -/
def startPattern (n : Nat) : Re :=
  cat [group 1 (cat [testId, many n testParam]), plus isSpace, lit "...", star isSpace,
    group 2 dots]

/-- `_HEADER_LINE`: the kind and the name. -/
def headerPattern : Re :=
  cat [group 1 (alts [lit "ERROR", lit "FAIL"]), lit ":", plus isSpace,
    group 2 (cat [testId, dots])]

/-- `_RAN_LINE`. -/
def ranPattern : Re :=
  cat [lit "Ran ", group 1 (plus isDecimal), lit " test", opt (lit "s"), lit " in"]

/-- `_FAILED_LINE`. -/
def failedPattern : Re :=
  cat [lit "FAILED", plus isSpace, lit "(", group 1 dots, lit ")", star isSpace]

/-- `_COUNT_IN_BODY`. -/
def countPattern : Re :=
  cat [group 1 (alts [lit "failures", lit "errors"]), lit "=", group 2 (plus isDecimal)]

def startLine (line : Txt) : Option Found := matchToEnd noWord (startPattern line.length) line

def headerLine (line : Txt) : Option Found := matchToEnd noWord headerPattern line

def ranLine (line : Txt) : Option Found := matchAt noWord ranPattern ⟨[], line⟩

def failedLine (line : Txt) : Option Found := matchToEnd noWord failedPattern line

/-! ## Outcomes -/

inductive Bucket where
  | pass
  | skip
  | fail
  | error
  | xfail
deriving DecidableEq

/-- `str.lower`.  Beyond ASCII only the characters that become ASCII letters are
lowered. -/
def lower (t : Txt) : Txt :=
  t.flatMap fun c =>
    if c.toNat = 8490 then ['k']
    else if c.toNat = 304 then ['i', Char.ofNat 775]
    else [c.toLower]

/-- `_classify_rest`. -/
def classifyRest (rest : Txt) : Option Bucket :=
  let low := lower (strip rest)
  if low = [] then none
  else if startsWith low "expected failure".toList then some .xfail
  else if startsWith low "unexpected success".toList then some .fail
  else if startsWith low "ok".toList then some .pass
  else if startsWith low "skipped".toList then some .skip
  else if startsWith low "error".toList then some .error
  else if startsWith low "fail".toList then some .fail
  else none

/-- `t.endswith(s)`. -/
def endsWith (t s : Txt) : Bool := s.isSuffixOf t

/-- `_classify_continuation`. -/
def classifyContinuation (line : Txt) : Option Bucket :=
  let stripped := strip line
  if stripped = "ok".toList ∨ endsWith stripped "... ok".toList ∨
      contains "... ok".toList stripped then some .pass
  else if startsWith stripped "skipped".toList ∨ contains "... skipped".toList stripped then
    some .skip
  else if stripped = "FAIL".toList ∨ endsWith stripped "... FAIL".toList then some .fail
  else if stripped = "ERROR".toList ∨ endsWith stripped "... ERROR".toList then some .error
  else if startsWith stripped "expected failure".toList then some .xfail
  else if startsWith stripped "unexpected success".toList then some .fail
  else none

/-! ## The parser -/

/-- A dictionary, in the order of the first assignments. -/
abbrev Parsed := List (Txt × Option Bucket)

/-- `parsed[name] = outcome`. -/
def assign (name : Txt) (outcome : Option Bucket) : Parsed → Parsed
  | [] => [(name, outcome)]
  | p :: ps => if p.1 = name then (name, outcome) :: ps else p :: assign name outcome ps

/-- The variables of the loop. -/
structure State where
  parsed : Parsed
  failNames : List Txt
  errorNames : List Txt
  summaryFailures : Int
  summaryErrors : Int
  ranTotal : Int
  pending : Option Txt

def start : State :=
  { parsed := [], failNames := [], errorNames := [], summaryFailures := 0, summaryErrors := 0,
    ranTotal := 0, pending := none }

/-- The counts of a `FAILED (...)` line, added to the failures and the errors.  `none`
is a `ValueError`. -/
def addCounts : List Found → Int × Int → Option (Int × Int)
  | [], total => some total
  | m :: ms, total => do
    let n ← parseInt (m.group 2)
    addCounts ms
      (if m.group 1 = "failures".toList then (total.1 + n, total.2) else (total.1, total.2 + n))

/-- One line.  `none` is a `ValueError`. -/
def step (s : State) (raw : Txt) : Option State :=
  let stripped := strip raw
  match headerLine stripped with
  | some m =>
    let name := strip (m.group 2)
    if m.group 1 = "FAIL".toList then
      some { s with failNames := s.failNames ++ [name], pending := none }
    else some { s with errorNames := s.errorNames ++ [name], pending := none }
  | none =>
    match ranLine stripped with
    | some m => do
      let n ← parseInt (m.group 1)
      return { s with ranTotal := s.ranTotal + n, pending := none }
    | none =>
      match failedLine stripped with
      | some m => do
        let (failures, errors) ← addCounts (findAll noWord countPattern (m.group 1))
          (s.summaryFailures, s.summaryErrors)
        return { s with summaryFailures := failures, summaryErrors := errors, pending := none }
      | none =>
        match startLine stripped with
        | some m =>
          let name := strip (m.group 1)
          let outcome := classifyRest (m.group 2)
          some { s with
            parsed := assign name outcome s.parsed
            pending := if outcome.isNone then some name else none }
        | none =>
          match s.pending with
          | some name =>
            match classifyContinuation stripped with
            | some outcome =>
              some { s with parsed := assign name (some outcome) s.parsed, pending := none }
            | none => some s
          | none => some s

/-- `ApexRunSummary`. -/
structure ApexRunSummary where
  passed : Int
  skipped : Int
  failed : Int
  errored : Int
  expectedFailures : Int
  failedNames : List Txt
  erroredNames : List Txt
  unresolvedNames : List Txt
  ranTotal : Int

/-- One sub-test in the tally. -/
def tally (x : ApexRunSummary) (p : Txt × Option Bucket) : ApexRunSummary :=
  match p.2 with
  | some .pass => { x with passed := x.passed + 1 }
  | some .skip => { x with skipped := x.skipped + 1 }
  | some .xfail => { x with expectedFailures := x.expectedFailures + 1 }
  | some .fail => { x with failed := x.failed + 1, failedNames := x.failedNames ++ [p.1] }
  | some .error => { x with errored := x.errored + 1, erroredNames := x.erroredNames ++ [p.1] }
  | none =>
    { x with
      errored := x.errored + 1
      unresolvedNames := x.unresolvedNames ++ [p.1]
      erroredNames := x.erroredNames ++ [p.1] }

/-- `_aggregate`. -/
def aggregate (s : State) : ApexRunSummary :=
  let x : ApexRunSummary := s.parsed.foldl tally
    { passed := 0, skipped := 0, failed := 0, errored := 0, expectedFailures := 0,
      failedNames := [], erroredNames := [], unresolvedNames := [], ranTotal := s.ranTotal }
  let y :=
    if x.failed = 0 ∧ x.errored = 0 then
      { x with failed := s.summaryFailures, errored := s.summaryErrors }
    else x
  let z := if y.failedNames = [] then { y with failedNames := s.failNames } else y
  if z.erroredNames = [] then { z with erroredNames := s.errorNames } else z

/-- `parse_unittest_output`.  `none` is a `ValueError`. -/
def parseUnittestOutput (text : Txt) : Option ApexRunSummary :=
  ((splitlines text).foldlM step start).map aggregate

/-!
## The log of the Apex suite

The log of a run is made of the lines of its sub-tests: a header line, the lines that
are printed while the sub-test runs, and its outcome.  The first of them stands on the
header line.
-/

open Monitored (reprTxt)

/-! ### Sub-tests -/

def idText (method qualname : Txt) (params : List Txt) : Txt :=
  method ++ ([' '] ++ ("(".toList ++ (qualname ++ ")".toList))) ++
    (params.map fun p => [' '] ++ ("[".toList ++ (p ++ "]".toList))).flatten

/-- `method (module.Class.method) [param]...`. -/
structure TestId where
  method : Txt
  qualname : Txt
  params : List Txt
  method_ne : method ≠ []
  method_chars : ∀ c ∈ method, isNameChar c = true ∧ c ≠ ':'
  method_failed : method ≠ "FAILED".toList
  qualname_dot : '.' ∈ qualname
  qualname_close : ')' ∉ qualname
  params_ok : ∀ p ∈ params, p ≠ [] ∧ ']' ∉ p
  line : IsLine (idText method qualname params)

def TestId.text (i : TestId) : Txt := idText i.method i.qualname i.params

inductive Outcome where
  | ok
  | skipped (reason : Txt)
  | fail
  | error
  | expectedFailure
  | unexpectedSuccess

/-- What `unittest` prints.  A line break is not printable. -/
def Outcome.token (printable : Char → Bool) : Outcome → Txt
  | .ok => "ok".toList
  | .skipped reason =>
    "skipped ".toList ++ reprTxt (fun c => printable c && !isBoundary c) reason
  | .fail => "FAIL".toList
  | .error => "ERROR".toList
  | .expectedFailure => "expected failure".toList
  | .unexpectedSuccess => "unexpected success".toList

/-- What an outcome is counted as. -/
def Outcome.bucket : Outcome → Bucket
  | .ok => .pass
  | .skipped _ => .skip
  | .fail => .fail
  | .error => .error
  | .expectedFailure => .xfail
  | .unexpectedSuccess => .fail

/-- A sub-test, the lines printed while it ran, and its outcome unless the process died
in it. -/
structure SubTest where
  id : TestId
  noise : List Txt
  outcome : Option Outcome

namespace SubTest

variable (printable : Char → Bool) (t : SubTest)

def name : Txt := t.id.text

/-- What is printed behind the header. -/
def body : List Txt := t.noise ++ (t.outcome.map (Outcome.token printable)).toList

def startLine (rest : Txt) : Txt := t.name ++ (" ... ".toList ++ rest)

def lines : List Txt :=
  match t.body printable with
  | [] => [t.startLine []]
  | l :: ls => t.startLine l :: ls

/-- What the sub-test has ended as. -/
def ended : Option Bucket := t.outcome.map Outcome.bucket

/-- What the classifiers first read as its outcome. -/
def reads : Option Bucket :=
  match t.body printable with
  | [] => none
  | l :: ls => (classifyRest l).or (ls.findSome? classifyContinuation)

def Failing : Prop := t.ended = some .fail ∨ t.ended = some .error ∨ t.ended = none

end SubTest

/-- A line that is none of the lines the parser knows by their form. -/
structure NoiseLine (l : Txt) : Prop where
  line : IsLine l
  header : headerLine (strip l) = none
  ran : ranLine (strip l) = none
  failed : failedLine (strip l) = none
  start : startLine (strip l) = none

/-- A line after the last sub-test: of a report, or one that is not read as an outcome. -/
structure ClosingLine (l : Txt) : Prop where
  line : IsLine l
  start : startLine (strip l) = none
  quiet : (headerLine (strip l)).isSome = true ∨ (ranLine (strip l)).isSome = true ∨
    (failedLine (strip l)).isSome = true ∨ classifyContinuation l = none
  readable : (step Apex.start l).isSome = true

/-- A run: its sub-tests and what `unittest` prints after them.  A run in which nothing
failed has no `FAILED` line. -/
structure Run where
  tests : List SubTest
  closing : List Txt
  distinct : (tests.map SubTest.name).Nodup
  noise_ok : ∀ t ∈ tests, ∀ l ∈ t.noise, NoiseLine l
  closing_ok : ∀ l ∈ closing, ClosingLine l
  closing_failed : (∃ t ∈ tests, t.Failing) ∨ ∀ l ∈ closing, failedLine (strip l) = none

def Run.log (printable : Char → Bool) (r : Run) : Txt :=
  unlines (r.tests.flatMap (SubTest.lines printable) ++ r.closing)

/-! ### What is asked of the parser -/

/-- The number of sub-tests that a reading puts in a bucket. -/
def countIn (f : SubTest → Option Bucket) (o : Option Bucket) (tests : List SubTest) : Nat :=
  tests.countP fun t => f t = o

/-- The summary has the numbers of the run, and lists the sub-tests without outcome. -/
structure Recovers (tests : List SubTest) (x : ApexRunSummary) : Prop where
  passed : x.passed = countIn SubTest.ended (some .pass) tests
  skipped : x.skipped = countIn SubTest.ended (some .skip) tests
  failed : x.failed = countIn SubTest.ended (some .fail) tests
  errored : x.errored =
    countIn SubTest.ended (some .error) tests + countIn SubTest.ended none tests
  expectedFailures : x.expectedFailures = countIn SubTest.ended (some .xfail) tests
  unresolved : x.unresolvedNames =
    (tests.filter fun t => t.ended = none).map SubTest.name

/-- Nothing is read as the outcome of a sub-test without one, and misread outcomes cancel
out. -/
structure Balanced (printable : Char → Bool) (tests : List SubTest) : Prop where
  died : ∀ t ∈ tests, t.outcome = none → t.reads printable = none
  counts : ∀ b : Bucket, countIn (SubTest.reads printable) (some b) tests =
    countIn SubTest.ended (some b) tests

end Apex
end RocmTests

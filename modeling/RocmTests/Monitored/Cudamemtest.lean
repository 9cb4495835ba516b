import Mathlib.Algebra.Order.Floor.Ring
import Mathlib.Algebra.Order.Round
import Mathlib.Data.Rat.Floor
import RocmTests.Monitored.ConsoleLog
import RocmTests.Monitored.Validation

/-!
# The memory test and its validator

`CudaMemtest.run` runs the required sub-tests one after the other until the start
budget is spent, and writes what happened into the console log.
`_validate_memtest` decides from that log alone.
-/

namespace RocmTests
namespace Monitored
namespace Cudamemtest

open Text Text.Re Validation DmesgCategories
open Markers (digitValue isSpace)

/-! ## The workload -/

def requiredSubtests : List Nat := [0, 1, 2, 3, 4, 5]

def subTests (includeBitFade : Bool) : List Nat :=
  requiredSubtests ++ if includeBitFade then [9] else []

/-- `q` rounded to a whole number, halves to the even one. -/
def roundHalfEven (q : ℚ) : Int :=
  if 2 * Int.fract q < 1 then ⌊q⌋
  else if 1 < 2 * Int.fract q then ⌊q⌋ + 1
  else if ⌊q⌋ % 2 = 0 then ⌊q⌋ else ⌊q⌋ + 1

/-- `f"{q:.1f}"`. -/
def showTenths (q : ℚ) : Txt :=
  let n := (roundHalfEven (10 * |q|)).toNat
  (if q < 0 then ['-'] else []) ++ showNat (n / 10) ++ '.' :: showNat (n % 10)

/-- What the run writes into the log: the output of a command, or a line of its own
with the values that it prints. -/
inductive Entry where
  | output (text : Txt)
  | finished (testNum : Nat) (iterDur : ℚ) (rc : Int)
  | watchdog (testNum : Nat) (timeout : Option Int)
  | exited (testNum : Nat) (rc : Int)
  | coverage (ran total : Nat) (firstFailRc : Int)
  | incomplete (ran total : Nat) (missing : List Nat) (duration : Int)

/-- What every line of the harness begins with. -/
def tag : Txt := "  [cudamemtest]".toList

def showOption : Option Int → Txt
  | some n => showInt n
  | none => "None".toList

def joinSpace : List Txt → Txt
  | [] => []
  | [t] => t
  | t :: ts => t ++ ' ' :: joinSpace ts

/-- What follows the tag in a line of the harness. -/
def Entry.body : Entry → Txt
  | .output _ => []
  | .finished testNum iterDur rc =>
    " enable_test ".toList ++ showNat testNum ++ " finished in ".toList ++
      showTenths iterDur ++ "s (rc=".toList ++ showInt rc ++ [')']
  | .watchdog testNum timeout =>
    " FAIL: watchdog timeout — enable_test ".toList ++ showNat testNum ++
      " did not complete within --per-iter-watchdog ".toList ++ showOption timeout ++
      "s. GPU is likely wedged; stopping further sub-tests.".toList
  | .exited testNum rc =>
    " enable_test ".toList ++ showNat testNum ++ " exited rc=".toList ++ showInt rc ++
      " — continuing remaining sub-tests".toList
  | .coverage ran total firstFailRc =>
    " Ran ".toList ++ showNat ran ++ '/' :: showNat total ++
      " sub-test(s), first_fail_rc=".toList ++ showInt firstFailRc
  | .incomplete ran total missing duration =>
    " FAIL: incomplete coverage — ".toList ++ showNat ran ++ " of ".toList ++
      showNat total ++ " required sub-tests ran; ".toList ++ joinSpace (missing.map showNat) ++
      " never started within --memtest-duration ".toList ++ showInt duration ++
      "s. Raise --memtest-duration or lower the footprint with --memtest-blocks.".toList

def Entry.isOutput : Entry → Bool
  | .output _ => true
  | _ => false

def Entry.text : Entry → Txt
  | .output text => text
  | l => tag ++ l.body

/-- What the run finds: its options, the readings of the monotonic clock in the
order in which they are taken, and the exit code and the output of each command it
starts. -/
structure Env where
  includeBitFade : Bool
  duration : Int
  watchdog : Option Int
  clock : Nat → ℚ
  rc : Nat → Int
  output : Nat → Txt

/-- The variables of the loop.  `reads` counts the clock readings. -/
structure State where
  ran : Nat
  firstFailRc : Int
  reads : Nat
  log : List Entry

namespace Env

variable (e : Env)

def deadline : ℚ := e.clock 0 + e.duration

/-- One sub-test up to its line about the end. -/
def execute (s : State) (testNum : Nat) : State :=
  let iterStart := e.clock (s.reads + 1)
  let iterDur := e.clock (s.reads + 2) - iterStart
  { s with
    ran := s.ran + 1
    reads := s.reads + 3
    log := s.log ++ [.output (e.output s.ran), .finished testNum iterDur (e.rc s.ran)] }

/-- The loop over the sub-tests that are left. -/
def loop (s : State) : List Nat → State
  | [] => s
  | testNum :: rest =>
    if e.deadline ≤ e.clock s.reads then s
    else
      let rc := e.rc s.ran
      let t := e.execute s testNum
      if rc = 124 then
        { t with
          log := t.log ++ [.watchdog testNum e.watchdog]
          firstFailRc := if t.firstFailRc = 0 then 1 else t.firstFailRc }
      else if rc ≠ 0 ∧ t.firstFailRc = 0 then
        loop { t with firstFailRc := rc, log := t.log ++ [.exited testNum rc] } rest
      else loop t rest

def start : State := { ran := 0, firstFailRc := 0, reads := 1, log := [] }

/-- `CudaMemtest.run` with a known memory target: its exit code and what it writes
into the log. -/
def run : Int × List Entry :=
  let tests := subTests e.includeBitFade
  if e.duration < 1 then (1, [])
  else
    let s := e.loop start tests
    let log := s.log ++ [.coverage s.ran tests.length s.firstFailRc]
    if s.ran < tests.length then
      (if s.firstFailRc = 0 then 1 else s.firstFailRc,
        log ++ [.incomplete s.ran tests.length (tests.drop s.ran) e.duration])
    else (s.firstFailRc, log)

end Env

/-! ## The validator -/

/-- `\d`. -/
def isDecimal (c : Char) : Bool := (digitValue c).isSome

def hmmWatchdog : Re := lit "[hmm_memtest] FAIL: watchdog timeout"

def memtestWatchdog : Re := lit "[cudamemtest] FAIL: watchdog timeout"

def bracketedError : Re := cat [ilit "[ERROR]", cls isSpace]

def colonError : Re :=
  cat [alts [lineStart, ilit "]:"], star isSpace, ilit "ERROR:", plus isSpace,
    cls fun c => !isSpace c]

def accessFault : Re := word (ilit "Memory access fault")

def hipError : Re := cat [wordBoundary, ilit "HIP error:"]

def errPat : Re := alts [bracketedError, colonError, accessFault, hipError]

def ranPattern : Re :=
  cat [lit "[cudamemtest]", plus isSpace, lit "Ran", plus isSpace, group 1 (plus isDecimal),
    lit "/",
    group 2 (plus isDecimal), plus isSpace, lit "sub-test"]

def finishedPattern : Re :=
  cat [lit "[cudamemtest]", plus isSpace, lit "enable_test", plus isSpace, group 1 (plus isDecimal),
    plus isSpace, lit "finished", plus isSpace, lit "in", plus isSpace,
    plus fun c => isDecimal c || c = '.', lit "s", plus isSpace, lit "(rc=",
    group 2 (cat [opt (lit "-"), plus isDecimal]), lit ")"]

section

variable (alnum : Char → Bool)

def hmmWatchdogMessage : Txt := "watchdog timeout (HMM did not complete)".toList

def watchdogMessage : Txt := "watchdog timeout (sub-test did not complete)".toList

def errorsMessage (n : Nat) : Txt := showNat n ++ " memory/runtime errors".toList

def zeroDenominatorMessage (ran total : Int) : Txt :=
  "coverage line reports a zero denominator (".toList ++ showInt ran ++ '/' :: showInt total ++
    " sub-tests); cannot confirm any sub-test ran".toList

def incompleteMessage (ran total : Int) : Txt :=
  "incomplete coverage (".toList ++ showInt ran ++ '/' :: showInt total ++
    " required sub-tests ran)".toList

def inconsistentMessage (ran total : Int) : Txt :=
  "inconsistent coverage (".toList ++ showInt ran ++ '/' :: showInt total ++
    " required sub-tests ran; expected exact equality)".toList

def denominatorMessage (total : Int) : Txt :=
  "unexpected cudamemtest coverage denominator ".toList ++ showInt total ++ "; expected ".toList ++
    showNat requiredSubtests.length ++ " or ".toList ++ showNat (requiredSubtests.length + 1)

/-- A list of integers as it prints. -/
def showList (xs : List Int) : Txt :=
  let rec items : List Int → Txt
    | [] => []
    | [x] => showInt x
    | x :: xs => showInt x ++ ", ".toList ++ items xs
  '[' :: items xs ++ [']']

def identityMessage (completed expected : List Int) : Txt :=
  "incomplete cudamemtest identity coverage (completed IDs ".toList ++ showList completed ++
    ", expected ".toList ++ showList expected ++ [')']

def passMessage (ran total : Int) : Txt :=
  "PASS (".toList ++ showInt ran ++ '/' :: showInt total ++ " sub-tests, 0 memory errors)".toList

def missingMessage : Txt :=
  "missing cudamemtest coverage summary (expected Ran N/M sub-tests)".toList

/-- The sub-tests that the log says have ended, with their exit codes.  `none` is a
`ValueError`. -/
def completed (text : Txt) : Option (List (Int × Int)) :=
  (findAll (isWordChar alnum) finishedPattern text).mapM fun m => do
    let testId ← parseInt (m.group 1)
    let rc ← parseInt (m.group 2)
    return (testId, rc)

/-- The sub-tests that a denominator stands for. -/
def expectedOf (total : Int) : Option (List Int) :=
  let expected := requiredSubtests.map fun n => (n : Int)
  if total = expected.length + 1 then some (expected ++ [9])
  else if total ≠ expected.length then none
  else some expected

/-- The checks once the coverage line has been found. -/
def checkCoverage (text : Txt) (ran total : Int) : Option ValidationResult :=
  if total ≤ 0 then some ⟨zeroDenominatorMessage ran total, true⟩
  else if ran < total then some ⟨incompleteMessage ran total, true⟩
  else if total < ran then some ⟨inconsistentMessage ran total, true⟩
  else
    match expectedOf total with
    | none => some ⟨denominatorMessage total, true⟩
    | some expected => do
      let done ← completed alnum text
      let ids := done.map Prod.fst
      if ids ≠ expected ∨ (done.any fun p => p.2 ≠ 0) = true then
        return ⟨identityMessage ids expected, true⟩
      else return ⟨passMessage ran total, false⟩

/-- `_validate_memtest` on the text of the log.  `none` is a `ValueError`. -/
def validateMemtest (text : Txt) (requireCoverage : Bool) : Option ValidationResult :=
  if text = [] then some ⟨[], false⟩
  else if found alnum hmmWatchdog text then some ⟨hmmWatchdogMessage, true⟩
  else if found alnum memtestWatchdog text then some ⟨watchdogMessage, true⟩
  else
    let errCount := (findAll (isWordChar alnum) errPat text).length
    if 0 < errCount then some ⟨errorsMessage errCount, true⟩
    else
      match searchFrom (isWordChar alnum) ranPattern [] text with
      | some (_, m) => do
        let ran ← parseInt (m.group 1)
        let total ← parseInt (m.group 2)
        checkCoverage alnum text ran total
      | none =>
        if requireCoverage then some ⟨missingMessage, true⟩
        else some ⟨"PASS (0 memory errors)".toList, false⟩

def validateCudamemtest (text : Txt) : Option ValidationResult := validateMemtest alnum text true

end

end Cudamemtest
end Monitored
end RocmTests

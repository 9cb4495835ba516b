import RocmTests.Monitored.Cudamemtest
import RocmTests.Monitored.RunOne

/-!
# The RVS workloads and their validator

`rvs_iet_stress` and `rvs_tst` run one module of the validation suite.  The tool
writes into a file that is copied into the console log while it grows, between the
lines that the harness prints.  `_validate_rvs` decides from the log alone.
-/

namespace RocmTests
namespace Monitored

open Text Text.Re Validation DmesgCategories
open Cudamemtest (isDecimal)
open Markers (isSpace strip)

/-- `RunResult`. -/
structure RunResult where
  exitCode : Int
  reproduceCmd : Txt := []
deriving DecidableEq

/-- `print(line)`. -/
def printed (line : Txt) : Txt := line ++ ['\n']

namespace Rvs

/-! ## The workload -/

/-- The subclasses of `_RvsBased`. -/
inductive Module where
  | ietStress
  | tst
deriving DecidableEq

/-- `self.spec.name`. -/
def Module.name : Module → Txt
  | .ietStress => rvsIetStress
  | .tst => rvsTst

def defaultRvsTimeout : Int := 3600

/-- What the run finds: the tool, the configuration that was resolved for it, the
option, and what comes of the command.  `delivered` is what the log holds of the
tool's output when the command returns. -/
structure Env where
  rvsBin : Option Txt
  conf : Txt
  perIterWatchdog : Int
  rc : Int
  delivered : Txt

def notBuiltLine : Txt := "rvs not built".toList

def noConfLine (name : Txt) : Txt :=
  "  [".toList ++ name ++ "] FAIL: no RVS config was resolved for this run".toList

def usingLine (conf : Txt) : Txt := "  Using RVS config: ".toList ++ conf

def limitText (watchdog : Option Int) : Txt :=
  match watchdog with
  | some n => "--per-iter-watchdog ".toList ++ showInt n ++ ['s']
  | none => "the ".toList ++ showInt defaultRvsTimeout ++ "s default ceiling".toList

def timeoutLine (name : Txt) (watchdog : Option Int) : Txt :=
  "  [".toList ++ name ++ "] FAIL: timeout — RVS did not complete within ".toList ++
    limitText watchdog

namespace Env

variable (e : Env)

/-- `per_iter_watchdog or None`. -/
def watchdog : Option Int := if e.perIterWatchdog = 0 then none else some e.perIterWatchdog

/-- The timeout that `ctx.exec` is given. -/
def timeout : Int := e.watchdog.getD defaultRvsTimeout

def reproduce (rvsBin : Txt) : Txt :=
  (match e.watchdog with
  | some n => "timeout ".toList ++ showInt n ++ [' ']
  | none => []) ++
    rvsBin ++ " -c ".toList ++ e.conf ++ " -d 3 > rvs_stdout.log 2>&1".toList

/-- `_RvsBased.run`: its result and what it leaves in the log. -/
def run (m : Module) : RunResult × Txt :=
  match e.rvsBin with
  | none => ({ exitCode := 1 }, printed notBuiltLine)
  | some rvsBin =>
    if e.conf = [] then ({ exitCode := 1 }, printed (noConfLine m.name))
    else
      let log := printed (usingLine e.conf) ++ e.delivered
      if e.rc = 124 then
        (⟨1, e.reproduce rvsBin⟩, log ++ printed (timeoutLine m.name e.watchdog))
      else (⟨e.rc, e.reproduce rvsBin⟩, log)

end Env

/-! ## The validator -/

/-- `\[rvs_(?:iet_stress|tst)\] FAIL: watchdog timeout`. -/
def watchdogPattern : Re :=
  cat [lit "[rvs_", alts [lit "iet_stress", lit "tst"], lit "] FAIL: watchdog timeout"]

def truePattern : Re :=
  cat [wordBoundary, lit "pass:", star isSpace, lit "TRUE", wordBoundary]

def falsePattern : Re :=
  cat [wordBoundary, lit "pass:", star isSpace, lit "FALSE", wordBoundary]

/-- `^\s*\[(?:RESULT|ERROR)\].*\bABORT\b`. -/
def abortPattern : Re :=
  cat [lineStart, star isSpace, lit "[", alts [lit "RESULT", lit "ERROR"], lit "]", dots,
    word (lit "ABORT")]

/-- `[^\]\r\n]`. -/
def inBracket (c : Char) : Bool := c ≠ ']' && c ≠ '\r' && c ≠ '\n'

/-- The result line with its action and its GPU.  The source lets the second group
give up its trailing space; here it keeps the space, and both are stripped. -/
def resultPattern : Re :=
  cat [lineStart, star isSpace, lit "[RESULT]", plus isSpace, lit "[", plus inBracket, lit "]",
    plus isSpace, lit "[", group 1 (plus inBracket), lit "]", plus isSpace, lit "[GPU::",
    star isSpace, group 2 (plus inBracket), star isSpace, lit "]", plus isSpace, lit "pass:",
    star isSpace, alts [lit "TRUE", lit "FALSE"], wordBoundary]

def noOutputMessage : Txt := "no RVS output".toList

def watchdogMessage : Txt := "watchdog timeout (RVS did not complete)".toList

def abortMessage : Txt := "ABORT detected".toList

def failedMessage (falseCount total : Nat) : Txt :=
  showNat falseCount ++ '/' :: showNat total ++ " GPU check(s) failed".toList

def coverageMessage (total : Nat) (expectedChecks : Int) : Txt :=
  "incomplete RVS coverage (".toList ++ showNat total ++ '/' :: showInt expectedChecks ++
    " expected GPU checks reported)".toList

def evidenceMessage (rows total : Nat) : Txt :=
  "incomplete RVS identity evidence (".toList ++ showNat rows ++ '/' :: showNat total ++
    " result lines identify action and GPU)".toList

def duplicateMessage : Txt := "duplicate RVS action/GPU result identity detected".toList

def actionsMessage (printable : Char → Bool) (actions expected : Finset Txt) : Txt :=
  "unexpected RVS action coverage (".toList ++ showGpus printable actions ++
    " reported, expected ".toList ++ showGpus printable expected ++ [')']

def identityMessage (gpus : Nat) (expectedGpus : Int) (actions : Nat) (checksPerGpu : Int) : Txt :=
  "incomplete RVS identity coverage (".toList ++ showNat gpus ++ '/' :: showInt expectedGpus ++
    " GPUs, ".toList ++ showNat actions ++ '/' :: showInt checksPerGpu ++ " actions)".toList

def matrixMessage : Txt := "incomplete RVS action/GPU result matrix".toList

def passMessage (trueCount total : Nat) : Txt :=
  "PASS (".toList ++ showNat trueCount ++ '/' :: showNat total ++ " GPU checks passed)".toList

def noResultsMessage : Txt := "no RVS pass/fail results found in output".toList

/-- What the caller of the validator expects. -/
structure Expected where
  checks : Option Int := none
  gpus : Option Int := none
  checksPerGpu : Option Int := none
  actions : Option (Finset Txt) := none

section

variable (alnum printable : Char → Bool)

/-- The action and the GPU of each result line. -/
def identities (text : Txt) : List (Txt × Txt) :=
  (findAll (isWordChar alnum) resultPattern text).map fun m =>
    (strip (m.group 1), strip (m.group 2))

/-- The checks of the identities against the expected numbers. -/
def checkIdentities (ids : List (Txt × Txt)) (total : Nat) (expectedGpus checksPerGpu : Int)
    (expectedActions : Option (Finset Txt)) : Option ValidationResult :=
  let actions := (ids.map Prod.fst).toFinset
  let gpus := (ids.map Prod.snd).toFinset
  if ids.length ≠ total then some ⟨evidenceMessage ids.length total, true⟩
  else if ¬ ids.Nodup then some ⟨duplicateMessage, true⟩
  else
    match expectedActions.filter fun expected => actions ≠ expected with
    | some expected => some ⟨actionsMessage printable actions expected, true⟩
    | none =>
      if (actions.card : Int) ≠ checksPerGpu ∨ (gpus.card : Int) ≠ expectedGpus then
        some ⟨identityMessage gpus.card expectedGpus actions.card checksPerGpu, true⟩
      else if ∃ action ∈ actions, ∃ gpu ∈ gpus, (action, gpu) ∉ ids then
        some ⟨matrixMessage, true⟩
      else none

/-- The checks once there are results. -/
def checkResults (x : Expected) (text : Txt) (trueCount falseCount : Nat) : ValidationResult :=
  let total := trueCount + falseCount
  if 0 < falseCount then ⟨failedMessage falseCount total, true⟩
  else
    match x.checks.filter fun n => (total : Int) ≠ n with
    | some n => ⟨coverageMessage total n, true⟩
    | none =>
      let pass : ValidationResult := ⟨passMessage trueCount total, false⟩
      match x.gpus, x.checksPerGpu with
      | some gpus, some checksPerGpu =>
        (checkIdentities printable (identities alnum text) total gpus checksPerGpu
          x.actions).getD pass
      | _, _ => pass

/-- `_validate_rvs` on the text of the log. -/
def validateRvs (x : Expected) (text : Txt) : ValidationResult :=
  if text = [] then ⟨noOutputMessage, true⟩
  else if search (isWordChar alnum) watchdogPattern text then ⟨watchdogMessage, true⟩
  else
    let trueCount := (findAll (isWordChar alnum) truePattern text).length
    let falseCount := (findAll (isWordChar alnum) falsePattern text).length
    let abortCount := (findAll (isWordChar alnum) abortPattern text).length
    if 0 < abortCount then ⟨abortMessage, true⟩
    else if 0 < trueCount + falseCount then
      checkResults alnum printable x text trueCount falseCount
    else ⟨noResultsMessage, true⟩

end

end Rvs
end Monitored
end RocmTests

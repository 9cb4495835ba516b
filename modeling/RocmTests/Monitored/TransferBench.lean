import RocmTests.Monitored.Rvs

/-!
# The bandwidth sweep and its validator

`TransferBench.run` starts one sweep over the transfer paths and appends what it
wrote to the console log.  `_validate_transferbench` decides from the log alone.
-/

namespace RocmTests
namespace Monitored
namespace TransferBench

open Text Text.Re Validation DmesgCategories
open Cudamemtest (isDecimal)
open Markers (isSpace strip)

/-! ## The workload -/

def defaultSweepTimeLimit : Int := 300

def defaultSweepMin : Int := 8

def defaultSweepMax : Int := 8

def sweepTimeoutHeadroom : Int := 300

/-- What the run finds: the tool, the variables of the environment (empty where they
are not set), the option, and what comes of the command.  `intError` is the text of
the `ValueError` that `int` raises. -/
structure Env where
  tbBin : Option Txt
  sweepTimeLimit : Txt
  sweepMin : Txt
  sweepMax : Txt
  intError : Txt → Txt
  perIterWatchdog : Int
  rc : Int
  output : Txt

def notFoundLine : Txt := "  [transferbench] TransferBench not found".toList

def warningLine (printable : Char → Bool) (name raw why : Txt) (default : Int) : Txt :=
  "  [transferbench] WARNING: ignoring invalid ".toList ++ name ++ '=' :: reprTxt printable raw ++
    " (".toList ++ why ++ "); using default ".toList ++ showInt default

def runningLine (tbBin : Txt) : Txt :=
  "  [transferbench] Running: ".toList ++ tbBin ++ " rsweep".toList

def sweepLine (timeLimit min max : Int) : Txt :=
  "  [transferbench] SWEEP_TIME_LIMIT=".toList ++ showInt timeLimit ++ " SWEEP_MIN=".toList ++
    showInt min ++ " SWEEP_MAX=".toList ++ showInt max

def watchdogMark : Txt := "[transferbench] FAIL: watchdog timeout".toList

def limitText (watchdog : Option Int) : Txt :=
  match watchdog with
  | some n => "--per-iter-watchdog ".toList ++ showInt n ++ ['s']
  | none => "SWEEP_TIME_LIMIT plus ".toList ++ showInt sweepTimeoutHeadroom ++ "s of slack".toList

def watchdogLine (watchdog : Option Int) : Txt :=
  "  ".toList ++ watchdogMark ++ " — rsweep did not complete within ".toList ++ limitText watchdog

def completedMark : Txt := "[transferbench] Completed rsweep successfully (rc=0)".toList

def completedLine : Txt := "  ".toList ++ completedMark

def mustBePositive : Txt := "must be positive".toList

namespace Env

variable (printable : Char → Bool) (e : Env)

/-- `_positive_env_int`: the number, and the line that is printed if the value of the
variable is no positive number. -/
def positiveEnvInt (name value : Txt) (default : Int) : Int × Txt :=
  let raw := strip value
  if raw = [] then (default, [])
  else
    match parseInt raw with
    | none => (default, printed (warningLine printable name raw (e.intError raw) default))
    | some n =>
      if n ≤ 0 then (default, printed (warningLine printable name raw mustBePositive default))
      else (n, [])

def timeLimit : Int × Txt :=
  e.positiveEnvInt printable "SWEEP_TIME_LIMIT".toList e.sweepTimeLimit defaultSweepTimeLimit

def min : Int × Txt :=
  e.positiveEnvInt printable "SWEEP_MIN".toList e.sweepMin defaultSweepMin

def max : Int × Txt :=
  e.positiveEnvInt printable "SWEEP_MAX".toList e.sweepMax defaultSweepMax

/-- `per_iter_watchdog or None`. -/
def watchdog : Option Int := if e.perIterWatchdog = 0 then none else some e.perIterWatchdog

/-- The timeout that `ctx.exec` is given. -/
def timeout : Int := e.watchdog.getD ((e.timeLimit printable).1 + sweepTimeoutHeadroom)

def reproduce (tbBin : Txt) : Txt :=
  "SWEEP_TIME_LIMIT=".toList ++ showInt (e.timeLimit printable).1 ++ " SWEEP_MIN=".toList ++
    showInt (e.min printable).1 ++ " SWEEP_MAX=".toList ++ showInt (e.max printable).1 ++ ' ' ::
    (match e.watchdog with
    | some n => "timeout ".toList ++ showInt n ++ [' ']
    | none => []) ++
    tbBin ++ " rsweep".toList

/-- What the log holds when the command returns. -/
def delivered (tbBin : Txt) : Txt :=
  (e.timeLimit printable).2 ++ (e.min printable).2 ++ (e.max printable).2 ++
    printed (runningLine tbBin) ++
    printed (sweepLine (e.timeLimit printable).1 (e.min printable).1 (e.max printable).1) ++
    consoleText e.output

/-- `TransferBench.run`: its result and what it leaves in the log. -/
def run : RunResult × Txt :=
  match e.tbBin with
  | none => ({ exitCode := 1 }, printed notFoundLine)
  | some tbBin =>
    let log := e.delivered printable tbBin
    if e.rc = 124 then
      (⟨1, e.reproduce printable tbBin⟩, log ++ printed (watchdogLine e.watchdog))
    else if e.rc = 0 then (⟨0, e.reproduce printable tbBin⟩, log ++ printed completedLine)
    else (⟨e.rc, e.reproduce printable tbBin⟩, log)

end Env

/-! ## The validator -/

/-- `[│|]`. -/
def isBar (c : Char) : Bool := c = '│' || c = '|'

/-- `[\d.]+\s*GB/s`. -/
def rate : List Re := [plus fun c => isDecimal c || c = '.', star isSpace, lit "GB/s"]

def transferRow : List Re :=
  [lit "Transfer", plus isSpace, plus isDecimal, star isSpace, cls isBar]

def transferPattern : Re := cat (transferRow ++ star isSpace :: rate)

def aggregatePattern : Re :=
  cat ([lit "Aggregate", star isSpace, lit "(CPU)", star isSpace, cls isBar, star isSpace] ++ rate)

def gpuCountPattern : Re :=
  cat [lit "NUM_GPU_DEVICES", star isSpace, lit "=", star isSpace, group 1 (plus isDecimal),
    star isSpace, lit ":", star isSpace, lit "Using", plus isSpace, group 2 (plus isDecimal),
    plus isSpace, lit "GPUs"]

/-- `\bG(\d+)\s*->.*->\s*G(\d+)\b`. -/
def routePattern : Re :=
  cat [wordBoundary, lit "G", group 1 (plus isDecimal), star isSpace, lit "->", dots, lit "->",
    star isSpace, lit "G", group 2 (plus isDecimal), wordBoundary]

def unreadableMessage (text : Txt) : Txt := "log unreadable (".toList ++ text ++ [')']

def watchdogMessage : Txt := "watchdog timeout (rsweep did not complete)".toList

def errorsMessage (n : Nat) : Txt := showNat n ++ " TransferBench error(s)".toList

def noTransfersMessage : Txt := "no transfer results in output".toList

def aggregateMessage (transfers : Nat) : Txt :=
  "incomplete rsweep (".toList ++ showNat transfers ++ " transfer(s), aggregate missing)".toList

def missingMessage : Txt := "missing TransferBench completion sentinel".toList

def noGpusMessage : Txt := "TransferBench reported no usable GPU devices".toList

def gpuCountMessage (detected used expected : Int) : Txt :=
  "TransferBench GPU count mismatch (detected ".toList ++ showInt detected ++ ", used ".toList ++
    showInt used ++ ", expected ".toList ++ showInt expected ++ [')']

def noRouteMessage : Txt := "no inter-GPU transfer route found in rsweep output".toList

def routesMessage (seen expected : Finset Int) : Txt :=
  "incomplete TransferBench per-GPU route coverage (reported ".toList ++
    Cudamemtest.showList (seen.sort (· ≤ ·)) ++ ", expected ".toList ++
    Cudamemtest.showList (expected.sort (· ≤ ·)) ++ [')']

def passMessage (transfers : Nat) : Txt :=
  "PASS (".toList ++ showNat transfers ++ " transfer(s), aggregate OK)".toList

section

variable (alnum : Char → Bool)

def errorPattern : Re := cat [lit "[ERROR]", star isSpace, plus (isWordChar alnum)]

/-- The GPUs of a transfer line, if it states both.  The outer `none` is a
`ValueError`. -/
def route (line : Txt) : Option (Option (Int × Int)) :=
  if search (isWordChar alnum) (cat transferRow) line then
    match searchFrom (isWordChar alnum) routePattern [] line with
    | none => some none
    | some (_, m) => do
      let source ← parseInt (m.group 1)
      let destination ← parseInt (m.group 2)
      return some (source, destination)
  else some none

/-- The routes of a log, in order. -/
def endpoints (text : Txt) : Option (List (Int × Int)) :=
  ((splitlines text).mapM (route alnum)).map (List.filterMap id)

/-- `set(range(n))`. -/
def gpuRange (n : Int) : Finset Int := ((List.range n.toNat).map Int.ofNat).toFinset

/-- The checks of the routes against the expected number of GPUs. -/
def checkRoutes (routes : List (Int × Int)) (expectedGpus : Option Int) (transfers : Nat) :
    ValidationResult :=
  let seen := (routes.map Prod.fst).toFinset ∪ (routes.map Prod.snd).toFinset
  if ¬ ∃ r ∈ routes, r.1 ≠ r.2 then ⟨noRouteMessage, true⟩
  else
    match expectedGpus.filter fun n => seen ≠ gpuRange n with
    | some n => ⟨routesMessage seen (gpuRange n), true⟩
    | none => ⟨passMessage transfers, false⟩

/-- `_validate_transferbench` on the text of the log.  `none` is a `ValueError`. -/
def validateTransferbench (expectedGpus : Option Int) (text : Txt) : Option ValidationResult :=
  if text = [] then some ⟨[], false⟩
  else if startsWith text readFailed then some ⟨unreadableMessage text, true⟩
  else if contains watchdogMark text then some ⟨watchdogMessage, true⟩
  else
    let errors := (findAll (isWordChar alnum) (errorPattern alnum) text).length
    let transfers := (findAll (isWordChar alnum) transferPattern text).length
    if 0 < errors then some ⟨errorsMessage errors, true⟩
    else if transfers = 0 then some ⟨noTransfersMessage, true⟩
    else if ¬ search (isWordChar alnum) aggregatePattern text then
      some ⟨aggregateMessage transfers, true⟩
    else if ¬ contains completedMark text then some ⟨missingMessage, true⟩
    else
      match searchFrom (isWordChar alnum) gpuCountPattern [] text with
      | none => some ⟨noGpusMessage, true⟩
      | some (_, m) => do
        let detected ← parseInt (m.group 1)
        let used ← parseInt (m.group 2)
        if detected ≤ 0 ∨ used ≤ 0 then return ⟨noGpusMessage, true⟩
        else
          match expectedGpus.filter fun n => detected ≠ n ∨ used ≠ n with
          | some n => return ⟨gpuCountMessage detected used n, true⟩
          | none => do
            let routes ← endpoints alnum text
            return checkRoutes routes expectedGpus transfers

end

end TransferBench
end Monitored
end RocmTests

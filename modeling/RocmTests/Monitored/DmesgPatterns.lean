import RocmTests.Text.Regex
import RocmTests.Markers.GpuCount

/-!
# The kernel log patterns

The flat pattern that fails a run, the category patterns of the pretest probe,
and the RAS patterns applied to a line before either.  All are used with
`re.IGNORECASE`.
-/

namespace RocmTests
namespace Monitored

open Text Text.Re Markers

/-- `\w`: ASCII letters, digits and the underscore, and beyond ASCII what
`alnum` says. -/
def isWordChar (alnum : Char → Bool) (c : Char) : Bool :=
  c.isAlphanum || c = '_' || (127 < c.toNat && alnum c)

def isHexDigit (c : Char) : Bool :=
  c.isDigit || ('a'.toNat ≤ c.toLower.toNat && c.toLower.toNat ≤ 'f'.toNat)

/-! ## Alternatives -/

def kernelPanic : Re := word (ilit "Kernel panic")

def panicWord : Re := word (ilit "panic")

def watchdogLockup : Re :=
  cat [ilit "watchdog:", dots, word (alts [ilit "BUG", ilit "soft lockup", ilit "hard lockup"])]

def softLockup : Re := word (ilit "soft lockup")

def hardLockup : Re := word (ilit "hard lockup")

def bugColon : Re := cat [wordBoundary, ilit "BUG:"]

def kernelBug : Re := word (ilit "kernel BUG")

def oops : Re := cat [ilit "Oops:", star isSpace, plus isHexDigit]

def callTraceUpper : Re := word (ilit "Call Trace")

def callTraceLower : Re := word (ilit "call trace")

def blockedFor : Re := word (ilit "blocked for more than")

def hungTask : Re := word (ilit "hung task")

def gpuReset : Re := word (ilit "gpu reset")

def amdgpuReset : Re := cat [wordBoundary, ilit "amdgpu", dots, ilit "reset", wordBoundary]

def ringTimeout : Re := cat [wordBoundary, ilit "ring ", dots, ilit "timeout", wordBoundary]

def gpuFault : Re := word (ilit "GPU fault")

def rasError : Re := cat [word (ilit "RAS"), dots, word (ilit "error")]

/-- `(?:uncorrected|uncorrectable|fatal)`. -/
def uncorrected : Re := alts [ilit "uncorrected", ilit "uncorrectable", ilit "fatal"]

def uncorrectedThenHardware : Re :=
  cat [word uncorrected, dots, word (alts [ilit "hardware error", ilit "ECC", ilit "RAS"])]

/-- The wider form of the category rule, which also takes a bare `error`. -/
def uncorrectedThenError : Re :=
  cat [word uncorrected, dots,
    word (alts [ilit "hardware error", ilit "ECC", ilit "RAS", ilit "error"])]

def hardwareThenUncorrected : Re :=
  cat [word (alts [ilit "hardware error", ilit "ECC", ilit "RAS"]), dots, word uncorrected]

def iommuFault : Re := cat [word (ilit "IOMMU"), dots, word (ilit "fault")]

def dmarFault : Re := cat [word (ilit "DMAR"), dots, word (ilit "fault")]

def segfault : Re := word (ilit "segfault")

def segmentationFault : Re := word (ilit "segmentation fault")

/-! ## The patterns -/

def dmesgCritical : Re :=
  alts [kernelPanic, panicWord, watchdogLockup, softLockup, hardLockup, bugColon, kernelBug, oops,
    callTraceUpper, callTraceLower, blockedFor, hungTask, gpuReset, amdgpuReset, ringTimeout,
    gpuFault, rasError, uncorrectedThenHardware, hardwareThenUncorrected, iommuFault, dmarFault,
    segfault, segmentationFault]

def dmesgInfo : Re :=
  alts [word (alts [ilit "general protection fault", ilit "resetting device",
      ilit "device not responding", ilit "hardware error", ilit "page fault", ilit "ECC"]),
    cat [word (ilit "RAS"), dots, word (alts [ilit "correctable", ilit "corrected"])]]

def rasCorrectedOnly : Re :=
  cat [word (alts [ilit "RAS", ilit "hardware error", ilit "ECC"]), dots,
    word (alts [ilit "correctable", ilit "corrected"])]

def rasUncorrectable : Re := word uncorrected

/-- `(?:\s+ECC)?\s+errors?`. -/
def eccErrors : Re :=
  cat [opt (cat [plus isSpace, ilit "ECC"]), plus isSpace, ilit "error", opt (ilit "s")]

def rasNonActionableUncorrectable : Re :=
  alts [
    cat [wordBoundary, alts [ilit "no", ilit "zero", ilit "0"], plus isSpace, uncorrected,
      eccErrors,
      wordBoundary],
    cat [wordBoundary, uncorrected, eccErrors, star isSpace, opt (alts [ilit ":", ilit "="]),
      star isSpace, ilit "0", wordBoundary]]

inductive Category where
  | kernelPanic
  | watchdogLockup
  | bugOops
  | callTrace
  | hungTask
  | hardwareUncorrected
  | gpuReset
  | iommuFault
  | segfault
deriving DecidableEq, Repr

def dmesgCategoryRules : List (Category × Re) :=
  [(.kernelPanic, alts [kernelPanic, panicWord]),
    (.watchdogLockup, alts [watchdogLockup, softLockup, hardLockup]),
    (.bugOops, alts [bugColon, kernelBug, oops]),
    (.callTrace, alts [callTraceUpper, callTraceLower]),
    (.hungTask, alts [blockedFor, hungTask]),
    (.hardwareUncorrected, alts [uncorrectedThenError, hardwareThenUncorrected]),
    (.gpuReset, alts [gpuReset, amdgpuReset, ringTimeout, gpuFault, rasError]),
    (.iommuFault, alts [iommuFault, dmarFault]),
    (.segfault, alts [segfault, segmentationFault])]

end Monitored
end RocmTests

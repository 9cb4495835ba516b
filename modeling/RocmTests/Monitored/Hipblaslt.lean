import RocmTests.Monitored.Cudamemtest
import RocmTests.Text.Csv

/-!
# The GEMM sweep and its validator

`HipblasltBench.run` starts the benchmark once for every shape and copies the row of
its result into the console log.  `_validate_hipblaslt` decides from that log alone.
-/

namespace RocmTests
namespace Monitored
namespace Hipblaslt

open Text Text.Re Validation DmesgCategories
open Cudamemtest (isDecimal showOption)
open Markers (isSpace strip)

/-! ## The workload -/

/-- A shape as the benchmark is asked for it and as its result row states it. -/
structure Gemm where
  transA : Txt
  transB : Txt
  m : Int
  n : Int
  k : Int
  batch : Int
deriving DecidableEq

/-- `(M, N, K, batch_count)`. -/
def nnShapes : List (Int × Int × Int × Int) :=
  [(8192, 320, 320, 1), (2048, 640, 640, 1), (512, 1280, 1280, 1), (8192, 320, 1280, 1),
    (512, 10240, 1280, 1), (2048, 5120, 640, 1), (8192, 2560, 320, 1), (512, 1280, 5120, 1),
    (2048, 640, 2560, 1), (154, 320, 768, 1), (154, 1280, 768, 1), (4096, 40, 4096, 16),
    (1024, 80, 1024, 16), (1024, 80, 77, 16)]

def ntShapes : List (Int × Int × Int × Int) :=
  [(4096, 4096, 40, 16), (1024, 1024, 80, 16), (4096, 77, 40, 16), (256, 77, 160, 16),
    (1024, 77, 80, 16)]

def gemm (transB : Char) (shape : Int × Int × Int × Int) : Gemm :=
  ⟨['N'], [transB], shape.1, shape.2.1, shape.2.2.1, shape.2.2.2⟩

def canonicalShapes : List Gemm := nnShapes.map (gemm 'N') ++ ntShapes.map (gemm 'T')

def totalShapes : Nat := nnShapes.length + ntShapes.length

def iters : Nat := 600

section

variable (alnum : Char → Bool)

/-- `^\[\d+\]:transA`. -/
def headerPattern : Re := cat [lit "[", plus isDecimal, lit "]:transA"]

/-- `^\s+[NT],[NT],\d`. -/
def dataRowPattern : Re :=
  cat [plus isSpace, cls fun c => c = 'N' || c = 'T', lit ",", cls fun c => c = 'N' || c = 'T',
    lit ",", cls isDecimal]

/-- `re.match`. -/
def matchesStart (r : Re) (line : Txt) : Bool := (matchAt (isWordChar alnum) r ⟨[], line⟩).isSome

def isHeader (line : Txt) : Bool := matchesStart alnum headerPattern line

def isDataRow (line : Txt) : Bool := matchesStart alnum dataRowPattern line

/-- The first header line and the first result row of an output. -/
def headerLine (output : Txt) : Option Txt := (splitlines output).find? (isHeader alnum)

def dataLine (output : Txt) : Option Txt := (splitlines output).find? (isDataRow alnum)

end

/-- `(NN 8192x320x320x1)`. -/
def showShape (g : Gemm) : Txt :=
  '(' :: g.transA ++ g.transB ++ ' ' :: showInt g.m ++ 'x' :: showInt g.n ++ 'x' :: showInt g.k ++
    'x' :: showInt g.batch ++ [')']

def runningLine : Txt :=
  "  Running ".toList ++ showNat totalShapes ++ " GEMM shapes (".toList ++
    showNat nnShapes.length ++ " NN + ".toList ++ showNat ntShapes.length ++ " NT), ".toList ++
    showNat iters ++ " iters each".toList

def watchdogMark : Txt := "[hipblaslt] FAIL: watchdog timeout".toList

def warningMark : Txt := "[hipblaslt] WARNING: shape".toList

def watchdogLine (shapeNum : Nat) (g : Gemm) (timeout : Option Int) : Txt :=
  "  ".toList ++ watchdogMark ++ " — shape ".toList ++ showNat shapeNum ++
    '/' :: showNat totalShapes ++ ' ' :: showShape g ++
    " did not complete within --per-iter-watchdog ".toList ++ showOption timeout ++ ['s']

def warningLine (shapeNum : Nat) (g : Gemm) (what : Txt) : Txt :=
  "  ".toList ++ warningMark ++ ' ' :: showNat shapeNum ++ '/' :: showNat totalShapes ++
    ' ' :: showShape g ++ ' ' :: what

def failedText (exitCode : Int) : Txt := "failed (exit ".toList ++ showInt exitCode ++ [')']

def noRowText : Txt := "produced no data row".toList

def summaryLine (passed failed : Nat) : Txt :=
  "  Completed: ".toList ++ showNat passed ++ '/' :: showNat totalShapes ++
    " shapes passed, ".toList ++ showNat failed ++ " failed".toList

/-- What the run finds: its option, and the exit code and the output of each start of
the benchmark, as the redirect file gives it back. -/
structure Env where
  watchdog : Option Int
  exitCode : Nat → Int
  output : Nat → Txt

/-- The last elements of a list. -/
def takeLast {α : Type} (n : Nat) (xs : List α) : List α := xs.drop (xs.length - n)

/-- The variables of the run. -/
structure State where
  shapeNum : Nat
  passed : Nat
  failed : Nat
  log : List Txt

namespace Env

variable (alnum : Char → Bool) (e : Env)

/-- `_run_shape`: whether the shape passed, and what it adds to the log. -/
def runShape (g : Gemm) (shapeNum : Nat) (printHeader : Bool) : Bool × List Txt :=
  let exitCode := e.exitCode (shapeNum - 1)
  let output := e.output (shapeNum - 1)
  if exitCode = 124 then
    (false, watchdogLine shapeNum g e.watchdog ::
      if output = [] then [] else [takeLast 1000 output])
  else if exitCode ≠ 0 then
    (false, [warningLine shapeNum g (failedText exitCode),
      joinLines (takeLast 5 (splitlines output))])
  else
    let header :=
      match headerLine alnum output with
      | some line => if printHeader then [line] else []
      | none => []
    match dataLine alnum output with
    | some line => (true, header ++ [line])
    | none => (false, header ++ [warningLine shapeNum g noRowText])

/-- One of the two loops over the shapes.  Only the first prints a header, and only
for the first shape. -/
def loop (transB : Char) (first : Bool) (s : State) : List (Int × Int × Int × Int) → State
  | [] => s
  | shape :: rest =>
    let shapeNum := s.shapeNum + 1
    let r := e.runShape alnum (gemm transB shape) shapeNum (first && shapeNum = 1)
    loop transB first
      { shapeNum
        passed := if r.1 then s.passed + 1 else s.passed
        failed := if r.1 then s.failed else s.failed + 1
        log := s.log ++ r.2 }
      rest

def start : State := { shapeNum := 0, passed := 0, failed := 0, log := [runningLine] }

/-- `HipblasltBench.run` with the benchmark installed: its exit code and the texts it
adds to the log. -/
def run : Int × List Txt :=
  let s := e.loop alnum 'T' false (e.loop alnum 'N' true start nnShapes) ntShapes
  (if 0 < s.failed then 1 else 0, s.log ++ [summaryLine s.passed s.failed])

end Env

/-! ## The validator -/

def hipError : Re := cat [ilit "HIP error", star isSpace, ilit ":"]

def hipblasltError : Re :=
  cat [wordBoundary, ilit "hipblaslt", plus isSpace, ilit "error", star isSpace, ilit ":"]

def segmentationFault : Re := ilit "Segmentation fault"

def errPat : Re := alts [hipError, hipblasltError, segmentationFault]

def shapeFailPattern : Re := lit "[hipblaslt] WARNING: shape"

def completedPattern : Re :=
  cat [lit "Completed:", star isSpace, group 1 (plus isDecimal), lit "/", group 2 (plus isDecimal),
    lit " shapes passed,", star isSpace, group 3 (plus isDecimal), lit " failed"]

section

variable (alnum : Char → Bool)

/-- The shape that the fields of a result row state.  `none` is a `ValueError` or a
row that is too short, which are both passed over. -/
def shapeOf (fields : List Txt) : Option Gemm :=
  match fields with
  | transA :: transB :: _ :: batch :: m :: n :: k :: _ => do
    let m ← parseInt m
    let n ← parseInt n
    let k ← parseInt k
    let batch ← parseInt batch
    return ⟨transA, transB, m, n, k, batch⟩
  | _ => none

/-- `next(csv.reader([line.strip()]))`.  `none` is an exception. -/
def fieldsOf (line : Txt) : Option (List Txt) :=
  match Csv.recordsFrom Csv.fresh [strip line] with
  | [] => none
  | record :: _ => record

/-- The number of result rows and the shapes they state, in order. -/
def scanRows : List Txt → Option (Nat × List Gemm)
  | [] => some (0, [])
  | line :: lines =>
    if isDataRow alnum line then do
      let fields ← fieldsOf line
      let (dataRows, shapes) ← scanRows lines
      return (dataRows + 1, (shapeOf fields).toList ++ shapes)
    else scanRows lines

def errorsMessage (n : Nat) : Txt := showNat n ++ " HIP/hipblaslt error(s)".toList

def watchdogMessage : Txt := "watchdog timeout (GEMM shape did not complete)".toList

def shapesMessage (n : Nat) : Txt := showNat n ++ " shape(s) failed".toList

def noResultsMessage : Txt := "no hipBLASLt GEMM results".toList

def missingMessage : Txt := "missing hipBLASLt completion summary".toList

def denominatorMessage (total : Int) : Txt :=
  "unexpected hipBLASLt shape denominator ".toList ++ showInt total ++ "; expected ".toList ++
    showNat canonicalShapes.length

def incompleteMessage (passed total : Int) (dataRows : Nat) : Txt :=
  "incomplete hipBLASLt coverage (".toList ++ showInt passed ++ '/' :: showInt total ++
    " shapes, ".toList ++ showNat dataRows ++ " result rows)".toList

def identityMessage : Txt := "incomplete hipBLASLt shape identity coverage".toList

def passMessage (dataRows : Nat) : Txt :=
  "PASS (".toList ++ showNat dataRows ++ " GEMM results)".toList

/-- The checks of the completion summary. -/
def checkSummary (passed total failedShapes : Int) (dataRows : Nat) (resultShapes : List Gemm) :
    ValidationResult :=
  if total ≠ canonicalShapes.length then ⟨denominatorMessage total, true⟩
  else if passed ≠ total ∨ failedShapes ≠ 0 ∨ (dataRows : Int) < total then
    ⟨incompleteMessage passed total dataRows, true⟩
  else if resultShapes ≠ canonicalShapes then ⟨identityMessage, true⟩
  else ⟨passMessage dataRows, false⟩

/-- `_validate_hipblaslt` on the text of the log.  `none` is an exception. -/
def validateHipblaslt (text : Txt) : Option ValidationResult :=
  if text = [] then some ⟨[], false⟩
  else
    let hipErr := (findAll (isWordChar alnum) errPat text).length
    let shapeFail := (findAll (isWordChar alnum) shapeFailPattern text).length
    let watchdog := contains watchdogMark text
    do
      let (dataRows, resultShapes) ← scanRows alnum (splitlines text)
      if 0 < hipErr then return ⟨errorsMessage hipErr, true⟩
      else if watchdog then return ⟨watchdogMessage, true⟩
      else if 0 < shapeFail then return ⟨shapesMessage shapeFail, true⟩
      else if dataRows = 0 then return ⟨noResultsMessage, true⟩
      else
        match searchFrom (isWordChar alnum) completedPattern [] text with
        | none => return ⟨missingMessage, true⟩
        | some (_, found) => do
          let passed ← parseInt (found.group 1)
          let total ← parseInt (found.group 2)
          let failedShapes ← parseInt (found.group 3)
          return checkSummary passed total failedShapes dataRows resultShapes

end

end Hipblaslt
end Monitored
end RocmTests

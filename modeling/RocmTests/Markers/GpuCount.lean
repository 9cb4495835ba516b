import Mathlib.Algebra.Order.Ring.Rat
import Mathlib.Data.List.MinMax

/-!
# The `gpu_count` marker argument

`parse_gpu_count` normalises the argument of `@pytest.mark.gpu_count(...)` to an
integer or to the sentinel `ALL`.  The argument is a Python object, so the text
form goes through `str.strip`, `str.lower` and `int(str)`.  The last accepts any
Unicode decimal digit, a sign, and single underscores between digits.
-/

namespace RocmTests
namespace Markers

/-! ## Python's `int` on text -/

/-- Code points of the zeros of the Unicode decimal digit ranges.  Each range is
the ten code points from here. -/
def decimalZeros : List Nat :=
  [48, 1632, 1776, 1984, 2406, 2534, 2662, 2790, 2918, 3046, 3174, 3302, 3430, 3558, 3664, 3792,
    3872, 4160, 4240, 6112, 6160, 6470, 6608, 6784, 6800, 6992, 7088, 7232, 7248, 42528, 43216,
    43264, 43472, 43504, 43600, 44016, 65296, 66720, 68912, 69734, 69872, 69942, 70096, 70384,
    70736, 70864, 71248, 71360, 71472, 71904, 72016, 72784, 73040, 73120, 92768, 92864, 93008,
    120782, 120792, 120802, 120812, 120822, 123200, 123632, 125264, 130032]

def digitValue (c : Char) : Option Nat :=
  (decimalZeros.find? fun z => z ≤ c.toNat && c.toNat < z + 10).map fun z => c.toNat - z

/-- `str.isspace` on one character. -/
def isSpace (c : Char) : Bool :=
  c.toNat ∈ [9, 10, 11, 12, 13, 28, 29, 30, 31, 32, 133, 160, 5760, 8192, 8193, 8194, 8195, 8196,
    8197, 8198, 8199, 8200, 8201, 8202, 8232, 8233, 8239, 8287, 12288]

def strip (cs : List Char) : List Char :=
  ((cs.dropWhile isSpace).reverse.dropWhile isSpace).reverse

/-- Digits with single underscores between them.  `afterDigit` is whether the
last character read was a digit. -/
def parseDigits : List Char → Nat → Bool → Option Nat
  | [], acc, afterDigit => if afterDigit then some acc else none
  | '_' :: cs, acc, true => parseDigits cs acc false
  | c :: cs, acc, _ =>
    match digitValue c with
    | some d => parseDigits cs (acc * 10 + d) true
    | none => none

/-- `int(text)`. -/
def intOfText (cs : List Char) : Option Int :=
  match strip cs with
  | '+' :: ds => (parseDigits ds 0 false).map fun n => (n : Int)
  | '-' :: ds => (parseDigits ds 0 false).map fun n => -(n : Int)
  | ds => (parseDigits ds 0 false).map fun n => (n : Int)

/-! ## The argument and its parse -/

/-- An object that is not a sequence of numbers.  `other` stands for everything
`int` rejects. -/
inductive Scalar where
  | int (n : Int)
  | float (q : ℚ)
  | str (s : String)
  | other
deriving DecidableEq

/-- First positional argument of the marker. -/
inductive RawGpuCount where
  | scalar (x : Scalar)
  | seq (xs : List Scalar)
deriving DecidableEq

inductive GpuCount where
  | count (n : Int)
  | all
deriving DecidableEq

inductive GpuCountError where
  | notAnInteger
  | emptyList
  | wrongType
deriving DecidableEq

/-- `int(x)`; a float is truncated towards zero. -/
def Scalar.toInt : Scalar → Except GpuCountError Int
  | .int n => .ok n
  | .float q => .ok (q.num.tdiv q.den)
  | .str s =>
    match intOfText s.toList with
    | some n => .ok n
    | none => .error .notAnInteger
  | .other => .error .wrongType

/-- `raw.strip().lower() == GPU_COUNT_ALL`.  No character outside ASCII lowers to
one of its letters. -/
def isAll (s : String) : Bool := (strip s.toList).map Char.toLower == ['a', 'l', 'l']

def parseGpuCount : RawGpuCount → Except GpuCountError GpuCount
  | .scalar (.str s) =>
    if isAll s then .ok .all else (Scalar.toInt (.str s)).map GpuCount.count
  | .scalar x => x.toInt.map GpuCount.count
  | .seq xs => do
    let values ← xs.mapM Scalar.toInt
    match values.max? with
    | none => .error .emptyList
    | some m => .ok (.count m)

/-- A marker and its arguments: `none` is an absent marker. -/
def gpuCountFromMarker (marker : Option (List RawGpuCount)) (default : Int) :
    Except GpuCountError GpuCount :=
  match marker with
  | some (raw :: _) => parseGpuCount raw
  | _ => .ok (.count default)

def resolveGpuCount (value : GpuCount) (available default : Int) : Int :=
  match value with
  | .all => if 0 < available then available else default
  | .count n => if 0 < n then n else default

example : parseGpuCount (.scalar (.str " All ")) = .ok .all := by decide

example : parseGpuCount (.scalar (.str "1_6")) = .ok (.count 16) := by decide

end Markers
end RocmTests

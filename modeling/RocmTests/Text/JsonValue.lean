import Mathlib.Data.Rat.Floor
import RocmTests.Text.Numeral

/-!
# Values of JSON

What `json.loads` makes of a text, with the numbers of Python.
-/

namespace RocmTests
namespace Text

inductive JsonValue where
  | null
  | bool (b : Bool)
  | int (n : Int)
  | float (x : PyFloat)
  | str (s : Txt)
  | arr (xs : List JsonValue)
  | obj (items : List (Txt × JsonValue))

/-- What `int` raises. -/
inductive IntError where
  | typeError
  | valueError
  | overflowError
deriving DecidableEq

namespace JsonValue

/-- `bool(x)`. -/
def truthy : JsonValue → Bool
  | .null => false
  | .bool b => b
  | .int n => n ≠ 0
  | .float x => x ≠ .finite 0
  | .str s => !s.isEmpty
  | .arr xs => !xs.isEmpty
  | .obj items => !items.isEmpty

/-- `int(x)`. -/
def toInt : JsonValue → Except IntError Int
  | .bool b => .ok (if b then 1 else 0)
  | .int n => .ok n
  | .float (.finite q) => .ok (q.num.tdiv q.den)
  | .float .nan => .error .valueError
  | .float (.inf _) => .error .overflowError
  | .str t => ((parseInt t).map Except.ok).getD (.error .valueError)
  | _ => .error .typeError

/-- `d.get(key)` of a dict. -/
def get? (items : List (Txt × JsonValue)) (key : Txt) : Option JsonValue := items.lookup key

end JsonValue

/-!
## Reading a JSON document

`json.loads`, `get` and `int` with the exceptions that handlers tell apart.
-/

/-- What can leave `json.loads`: it gives up on deep nesting and on long numerals. -/
inductive LoadError where
  | jsonDecodeError
  | recursionError
  | valueError
deriving DecidableEq

/-- What can leave `get`, `list`, `int` and a method of `str`. -/
inductive AccessError where
  | attributeError
  | typeError
  | valueError
  | overflowError
deriving DecidableEq

inductive ReadError where
  | load (e : LoadError)
  | access (e : AccessError)
deriving DecidableEq

/-- `int(q)` of a number. -/
def truncate (q : ℚ) : Int := q.num.tdiv q.den

theorem truncate_of_nonneg {q : ℚ} (h : 0 ≤ q) : truncate q = ⌊q⌋ := by
  rw [truncate, Int.tdiv_eq_ediv_of_nonneg (Rat.num_nonneg.mpr h)]
  exact Rat.floor_def'.symm

namespace JsonValue

def ofIntError : IntError → AccessError
  | .typeError => .typeError
  | .valueError => .valueError
  | .overflowError => .overflowError

/-- `int(v)`. -/
def asInt (v : JsonValue) : Except AccessError Int := v.toInt.mapError ofIntError

/-- The number that `int` makes of a value. -/
def intIn (v : JsonValue) : Option Int := v.toInt.toOption

theorem intIn_of_asInt {v : JsonValue} {n : Int} (h : v.asInt = .ok n) : v.intIn = some n := by
  unfold asInt at h
  unfold intIn
  cases hv : v.toInt with
  | error e => rw [hv] at h; cases h
  | ok m =>
    rw [hv] at h
    rw [Except.ok.inj h]
    rfl

/-- The value at a key, or the default; the default also of what has no keys. -/
def field (v : JsonValue) (key : Txt) (default : JsonValue) : JsonValue :=
  match v with
  | .obj items => (get? items key).getD default
  | _ => default

/-- `v.get(key, default)`. -/
def getOf (v : JsonValue) (key : Txt) (default : JsonValue) : Except AccessError JsonValue :=
  match v with
  | .obj _ => .ok (field v key default)
  | _ => .error .attributeError

theorem getOf_ok {v a default : JsonValue} {key : Txt} (h : getOf v key default = .ok a) :
    a = field v key default := by
  cases v with
  | obj items => exact (Except.ok.inj h).symm
  | _ => cases h

def emptyDict : JsonValue := .obj []

end JsonValue

end Text
end RocmTests

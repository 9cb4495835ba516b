import RocmTests.Text.JsonValue

/-!
# JSON texts

`json.dumps` and `json.loads`.  A text is read from left to right: `Machine.step` is what one
character does, and the containers that are still open stand on a stack, which the recursion limit
bounds.

The text that `repr` gives a float is a parameter.
-/

namespace RocmTests
namespace Text

/-! ## Printing -/

/-- The four digits of `\u`. -/
def fourHex (n : Nat) : Txt :=
  [(n / 4096 % 16).digitChar, (n / 256 % 16).digitChar, (n / 16 % 16).digitChar, (n % 16).digitChar]

def unicodeEscape (n : Nat) : Txt := '\\' :: 'u' :: fourHex n

/-- One character of a string.  Beyond 16 bits it becomes two surrogates. -/
def jsonChar (c : Char) : Txt :=
  if c = '"' ∨ c = '\\' then ['\\', c]
  else if c = '\n' then ['\\', 'n']
  else if c = '\r' then ['\\', 'r']
  else if c = '\t' then ['\\', 't']
  else if c.toNat = 12 then ['\\', 'f']
  else if c.toNat = 8 then ['\\', 'b']
  else if 32 ≤ c.toNat ∧ c.toNat < 127 then [c]
  else if c.toNat < 65536 then unicodeEscape c.toNat
  else unicodeEscape (0xd800 + (c.toNat - 65536) / 1024) ++
    unicodeEscape (0xdc00 + (c.toNat - 65536) % 1024)

def jsonString (s : Txt) : Txt := '"' :: s.flatMap jsonChar ++ ['"']

/-- The texts of floats. -/
def floatText (repr : ℚ → Txt) : PyFloat → Txt
  | .nan => "NaN".toList
  | .inf false => "Infinity".toList
  | .inf true => "-Infinity".toList
  | .finite q => repr q

mutual

def jsonText (repr : ℚ → Txt) : JsonValue → Txt
  | .null => "null".toList
  | .bool true => "true".toList
  | .bool false => "false".toList
  | .int n => showInt n
  | .float x => floatText repr x
  | .str s => jsonString s
  | .arr xs => '[' :: jsonItems repr xs ++ [']']
  | .obj items => '{' :: jsonMembers repr items ++ ['}']

def jsonItems (repr : ℚ → Txt) : List JsonValue → Txt
  | [] => []
  | v :: vs => jsonText repr v ++ (if vs.isEmpty then [] else ", ".toList ++ jsonItems repr vs)

def jsonMembers (repr : ℚ → Txt) : List (Txt × JsonValue) → Txt
  | [] => []
  | (key, v) :: ms => jsonString key ++ ": ".toList ++ jsonText repr v ++
      (if ms.isEmpty then [] else ", ".toList ++ jsonMembers repr ms)

end

mutual

/-- The value with the keys of its dicts in order, as `sort_keys` prints it. -/
def JsonValue.sorted : JsonValue → JsonValue
  | .arr xs => .arr (sortedItems xs)
  | .obj items => .obj ((sortedMembers items).mergeSort fun a b => a.1 ≤ b.1)
  | v => v

def sortedItems : List JsonValue → List JsonValue
  | [] => []
  | v :: vs => v.sorted :: sortedItems vs

def sortedMembers : List (Txt × JsonValue) → List (Txt × JsonValue)
  | [] => []
  | (key, v) :: ms => (key, v.sorted) :: sortedMembers ms

end

mutual

/-- The most that a value below counts: integers by `ofInt`, each container by `level`. -/
def JsonValue.most (ofInt : Int → Nat) (level : Nat) : JsonValue → Nat
  | .int n => ofInt n
  | .arr xs => mostItems ofInt level xs + level
  | .obj items => mostMembers ofInt level items + level
  | _ => 0

def mostItems (ofInt : Int → Nat) (level : Nat) : List JsonValue → Nat
  | [] => 0
  | v :: vs => max (v.most ofInt level) (mostItems ofInt level vs)

def mostMembers (ofInt : Int → Nat) (level : Nat) : List (Txt × JsonValue) → Nat
  | [] => 0
  | (_, v) :: ms => max (v.most ofInt level) (mostMembers ofInt level ms)

end

namespace JsonValue

/-- How deep containers are nested. -/
def depth (v : JsonValue) : Nat := v.most (fun _ => 0) 1

/-- The digits of the longest integer. -/
def digits (v : JsonValue) : Nat := v.most (fun n => (showNat n.natAbs).length) 0

/-- `json.dumps(v)` where containers may be nested to the depth `limit`. -/
def dumps (repr : ℚ → Txt) (limit : Nat) (v : JsonValue) : Except LoadError Txt :=
  if limit < v.depth then .error .recursionError
  else if intMaxStrDigits < v.digits then .error .valueError
  else .ok (jsonText repr v)

end JsonValue

/-! ## Reading -/

namespace Json

/-- A container that is open; an object with the key whose value is read. -/
inductive Frame where
  | arr (done : List JsonValue)
  | obj (done : List (Txt × JsonValue)) (key : Txt)

/-- What a string is: a value, or a key behind the members of its object. -/
inductive Role where
  | value
  | key (done : List (Txt × JsonValue))

inductive Mode where
  | value
  /-- Behind the bracket of an array. -/
  | first
  /-- Behind the brace of an object. -/
  | firstKey
  | key (done : List (Txt × JsonValue))
  | colon (done : List (Txt × JsonValue)) (key : Txt)
  | after (v : JsonValue)
  | number (t : Txt)
  | word (rest : Txt) (v : JsonValue)
  | str (role : Role) (s : Txt)
  | escape (role : Role) (s : Txt)
  /-- In the digits of `\u`, behind a high surrogate if there is one. -/
  | unicode (role : Role) (s : Txt) (high : Option Nat) (n count : Nat)
  /-- Behind a high surrogate, and behind its backslash. -/
  | high (role : Role) (s : Txt) (n : Nat)
  | highEscape (role : Role) (s : Txt) (n : Nat)
  | failed (e : LoadError)
  /-- A surrogate on its own is in no text here. -/
  | beyond

structure Machine where
  stack : List Frame
  mode : Mode

def isBlank (c : Char) : Bool := c = ' ' || c = '\t' || c = '\n' || c = '\r'

def isNumberChar (c : Char) : Bool := c.isDigit || c ∈ ['+', '-', '.', 'e', 'E']

def hexOf (c : Char) : Option Nat :=
  if c.isDigit then some (c.toNat - 48)
  else if 'a' ≤ c ∧ c ≤ 'f' then some (c.toNat - 87)
  else if 'A' ≤ c ∧ c ≤ 'F' then some (c.toNat - 55)
  else none

/-- `d[key] = v`. -/
def setItem (items : List (Txt × JsonValue)) (key : Txt) (v : JsonValue) : List (Txt × JsonValue) :=
  if key ∈ items.map (·.1) then items.map fun m => if m.1 = key then (key, v) else m
  else items ++ [(key, v)]

/-! ### Numbers -/

/-- `-?(?:0|[1-9]\d*)` and what follows it. -/
def wholePart : Txt → Option (Txt × Txt)
  | '-' :: t => (unsigned t).map fun p => ('-' :: p.1, p.2)
  | t => unsigned t
where
  unsigned (t : Txt) : Option (Txt × Txt) :=
    match t with
    | '0' :: t => some (['0'], t)
    | t =>
      let ds := t.takeWhile Char.isDigit
      if ds = [] then none else some (ds, t.dropWhile Char.isDigit)

/-- `(\.\d+)?`. -/
def fractionPart : Txt → Txt × Txt
  | '.' :: t =>
    let ds := t.takeWhile Char.isDigit
    if ds = [] then ([], '.' :: t) else ('.' :: ds, t.dropWhile Char.isDigit)
  | t => ([], t)

/-- `([eE][-+]?\d+)?`. -/
def exponentPart : Txt → Txt × Txt
  | [] => ([], [])
  | c :: t =>
    if c = 'e' ∨ c = 'E' then
      let sign := t.takeWhile fun d => d = '+' || d = '-'
      let ds := (t.drop sign.length).takeWhile Char.isDigit
      if 1 < sign.length ∨ ds = [] then ([], c :: t)
      else (c :: (sign ++ ds), (t.drop sign.length).dropWhile Char.isDigit)
    else ([], c :: t)

/-- The number that a run of such characters is, or what stops the reading at it. -/
def number (t : Txt) : Except LoadError JsonValue :=
  match wholePart t with
  | none => .error .jsonDecodeError
  | some (whole, r) =>
    let fraction := fractionPart r
    let exponent := exponentPart fraction.2
    let value := if fraction.1 = [] ∧ exponent.1 = [] then
        ((parseInt whole).map JsonValue.int).elim (Except.error LoadError.valueError) Except.ok
      else ((PyFloat.parse (whole ++ fraction.1 ++ exponent.1)).map JsonValue.float).elim
        (Except.error LoadError.valueError) Except.ok
    value.bind fun v => if exponent.2 = [] then .ok v else .error .jsonDecodeError

namespace Machine

def go (m : Machine) (mode : Mode) : Machine := { m with mode := mode }

def fail (m : Machine) : Machine := m.go (.failed .jsonDecodeError)

/-- The end of a string. -/
def string (m : Machine) (s : Txt) : Role → Machine
  | .value => m.go (.after (.str s))
  | .key done => m.go (.colon done s)

/-- The first character of a value. -/
def begin (limit : Nat) (m : Machine) (c : Char) : Machine :=
  if c = '"' then m.go (.str .value [])
  else if c = '{' then
    if m.stack.length < limit then m.go .firstKey else m.go (.failed .recursionError)
  else if c = '[' then
    if m.stack.length < limit then ⟨.arr [] :: m.stack, .first⟩ else m.go (.failed .recursionError)
  else if c = 'n' then m.go (.word "ull".toList .null)
  else if c = 't' then m.go (.word "rue".toList (.bool true))
  else if c = 'f' then m.go (.word "alse".toList (.bool false))
  else if c = 'N' then m.go (.word "aN".toList (.float .nan))
  else if c = 'I' then m.go (.word "nfinity".toList (.float (.inf false)))
  else if c = '-' ∨ c.isDigit = true then m.go (.number [c])
  else m.fail

/-- What follows a value. -/
def after (m : Machine) (v : JsonValue) (c : Char) : Machine :=
  if isBlank c then m.go (.after v)
  else match m.stack with
    | [] => m.fail
    | .arr done :: stack =>
      if c = ',' then ⟨.arr (done ++ [v]) :: stack, .value⟩
      else if c = ']' then ⟨stack, .after (.arr (done ++ [v]))⟩
      else m.fail
    | .obj done key :: stack =>
      if c = ',' then ⟨stack, .key (setItem done key v)⟩
      else if c = '}' then ⟨stack, .after (.obj (setItem done key v))⟩
      else m.fail

/-- A number ends where no character of numbers follows. -/
def settle (m : Machine) : Machine :=
  match m.mode with
  | .number t =>
    match number t with
    | .ok v => m.go (.after v)
    | .error e => m.go (.failed e)
  | _ => m

/-- Behind a backslash. -/
def escaped (m : Machine) (role : Role) (s : Txt) (c : Char) : Machine :=
  if c ∈ ['"', '\\', '/'] then m.go (.str role (s ++ [c]))
  else if c = 'n' then m.go (.str role (s ++ ['\n']))
  else if c = 'r' then m.go (.str role (s ++ ['\r']))
  else if c = 't' then m.go (.str role (s ++ ['\t']))
  else if c = 'f' then m.go (.str role (s ++ [Char.ofNat 12]))
  else if c = 'b' then m.go (.str role (s ++ [Char.ofNat 8]))
  else if c = 'u' then m.go (.unicode role s none 0 0)
  else m.fail

/-- All four digits of `\u`. -/
def codePoint (m : Machine) (role : Role) (s : Txt) (high : Option Nat) (n : Nat) : Machine :=
  match high with
  | some h =>
    if 0xdc00 ≤ n ∧ n < 0xe000 then
      m.go (.str role (s ++ [Char.ofNat (65536 + (h - 0xd800) * 1024 + (n - 0xdc00))]))
    else m.go .beyond
  | none =>
    if 0xd800 ≤ n ∧ n < 0xdc00 then m.go (.high role s n)
    else if 0xdc00 ≤ n ∧ n < 0xe000 then m.go .beyond
    else m.go (.str role (s ++ [Char.ofNat n]))

def step (limit : Nat) (m : Machine) (c : Char) : Machine :=
  match m.mode with
  | .value => if isBlank c then m else m.begin limit c
  | .first =>
    if isBlank c then m
    else if c = ']' then
      match m.stack with
      | .arr done :: stack => ⟨stack, .after (.arr done)⟩
      | _ => m.fail
    else m.begin limit c
  | .firstKey =>
    if isBlank c then m
    else if c = '}' then m.go (.after (.obj []))
    else if c = '"' then m.go (.str (.key []) [])
    else m.fail
  | .key done =>
    if isBlank c then m
    else if c = '"' then m.go (.str (.key done) [])
    else m.fail
  | .colon done key =>
    if isBlank c then m
    else if c = ':' then ⟨.obj done key :: m.stack, .value⟩
    else m.fail
  | .after v => m.after v c
  | .number t =>
    if t = ['-'] ∧ c = 'I' then m.go (.word "nfinity".toList (.float (.inf true)))
    else if isNumberChar c then m.go (.number (t ++ [c]))
    else match m.settle.mode with
      | .after v => m.after v c
      | mode => m.go mode
  | .word rest v =>
    match rest with
    | [] => m.fail
    | d :: rest => if c = d then m.go (if rest = [] then .after v else .word rest v) else m.fail
  | .str role s =>
    if c = '"' then m.string s role
    else if c = '\\' then m.go (.escape role s)
    else if c.toNat < 32 then m.fail
    else m.go (.str role (s ++ [c]))
  | .escape role s => m.escaped role s c
  | .unicode role s high n count =>
    match hexOf c with
    | none => if high = none then m.fail else m.go .beyond
    | some d =>
      if count = 3 then m.codePoint role s high (16 * n + d)
      else m.go (.unicode role s high (16 * n + d) (count + 1))
  | .high role s n => if c = '\\' then m.go (.highEscape role s n) else m.go .beyond
  | .highEscape role s n => if c = 'u' then m.go (.unicode role s (some n) 0 0) else m.go .beyond
  | .failed _ => m
  | .beyond => m

/-- The text ends here. -/
def finish (m : Machine) : Option (Except LoadError JsonValue) :=
  match m.settle.stack, m.settle.mode with
  | [], .after v => some (.ok v)
  | _, .failed e => some (.error e)
  | _, .beyond => none
  | _, _ => some (.error .jsonDecodeError)

end Machine

/-- `json.loads(t)`; `none` where a string has a surrogate on its own. -/
def loads (limit : Nat) (t : Txt) : Option (Except LoadError JsonValue) :=
  (t.foldl (Machine.step limit) ⟨[], .value⟩).finish

end Json

end Text
end RocmTests

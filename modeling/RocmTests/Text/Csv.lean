import RocmTests.Text.Lines

/-!
# Comma-separated text

`csv.reader` in the `excel` dialect, and `csv.DictReader` over it.  The reader is
the character machine of the C module: one record may take several lines when a
field is quoted, and a field that outgrows the limit fails the whole line it is
on.  The machine starts afresh after a failure, so what a caller that catches the
failure sees is a list of outcomes, one for each call of `next`.

The file is opened with `newline=''`, so a line keeps its end.
-/

namespace RocmTests
namespace Text
namespace Csv

/-! ## Physical lines -/

/-- The lines of a text that continues the line `cur`, which is held reversed.
Lines end at `\n`, `\r` or `\r\n` and keep their end. -/
def keptLinesFrom : Txt → Txt → List Txt
  | [], [] => []
  | [], c :: cur => [(c :: cur).reverse]
  | '\r' :: '\n' :: cs, cur => ('\n' :: '\r' :: cur).reverse :: keptLinesFrom cs []
  | c :: cs, cur =>
    if c = '\n' ∨ c = '\r' then (c :: cur).reverse :: keptLinesFrom cs []
    else keptLinesFrom cs (c :: cur)

def keptLines (text : Txt) : List Txt := keptLinesFrom text []

/-! ## The character machine -/

inductive State where
  | startRecord
  | startField
  | inField
  | inQuotedField
  | quoteInQuotedField
  | eatCrnl
deriving DecidableEq

/-- The field being read and the fields before it, all reversed. -/
structure Parser where
  state : State
  field : Txt
  fields : List Txt

def fresh : Parser := { state := .startRecord, field := [], fields := [] }

/-- `csv.field_size_limit()`. -/
def fieldSizeLimit : Nat := 131072

namespace Parser

def go (p : Parser) (state : State) : Parser := { p with state := state }

def addChar (p : Parser) (c : Char) : Option Parser :=
  if fieldSizeLimit ≤ p.field.length then none else some { p with field := c :: p.field }

def saveField (p : Parser) : Parser :=
  { p with field := [], fields := p.field.reverse :: p.fields }

/-- Where the end of a line leaves the machine; `none` is the end itself. -/
def afterEnd : Option Char → State
  | none => .startRecord
  | some _ => .eatCrnl

def isEnd (c : Option Char) : Bool := c == none || c == some '\n' || c == some '\r'

def startField (p : Parser) (c : Option Char) : Option Parser :=
  match isEnd c, c with
  | false, some '"' => some (p.go .inQuotedField)
  | false, some ',' => some (p.saveField.go .startField)
  | false, some c => (p.addChar c).map (·.go .inField)
  | _, c => some (p.saveField.go (afterEnd c))

/-- `parse_process_char`; `none` for the character is the end of the line, and
`none` for the answer is `csv.Error`. -/
def processChar (p : Parser) (c : Option Char) : Option Parser :=
  match p.state with
  | .startRecord =>
    match isEnd c, c with
    | true, none => some p
    | true, some _ => some (p.go .eatCrnl)
    | false, c => p.startField c
  | .startField => p.startField c
  | .inField =>
    match isEnd c, c with
    | false, some ',' => some (p.saveField.go .startField)
    | false, some c => p.addChar c
    | _, c => some (p.saveField.go (afterEnd c))
  | .inQuotedField =>
    match c with
    | none => some p
    | some '"' => some (p.go .quoteInQuotedField)
    | some c => p.addChar c
  | .quoteInQuotedField =>
    match isEnd c, c with
    | false, some '"' => (p.addChar '"').map (·.go .inQuotedField)
    | false, some ',' => some (p.saveField.go .startField)
    | false, some c => (p.addChar c).map (·.go .inField)
    | _, c => some (p.saveField.go (afterEnd c))
  | .eatCrnl =>
    match isEnd c, c with
    | true, none => some (p.go .startRecord)
    | true, some _ => some p
    | false, _ => none

def feedLine (p : Parser) : Txt → Option Parser
  | [] => p.processChar none
  | c :: cs =>
    match p.processChar (some c) with
    | some p => p.feedLine cs
    | none => none

end Parser

/-- What the successive calls of `next(reader)` do: a record, or `csv.Error`. -/
def recordsFrom (p : Parser) : List Txt → List (Option (List Txt))
  | [] =>
    if p.field ≠ [] ∨ p.state = .inQuotedField then [some p.saveField.fields.reverse] else []
  | l :: ls =>
    match p.feedLine l with
    | none => none :: recordsFrom fresh ls
    | some p =>
      if p.state = .startRecord then some p.fields.reverse :: recordsFrom fresh ls
      else recordsFrom p ls

def records (text : Txt) : List (Option (List Txt)) := recordsFrom fresh (keptLines text)

/-! ## Rows under a header -/

/-- A row as a `dict`, in the order of the assignments.  A cell is `none` when the
record was too short for its column.  The surplus cells of a long record are
under the key `None`, which no name equals. -/
abbrev Row := List (Txt × Option Txt)

/-- `row.get(name)` as far as the key is there: a name that heads two columns has
the value of the later one. -/
def Row.get (row : Row) (name : Txt) : Option (Option Txt) := row.reverse.lookup name

def rowOf (names cells : List Txt) : Row :=
  names.zip (cells.map some ++ List.replicate (names.length - cells.length) none)

/-- What the successive calls of `next` on a `DictReader` do.  A header that cannot
be read is an error of that call, and the next record is then the header.  Empty
records are passed over. -/
def dictRowsFrom : Option (List Txt) → List (Option (List Txt)) → List (Option Row)
  | _, [] => []
  | names, none :: rs => none :: dictRowsFrom names rs
  | none, some names :: rs => dictRowsFrom (some names) rs
  | some names, some [] :: rs => dictRowsFrom (some names) rs
  | some names, some cells :: rs => some (rowOf names cells) :: dictRowsFrom (some names) rs

def dictRows (text : Txt) : List (Option Row) := dictRowsFrom none (records text)

example : records "a,\"b\"\"c\nd\"\r\n\ne,".toList =
    [some [['a'], ['b', '"', 'c', '\n', 'd']], some [], some [['e'], []]] := by
  decide

example : dictRows "a,b,a\n1,2,3\n\n4\n".toList =
    [some [(['a'], some ['1']), (['b'], some ['2']), (['a'], some ['3'])],
      some [(['a'], some ['4']), (['b'], none), (['a'], none)]] := by
  decide

end Csv
end Text
end RocmTests

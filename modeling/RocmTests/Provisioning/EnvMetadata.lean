import Mathlib.Data.List.DropRight
import RocmTests.Shell.DoubleQuote
import RocmTests.Shell.Run
import RocmTests.Text.JsonOrder
import RocmTests.Text.PyLiteral

/-!
# The metadata of an environment

`_write_remote_json` writes a dict to a file of the node and `_read_remote_json` reads it,
both by a command.  The dict goes through JSON and through double quotes of the shell; the
path of the file goes through double quotes, and on the way back through a literal in a
program for `python3` as well.

Of the node there is what the two commands need: the programs they name, the directories and the
files.  Which paths it grants at all is a parameter, and so is what `mkdir` answers to an option in
the place of the directory.
-/

namespace RocmTests
namespace Provisioning
namespace EnvMetadata

open Shell Text Json

/-! ## The commands -/

/-- `value.replace(c, by)` of a single character. -/
def replaceChar (c : Char) (by' : Txt) (value : Txt) : Txt :=
  value.flatMap fun d => if d = c then by' else [d]

/-- `_dq`. -/
def dq (value : Txt) : Txt :=
  let escaped := replaceChar (Char.ofNat 96) ['\\', Char.ofNat 96]
    (replaceChar '$' ['\\', '$']
      (replaceChar '"' ['\\', '"'] (replaceChar '\\' ['\\', '\\'] value)))
  '"' :: escaped ++ ['"']

/-- `_py`. -/
def py (value : Txt) : Txt := jsonString value

/-- `_py_cmd`. -/
def pyCmd (python code : Txt) : Txt := dq python ++ " -c ".toList ++ dq code

/-- `os.path.dirname`. -/
def dirname (path : Txt) : Txt :=
  let head := path.rdropWhile (· ≠ '/')
  if head.all (· = '/') then head else head.rdropWhile (· = '/')

/-- `os.path.basename`. -/
def basename (path : Txt) : Txt := path.rtakeWhile (· ≠ '/')

def openPrefix : Txt := "import json; print(json.dumps(json.load(open(".toList

def openSuffix : Txt := "))))".toList

def readCode (path : Txt) : Txt := openPrefix ++ py path ++ openSuffix

/-- The command of `_read_remote_json`. -/
def readCommand (path : Txt) : Txt :=
  "test -f ".toList ++ dq path ++ " && ".toList ++ pyCmd "python3".toList (readCode path) ++
    " || true".toList

/-- The command of `_write_remote_json`. -/
def writeCommand (path payload : Txt) : Txt :=
  "mkdir -p ".toList ++ dq (dirname path) ++ " && printf %s ".toList ++ dq payload ++
    " > ".toList ++
    dq path

/-- `_json_from_stdout`; `none` where a line has a surrogate on its own. -/
def jsonFromStdout (limit : Nat) (stdout : Txt) : Option (Except LoadError JsonValue) :=
  let rec scan : List Txt → Option (Except LoadError JsonValue)
    | [] => some (.ok (.obj []))
    | line :: lines =>
      let line := Markers.strip line
      if line.head? ≠ some '{' then scan lines
      else match loads limit line with
        | some (.error .jsonDecodeError) => scan lines
        | loaded => loaded
  scan (splitlines stdout).reverse

/-! ## The node -/

/-- A path that can be the name of a file. -/
def NamesFile (path : Txt) : Prop := basename path ∉ [[], ['.'], ['.', '.']]

instance (path : Txt) : Decidable (NamesFile path) := by
  unfold NamesFile
  infer_instance

/-- An argument that `mkdir` does not take for a directory. -/
def IsOption (arg : Txt) : Prop := isOption arg = true ∧ arg ≠ ['-']

instance (arg : Txt) : Decidable (IsOption arg) := by
  unfold IsOption
  infer_instance

/-- An interpreter: which numbers are floats, the texts that `repr` gives them, and how deep
containers may be nested. -/
structure Interpreter where
  Float : ℚ → Prop
  repr : ℚ → Txt
  text : ∀ q, Float q → FloatText (repr q) q
  limit : Nat

/-- The node.  The same interpreter reads and prints on it and in the provisioner. -/
structure Host where
  python : Interpreter
  grants : Txt → Bool
  optionStatus : Txt → Nat
  /-- What else could be run: the status and the output. -/
  other : List Txt → Nat × Txt

structure Disk where
  dirs : Txt → Bool
  files : Txt → Option Txt

/-- What one command leaves. -/
structure Result where
  status : Nat
  stdout : Txt
  disk : Disk

namespace Disk

def file (d : Disk) (path : Txt) : Option Txt := if NamesFile path then d.files path else none

end Disk

namespace Host

variable (h : Host)

/-- `mkdir -p dir`. -/
def mkdir (dir : Txt) (d : Disk) : Result :=
  if dir = [] then ⟨1, [], d⟩
  else if IsOption dir then ⟨h.optionStatus dir, [], d⟩
  else if h.grants dir then ⟨0, [], { d with dirs := Function.update d.dirs dir true }⟩
  else ⟨1, [], d⟩

/-- `printf %s text > path`: the file is opened first, in a directory that is there. -/
def printf (text path : Txt) (d : Disk) : Result :=
  if NamesFile path ∧ (dirname path = [] ∨ d.dirs (dirname path) = true) ∧ h.grants path = true then
    ⟨0, [], { d with files := Function.update d.files path (some text) }⟩
  else ⟨1, [], d⟩

def test (path : Txt) (d : Disk) : Result := ⟨if (d.file path).isSome then 0 else 1, [], d⟩

/-- The path of a program that is `readCode` of it. -/
def programPath (code : Txt) : Option Txt :=
  if openPrefix ++ ['"'] <+: code then
    match Py.literal (code.drop (openPrefix.length + 1)) with
    | some (path, rest) => if rest = openSuffix then some path else none
    | none => none
  else none

/-- `python3 -c code`: a program that fails prints nothing. -/
def runPython (code : Txt) (d : Disk) : Result :=
  match programPath code with
  | none => ⟨(h.other ["python3".toList, "-c".toList, code]).1,
      (h.other ["python3".toList, "-c".toList, code]).2, d⟩
  | some path =>
    match (d.file path).map (loads h.python.limit) with
    | some (some (.ok v)) =>
      match v.dumps h.python.repr h.python.limit with
      | .ok t => ⟨0, t ++ ['\n'], d⟩
      | .error _ => ⟨1, [], d⟩
    | some none => ⟨(h.other ["python3".toList, "-c".toList, code]).1,
        (h.other ["python3".toList, "-c".toList, code]).2, d⟩
    | _ => ⟨1, [], d⟩

/-- One command of a list.  No word of the commands here is expanded. -/
def exec (c : Simple) (d : Disk) : Result :=
  let argv := c.words.map Word.text
  let output := (h.other argv).2
  match c.redirections, argv with
  | [], [name, flag, arg] =>
    if name = "mkdir".toList ∧ flag = "-p".toList then h.mkdir arg d
    else if name = "test".toList ∧ flag = "-f".toList then test arg d
    else if name = "python3".toList ∧ flag = "-c".toList then h.runPython arg d
    else ⟨(h.other argv).1, output, d⟩
  | [], [name] =>
    if name = "true".toList then ⟨0, [], d⟩ else ⟨(h.other argv).1, output, d⟩
  | [⟨none, .output, target⟩], [name, format, text] =>
    if name = "printf".toList ∧ format = "%s".toList then h.printf text target.text d
    else ⟨(h.other argv).1, output, d⟩
  | _, _ => ⟨(h.other argv).1, output, d⟩

/-- The commands of a list, of which each follows a status; all their output. -/
def runScript : Script → Nat → Disk → Result
  | [], status, d => ⟨status, [], d⟩
  | (o, c) :: rest, status, d =>
    if Shell.Machine.runsAfter o status true then
      let r := exec h c d
      let r' := runScript rest r.status r.disk
      ⟨r'.status, r.stdout ++ r'.stdout, r'.disk⟩
    else runScript rest status d

/-- A command as the runner gives it to a shell. -/
def run (command : Txt) (d : Disk) : Result :=
  match Shell.read posix.reserved command with
  | .read l => h.runScript l 0 d
  | _ => ⟨2, [], d⟩

/-! ## Reading and writing -/

/-- `_read_remote_json`. -/
def readRemoteJson (path : Txt) (d : Disk) : Option (Except LoadError JsonValue) :=
  jsonFromStdout h.python.limit (h.run (readCommand path) d).stdout

/-- `_write_remote_json`, which looks at no status. -/
def writeRemoteJson (path : Txt) (data : JsonValue) (d : Disk) : Except LoadError Disk :=
  (data.sorted.dumps h.python.repr h.python.limit).map fun payload =>
    (h.run (writeCommand path payload) d).disk

/-- What is read after the data were written. -/
def roundTrip (path : Txt) (data : JsonValue) (d : Disk) : Option (Except LoadError JsonValue) :=
  match h.writeRemoteJson path data d with
  | .ok d => h.readRemoteJson path d
  | .error e => some (.error e)

end Host

/-! ## What the shell reads -/

theorem dq_eq (s : Txt) : dq s = doubleQuoted s := by
  have hchar : ∀ c : Char, replaceChar (Char.ofNat 96) ['\\', Char.ofNat 96]
      (replaceChar '$' ['\\', '$'] (replaceChar '"' ['\\', '"']
        (replaceChar '\\' ['\\', '\\'] [c]))) = doubleChar c := by
    intro c
    by_cases hc : c ∈ doubleSpecial
    · simp only [doubleSpecial, List.mem_cons, List.not_mem_nil, or_false] at hc
      rcases hc with rfl | rfl | rfl | rfl <;> rfl
    · rw [doubleChar, if_neg hc]
      simp only [doubleSpecial, List.mem_cons, List.not_mem_nil, or_false, not_or] at hc
      simp only [replaceChar, List.flatMap_cons, List.flatMap_nil, List.append_nil, hc, if_false]
  have hall : replaceChar (Char.ofNat 96) ['\\', Char.ofNat 96]
      (replaceChar '$' ['\\', '$'] (replaceChar '"' ['\\', '"']
        (replaceChar '\\' ['\\', '\\'] s))) = s.flatMap doubleChar := by
    unfold replaceChar at hchar ⊢
    simp only [List.flatMap_assoc]
    refine List.flatMap_congr fun c _ => ?_
    rw [← hchar c]
    simp only [List.flatMap_assoc, List.flatMap_cons, List.flatMap_nil, List.append_nil]
  unfold dq doubleQuoted
  dsimp only
  rw [hall]

/-- Unquoting gives the text back. -/
theorem reads_dq (s : Txt) : Reads (dq s) (.of .quoted s) := by
  rw [dq_eq]
  exact reads_doubleQuoted s

theorem tokens_write (path payload : Txt) :
    tokens (writeCommand path payload) =
      .read [.word (.of .bare "mkdir".toList), .word (.of .bare "-p".toList),
        .word (.of .quoted (dirname path)), .op .andThen, .word (.of .bare "printf".toList),
        .word (.of .bare "%s".toList), .word (.of .quoted payload), .redirect none .output,
        .word (.of .quoted path)] := by
  have hmkdir : "mkdir -p ".toList.foldl Lexer.step Lexer.start =
      ⟨[.word (.of .bare "mkdir".toList), .word (.of .bare "-p".toList)], none, .plain⟩ := rfl
  have hprintf (ts : List Token) (w : Word) :
      " && printf %s ".toList.foldl Lexer.step ⟨ts, some w, .plain⟩ =
        ⟨ts ++ [.word w] ++ [.op .andThen] ++ [.word (.of .bare "printf".toList)] ++
          [.word (.of .bare "%s".toList)], none, .plain⟩ := rfl
  have hinto (ts : List Token) (w : Word) : " > ".toList.foldl Lexer.step ⟨ts, some w, .plain⟩ =
      ⟨ts ++ [.word w] ++ [.redirect none .output], none, .plain⟩ := rfl
  have hall := Lexer.foldl_append_of (Lexer.foldl_append_of (Lexer.foldl_append_of
    (Lexer.foldl_append_of (Lexer.foldl_append_of hmkdir (reads_dq (dirname path) _ _))
      (hprintf _ _))
    (reads_dq payload _ _)) (hinto _ _)) (reads_dq path _ _)
  exact congrArg Lexer.finish hall

/-- A command, `&&`, and a command whose output goes to a file. -/
theorem script_write {reserved : Txt → Bool} {a b c d e f g : Word}
    (ha : (a.unquoted && reserved a.text) = false) (hd : (d.unquoted && reserved d.text) = false) :
    script reserved [.word a, .word b, .word c, .op .andThen, .word d, .word e, .word f,
        .redirect none .output, .word g] =
      .read [(.newline, ⟨[a, b, c], []⟩), (.andThen, ⟨[d, e, f], [⟨none, .output, g⟩]⟩)] := by
  simp only [script, chunks, opensCompound, ha, hd, List.any_cons, List.any_nil, Bool.or_false,
    Bool.false_eq_true, if_false]
  rfl

theorem read_write (path payload : Txt) :
    Shell.read posix.reserved (writeCommand path payload) =
      .read [(.newline, ⟨[.of .bare "mkdir".toList, .of .bare "-p".toList,
          .of .quoted (dirname path)], []⟩),
        (.andThen, ⟨[.of .bare "printf".toList, .of .bare "%s".toList, .of .quoted payload],
          [⟨none, .output, .of .quoted path⟩]⟩)] := by
  rw [Shell.read, tokens_write, Reading.bind_read]
  exact script_write (by decide) (by decide)

theorem tokens_read (path : Txt) :
    tokens (readCommand path) =
      .read [.word (.of .bare "test".toList), .word (.of .bare "-f".toList),
        .word (.of .quoted path),
        .op .andThen, .word (.of .quoted "python3".toList), .word (.of .bare "-c".toList),
        .word (.of .quoted (readCode path)), .op .orElse, .word (.of .bare "true".toList)] := by
  have htest : "test -f ".toList.foldl Lexer.step Lexer.start =
      ⟨[.word (.of .bare "test".toList), .word (.of .bare "-f".toList)], none, .plain⟩ := rfl
  have hand (ts : List Token) (w : Word) : " && ".toList.foldl Lexer.step ⟨ts, some w, .plain⟩ =
      ⟨ts ++ [.word w] ++ [.op .andThen], none, .plain⟩ := rfl
  have hflag (ts : List Token) (w : Word) : " -c ".toList.foldl Lexer.step ⟨ts, some w, .plain⟩ =
      ⟨ts ++ [.word w] ++ [.word (.of .bare "-c".toList)], none, .plain⟩ := rfl
  have htrue (ts : List Token) (w : Word) :
      " || true".toList.foldl Lexer.step ⟨ts, some w, .plain⟩ =
        ⟨ts ++ [.word w] ++ [.op .orElse], some (.of .bare "true".toList), .plain⟩ := rfl
  have hpython (ts : List Token) :
      (pyCmd "python3".toList (readCode path)).foldl Lexer.step ⟨ts, none, .plain⟩ =
        ⟨ts ++ [.word (.of .quoted "python3".toList)] ++ [.word (.of .bare "-c".toList)],
          some (.of .quoted (readCode path)), .plain⟩ :=
    Lexer.foldl_append_of (Lexer.foldl_append_of (reads_dq "python3".toList _ _) (hflag _ _))
      (reads_dq (readCode path) _ _)
  have hall := Lexer.foldl_append_of (Lexer.foldl_append_of (Lexer.foldl_append_of
    (Lexer.foldl_append_of htest (reads_dq path _ _)) (hand _ _)) (hpython _)) (htrue _ _)
  exact congrArg Lexer.finish hall

/-- A command, `&&`, another, `||`, and one without arguments. -/
theorem script_read {reserved : Txt → Bool} {a b c d e f g : Word}
    (ha : (a.unquoted && reserved a.text) = false) (hd : (d.unquoted && reserved d.text) = false)
    (hg : (g.unquoted && reserved g.text) = false) :
    script reserved [.word a, .word b, .word c, .op .andThen, .word d, .word e, .word f,
        .op .orElse, .word g] =
      .read [(.newline, ⟨[a, b, c], []⟩), (.andThen, ⟨[d, e, f], []⟩), (.orElse, ⟨[g], []⟩)] := by
  simp only [script, chunks, opensCompound, ha, hd, hg, List.any_cons, List.any_nil, Bool.or_false,
    Bool.false_eq_true, if_false]
  rfl

theorem read_read (path : Txt) :
    Shell.read posix.reserved (readCommand path) =
      .read [(.newline, ⟨[.of .bare "test".toList, .of .bare "-f".toList, .of .quoted path], []⟩),
        (.andThen, ⟨[.of .quoted "python3".toList, .of .bare "-c".toList,
          .of .quoted (readCode path)], []⟩),
        (.orElse, ⟨[.of .bare "true".toList], []⟩)] := by
  rw [Shell.read, tokens_read, Reading.bind_read]
  exact script_read (by decide) (by decide) (by decide)

/-! ## What the commands do -/

namespace Host

variable {h : Host} {d : Disk} {path : Txt}

theorem exec_mkdir (dir : Txt) :
    h.exec ⟨[.of .bare "mkdir".toList, .of .bare "-p".toList, .of .quoted dir], []⟩ d =
      h.mkdir dir d := by
  unfold exec
  simp only [List.map_cons, List.map_nil, Word.text_of]
  exact if_pos ⟨trivial, trivial⟩

theorem exec_printf (text : Txt) :
    h.exec ⟨[.of .bare "printf".toList, .of .bare "%s".toList, .of .quoted text],
      [⟨none, .output, .of .quoted path⟩]⟩ d = h.printf text path d := by
  unfold exec
  simp only [List.map_cons, List.map_nil, Word.text_of]
  exact if_pos ⟨trivial, trivial⟩

theorem exec_test :
    h.exec ⟨[.of .bare "test".toList, .of .bare "-f".toList, .of .quoted path], []⟩ d =
      test path d := by
  unfold exec
  simp only [List.map_cons, List.map_nil, Word.text_of]
  rw [if_neg (by decide)]
  exact if_pos ⟨trivial, trivial⟩

theorem exec_python (code : Txt) :
    h.exec ⟨[.of .quoted "python3".toList, .of .bare "-c".toList, .of .quoted code], []⟩ d =
      h.runPython code d := by
  unfold exec
  simp only [List.map_cons, List.map_nil, Word.text_of]
  rw [if_neg (by decide), if_neg (by decide)]
  exact if_pos ⟨trivial, trivial⟩

theorem exec_true : h.exec ⟨[.of .bare "true".toList], []⟩ d = ⟨0, [], d⟩ := by
  unfold exec
  simp only [List.map_cons, List.map_nil, Word.text_of]
  exact if_pos trivial

/-- The file is written where the directory was made. -/
theorem disk_write (path payload : Txt) :
    (h.run (writeCommand path payload) d).disk =
      if (h.mkdir (dirname path) d).status = 0 then
        (h.printf payload path (h.mkdir (dirname path) d).disk).disk
      else (h.mkdir (dirname path) d).disk := by
  unfold run
  rw [read_write]
  simp only [runScript, Shell.Machine.runsAfter, if_true, exec_mkdir, exec_printf,
    decide_eq_true_eq]
  split_ifs <;> rfl

/-- The program runs where there is a file. -/
theorem stdout_read (path : Txt) :
    (h.run (readCommand path) d).stdout =
      if (d.file path).isSome then (h.runPython (readCode path) d).stdout else [] := by
  unfold run
  rw [read_read]
  simp only [runScript, Shell.Machine.runsAfter, if_true, exec_test, exec_python, exec_true, test,
    decide_eq_true_eq]
  by_cases hfile : (d.file path).isSome = true
  · simp only [hfile, if_true]
    split_ifs <;> simp
  · simp [hfile]

theorem programPath_readCode (hpath : ∀ c ∈ path, c.toNat < 128) :
    programPath (readCode path) = some path := by
  have hcode : readCode path = openPrefix ++ ['"'] ++
      (path.flatMap jsonChar ++ '"' :: openSuffix) := by
    simp only [readCode, py, jsonString, List.append_assoc, List.cons_append, List.nil_append]
  have hlength : openPrefix.length + 1 = (openPrefix ++ ['"']).length := by
    rw [List.length_append, List.length_singleton]
  unfold programPath
  rw [hcode, if_pos (List.prefix_append _ _), hlength, List.drop_left, Py.literal_jsonString hpath]
  exact if_pos rfl

/-- Where there is no file nothing is printed. -/
theorem readRemoteJson_of_none (hfile : d.file path = none) :
    h.readRemoteJson path d = some (.ok (.obj [])) := by
  unfold readRemoteJson
  rw [stdout_read, hfile]
  rfl

theorem jsonFromStdout_line {limit : Nat} {t : Txt} {v : JsonValue} (hvisible : Visible t)
    (hfirst : t.head? = some '{') (hlast : t.getLast? = some '}')
    (hload : loads limit t = some (.ok v)) :
    jsonFromStdout limit (t ++ ['\n']) = some (.ok v) := by
  have hline : IsLine t := by
    intro c hc
    have hrange := hvisible c hc
    simp only [isBoundary, List.mem_cons, List.not_mem_nil, or_false, decide_eq_false_iff_not]
    omega
  have hlines : splitlines (t ++ ['\n']) = [t] := by
    have hline' : ∀ l ∈ [t], IsLine l := fun l hl => List.mem_singleton.mp hl ▸ hline
    have hsplit := splitlines_unlines hline'
    rwa [unlines, List.flatMap_singleton] at hsplit
  have hstrip : Markers.strip t = t := strip_of_ends hfirst (by decide) hlast (by decide)
  unfold jsonFromStdout
  rw [hlines, List.reverse_singleton, jsonFromStdout.scan, hstrip, hfirst, hload]
  rfl

/-- What the file holds is read, where it is the text of a dict. -/
theorem readRemoteJson_of_file {items : List (Txt × JsonValue)} (hpath : ∀ c ∈ path, c.toNat < 128)
    (hfile : d.file path = some (jsonText h.python.repr (.obj items)))
    (hfine : (JsonValue.obj items).Every (Printable h.python.repr))
    (hdepth : (JsonValue.obj items).depth ≤ h.python.limit)
    (hdigits : (JsonValue.obj items).digits ≤ intMaxStrDigits) :
    h.readRemoteJson path d = some (.ok (.obj items)) := by
  have hload := loads_jsonText hfine hdepth
  have hdumps : (JsonValue.obj items).dumps h.python.repr h.python.limit =
      .ok (jsonText h.python.repr (.obj items)) := by
    unfold JsonValue.dumps
    rw [if_neg (by omega), if_neg (by omega)]
  have hpython : (h.runPython (readCode path) d).stdout = jsonText h.python.repr (.obj items) ++
      ['\n'] := by
    unfold runPython
    rw [programPath_readCode hpath]
    dsimp only
    rw [hfile, Option.map_some, hload]
    dsimp only
    rw [hdumps]
  have hlast : (jsonText h.python.repr (.obj items)).getLast? = some '}' := by
    rw [jsonText, List.getLast?_append]
    rfl
  unfold readRemoteJson
  rw [stdout_read, hfile, Option.isSome_some, if_pos rfl, hpython]
  exact jsonFromStdout_line (visible_jsonText _ hfine) rfl hlast hload

end Host

end EnvMetadata
end Provisioning
end RocmTests

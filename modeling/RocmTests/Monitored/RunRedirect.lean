import RocmTests.Shell.Quote
import RocmTests.Shell.Run
import RocmTests.Text.JsonValue

/-!
# Commands with a redirected output

`run_command_redirect` writes a shell text for an argument list, with `cd`, `env`, the
redirection and `timeout` around it as they are asked for, and hands it to
`run_command`.  With an executor a shell reads the text.  Without one the text is split
by `shlex` and its first word is run as a program.

The commands that make the directories on a remote node and fetch the file from it are
run by themselves, before and after, and are left out.
-/

namespace RocmTests
namespace Monitored
namespace RunRedirect

open Text Shell

/-! ## The text -/

/-- `cmd`, a text or an argument list. -/
inductive CommandLine where
  | line (text : Txt)
  | args (argv : List Txt)

def joinBlanks (ts : List Txt) : Txt := [' '].intercalate ts

def formatShellCommand (cmd : CommandLine) (env : List (Txt × Txt)) (cwd : Option Txt)
    (redirectStdout : Option Txt) : Txt :=
  let cd := match cwd with
    | some d => ["cd ".toList ++ quote d ++ " &&".toList]
    | none => []
  let vars := if env = [] then []
    else ["env ".toList ++ joinBlanks (env.map fun p => p.1 ++ '=' :: quote p.2)]
  let words := match cmd with
    | .line text => text
    | .args argv => joinBlanks (argv.map quote)
  let cmdStr := joinBlanks (cd ++ vars ++ [words])
  match redirectStdout with
  | some file => cmdStr ++ " > ".toList ++ quote file ++ " 2>&1".toList
  | none => cmdStr

/-! ## The run -/

/-- An executor, and where a remote one keeps the files of its node. -/
structure Executor where
  remote : Bool
  workspacePathFor : Txt → Txt

def nodePathFor (executor : Option Executor) (path : Txt) : Txt :=
  match executor with
  | some e => if e.remote then e.workspacePathFor path else path
  | none => path

/-- How long a command runs before it ends or is ended. -/
def took (W : World) (e : Executed) : ℚ :=
  match e.limit with
  | some n => min n (W.lasts e.command)
  | none => W.lasts e.command

def exceeded (timeout : Option ℚ) (duration : ℚ) : Bool :=
  timeout.any fun t => decide (t < duration)

/-- `subprocess.run` with captured output, or what it raises instead of running. -/
def subprocessRun (M : Machine) (W : World) (s : State) (argv : List Txt) (env : Env)
    (timeout : Option ℚ) (cwd : Option Txt) : Option (List Executed × Nat) :=
  if argv = [] then none
  else
    let l := resolve argv
    let fds := Function.update (Function.update Dest.inherited 1 .pipe) 2 .pipe
    (match cwd with
      | some d => M.enter s.dir d
      | none => some s.dir).map fun dir =>
        let c : Command := ⟨false, l.argv, [], env.apply l.changes, dir, fds⟩
        let e : Executed := ⟨c, l.limit, W.exit l.limit c⟩
        ([e], if exceeded timeout (took W e) then 124 else e.status)

/-- The commands that are executed, and the exit code.  The shell of the executor and
the process itself start in the state `s`. -/
def runCommand (M : Machine) (W : World) (s : State) (executor : Option Executor)
    (cmd : CommandLine) (timeout : Option ℚ) (env : List (Txt × Txt)) (cwd : Option Txt) :
    Option (List Executed × Nat) :=
  let cmdStr := formatShellCommand cmd env cwd none
  match executor with
  | some _ =>
    let out := M.run W s cmdStr
    some (out.ran,
      if exceeded timeout (out.ran.map (took W)).sum then 124 else out.status)
  | none =>
    let merged := s.env.apply (env.map fun p => (p.1, some p.2))
    match cmd with
    | .args argv => subprocessRun M W s argv merged timeout cwd
    | .line _ => (split cmdStr).bind fun argv => subprocessRun M W s argv merged timeout cwd

def runCommandRedirect (M : Machine) (W : World) (s : State) (executor : Option Executor)
    (cmd : CommandLine) (stdoutFile : Txt) (timeout : Option ℚ) (env : List (Txt × Txt))
    (cwd : Option Txt) : Option (List Executed × Nat) :=
  let target := nodePathFor executor stdoutFile
  let cwd := cwd.map (nodePathFor executor)
  let redirect := formatShellCommand cmd env cwd (some target)
  let timeout := timeout.filter fun t => decide (t ≠ 0)
  let wrapped := match timeout with
    | some t => "timeout ".toList ++ showInt (truncate t) ++ ' ' :: redirect
    | none => redirect
  let wallTimeout := timeout.map (· + 5)
  runCommand M W s executor (.line wrapped) wallTimeout [] none

/-! ## The claim about a call -/

/-- A variable map, whose keys are names. -/
structure EnvMap where
  entries : List (Txt × Txt)
  names : ∀ p ∈ entries, isName p.1 = true

/-- The changes that the map asks for. -/
def EnvMap.changes (env : EnvMap) : List Change := env.entries.map fun p => (p.1, some p.2)

/-- The executed command `e` is the one that was asked for, in `dir`. -/
structure IsGiven (M : Machine) (W : World) (s : State) (executor : Option Executor)
    (argv : List Txt) (stdoutFile : Txt) (timeout : Option {t : ℚ // 0 < t}) (env : EnvMap)
    (dir : Txt) (e : Executed) (code : Nat) : Prop where
  nonempty : argv ≠ []
  arguments : e.command.argv = (resolve argv).argv
  environment : e.command.env = (s.env.apply env.changes).apply (resolve argv).changes
  directory : e.command.dir = dir
  stdout : e.command.fds 1 = .file (M.locate s.dir (nodePathFor executor stdoutFile)) false
  stderr : e.command.fds 2 = .file (M.locate s.dir (nodePathFor executor stdoutFile)) false
  exitCode : code = match timeout with
    | some t => if (t : ℚ) < W.lasts e.command then 124 else W.exit (resolve argv).limit e.command
    | none => e.status

/-- What is executed is the given command, after the shell has entered the directory. -/
def RunsGiven (M : Machine) (W : World) (s : State) (executor : Option Executor)
    (argv : List Txt) (stdoutFile : Txt) (timeout : Option {t : ℚ // 0 < t}) (env : EnvMap)
    (cwd : Option Txt) : Prop :=
  ∃ ran code e, runCommandRedirect M W s executor (.args argv) stdoutFile
      (timeout.map Subtype.val) env.entries cwd = some (ran, code) ∧
    match cwd with
    | none => ran = [e] ∧
        IsGiven M W s executor argv stdoutFile timeout env s.dir e code
    | some d => ∃ dir entered, M.enter s.dir (nodePathFor executor d) = some dir ∧
        ran = [entered, e] ∧ entered.command.builtin = true ∧
        entered.command.argv = [cdName, nodePathFor executor d] ∧
        IsGiven M W s executor argv stdoutFile timeout env dir e code

/-- The options go together. -/
structure Fits (M : Machine) (s : State) (executor : Option Executor) (argv : List Txt)
    (stdoutFile : Txt) (timeout : Option {t : ℚ // 0 < t}) (env : EnvMap) (cwd : Option Txt) :
    Prop where
  shell : executor.isSome = true
  nonempty : argv ≠ []
  /-- The limit is a whole number of seconds, or the command has a tighter one. -/
  whole : ∀ t, timeout = some t → (∃ n : Nat, (t : ℚ) = n) ∨
    ∃ n : Nat, (resolve argv).limit = some n ∧ (n : ℚ) ≤ t
  /-- A directory excludes a limit, and leads the output to the same file. -/
  place : ∀ d, cwd = some d → timeout = none ∧ isOption (nodePathFor executor d) = false ∧
    ∃ dir, M.enter s.dir (nodePathFor executor d) = some dir ∧
      M.locate dir (nodePathFor executor stdoutFile) =
        M.locate s.dir (nodePathFor executor stdoutFile)
  /-- `env` does not take the name for an assignment. -/
  command : env.entries ≠ [] → ∀ name ∈ argv.head?, '=' ∉ name
  /-- Where nothing stands before the name, the shell takes it for a command. -/
  word : env.entries = [] → timeout = none → ∀ name ∈ argv.head?,
    isAssignment (quotedWord name) = false ∧
      ((quotedWord name).unquoted && M.reserved name) = false

/-! ## Reading the text back -/

theorem joinBlanks_cons (t : Txt) {ts : List Txt} (h : ts ≠ []) :
    joinBlanks (t :: ts) = t ++ ' ' :: joinBlanks ts := by
  rw [joinBlanks, List.intercalate_cons_of_ne_nil h]
  simp [joinBlanks]

theorem joinBlanks_append {ts : List Txt} (h : ts ≠ []) :
    joinBlanks ts ++ [' '] = ts.flatMap fun t => t ++ [' '] := by
  induction ts with
  | nil => exact absurd rfl h
  | cons t ts ih =>
    cases ts with
    | nil => simp [joinBlanks]
    | cons u ts =>
      rw [joinBlanks_cons t (List.cons_ne_nil u ts), List.append_assoc, List.cons_append,
        ih (List.cons_ne_nil u ts)]
      simp

/-- A text and the word that the shell reads where it stands. -/
abbrev Piece := Txt × Word

def barePiece (t : Txt) : Piece := (t, .of .bare t)

def quotedPiece (t : Txt) : Piece := (quote t, quotedWord t)

def variablePiece (p : Txt × Txt) : Piece :=
  (p.1 ++ '=' :: quote p.2, .of .bare (p.1 ++ ['=']) ++ quotedWord p.2)

def written (ps : List Piece) : Txt := ps.flatMap fun p => p.1 ++ [' ']

def words (ps : List Piece) : List Word := ps.map Prod.snd

def limitPieces (limit : Option Nat) : List Piece :=
  match limit with
  | some n => [barePiece timeoutName, barePiece (showNat n)]
  | none => []

def variablePieces (env : EnvMap) : List Piece :=
  if env.entries = [] then [] else barePiece envName :: env.entries.map variablePiece

def enterPieces (d : Txt) : List Piece := [barePiece cdName, quotedPiece d]

def commandPieces (env : EnvMap) (argv : List Txt) : List Piece :=
  variablePieces env ++ argv.map quotedPiece

/-- The end of the text. -/
def redirection (target : Txt) : Txt := "> ".toList ++ quote target ++ " 2>&1".toList

theorem written_append (ps ps' : List Piece) : written (ps ++ ps') = written ps ++ written ps' :=
  List.flatMap_append

theorem words_append (ps ps' : List Piece) : words (ps ++ ps') = words ps ++ words ps' :=
  List.map_append

theorem formatShellCommand_eq {env : EnvMap} {argv : List Txt} (hne : argv ≠ [])
    (cwd : Option Txt) (target : Txt) :
    formatShellCommand (.args argv) env.entries cwd (some target) =
      (match cwd with
        | some d => written (enterPieces d) ++ "&& ".toList
        | none => []) ++ written (commandPieces env argv) ++ redirection target := by
  have hwords : joinBlanks (argv.map quote) ++ [' '] = written (argv.map quotedPiece) := by
    rw [joinBlanks_append (by simpa using hne), written, List.flatMap_map, List.flatMap_map]
    rfl
  have hvars (h : env.entries ≠ []) : "env ".toList ++
      joinBlanks (env.entries.map fun p => p.1 ++ '=' :: quote p.2) ++ [' '] =
        written (variablePieces env) := by
    rw [List.append_assoc, joinBlanks_append (by simpa using h), variablePieces, if_neg h, written,
      List.flatMap_cons, List.flatMap_map, List.flatMap_map]
    rfl
  have hcd (d : Txt) : "cd ".toList ++ quote d ++ " &&".toList ++ [' '] =
      written (enterPieces d) ++ "&& ".toList := by
    simp [written, enterPieces, barePiece, quotedPiece, cdName]
  have hend (t : Txt) : t ++ " > ".toList ++ quote target ++ " 2>&1".toList =
      t ++ [' '] ++ redirection target := by
    simp [redirection]
  unfold formatShellCommand commandPieces
  dsimp only
  rw [hend, joinBlanks_append (by simp), List.flatMap_append, List.flatMap_append,
    List.flatMap_singleton, hwords, written_append]
  by_cases henv : env.entries = []
  · cases cwd with
    | none => simp [henv, variablePieces, written]
    | some d =>
      simp only [henv, if_true, List.flatMap_singleton, hcd]
      simp [henv, variablePieces, written]
  · simp only [if_neg henv, List.flatMap_singleton, hvars henv]
    cases cwd with
    | none => simp
    | some d =>
      simp only [List.flatMap_singleton, hcd]
      simp

theorem reads_barePiece {t : Txt} (hne : t ≠ [])
    (h : t.all (fun c => decide (c ∉ special)) = true) :
    Reads (barePiece t).1 (barePiece t).2 := reads_bare hne (forall_of_all h)

theorem not_special_of_isName {k : Txt} (h : isName k = true) : ∀ c ∈ k, c ∉ special := by
  intro c hc
  rw [isName, Bool.and_eq_true] at h
  have hname := List.all_eq_true.mp h.2 c hc
  refine not_mem_special_of_isSafe ?_
  rw [isNameChar, Bool.or_eq_true, decide_eq_true_eq] at hname
  rcases hname with hname | rfl
  · rw [isSafe, hname, Bool.true_or]
  · rfl

theorem reads_variablePiece {p : Txt × Txt} (h : isName p.1 = true) :
    Reads (variablePiece p).1 (variablePiece p).2 := by
  have hassign : variablePiece p = (p.1 ++ ['='] ++ quote p.2, _) :=
    Prod.ext (by simp [variablePiece]) rfl
  rw [hassign]
  refine (reads_bare (by simp) fun c hc => ?_).append (reads_quote p.2)
  rcases List.mem_append.mp hc with hc | hc
  · exact not_special_of_isName h c hc
  · rw [List.mem_singleton.mp hc]
    decide

theorem reads_limitPieces (limit : Option Nat) : ∀ p ∈ limitPieces limit, Reads p.1 p.2 := by
  cases limit with
  | none =>
    intro p hp
    cases hp
  | some n =>
    intro p hp
    rcases List.mem_pair.mp hp with rfl | rfl
    · exact reads_barePiece (by decide) (by decide)
    · refine reads_bare (showNat_ne_nil n) fun c hc => not_mem_special_of_isSafe ?_
      have hdigit := isDigit_of_mem_showNat hc
      rw [isSafe, Char.isAlphanum, hdigit, Bool.or_true, Bool.true_or]

theorem reads_enterPieces (d : Txt) : ∀ p ∈ enterPieces d, Reads p.1 p.2 := by
  intro p hp
  rcases List.mem_pair.mp hp with rfl | rfl
  · exact reads_barePiece (by decide) (by decide)
  · exact reads_quote d

theorem reads_commandPieces (env : EnvMap) (argv : List Txt) :
    ∀ p ∈ commandPieces env argv, Reads p.1 p.2 := by
  intro p hp
  rw [commandPieces, variablePieces] at hp
  rcases List.mem_append.mp hp with hp | hp
  · split_ifs at hp
    · cases hp
    · rcases List.mem_cons.mp hp with rfl | hp
      · exact reads_barePiece (by decide) (by decide)
      · obtain ⟨q, hq, rfl⟩ := List.mem_map.mp hp
        exact reads_variablePiece (env.names q hq)
  · obtain ⟨a, -, rfl⟩ := List.mem_map.mp hp
    exact reads_quote a

/-- The tokens of the end of the text. -/
def redirectionTokens (target : Txt) : List Token :=
  [.redirect none .output, .word (quotedWord target), .redirect (some 2) .dup,
    .word (.of .bare ['1'])]

theorem foldl_written {ps : List Piece} (h : ∀ p ∈ ps, Reads p.1 p.2) (ts : List Token) :
    (written ps).foldl Lexer.step ⟨ts, none, .plain⟩ =
      ⟨ts ++ (words ps).map Token.word, none, .plain⟩ := by
  rw [written, foldl_words ps h, words, List.map_map]
  rfl

theorem finish_redirection (ts : List Token) (target : Txt) :
    ((redirection target).foldl Lexer.step ⟨ts, none, .plain⟩).finish =
      .read (ts ++ redirectionTokens target) := by
  have hopen : "> ".toList.foldl Lexer.step ⟨ts, none, .plain⟩ =
      ⟨ts ++ [Token.redirect none .output], none, .plain⟩ := rfl
  rw [redirection, List.foldl_append, List.foldl_append, hopen, reads_quote target]
  have hclose (ts : List Token) (w : Word) : (" 2>&1".toList.foldl Lexer.step
      ⟨ts, some w, .plain⟩).finish =
        .read (ts ++ [Token.word w] ++ [Token.redirect (some 2) .dup] ++
        [.word (.of .bare ['1'])]) := rfl
  rw [Option.getD_none, List.nil_append, hclose, redirectionTokens]
  simp

theorem tokens_command {ps : List Piece} (h : ∀ p ∈ ps, Reads p.1 p.2) (target : Txt) :
    tokens (written ps ++ redirection target) =
      .read ((words ps).map Token.word ++ redirectionTokens target) := by
  rw [tokens, List.foldl_append, Lexer.start, foldl_written h, finish_redirection]
  rfl

theorem tokens_enter {ps qs : List Piece} (h : ∀ p ∈ ps, Reads p.1 p.2)
    (h' : ∀ p ∈ qs, Reads p.1 p.2) (target : Txt) :
    tokens (written ps ++ "&& ".toList ++ written qs ++ redirection target) =
      .read ((words ps).map Token.word ++ Token.op .andThen ::
        ((words qs).map Token.word ++ redirectionTokens target)) := by
  have hand (ts : List Token) : "&& ".toList.foldl Lexer.step ⟨ts, none, .plain⟩ =
      ⟨ts ++ [Token.op .andThen], none, .plain⟩ := rfl
  rw [tokens, List.foldl_append, List.foldl_append, List.foldl_append, Lexer.start, foldl_written h,
    hand, foldl_written h', finish_redirection]
  simp

/-! ## The commands of the text -/

def redirections (target : Txt) : List Redirection :=
  [⟨none, .output, quotedWord target⟩, ⟨some 2, .dup, .of .bare ['1']⟩]

/-- The command that writes to the file. -/
def body (ps : List Piece) (target : Txt) : Simple := ⟨words ps, redirections target⟩

/-- The shell does not take the first word for a command. -/
def opens (reserved : Txt → Bool) (ps : List Piece) : Bool :=
  (words ps).head?.any fun w => w.unquoted && reserved w.text

theorem opensCompound_words {reserved : Txt → Bool} {ps : List Piece} (hne : ps ≠ [])
    (ts : List Token) :
    opensCompound reserved ((words ps).map Token.word ++ ts) = opens reserved ps := by
  obtain ⟨p, ps, rfl⟩ := List.exists_cons_of_ne_nil hne
  rfl

theorem map_word_ne_nil {ps : List Piece} (hne : ps ≠ []) (ts : List Token) :
    (words ps).map Token.word ++ ts ≠ [] := by
  obtain ⟨p, ps, rfl⟩ := List.exists_cons_of_ne_nil hne
  exact List.cons_ne_nil _ _

theorem simple_command (ps : List Piece) (target : Txt) :
    simple ((words ps).map Token.word ++ redirectionTokens target) = some (body ps target) := by
  have hend : simple (redirectionTokens target) = some ⟨[], redirections target⟩ := rfl
  rw [simple_append, hend, Option.map_some, Simple.behind, List.append_nil, body]

theorem chunks_command (ps : List Piece) (target : Txt) :
    chunks ((words ps).map Token.word ++ redirectionTokens target) =
      ((words ps).map Token.word ++ redirectionTokens target, []) := by
  have hend : chunks (redirectionTokens target) = (redirectionTokens target, []) := rfl
  rw [chunks_append, hend]

theorem read_command {reserved : Txt → Bool} {ps : List Piece} (hne : ps ≠ [])
    (h : ∀ p ∈ ps, Reads p.1 p.2) (target : Txt) :
    read reserved (written ps ++ redirection target) =
      if opens reserved ps then .beyond else .read [(.newline, body ps target)] := by
  rw [Shell.read, tokens_command h, Reading.bind_read, script, chunks_command]
  simp only [opensCompound_words hne, List.any_nil, Bool.or_false, arrange,
    if_neg (map_word_ne_nil hne _), simple_command]
  rfl

theorem read_enter {reserved : Txt → Bool} {ps qs : List Piece} (hps : ps ≠ []) (hqs : qs ≠ [])
    (h : ∀ p ∈ ps, Reads p.1 p.2) (h' : ∀ p ∈ qs, Reads p.1 p.2) (target : Txt) :
    read reserved (written ps ++ "&& ".toList ++ written qs ++ redirection target) =
      if opens reserved ps || opens reserved qs then .beyond
      else .read [(.newline, ⟨words ps, []⟩), (.andThen, body qs target)] := by
  have hsimple : simple ((words ps).map Token.word) = some ⟨words ps, []⟩ := by
    have hnil := simple_append (words ps) []
    rw [List.append_nil] at hnil
    rw [hnil, simple, Option.map_some, Simple.behind, List.append_nil]
  have hopens := @opensCompound_words reserved ps hps []
  have hpsne := map_word_ne_nil hps []
  rw [List.append_nil] at hopens hpsne
  have hchunks : chunks ((words ps).map Token.word ++ Token.op .andThen ::
      ((words qs).map Token.word ++ redirectionTokens target)) =
        ((words ps).map Token.word,
          [(.andThen, (words qs).map Token.word ++ redirectionTokens target)]) := by
    rw [chunks_append, chunks, chunks_command, List.append_nil]
  rw [Shell.read, tokens_enter h h', Reading.bind_read, script, hchunks]
  simp only [hopens, List.any_cons, opensCompound_words hqs, List.any_nil, Bool.or_false, arrange,
    if_neg hpsne, if_neg (map_word_ne_nil hqs _), hsimple, simple_command]
  rfl

/-! ## The limit -/

/-- The whole seconds that `timeout` is given. -/
def seconds (t : ℚ) : Nat := (truncate t).toNat

theorem showInt_truncate {t : ℚ} (h : 0 < t) : showInt (truncate t) = showNat (seconds t) := by
  have hnonneg : 0 ≤ truncate t := by
    rw [truncate_of_nonneg h.le]
    exact Int.floor_nonneg.mpr h.le
  rw [seconds]
  obtain ⟨n, hn⟩ := Int.eq_ofNat_of_zero_le hnonneg
  rw [hn]
  rfl

theorem seconds_le {t : ℚ} (h : 0 < t) : (seconds t : ℚ) ≤ t ∧ t < seconds t + 1 := by
  have hcast : ((seconds t : ℤ) : ℚ) = (⌊t⌋ : ℤ) := by
    rw [seconds, truncate_of_nonneg h.le, Int.toNat_of_nonneg (Int.floor_nonneg.mpr h.le)]
  rw [Int.cast_natCast] at hcast
  rw [hcast]
  exact ⟨Int.floor_le t, Int.lt_floor_add_one t⟩

/-- The text that the executor is handed. -/
def text (limit : Option Nat) (env : EnvMap) (argv : List Txt) (cwd : Option Txt)
    (target : Txt) : Txt :=
  match cwd with
  | none => written (limitPieces limit ++ commandPieces env argv) ++ redirection target
  | some d => written (limitPieces limit ++ enterPieces d) ++ "&& ".toList ++
      written (commandPieces env argv) ++ redirection target

section Call

variable {M : Machine} {W : World} {s : State} {e : Executor} {argv : List Txt}
  {stdoutFile : Txt} {timeout : Option {t : ℚ // 0 < t}} {env : EnvMap} {cwd : Option Txt}

/-- With an executor, the shell reads one text. -/
theorem runCommandRedirect_eq (hne : argv ≠ []) :
    runCommandRedirect M W s (some e) (.args argv) stdoutFile (timeout.map Subtype.val) env.entries
        cwd =
      let out := M.run W s (text (timeout.map fun t => seconds t.1) env argv
        (cwd.map (nodePathFor (some e))) (nodePathFor (some e) stdoutFile))
      some (out.ran, if exceeded (timeout.map fun t => t.1 + 5) (out.ran.map (took W)).sum then 124
        else out.status) := by
  have hline (t : Txt) : formatShellCommand (.line t) [] none none = t := by
    simp [formatShellCommand, joinBlanks]
  unfold runCommandRedirect runCommand
  simp only [formatShellCommand_eq hne]
  cases timeout with
  | none =>
    cases cwd with
    | none =>
      simp [hline, text, limitPieces]
      rfl
    | some d => simp [hline, text, limitPieces]
  | some t =>
    have hfilter : (Option.map Subtype.val (some t)).filter (fun t => decide (t ≠ 0)) =
        some t.1 := by
      simp [Option.filter, t.2.ne']
    have hlimit (rest : Txt) : "timeout ".toList ++ showInt (truncate t.1) ++ ' ' :: rest =
        written (limitPieces (some (seconds t.1))) ++ rest := by
      rw [showInt_truncate t.2]
      simp [written, limitPieces, barePiece, timeoutName]
    simp only [hfilter, hlimit]
    cases cwd <;> simp [hline, text, written_append]

end Call

/-! ## What the words come to -/

/-- The limit that `timeout` keeps. -/
def kept (limit : Option Nat) : Option Nat := limit.filter fun n => decide (n ≠ 0)

def limitTexts (limit : Option Nat) : List Txt :=
  match limit with
  | some n => [timeoutName, showNat n]
  | none => []

def variableTexts (env : EnvMap) : List Txt :=
  if env.entries = [] then [] else envName :: env.entries.map fun p => p.1 ++ '=' :: p.2

theorem texts_command (limit : Option Nat) (env : EnvMap) (argv : List Txt) :
    (words (limitPieces limit ++ commandPieces env argv)).map Word.text =
      limitTexts limit ++ (variableTexts env ++ argv) := by
  have hlimit : (words (limitPieces limit)).map Word.text = limitTexts limit := by
    cases limit <;> simp [limitPieces, limitTexts, words, barePiece]
  have hvars : (words (variablePieces env)).map Word.text = variableTexts env := by
    rw [variablePieces, variableTexts]
    split_ifs
    · rfl
    · simp only [words, List.map_cons, List.map_map, barePiece, Word.text_of]
      congr 1
      refine List.map_congr_left fun p _ => ?_
      simp [variablePiece, text_quotedWord]
  have hargv : (words (argv.map quotedPiece)).map Word.text = argv := by
    rw [words, List.map_map, List.map_map]
    exact (List.map_congr_left fun a _ => text_quotedWord a).trans (List.map_id argv)
  rw [words_append, commandPieces, words_append, List.map_append, List.map_append, hlimit, hvars,
    hargv]

theorem plain_words {ps : List Piece} (h : ∀ p ∈ ps, p.2.plain = true) :
    ∀ w ∈ words ps, w.plain = true := by
  intro w hw
  obtain ⟨p, hp, rfl⟩ := List.mem_map.mp hw
  exact h p hp

theorem plain_barePiece (t : Txt) : (barePiece t).2.plain = true := Word.plain_of (by decide) t

theorem plain_limitPieces (limit : Option Nat) : ∀ p ∈ limitPieces limit, p.2.plain = true := by
  cases limit with
  | none =>
    intro p hp
    cases hp
  | some n =>
    intro p hp
    rcases List.mem_pair.mp hp with rfl | rfl <;> exact plain_barePiece _

theorem plain_commandPieces (env : EnvMap) (argv : List Txt) :
    ∀ p ∈ commandPieces env argv, p.2.plain = true := by
  intro p hp
  rw [commandPieces, variablePieces] at hp
  rcases List.mem_append.mp hp with hp | hp
  · split_ifs at hp
    · cases hp
    · rcases List.mem_cons.mp hp with rfl | hp
      · exact plain_barePiece _
      · obtain ⟨q, -, rfl⟩ := List.mem_map.mp hp
        exact Word.plain_append (Word.plain_of (by decide) _) (plain_quotedWord _)
  · obtain ⟨a, -, rfl⟩ := List.mem_map.mp hp
    exact plain_quotedWord a

theorem assignment_variable {p : Txt × Txt} (h : isName p.1 = true) :
    assignment (p.1 ++ '=' :: p.2) = (p.1, some p.2) := by
  have hname : ∀ c ∈ p.1, c ≠ '=' := by
    rintro c hc rfl
    rw [isName, Bool.and_eq_true] at h
    exact absurd (List.all_eq_true.mp h.2 _ hc) (by decide)
  rw [assignment, List.takeWhile_append_of_pos (by simpa using hname),
    List.dropWhile_append_of_pos (by simpa using hname)]
  simp

theorem isOption_of_isName {p : Txt × Txt} (h : isName p.1 = true) :
    isOption (p.1 ++ '=' :: p.2) = false := by
  obtain ⟨k, v⟩ := p
  cases k with
  | nil => cases h
  | cons c k =>
    rw [isOption, List.cons_append, List.head?_cons, decide_eq_false_iff_not, Option.some.injEq]
    rintro rfl
    rw [isName, Bool.and_eq_true, List.all_cons, Bool.and_eq_true] at h
    exact absurd h.2.1 (by decide)

section Resolve

variable {env : EnvMap} {argv : List Txt}

/-- What `env` makes of the variables and what follows them. -/
theorem peel_variables (henv : env.entries ≠ []) {sets : List Change} {command : List Txt}
    (hsets : envAssignments argv = (sets, command)) :
    peel (variableTexts env ++ argv) =
      if command = [] then none else some (env.changes ++ sets, none, command) := by
  have hmem : ∀ t ∈ env.entries.map fun p => p.1 ++ '=' :: p.2, '=' ∈ t := by
    intro t ht
    obtain ⟨p, -, rfl⟩ := List.mem_map.mp ht
    simp
  have hchanges : (env.entries.map fun p => p.1 ++ '=' :: p.2).map assignment = env.changes := by
    rw [List.map_map, EnvMap.changes]
    exact List.map_congr_left fun p hp => assignment_variable (env.names p hp)
  have hfirst : (env.entries.map (fun p => p.1 ++ '=' :: p.2) ++ argv).head?.any isOption =
      false := by
    cases hentries : env.entries with
    | nil => exact absurd hentries henv
    | cons p ps => exact isOption_of_isName (env.names p (hentries ▸ .head _))
  rw [variableTexts, if_neg henv, List.cons_append]
  simp only [peel, if_true, envOptions_of_command hfirst, hfirst, Bool.false_eq_true, if_false,
    envAssignments_append hmem, hsets, hchanges, List.nil_append]

/-- The variables before the command. -/
theorem resolve_variables (hne : argv ≠ [])
    (hcommand : env.entries ≠ [] → ∀ name ∈ argv.head?, '=' ∉ name) :
    resolve (variableTexts env ++ argv) =
      ⟨env.changes ++ (resolve argv).changes, (resolve argv).limit, (resolve argv).argv⟩ := by
  by_cases henv : env.entries = []
  · rw [variableTexts, if_pos henv, List.nil_append, EnvMap.changes, henv]
    rfl
  · obtain ⟨name, args, rfl⟩ := List.exists_cons_of_ne_nil hne
    have hpeel := peel_variables henv (envAssignments_of_command (hcommand henv name rfl) args)
    rw [if_neg (List.cons_ne_nil _ _), List.append_nil] at hpeel
    rw [resolve_of_peel hpeel, tighter_none_left]

theorem variableTexts_append_ne (hne : argv ≠ []) : variableTexts env ++ argv ≠ [] := by
  intro h
  exact hne (List.append_eq_nil_iff.mp h).2

/-- The limit before everything else. -/
theorem resolve_limit (limit : Option Nat) {rest : List Txt} (hne : rest ≠ []) :
    resolve (limitTexts limit ++ rest) =
      ⟨(resolve rest).changes, tighter (kept limit) (resolve rest).limit, (resolve rest).argv⟩ := by
  cases limit with
  | none =>
    rw [limitTexts, List.nil_append, kept, Option.filter_none, tighter_none_left]
  | some n =>
    have hdigits : (showNat n).all Char.isDigit = true :=
      List.all_eq_true.mpr fun c hc => isDigit_of_mem_showNat hc
    have hlimit : durationLimit (showNat n) = kept (some n) := by
      rw [durationLimit, parseDigits_showNat]
      cases n <;> rfl
    have hpeel := peel_timeout (showNat_ne_nil n) hdigits hne
    rw [hlimit] at hpeel
    exact (resolve_of_peel hpeel).trans rfl

end Resolve

/-! ## The command executed -/

section Body

variable {M : Machine} {W : World} {s : State} {limit : Option Nat} {env : EnvMap}
  {argv : List Txt} {target : Txt} {fromPipe toPipe : Bool}

def commandBody (limit : Option Nat) (env : EnvMap) (argv : List Txt) (target : Txt) : Simple :=
  body (limitPieces limit ++ commandPieces env argv) target

/-- The first word is not an assignment: it is `timeout`, `env` or the name. -/
theorem not_assignment_head (hne : argv ≠ [])
    (hword : env.entries = [] → limit = none → ∀ name ∈ argv.head?,
      isAssignment (quotedWord name) = false) :
    ∃ w ws, words (limitPieces limit ++ commandPieces env argv) = w :: ws ∧
      isAssignment w = false := by
  cases limit with
  | some n => exact ⟨_, _, rfl, by decide⟩
  | none =>
    by_cases henv : env.entries = []
    · obtain ⟨name, args, rfl⟩ := List.exists_cons_of_ne_nil hne
      rw [limitPieces, List.nil_append, commandPieces, variablePieces, if_pos henv]
      exact ⟨_, _, rfl, hword henv rfl name rfl⟩
    · rw [limitPieces, List.nil_append, commandPieces, variablePieces, if_neg henv]
      exact ⟨_, _, rfl, by decide⟩

theorem plain_commandBody : ∀ w ∈ (commandBody limit env argv target).words, w.plain = true := by
  refine plain_words fun p hp => ?_
  rcases List.mem_append.mp hp with hp | hp
  · exact plain_limitPieces limit p hp
  · exact plain_commandPieces env argv p hp

theorem argv_commandBody (hne : argv ≠ [])
    (hword : env.entries = [] → limit = none → ∀ name ∈ argv.head?,
      isAssignment (quotedWord name) = false) :
    (commandBody limit env argv target).assignments = [] ∧
      W.argv s (commandBody limit env argv target) =
        limitTexts limit ++ (variableTexts env ++ argv) := by
  obtain ⟨w, ws, hwords, hw⟩ := not_assignment_head hne hword
  have hneg : ¬ isAssignment w = true := by
    rw [hw]
    exact Bool.false_ne_true
  have hops : (commandBody limit env argv target).operands =
      (commandBody limit env argv target).words := by
    rw [Simple.operands, commandBody, body, hwords, List.dropWhile_cons_of_neg hneg]
  constructor
  · rw [Simple.assignments, commandBody, body, hwords, List.takeWhile_cons_of_neg hneg]
  · rw [World.argv, hops, W.flatMap_fields s plain_commandBody]
    exact texts_command limit env argv

/-- Both streams of the command go to the file. -/
theorem fds_commandBody : M.fdsOf W s fromPipe toPipe (commandBody limit env argv target) 1 =
      .file (M.locate s.dir target) false ∧
    M.fdsOf W s fromPipe toPipe (commandBody limit env argv target) 2 =
      .file (M.locate s.dir target) false := by
  have htarget : W.text s (quotedWord target) = target := by
    rw [World.text, if_pos (plain_quotedWord target), text_quotedWord]
  have hone : W.text s (.of .bare ['1']) = ['1'] := rfl
  have hnumber : Lexer.number ['1'] = 1 := by decide
  simp only [Machine.fdsOf, commandBody, body, redirections, List.foldl_cons, List.foldl_nil,
    Machine.redirect, htarget, hone, hnumber]
  constructor <;> simp

/-- What is executed, apart from its limit and its status. -/
theorem command_commandBody (hne : argv ≠ [])
    (hcommand : env.entries ≠ [] → ∀ name ∈ argv.head?, '=' ∉ name)
    (hword : env.entries = [] → limit = none → ∀ name ∈ argv.head?,
      isAssignment (quotedWord name) = false) (fds : Nat → Dest) :
    (M.commandOf W s fds (commandBody limit env argv target)).1.argv = (resolve argv).argv ∧
      (M.commandOf W s fds (commandBody limit env argv target)).1.env =
        (s.env.apply env.changes).apply (resolve argv).changes ∧
      (M.commandOf W s fds (commandBody limit env argv target)).1.dir = s.dir ∧
      (M.commandOf W s fds (commandBody limit env argv target)).1.fds = fds := by
  obtain ⟨hassign, hargv⟩ := @argv_commandBody W s limit env argv target hne hword
  have hresolve :=
    resolve_limit limit (variableTexts_append_ne hne : variableTexts env ++ argv ≠ [])
  rw [resolve_variables hne hcommand] at hresolve
  obtain ⟨name, args, hcons⟩ : ∃ name args,
      limitTexts limit ++ (variableTexts env ++ argv) = name :: args :=
    List.exists_cons_of_ne_nil fun h =>
      variableTexts_append_ne hne (List.append_eq_nil_iff.mp h).2
  rw [hcons] at hargv hresolve
  cases hname : M.itself name with
  | false =>
    rw [Machine.commandOf_program hargv hname, hresolve, hassign]
    refine ⟨rfl, ?_, rfl, rfl⟩
    show s.env.apply (env.changes ++ _) = _
    rw [Env.apply_append]
  | true =>
    -- neither `timeout` nor `env` is run by the shell itself
    have hlimit : limit = none := by
      cases limit with
      | none => rfl
      | some n =>
        have htimeout : timeoutName = name := (List.cons.inj hcons).1
        rw [← htimeout, M.timeout_program] at hname
        cases hname
    have henv : env.entries = [] := by
      by_contra henv
      rw [hlimit, limitTexts, List.nil_append, variableTexts, if_neg henv] at hcons
      have henvName : envName = name := (List.cons.inj hcons).1
      rw [← henvName, M.env_program] at hname
      cases hname
    rw [hlimit, limitTexts, List.nil_append, variableTexts, if_pos henv, List.nil_append] at hcons
    have hplain : resolve (name :: args) = ⟨[], none, name :: args⟩ := by
      refine resolve_of_not_peel (peel_of_program ?_ ?_ args)
      · rintro rfl
        rw [M.env_program] at hname
        cases hname
      · rintro rfl
        rw [M.timeout_program] at hname
        cases hname
    rw [Machine.commandOf_itself hargv hname, hcons, hplain, EnvMap.changes, henv]
    exact ⟨rfl, rfl, rfl, rfl⟩

/-- With a limit the command is a program, and `timeout` keeps it to the limit. -/
theorem exec_limited (hne : argv ≠ [])
    (hcommand : env.entries ≠ [] → ∀ name ∈ argv.head?, '=' ∉ name) (n : Nat) :
    M.exec W s fromPipe toPipe (commandBody (some n) env argv target) =
      (⟨(M.commandOf W s (M.fdsOf W s fromPipe toPipe (commandBody (some n) env argv target))
          (commandBody (some n) env argv target)).1,
        tighter (kept (some n)) (resolve argv).limit,
        W.exit (tighter (kept (some n)) (resolve argv).limit)
          (M.commandOf W s (M.fdsOf W s fromPipe toPipe (commandBody (some n) env argv target))
            (commandBody (some n) env argv target)).1⟩, s) := by
  obtain ⟨-, hargv⟩ := @argv_commandBody W s (some n) env argv target hne fun _ h => nomatch h
  have hresolve :=
    resolve_limit (some n) (variableTexts_append_ne hne : variableTexts env ++ argv ≠ [])
  rw [resolve_variables hne hcommand] at hresolve
  have hcommandOf := fun fds =>
    @Machine.commandOf_program M W s fds _ _ _ hargv M.timeout_program
  rw [Machine.exec_program (congrArg (·.1.builtin) (hcommandOf _))]
  have hlimit (fds : Nat → Dest) :
      (M.commandOf W s fds (commandBody (some n) env argv target)).2 =
        tighter (kept (some n)) (resolve argv).limit := by
    rw [hcommandOf]
    exact congrArg Launch.limit hresolve
  rw [hlimit]

end Body

/-! ## The whole text -/

section Run

variable {M : Machine} {W : World} {s : State} {limit : Option Nat} {env : EnvMap}
  {argv : List Txt} {target d : Txt}

theorem pieces_ne_nil (hne : argv ≠ []) : commandPieces env argv ≠ [] := by
  intro h
  exact hne (List.map_eq_nil_iff.mp (List.append_eq_nil_iff.mp h).2)

theorem read_here (hne : argv ≠ []) : read M.reserved (text limit env argv none target) =
    if opens M.reserved (limitPieces limit ++ commandPieces env argv) then .beyond
    else .read [(.newline, commandBody limit env argv target)] := by
  have hreads : ∀ p ∈ limitPieces limit ++ commandPieces env argv, Reads p.1 p.2 := by
    intro p hp
    rcases List.mem_append.mp hp with hp | hp
    · exact reads_limitPieces limit p hp
    · exact reads_commandPieces env argv p hp
  have hpieces : limitPieces limit ++ commandPieces env argv ≠ [] := fun h =>
    pieces_ne_nil hne (List.append_eq_nil_iff.mp h).2
  rw [text, read_command hpieces hreads]
  rfl

theorem run_here (hne : argv ≠ [])
    (hopens : opens M.reserved (limitPieces limit ++ commandPieces env argv) = false) :
    M.run W s (text limit env argv none target) =
      ⟨[(M.exec W s false false (commandBody limit env argv target)).1],
        (M.exec W s false false (commandBody limit env argv target)).1.status⟩ := by
  rw [Machine.run, read_here hne, hopens, if_neg Bool.false_ne_true]
  rfl

/-- The command in front of `&&`. -/
def enterBody (limit : Option Nat) (d : Txt) : Simple :=
  ⟨words (limitPieces limit ++ enterPieces d), []⟩

theorem read_there (hne : argv ≠ []) : read M.reserved (text limit env argv (some d) target) =
    if opens M.reserved (commandPieces env argv) then .beyond
    else .read [(.newline, enterBody limit d), (.andThen, commandBody none env argv target)] := by
  have hreads : ∀ p ∈ limitPieces limit ++ enterPieces d, Reads p.1 p.2 := by
    intro p hp
    rcases List.mem_append.mp hp with hp | hp
    · exact reads_limitPieces limit p hp
    · exact reads_enterPieces d p hp
  have hpieces : limitPieces limit ++ enterPieces d ≠ [] := by
    cases limit <;> exact List.cons_ne_nil _ _
  have hfirst : opens M.reserved (limitPieces limit ++ enterPieces d) = false := by
    cases limit with
    | none =>
      show (Word.unquoted (.of .bare cdName) && M.reserved (Word.text (.of .bare cdName))) = false
      rw [Word.text_of, M.cd_word, Bool.and_false]
    | some n =>
      show (Word.unquoted (.of .bare timeoutName) &&
        M.reserved (Word.text (.of .bare timeoutName))) = false
      rw [Word.text_of, M.timeout_word, Bool.and_false]
  rw [text, read_enter hpieces (pieces_ne_nil hne) hreads (reads_commandPieces env argv), hfirst,
    Bool.false_or]
  rfl

theorem argv_enterBody : (enterBody limit d).assignments = [] ∧
    W.argv s (enterBody limit d) = limitTexts limit ++ [cdName, d] := by
  have hplain : ∀ w ∈ (enterBody limit d).words, w.plain = true := by
    refine plain_words fun p hp => ?_
    rcases List.mem_append.mp hp with hp | hp
    · exact plain_limitPieces limit p hp
    · rcases List.mem_pair.mp hp with rfl | rfl
      · exact plain_barePiece _
      · exact plain_quotedWord d
  obtain ⟨w, ws, hwords, hw⟩ : ∃ w ws, (enterBody limit d).words = w :: ws ∧
      ¬ isAssignment w = true := by
    cases limit with
    | none => exact ⟨_, _, rfl, by decide⟩
    | some n => exact ⟨_, _, rfl, by decide⟩
  have hops : (enterBody limit d).operands = (enterBody limit d).words := by
    rw [Simple.operands, hwords, List.dropWhile_cons_of_neg hw]
  constructor
  · rw [Simple.assignments, hwords, List.takeWhile_cons_of_neg hw]
  · rw [World.argv, hops, W.flatMap_fields s hplain]
    cases limit with
    | none => simp [enterBody, limitPieces, limitTexts, enterPieces, words, barePiece, quotedPiece,
        text_quotedWord]
    | some n => simp [enterBody, limitPieces, limitTexts, enterPieces, words, barePiece,
        quotedPiece, text_quotedWord]

/-- Without a limit the shell enters the directory itself. -/
theorem exec_enterBody : M.exec W s false false (enterBody none d) =
    (let c : Command := ⟨true, [cdName, d], [], s.env, s.dir,
      M.fdsOf W s false false (enterBody none d)⟩
    (⟨c, none, (M.builtin W s c).2⟩, (M.builtin W s c).1)) := by
  obtain ⟨hassign, hargv⟩ := @argv_enterBody W s none d
  have hcommand (fds : Nat → Dest) := @Machine.commandOf_itself M W s fds _ _ _ hargv M.cd_itself
  unfold Machine.exec
  simp only [hcommand, hassign, List.map_nil, if_true]
  rfl

end Run

/-! ## Options that go together -/

section Fitting

variable {M : Machine} {W : World} {s : State} {env : EnvMap} {argv : List Txt}

/-- The limit of `timeout`, with one that the command sets itself, ends the command just
as the given time does. -/
theorem exit_kept {t : ℚ} (ht : 0 < t) {own : Option Nat}
    (h : (∃ n : Nat, t = n) ∨ ∃ n : Nat, own = some n ∧ (n : ℚ) ≤ t) (c : Command) :
    W.exit (tighter (kept (some (seconds t))) own) c =
        (if t < W.lasts c then 124 else W.exit own c) ∧
      ∃ n : Nat, tighter (kept (some (seconds t))) own = some n ∧ (n : ℚ) ≤ t := by
  obtain ⟨hle, hlt⟩ := seconds_le ht
  have hexit (n : Nat) : W.exit (some n) c = if (n : ℚ) < W.lasts c then 124 else W.status c := by
    simp [World.exit]
  rcases h with ⟨n, hn⟩ | ⟨n, rfl, hn⟩
  · -- a whole number of seconds
    have hseconds : seconds t = n := by
      rw [hn] at hle hlt
      have h1 : seconds t ≤ n := by
        rw [hn]
        exact_mod_cast hle
      have h2 : n < seconds t + 1 := by
        rw [hn]
        exact_mod_cast hlt
      omega
    have hpos : n ≠ 0 := by
      rintro rfl
      simp [hn] at ht
    have hkept : kept (some (seconds t)) = some n := by
      rw [hseconds, kept, Option.filter_some, if_pos (decide_eq_true hpos)]
    rw [hkept]
    cases own with
    | none =>
      refine ⟨?_, n, rfl, hn.ge⟩
      show W.exit (some n) c = _
      rw [hexit, hn]
      rfl
    | some m =>
      refine ⟨?_, min n m, rfl, ?_⟩
      · show W.exit (some (min n m)) c = _
        simp only [hexit, hn, Nat.cast_min, min_lt_iff]
        by_cases h1 : (n : ℚ) < W.lasts c <;> by_cases h2 : (m : ℚ) < W.lasts c <;> simp [h1, h2]
      · rw [hn]
        exact_mod_cast Nat.min_le_left n m
  · -- the command's own limit is the tighter one
    have hfloor : n ≤ seconds t := by
      have h1 : (n : ℚ) < (seconds t : ℚ) + 1 := hn.trans_lt hlt
      have h2 : n < seconds t + 1 := by exact_mod_cast h1
      omega
    have htighter : tighter (kept (some (seconds t))) (some n) = some n := by
      rw [kept, Option.filter_some]
      split_ifs
      · rw [tighter, Nat.min_eq_right hfloor]
      · rfl
    rw [htighter]
    refine ⟨?_, n, rfl, hn⟩
    by_cases hlasts : t < W.lasts c
    · rw [if_pos hlasts, hexit, if_pos (hn.trans_lt hlasts)]
    · rw [if_neg hlasts]

theorem not_opens {limit : Option Nat} (hne : argv ≠ [])
    (hword : env.entries = [] → limit = none → ∀ name ∈ argv.head?,
      ((quotedWord name).unquoted && M.reserved name) = false) :
    opens M.reserved (limitPieces limit ++ commandPieces env argv) = false := by
  cases limit with
  | some n =>
    show (Word.unquoted (.of .bare timeoutName) &&
      M.reserved (Word.text (.of .bare timeoutName))) = false
    rw [Word.text_of, M.timeout_word, Bool.and_false]
  | none =>
    by_cases henv : env.entries = []
    · obtain ⟨name, args, rfl⟩ := List.exists_cons_of_ne_nil hne
      rw [limitPieces, List.nil_append, commandPieces, variablePieces, if_pos henv]
      show ((quotedWord name).unquoted && M.reserved (quotedWord name).text) = false
      rw [text_quotedWord]
      exact hword henv rfl name rfl
    · rw [limitPieces, List.nil_append, commandPieces, variablePieces, if_neg henv]
      show (Word.unquoted (.of .bare envName) && M.reserved (Word.text (.of .bare envName))) = false
      rw [Word.text_of, M.env_word, Bool.and_false]

/-- The command that is executed is the given one, whatever its limit. -/
theorem isGiven_body {executor : Option Executor} {stdoutFile dir : Txt}
    {timeout : Option {t : ℚ // 0 < t}} {limit : Option Nat} {s' : State} {code : Nat}
    (hne : argv ≠ []) (hcommand : env.entries ≠ [] → ∀ name ∈ argv.head?, '=' ∉ name)
    (hword : env.entries = [] → limit = none → ∀ name ∈ argv.head?,
      isAssignment (quotedWord name) = false)
    (henv : s'.env = s.env) (hdir : s'.dir = dir)
    (hfile : M.locate dir (nodePathFor executor stdoutFile) =
      M.locate s.dir (nodePathFor executor stdoutFile))
    (hcode : code = match timeout with
      | some t => if (t : ℚ) < W.lasts (M.exec W s' false false
            (commandBody limit env argv (nodePathFor executor stdoutFile))).1.command then 124
          else W.exit (resolve argv).limit (M.exec W s' false false
            (commandBody limit env argv (nodePathFor executor stdoutFile))).1.command
      | none => (M.exec W s' false false
          (commandBody limit env argv (nodePathFor executor stdoutFile))).1.status) :
    IsGiven M W s executor argv stdoutFile timeout env dir
      (M.exec W s' false false (commandBody limit env argv (nodePathFor executor stdoutFile))).1
      code := by
  obtain ⟨hargv, henvironment, hdirectory, hfds⟩ :=
    @command_commandBody M W s' _ _ _ (nodePathFor executor stdoutFile) hne hcommand hword
      (M.fdsOf W s' false false (commandBody limit env argv (nodePathFor executor stdoutFile)))
  obtain ⟨hout, herr⟩ :=
    @fds_commandBody M W s' limit env argv (nodePathFor executor stdoutFile) false false
  refine ⟨hne, ?_, ?_, ?_, ?_, ?_, hcode⟩
  · rw [Machine.exec_command, hargv]
  · rw [Machine.exec_command, henvironment, henv]
  · rw [Machine.exec_command, hdirectory, hdir]
  · rw [Machine.exec_command, hfds, hout, hdir, hfile]
  · rw [Machine.exec_command, hfds, herr, hdir, hfile]

theorem runsGiven_of_fits {executor : Option Executor} {stdoutFile : Txt}
    {timeout : Option {t : ℚ // 0 < t}} {cwd : Option Txt}
    (h : Fits M s executor argv stdoutFile timeout env cwd) (W : World) :
    RunsGiven M W s executor argv stdoutFile timeout env cwd := by
  have hne := h.nonempty
  obtain ⟨e, rfl⟩ := Option.isSome_iff_exists.mp h.shell
  unfold RunsGiven
  rw [runCommandRedirect_eq hne]
  cases cwd with
  | none =>
    have hassign : env.entries = [] → timeout.map (fun t => seconds t.1) = none →
        ∀ name ∈ argv.head?, isAssignment (quotedWord name) = false := fun henv hlimit name hname =>
      (h.word henv (Option.map_eq_none_iff.mp hlimit) name hname).1
    have hopens : opens M.reserved (limitPieces (timeout.map fun t => seconds t.1) ++
        commandPieces env argv) = false := not_opens hne fun henv hlimit name hname =>
      (h.word henv (Option.map_eq_none_iff.mp hlimit) name hname).2
    simp only [Option.map_none, run_here hne hopens]
    refine ⟨_, _, _, rfl, rfl, isGiven_body hne h.command hassign rfl rfl rfl ?_⟩
    cases timeout with
    | none => rfl
    | some t =>
      obtain ⟨hexit, n, hlimit, hle⟩ := exit_kept (W := W) t.2 (h.whole t rfl)
        (M.exec W s false false (commandBody (some (seconds t.1)) env argv
          (nodePathFor (some e) stdoutFile))).1.command
      have hexec := @exec_limited M W s _ _ (nodePathFor (some e) stdoutFile) false false hne
        h.command (seconds t.1)
      have htook : took W (M.exec W s false false (commandBody (some (seconds t.1)) env argv
          (nodePathFor (some e) stdoutFile))).1 ≤ t.1 := by
        rw [hexec, took]
        simp only [hlimit]
        exact (min_le_left _ _).trans hle
      have hwall : exceeded (some (t.1 + 5)) ([took W (M.exec W s false false
          (commandBody (some (seconds t.1)) env argv (nodePathFor (some e) stdoutFile))).1].sum) =
            false := by
        rw [List.sum_singleton]
        exact decide_eq_false (by linarith)
      simp only [Option.map_some, List.map_cons, List.map_nil, hwall, Bool.false_eq_true, if_false]
      rw [← hexit]
      rw [hexec]
  | some d =>
    obtain ⟨htimeout, hoption, dir, henter, hfile⟩ := h.place d rfl
    subst htimeout
    have hassign : env.entries = [] → (none : Option Nat) = none →
        ∀ name ∈ argv.head?, isAssignment (quotedWord name) = false := fun henv _ name hname =>
      (h.word henv rfl name hname).1
    have hopens : opens M.reserved (limitPieces none ++ commandPieces env argv) = false :=
      not_opens hne fun henv _ name hname => (h.word henv rfl name hname).2
    rw [limitPieces, List.nil_append] at hopens
    have hrun : M.run W s (text none env argv (some (nodePathFor (some e) d))
        (nodePathFor (some e) stdoutFile)) =
        ⟨[(M.exec W s false false (enterBody none (nodePathFor (some e) d))).1,
          (M.exec W { s with dir := dir } false false
            (commandBody none env argv (nodePathFor (some e) stdoutFile))).1],
          (M.exec W { s with dir := dir } false false
            (commandBody none env argv (nodePathFor (some e) stdoutFile))).1.status⟩ := by
      have hbuiltin (c : Command) (hc : c.argv = [cdName, nodePathFor (some e) d]) :
          M.builtin W s c = ({ s with dir := dir }, 0) := by
        simp only [Machine.builtin, hc, hoption, henter, true_and, if_true]
      let c : Command := ⟨true, [cdName, nodePathFor (some e) d], [], s.env, s.dir,
        M.fdsOf W s false false (enterBody none (nodePathFor (some e) d))⟩
      have henterExec : M.exec W s false false (enterBody none (nodePathFor (some e) d)) =
          (⟨c, none, 0⟩, { s with dir := dir }) := by
        rw [exec_enterBody]
        show ((⟨c, none, (M.builtin W s c).2⟩ : Executed), (M.builtin W s c).1) = _
        rw [hbuiltin c rfl]
      rw [Machine.run, read_there hne, hopens, if_neg Bool.false_ne_true]
      dsimp only
      rw [Machine.runScript_andThen, henterExec]
      rfl
    simp only [Option.map_none, Option.map_some, hrun]
    refine ⟨_, _, _, rfl, dir, _, henter, rfl, ?_, ?_,
      isGiven_body hne h.command hassign rfl rfl hfile ?_⟩
    · rw [exec_enterBody]
    · rw [exec_enterBody]
    · rfl

end Fitting

/-! ## And no others -/

section Only

variable {M : Machine} {W : World} {s : State} {env : EnvMap} {argv : List Txt}
  {stdoutFile : Txt} {timeout : Option {t : ℚ // 0 < t}} {e : Executor}

/-- Without a shell the output is captured. -/
theorem captured_of_runCommand {cmd : CommandLine} {limit : Option ℚ} {vars : List (Txt × Txt)}
    {cwd : Option Txt} {ran : List Executed} {code : Nat}
    (h : runCommand M W s none cmd limit vars cwd = some (ran, code)) :
    ∃ e, ran = [e] ∧ e.command.fds 1 = .pipe := by
  have hone {argv : List Txt} {merged : Env}
      (h : subprocessRun M W s argv merged limit cwd = some (ran, code)) :
      ∃ e, ran = [e] ∧ e.command.fds 1 = .pipe := by
    unfold subprocessRun at h
    split_ifs at h
    obtain ⟨dir, -, hrun⟩ := Option.map_eq_some_iff.mp h
    simp only [Prod.mk.injEq] at hrun
    exact ⟨_, hrun.1.symm, rfl⟩
  unfold runCommand at h
  cases cmd with
  | args argv => exact hone h
  | line text =>
    obtain ⟨argv, -, hrun⟩ := Option.bind_eq_some_iff.mp h
    exact hone hrun

theorem shell_of_runsGiven {executor : Option Executor} {cwd : Option Txt}
    (h : RunsGiven M W s executor argv stdoutFile timeout env cwd) : executor.isSome = true := by
  cases executor with
  | some e => rfl
  | none =>
    exfalso
    obtain ⟨ran, code, given, hrun, h⟩ := h
    unfold runCommandRedirect at hrun
    obtain ⟨e, rfl, hpipe⟩ := captured_of_runCommand hrun
    cases cwd with
    | none =>
      obtain ⟨hran, hgiven⟩ := h
      have hfile := hgiven.stdout
      rw [← (List.cons.inj hran).1, hpipe] at hfile
      cases hfile
    | some d =>
      obtain ⟨dir, entered, -, hran, -⟩ := h
      cases (List.cons.inj hran).2

theorem nonempty_of_runsGiven {executor : Option Executor} {cwd : Option Txt}
    (h : RunsGiven M W s executor argv stdoutFile timeout env cwd) : argv ≠ [] := by
  obtain ⟨ran, code, given, -, h⟩ := h
  cases cwd with
  | none => exact h.2.nonempty
  | some d =>
    obtain ⟨dir, entered, -, -, -, -, h⟩ := h
    exact h.nonempty

/-- A world in which every command lasts `lasts` and ends with `status`, and the shell
runs nothing that is beyond the grammar. -/
def lasting (lasts : ℚ) (status : Nat) : World where
  expand _ _ := []
  value _ _ := []
  act s _ := s
  status _ := status
  lasts _ := lasts
  beyond _ _ := ⟨[], 0⟩

variable {lasts : ℚ} {status : Nat}

/-- A call without a directory that runs what it was given. -/
theorem here_of_runsGiven
    (h : RunsGiven M (lasting lasts status) s (some e) argv stdoutFile timeout env none) :
    opens M.reserved (limitPieces (timeout.map fun t => seconds t.1) ++ commandPieces env argv) =
        false ∧
      IsGiven M (lasting lasts status) s (some e) argv stdoutFile timeout env s.dir
        (M.exec (lasting lasts status) s false false (commandBody
          (timeout.map fun t => seconds t.1) env argv (nodePathFor (some e) stdoutFile))).1
        (if exceeded (timeout.map fun t => t.1 + 5) (took (lasting lasts status)
            (M.exec (lasting lasts status) s false false (commandBody
              (timeout.map fun t => seconds t.1) env argv (nodePathFor (some e) stdoutFile))).1)
          then 124
          else (M.exec (lasting lasts status) s false false (commandBody
            (timeout.map fun t => seconds t.1) env argv
            (nodePathFor (some e) stdoutFile))).1.status) := by
  have hne := nonempty_of_runsGiven h
  obtain ⟨ran, code, given, hrun, hran, hgiven⟩ := h
  rw [runCommandRedirect_eq hne, Option.map_none] at hrun
  cases hopens : opens M.reserved
      (limitPieces (timeout.map fun t => seconds t.1) ++ commandPieces env argv) with
  | true =>
    exfalso
    simp only [Machine.run, read_here hne, hopens, if_true, Option.some.injEq,
      Prod.mk.injEq] at hrun
    rw [hran] at hrun
    cases hrun.1
  | false =>
    simp only [run_here hne hopens, Option.some.injEq, Prod.mk.injEq, List.map_cons, List.map_nil,
      List.sum_singleton] at hrun
    rw [hran, List.cons.injEq] at hrun
    rw [← hrun.1.1, ← hrun.2] at hgiven
    exact ⟨rfl, hgiven⟩

/-- A call with a directory that runs what it was given. -/
theorem there_of_runsGiven {d : Txt}
    (h : RunsGiven M (lasting lasts status) s (some e) argv stdoutFile timeout env (some d)) :
    timeout = none ∧ opens M.reserved (commandPieces env argv) = false ∧
      ∃ dir, M.enter s.dir (nodePathFor (some e) d) = some dir ∧
        (isOption (nodePathFor (some e) d) = true → status = 0) ∧
        (isOption (nodePathFor (some e) d) = false → ∃ code,
          IsGiven M (lasting lasts status) s (some e) argv stdoutFile timeout env dir
            (M.exec (lasting lasts status) { s with dir := dir } false false
              (commandBody none env argv (nodePathFor (some e) stdoutFile))).1 code) := by
  have hne := nonempty_of_runsGiven h
  obtain ⟨ran, code, given, hrun, dir, entered, henter, hran, hbuiltin, -, hgiven⟩ := h
  rw [runCommandRedirect_eq hne, Option.map_some] at hrun
  cases hopens : opens M.reserved (commandPieces env argv) with
  | true =>
    exfalso
    simp only [Machine.run, read_there hne, hopens, if_true, Option.some.injEq,
      Prod.mk.injEq] at hrun
    rw [hran] at hrun
    cases hrun.1
  | false =>
    simp only [Machine.run, read_there hne, hopens, Bool.false_eq_true, if_false,
      Machine.runScript_andThen, Option.some.injEq, Prod.mk.injEq] at hrun
    rw [hran] at hrun
    cases timeout with
    | some t =>
      -- `timeout` runs a program of the name `cd`
      exfalso
      have hprogram (fds : Nat → Dest) := @Machine.commandOf_program M (lasting lasts status) s fds
        _ _ _ (@argv_enterBody (lasting lasts status) s (some (seconds t.1))
          (nodePathFor (some e) d)).2 M.timeout_program
      have hfirst : entered = (M.exec (lasting lasts status) s false false
          (enterBody (some (seconds t.1)) (nodePathFor (some e) d))).1 := by
        have hlist := hrun.1
        simp only [Option.map_some] at hlist
        split_ifs at hlist <;> exact (List.cons.inj hlist).1.symm
      rw [hfirst, Machine.exec_command, hprogram] at hbuiltin
      cases hbuiltin
    | none =>
      refine ⟨rfl, rfl, dir, henter, ?_, ?_⟩
      · intro hoption
        by_contra hstatus
        simp only [Option.map_none, exec_enterBody, Machine.builtin, hoption, Bool.true_eq_false,
          and_false, if_false, lasting, hstatus] at hrun
        cases (List.cons.inj hrun.1).2
      · intro hoption
        simp only [Option.map_none, exec_enterBody, Machine.builtin, hoption, henter, and_true,
          if_true] at hrun
        have hsecond := (List.cons.inj (List.cons.inj hrun.1).2).1
        rw [← hsecond] at hgiven
        exact ⟨code, hgiven⟩

/-- A name with an equals sign is no wrapper. -/
theorem resolve_of_equals {name : Txt} (h : '=' ∈ name) (args : List Txt) :
    resolve (name :: args) = ⟨[], none, name :: args⟩ := by
  refine resolve_of_not_peel (peel_of_program ?_ ?_ args)
  · rintro rfl
    exact absurd h (by decide)
  · rintro rfl
    exact absurd h (by decide)

theorem length_variableTexts (env : EnvMap) (argv : List Txt) (h : env.entries ≠ []) :
    argv.length < (variableTexts env ++ argv).length := by
  rw [variableTexts, if_neg h, List.length_append, List.length_cons]
  omega

/-- Behind variables, a name with an equals sign is not executed. -/
theorem command_of_arguments {limit : Option Nat} {target : Txt} {fds : Nat → Dest}
    (hargs : (M.commandOf W s fds (commandBody limit env argv target)).1.argv =
      (resolve argv).argv) : env.entries ≠ [] → ∀ name ∈ argv.head?, '=' ∉ name := by
  intro henv name hname hequals
  obtain ⟨args, rfl⟩ := List.head?_eq_some_iff.mp hname
  obtain ⟨-, hargv⟩ := @argv_commandBody W s limit env (name :: args) target
    (List.cons_ne_nil _ _) fun hnil => absurd hnil henv
  have hsets : envAssignments (name :: args) =
      (assignment name :: (envAssignments args).1, (envAssignments args).2) := if_pos hequals
  have hpeel := peel_variables henv hsets
  -- `env` keeps fewer arguments, or all of its own
  have hvariables : (resolve (variableTexts env ++ name :: args)).argv ≠ name :: args := by
    intro heq
    have hlen := congrArg List.length heq
    split_ifs at hpeel with hnil
    · rw [resolve_of_not_peel hpeel] at hlen
      have hlt := length_variableTexts env (name :: args) henv
      simp only at hlen
      omega
    · rw [resolve_of_peel hpeel] at hlen
      have hle := (length_resolve_le (envAssignments args).2).trans (length_envAssignments args)
      simp only [List.length_cons] at hlen
      omega
  have hresolve := resolve_limit limit (variableTexts_append_ne (List.cons_ne_nil name args) :
    variableTexts env ++ name :: args ≠ [])
  obtain ⟨first, rest, hcons, hfirst⟩ : ∃ first rest,
      limitTexts limit ++ (variableTexts env ++ name :: args) = first :: rest ∧
        M.itself first = false := by
    cases limit with
    | some n => exact ⟨_, _, rfl, M.timeout_program⟩
    | none =>
      rw [variableTexts, if_neg henv]
      exact ⟨_, _, rfl, M.env_program⟩
  rw [hcons] at hargv hresolve
  rw [Machine.commandOf_program hargv hfirst, hresolve, resolve_of_equals hequals] at hargs
  exact hvariables hargs

/-- A name that reads as an assignment is not executed. -/
theorem word_of_arguments {target : Txt} {fds : Nat → Dest} (henv : env.entries = [])
    (hargs : (M.commandOf W s fds (commandBody none env argv target)).1.argv =
      (resolve argv).argv) : ∀ name ∈ argv.head?, isAssignment (quotedWord name) = false := by
  intro name hname
  by_contra hassign
  rw [Bool.not_eq_false] at hassign
  obtain ⟨args, rfl⟩ := List.head?_eq_some_iff.mp hname
  have hequals : '=' ∈ name := by
    have hmem := mem_text_of_isAssignment hassign
    rwa [text_quotedWord] at hmem
  have hwords : (commandBody none env (name :: args) target).words =
      quotedWord name :: args.map quotedWord := by
    rw [commandBody, body, limitPieces, List.nil_append, commandPieces, variablePieces, if_pos henv,
      List.nil_append, words, List.map_map]
    rfl
  have hargv : (W.argv s (commandBody none env (name :: args) target)).length ≤ args.length := by
    have hsub : List.Sublist (commandBody none env (name :: args) target).operands
        (args.map quotedWord) := by
      rw [Simple.operands, hwords, List.dropWhile_cons_of_pos hassign]
      exact List.dropWhile_sublist _
    have hplain : ∀ w ∈ (commandBody none env (name :: args) target).operands, w.plain = true :=
      fun w hw => plain_commandBody w ((List.dropWhile_sublist _).mem hw)
    rw [World.argv, W.flatMap_fields s hplain, List.length_map]
    exact hsub.length_le.trans (List.length_map _).le
  have hcommand : (M.commandOf W s fds (commandBody none env (name :: args) target)).1.argv.length ≤
      (W.argv s (commandBody none env (name :: args) target)).length := Machine.length_commandOf
  have hle := hcommand.trans hargv
  rw [hargs, resolve_of_equals hequals, List.length_cons] at hle
  omega

theorem reserved_of_opens (henv : env.entries = [])
    (h : opens M.reserved (limitPieces none ++ commandPieces env argv) = false) :
    ∀ name ∈ argv.head?, ((quotedWord name).unquoted && M.reserved name) = false := by
  intro name hname
  obtain ⟨args, rfl⟩ := List.head?_eq_some_iff.mp hname
  rw [limitPieces, List.nil_append, commandPieces, variablePieces, if_pos henv] at h
  change ((quotedWord name).unquoted && M.reserved (quotedWord name).text) = false at h
  rwa [text_quotedWord] at h

/-- A limit that is cut to whole seconds ends the command too early, or not at all. -/
theorem whole_of_runsGiven {t : {t : ℚ // 0 < t}}
    (h : ∀ lasts status,
      RunsGiven M (lasting lasts status) s (some e) argv stdoutFile (some t) env none) :
    (∃ n : Nat, (t : ℚ) = n) ∨ ∃ n : Nat, (resolve argv).limit = some n ∧ (n : ℚ) ≤ t := by
  by_contra hneither
  rw [not_or, not_exists, not_exists] at hneither
  obtain ⟨hnot, hown⟩ := hneither
  obtain ⟨hle, hlt⟩ := seconds_le t.2
  have hless : (seconds t.1 : ℚ) < t := lt_of_le_of_ne hle fun heq => hnot _ heq.symm
  have hne := nonempty_of_runsGiven (h 0 0)
  have hcommand := command_of_arguments
    (Machine.exec_command ▸ (here_of_runsGiven (h 0 0)).2.arguments)
  -- the limit that the command sets itself is beyond the time
  have hexit (lasts : ℚ) (hlasts : ∀ m : Nat, t < (m : ℚ) → lasts ≤ m) (c : Command) :
      (lasting lasts 0).exit (resolve argv).limit c = 0 := by
    cases hlimit : (resolve argv).limit with
    | none => rfl
    | some m =>
      have hm : (t : ℚ) < m := lt_of_not_ge fun hm => hown m ⟨hlimit, hm⟩
      have hno : ¬ (m : ℚ) < (lasting lasts 0).lasts c := not_lt.mpr (hlasts m hm)
      simp only [World.exit, Option.any_some, decide_eq_false hno, Bool.false_eq_true, if_false]
      rfl
  have hexec (lasts : ℚ) := @exec_limited M (lasting lasts 0) s env argv
    (nodePathFor (some e) stdoutFile) false false hne hcommand (seconds t.1)
  by_cases hzero : seconds t.1 = 0
  · -- `timeout 0` sets no limit
    rw [hzero, Nat.cast_zero, zero_add] at hlt
    have hone (m : Nat) (hm : (t : ℚ) < m) : (1 : ℚ) ≤ m := by
      have hpos : (0 : ℚ) < m := t.2.trans hm
      exact_mod_cast hpos
    have hcode := (here_of_runsGiven (h 1 0)).2.exitCode
    have hkept : tighter (kept (some (seconds t.1))) (resolve argv).limit =
        (resolve argv).limit := by
      rw [hzero]
      exact tighter_none_left _
    have htook (c : Command) :
        took (lasting 1 0) ⟨c, (resolve argv).limit, 0⟩ ≤ 1 := by
      unfold took
      cases (resolve argv).limit with
      | none => exact le_refl _
      | some m => exact min_le_right _ _
    have hwall (c : Command) :
        exceeded (some (t.1 + 5)) (took (lasting 1 0) ⟨c, (resolve argv).limit, 0⟩) = false :=
      decide_eq_false (by linarith [htook c, t.2])
    have hlong (c : Command) : t.1 < (lasting 1 0).lasts c := hlt
    simp only [Option.map_some, hexec, hkept, hexit 1 hone, hwall, hlong, if_true,
      Bool.false_eq_true, if_false] at hcode
    omega
  · -- the command would have ended in time, and is ended before
    have hcode := (here_of_runsGiven (h t.1 0)).2.exitCode
    have hkept : tighter (kept (some (seconds t.1))) (resolve argv).limit =
        some (seconds t.1) := by
      rw [kept, Option.filter_some, if_pos (decide_eq_true hzero)]
      cases hlimit : (resolve argv).limit with
      | none => rfl
      | some m =>
        have hm : (t : ℚ) < m := lt_of_not_ge fun hm => hown m ⟨hlimit, hm⟩
        have hmin : seconds t.1 ≤ m := by
          have hlt : (seconds t.1 : ℚ) < m := hless.trans hm
          exact (Nat.cast_lt.mp hlt).le
        rw [tighter, Nat.min_eq_left hmin]
    have hstatus (c : Command) : (lasting t.1 0).exit (some (seconds t.1)) c = 124 := by
      have hover : (seconds t.1 : ℚ) < (lasting t.1 0).lasts c := hless
      simp only [World.exit, Option.any_some, decide_eq_true hover, if_true]
    have hshort (c : Command) : ¬ t.1 < (lasting t.1 0).lasts c := lt_irrefl t.1
    simp only [Option.map_some, hexec, hkept, hstatus, ite_self, hshort, if_false,
      hexit t.1 fun m hm => hm.le] at hcode
    cases hcode

/-- What is executed is the given command, in every world, exactly when the options go
together. -/
theorem runsGiven_iff (M : Machine) (s : State) (executor : Option Executor) (argv : List Txt)
    (stdoutFile : Txt) (timeout : Option {t : ℚ // 0 < t}) (env : EnvMap) (cwd : Option Txt) :
    (∀ W, RunsGiven M W s executor argv stdoutFile timeout env cwd) ↔
      Fits M s executor argv stdoutFile timeout env cwd := by
  refine ⟨fun h => ?_, runsGiven_of_fits⟩
  have hne := nonempty_of_runsGiven (h (lasting 0 0))
  obtain ⟨e, rfl⟩ := Option.isSome_iff_exists.mp (shell_of_runsGiven (h (lasting 0 0)))
  cases cwd with
  | none =>
    obtain ⟨hopens, hgiven⟩ := here_of_runsGiven (h (lasting 0 0))
    have hargs := hgiven.arguments
    rw [Machine.exec_command] at hargs
    refine ⟨rfl, hne, ?_, ?_, command_of_arguments hargs, ?_⟩
    · rintro t rfl
      exact whole_of_runsGiven fun lasts status => h _
    · intro d hd
      cases hd
    · rintro henv rfl name hname
      exact ⟨word_of_arguments henv hargs name hname, reserved_of_opens henv hopens name hname⟩
  | some d =>
    obtain ⟨rfl, hopens, dir, henter, -, hgiven⟩ := there_of_runsGiven (h (lasting 0 0))
    have hoption : isOption (nodePathFor (some e) d) = false := by
      by_contra htrue
      rw [Bool.not_eq_false] at htrue
      obtain ⟨-, -, -, -, hzero, -⟩ := there_of_runsGiven (h (lasting 0 1))
      exact absurd (hzero htrue) (by decide)
    obtain ⟨code, hgiven⟩ := hgiven hoption
    have hargs := hgiven.arguments
    rw [Machine.exec_command] at hargs
    have hfile := hgiven.stdout
    rw [Machine.exec_command, Machine.place_commandOf.1, fds_commandBody.1] at hfile
    simp only [Dest.file.injEq, and_true] at hfile
    refine ⟨rfl, hne, ?_, ?_, command_of_arguments hargs, ?_⟩
    · intro t ht
      cases ht
    · rintro d' hd
      cases hd
      exact ⟨rfl, hoption, dir, henter, hfile⟩
    · intro henv _ name hname
      exact ⟨word_of_arguments henv hargs name hname, reserved_of_opens henv hopens name hname⟩

end Only

/-- A call with a directory and a time at once: `timeout` looks for a program `cd`. -/
theorem cd_under_timeout : ¬ RunsGiven posix (lasting 1 0)
    ⟨fun _ => none, fun _ => none, "/home/ci".toList⟩ (some ⟨false, id⟩)
    ["hipblaslt-bench".toList, "-m".toList, "128".toList] "/tmp/run/shape_stdout.log".toList
    (some ⟨30, by norm_num⟩) ⟨[], fun p hp => by cases hp⟩ (some "/tmp/run".toList) := by
  intro h
  obtain ⟨htimeout, -⟩ := there_of_runsGiven h
  cases htimeout

/-- A call with a time and a variable. -/
example : Fits posix ⟨fun _ => none, fun _ => none, "/home/ci".toList⟩ (some ⟨false, id⟩)
    ["TransferBench".toList, "p2p".toList] "/tmp/run/stdout.log".toList (some ⟨30, by norm_num⟩)
    ⟨[("NUM_ITERATIONS".toList, "10".toList)], by decide⟩ none where
  shell := rfl
  nonempty := List.cons_ne_nil _ _
  whole t ht := by
    cases ht
    exact Or.inl ⟨30, by norm_num⟩
  place d hd := by cases hd
  command _ name hname := by
    cases hname
    decide
  word henv := by cases henv

end RunRedirect
end Monitored
end RocmTests

import RocmTests.Shell.Grammar
import RocmTests.Shell.Wrappers

/-!
# Running a shell text

`run` gives the commands that a text executes, each with its arguments, environment,
directory and files, and the status that the text ends with.  What belongs to the
shell's build and to the file system is a `Machine`; what expansions, builtins and
programs do is a `World`, as is all that is beyond the grammar.

A simple command is looked at in this order: leading assignments, then the words,
expanded, of which the first is the name.  A name that the shell runs itself never
reaches a program.  The stages of a pipeline run in copies of the shell; a redirection
is taken to succeed.
-/

namespace RocmTests
namespace Shell

open Text

/-- What a descriptor is connected to. -/
inductive Dest where
  | inherited (fd : Nat)
  | file (name : Txt) (append : Bool)
  | pipe
deriving DecidableEq

/-- One command as it is executed.  A command made of assignments and redirections
alone has no arguments, and it is the shell that executes it. -/
structure Command where
  builtin : Bool
  argv : List Txt
  assigned : List (Txt × Txt)
  env : Env
  dir : Txt
  fds : Nat → Dest

structure Executed where
  command : Command
  limit : Option Nat
  status : Nat

structure Outcome where
  ran : List Executed
  status : Nat

/-- The exported variables, the others, and the working directory. -/
structure State where
  env : Env
  vars : Env
  dir : Txt

def cdName : Txt := ['c', 'd']

/-- A shell and the file system it works on.  `itself` holds of the names of builtins
and functions, `locate` names the file that a path leads to from a directory, and
`enter` the directory. -/
structure Machine where
  reserved : Txt → Bool
  itself : Txt → Bool
  locate : Txt → Txt → Txt
  enter : Txt → Txt → Option Txt
  cd_itself : itself cdName = true
  env_program : itself envName = false
  timeout_program : itself timeoutName = false
  cd_word : reserved cdName = false
  env_word : reserved envName = false
  timeout_word : reserved timeoutName = false

structure World where
  expand : State → Word → List Txt
  value : State → Word → Txt
  act : State → Command → State
  status : Command → Nat
  lasts : Command → ℚ
  beyond : State → Txt → Outcome

/-! ## One simple command -/

def isNameChar (c : Char) : Bool := c.isAlphanum || c = '_'

def isName (t : Txt) : Bool :=
  t.head?.any (fun c => !c.isDigit) && t.all isNameChar

/-- The characters of a word before its first equals sign. -/
def namePart (w : Word) : Word := w.takeWhile fun g => decide (g.char ≠ '=')

def valuePart (w : Word) : Word := (w.dropWhile fun g => decide (g.char ≠ '=')).tail

/-- A word is an assignment when a bare name and a bare equals sign begin it. -/
def isAssignment (w : Word) : Bool :=
  isName (namePart w).text && (namePart w).all (fun g => decide (g.kind = .bare)) &&
    (w.dropWhile fun g => decide (g.char ≠ '=')).head? = some ⟨'=', .bare⟩

theorem mem_text_of_isAssignment {a : Word} (h : isAssignment a = true) : '=' ∈ a.text := by
  simp only [isAssignment, Bool.and_eq_true, decide_eq_true_eq] at h
  have hmem := (List.dropWhile_sublist _).mem (List.mem_of_mem_head? h.2)
  exact List.mem_map_of_mem hmem

namespace Simple

def assignments (c : Simple) : List Word := c.words.takeWhile isAssignment

def operands (c : Simple) : List Word := c.words.dropWhile isAssignment

end Simple

namespace World

variable (W : World) (s : State)

def fields (w : Word) : List Txt := if w.plain then [w.text] else W.expand s w

def text (w : Word) : Txt := if w.plain then w.text else W.value s w

def assigned (w : Word) : Txt × Txt := ((namePart w).text, W.text s (valuePart w))

/-- `timeout` ends a program with 124. -/
def exit (limit : Option Nat) (c : Command) : Nat :=
  if limit.any (fun n : Nat => decide ((n : ℚ) < W.lasts c)) then 124 else W.status c

def argv (c : Simple) : List Txt := c.operands.flatMap (W.fields s)

theorem flatMap_fields {ws : List Word} (h : ∀ w ∈ ws, w.plain = true) :
    ws.flatMap (W.fields s) = ws.map Word.text := by
  induction ws with
  | nil => rfl
  | cons w ws ih =>
    rw [List.flatMap_cons, fields, if_pos (h w (.head _)), ih fun v hv => h v (.tail _ hv)]
    rfl

end World

namespace Machine

variable (M : Machine) (W : World)

/-- A duplicate of something that is no descriptor is a file for both streams. -/
def redirect (s : State) (fds : Nat → Dest) (r : Redirection) : Nat → Dest :=
  let t := W.text s r.target
  match r.op with
  | .input => Function.update fds (r.fd.getD 0) (.file (M.locate s.dir t) false)
  | .output => Function.update fds (r.fd.getD 1) (.file (M.locate s.dir t) false)
  | .append => Function.update fds (r.fd.getD 1) (.file (M.locate s.dir t) true)
  | .dup =>
    if t ≠ [] ∧ t.all Char.isDigit then
      Function.update fds (r.fd.getD 1) (fds (Lexer.number t))
    else
      Function.update (Function.update fds 1 (.file (M.locate s.dir t) false)) 2
        (.file (M.locate s.dir t) false)

def piped (fromPipe toPipe : Bool) (fd : Nat) : Dest :=
  if (fd = 0 ∧ fromPipe = true) ∨ (fd = 1 ∧ toPipe = true) then .pipe else .inherited fd

/-- What a builtin does to the shell, and its status.  `cd` with one operand enters the
directory it names. -/
def builtin (s : State) (c : Command) : State × Nat :=
  match c.argv with
  | [name, d] =>
    if name = cdName ∧ isOption d = false then
      match M.enter s.dir d with
      | some dir => ({ s with dir := dir }, 0)
      | none => (s, 1)
    else (W.act s c, W.status c)
  | _ => (W.act s c, W.status c)

def commandOf (s : State) (fds : Nat → Dest) (c : Simple) : Command × Option Nat :=
  let assigned := c.assignments.map (W.assigned s)
  match W.argv s c with
  | [] => (⟨true, [], assigned, s.env, s.dir, fds⟩, none)
  | name :: args =>
    if M.itself name then (⟨true, name :: args, assigned, s.env, s.dir, fds⟩, none)
    else
      let l := resolve (name :: args)
      (⟨false, l.argv, [], (s.env.apply (assigned.map fun p => (p.1, some p.2))).apply l.changes,
        s.dir, fds⟩, l.limit)

/-- A simple command executed, and the shell after it. -/
def exec (s : State) (fromPipe toPipe : Bool) (c : Simple) : Executed × State :=
  let fds := c.redirections.foldl (M.redirect W s) (piped fromPipe toPipe)
  let p := M.commandOf W s fds c
  if p.1.builtin then (⟨p.1, none, (M.builtin W s p.1).2⟩, (M.builtin W s p.1).1)
  else (⟨p.1, p.2, W.exit p.2 p.1⟩, s)

/-! ## Lists -/

/-- Whether a command after the operator `o` runs.  A later stage of a pipeline runs
with the stage before it. -/
def runsAfter (o : Op) (status : Nat) (running : Bool) : Bool :=
  match o with
  | .andThen => status = 0
  | .orElse => status ≠ 0
  | .pipe => running
  | .seq => true
  | .newline => true

def intoPipe (rest : Script) : Bool := rest.head?.any fun p => decide (p.1 = .pipe)

def runScript : State → Nat → Bool → Script → Outcome
  | _, status, _, [] => ⟨[], status⟩
  | s, status, running, (o, c) :: rest =>
    if runsAfter o status running then
      let r := M.exec W s (decide (o = .pipe)) (intoPipe rest) c
      let s' := if o = .pipe ∨ intoPipe rest = true then s else r.2
      let out := runScript s' r.1.status true rest
      ⟨r.1 :: out.ran, out.status⟩
    else runScript s status false rest

/-- A text that the shell refuses ends with 2. -/
def run (s : State) (t : Txt) : Outcome :=
  match read M.reserved t with
  | .read l => M.runScript W s 0 true l
  | .refused => ⟨[], 2⟩
  | .beyond => W.beyond s t

/-! ## Rules -/

section Rules

variable {M W} {s : State} {fds : Nat → Dest} {c : Simple} {fromPipe toPipe : Bool}

/-- The files that a command is connected to. -/
def fdsOf (M : Machine) (W : World) (s : State) (fromPipe toPipe : Bool) (c : Simple) :
    Nat → Dest :=
  c.redirections.foldl (M.redirect W s) (piped fromPipe toPipe)

theorem exec_command : (M.exec W s fromPipe toPipe c).1.command =
    (M.commandOf W s (M.fdsOf W s fromPipe toPipe c) c).1 := by
  unfold exec
  dsimp only
  split_ifs <;> rfl

/-- A program leaves the shell as it was. -/
theorem exec_program
    (h : (M.commandOf W s (M.fdsOf W s fromPipe toPipe c) c).1.builtin = false) :
    M.exec W s fromPipe toPipe c =
      (⟨(M.commandOf W s (M.fdsOf W s fromPipe toPipe c) c).1,
        (M.commandOf W s (M.fdsOf W s fromPipe toPipe c) c).2,
        W.exit (M.commandOf W s (M.fdsOf W s fromPipe toPipe c) c).2
          (M.commandOf W s (M.fdsOf W s fromPipe toPipe c) c).1⟩, s) := by
  unfold fdsOf at h ⊢
  unfold exec
  dsimp only
  rw [if_neg (by rw [h]; exact Bool.false_ne_true)]

theorem commandOf_program {name : Txt} {args : List Txt} (h : W.argv s c = name :: args)
    (hname : M.itself name = false) :
    M.commandOf W s fds c =
      (⟨false, (resolve (name :: args)).argv, [],
        (s.env.apply ((c.assignments.map (W.assigned s)).map fun p => (p.1, some p.2))).apply
          (resolve (name :: args)).changes, s.dir, fds⟩, (resolve (name :: args)).limit) := by
  unfold commandOf
  simp only [h, hname, Bool.false_eq_true, if_false]

theorem commandOf_itself {name : Txt} {args : List Txt} (h : W.argv s c = name :: args)
    (hname : M.itself name = true) : M.commandOf W s fds c =
      (⟨true, name :: args, c.assignments.map (W.assigned s), s.env, s.dir, fds⟩, none) := by
  unfold commandOf
  simp only [h, hname, if_true]

theorem place_commandOf : (M.commandOf W s fds c).1.fds = fds ∧
    (M.commandOf W s fds c).1.dir = s.dir := by
  unfold commandOf
  dsimp only
  split
  · exact ⟨rfl, rfl⟩
  · split_ifs <;> exact ⟨rfl, rfl⟩

/-- No command has more arguments than its words expanded to. -/
theorem length_commandOf : (M.commandOf W s fds c).1.argv.length ≤ (W.argv s c).length := by
  unfold commandOf
  dsimp only
  split
  · exact Nat.zero_le _
  · rename_i hargv
    rw [hargv]
    split_ifs
    · exact Nat.le_refl _
    · exact length_resolve_le _

/-- A command that the shell executes sees the environment of the shell. -/
theorem env_of_builtin (h : (M.commandOf W s fds c).1.builtin = true) :
    (M.commandOf W s fds c).1.env = s.env := by
  unfold commandOf at h ⊢
  dsimp only at h ⊢
  split at h
  · rfl
  · split_ifs at h ⊢ with hname
    rfl

theorem runScript_cons {status : Nat} {running : Bool} {o : Op} {rest : Script} :
    M.runScript W s status running ((o, c) :: rest) =
      if runsAfter o status running then
        ⟨(M.exec W s (decide (o = .pipe)) (intoPipe rest) c).1 ::
          (M.runScript W
            (if o = .pipe ∨ intoPipe rest = true then s
              else (M.exec W s (decide (o = .pipe)) (intoPipe rest) c).2)
            (M.exec W s (decide (o = .pipe)) (intoPipe rest) c).1.status true rest).ran,
          (M.runScript W
            (if o = .pipe ∨ intoPipe rest = true then s
              else (M.exec W s (decide (o = .pipe)) (intoPipe rest) c).2)
            (M.exec W s (decide (o = .pipe)) (intoPipe rest) c).1.status true rest).status⟩
      else M.runScript W s status false rest := rfl

/-- The command at the beginning of a line runs. -/
theorem ran_line (s : State) (status : Nat) (running : Bool) (c : Simple) (rest : Script) :
    ∃ more, (M.runScript W s status running ((.newline, c) :: rest)).ran =
      (M.exec W s false (intoPipe rest) c).1 :: more := ⟨_, rfl⟩

/-- A script whose first command is a program. -/
theorem runScript_program {status : Nat} {running : Bool} {o : Op} {rest : Script}
    (ho : runsAfter o status running = true)
    (h : ∀ fds, (M.commandOf W s fds c).1.builtin = false) :
    M.runScript W s status running ((o, c) :: rest) =
      ⟨(M.exec W s (decide (o = .pipe)) (intoPipe rest) c).1 ::
        (M.runScript W s (M.exec W s (decide (o = .pipe)) (intoPipe rest) c).1.status true
          rest).ran,
        (M.runScript W s (M.exec W s (decide (o = .pipe)) (intoPipe rest) c).1.status true
          rest).status⟩ := by
  rw [runScript_cons, if_pos ho]
  simp only [exec_program (h _), ite_self]

/-- `c && c'` on a line of its own. -/
theorem runScript_andThen (M : Machine) (W : World) (s : State) (c c' : Simple) :
    M.runScript W s 0 true [(.newline, c), (.andThen, c')] =
      let r := M.exec W s false false c
      let r' := M.exec W r.2 false false c'
      if r.1.status = 0 then ⟨[r.1, r'.1], r'.1.status⟩ else ⟨[r.1], r.1.status⟩ := by
  obtain ⟨more, hmore⟩ : ∃ out : Outcome, M.runScript W s 0 true
      [(.newline, c), (.andThen, c')] = ⟨(M.exec W s false false c).1 :: out.ran, out.status⟩ ∧
      out = M.runScript W (M.exec W s false false c).2 (M.exec W s false false c).1.status true
        [(.andThen, c')] := ⟨_, rfl, rfl⟩
  have hand (status : Nat) : runsAfter .andThen status true = decide (status = 0) := rfl
  rw [hmore.1, hmore.2, runScript_cons, hand]
  by_cases hzero : (M.exec W s false false c).1.status = 0
  · rw [if_pos (decide_eq_true hzero)]
    simp only [hzero, if_true]
    rfl
  · rw [if_neg fun h => hzero (of_decide_eq_true h)]
    simp only [if_neg hzero]
    rfl

/-- What holds of every command of a script, in every state, holds of all that run. -/
theorem forall_ran {P : Command → Prop} {l : Script}
    (h : ∀ p ∈ l, ∀ s fds, P (M.commandOf W s fds p.2).1) (s : State) (status : Nat)
    (running : Bool) : ∀ e ∈ (M.runScript W s status running l).ran, P e.command := by
  induction l generalizing s status running with
  | nil =>
    intro e he
    cases he
  | cons p l ih =>
    obtain ⟨o, c⟩ := p
    have hrest := ih fun p hp => h p (.tail _ hp)
    rw [runScript_cons]
    by_cases ho : runsAfter o status running = true
    · rw [if_pos ho]
      intro e he
      rcases List.mem_cons.mp he with rfl | he
      · rw [exec_command]
        exact h _ (.head _) _ _
      · exact hrest _ _ _ e he
    · rw [if_neg ho]
      exact hrest _ _ _

theorem status_builtin_le {b : Nat} (hb : 1 ≤ b) (hstatus : ∀ c, W.status c ≤ b) (s : State)
    (c : Command) : (M.builtin W s c).2 ≤ b := by
  unfold builtin
  split
  · split_ifs
    · split
      · exact Nat.zero_le _
      · exact hb
    · exact hstatus _
  · exact hstatus _

theorem status_exec_le {b : Nat} (hb : 124 ≤ b) (hstatus : ∀ c, W.status c ≤ b) :
    (M.exec W s fromPipe toPipe c).1.status ≤ b := by
  unfold exec
  dsimp only
  split_ifs
  · exact status_builtin_le (Nat.le_trans (by decide) hb) hstatus _ _
  · unfold World.exit
    split_ifs
    · exact hb
    · exact hstatus _

/-- The status of a script is one that a command gave. -/
theorem status_runScript_le {b : Nat} (hb : 124 ≤ b) (hstatus : ∀ c, W.status c ≤ b) (l : Script)
    (s : State) (status : Nat) (running : Bool) (h : status ≤ b) :
    (M.runScript W s status running l).status ≤ b := by
  induction l generalizing s status running with
  | nil => exact h
  | cons p l ih =>
    obtain ⟨o, c⟩ := p
    rw [runScript_cons]
    by_cases ho : runsAfter o status running = true
    · rw [if_pos ho]
      exact ih _ _ _ (status_exec_le hb hstatus)
    · rw [if_neg ho]
      exact ih _ _ _ h

end Rules

end Machine

/-! ## A POSIX shell -/

def reservedWords : List Txt :=
  ["!".toList, "\x7b".toList, "\x7d".toList, "case".toList, "do".toList, "done".toList,
    "elif".toList, "else".toList, "esac".toList, "fi".toList, "for".toList, "if".toList,
    "in".toList, "then".toList, "until".toList, "while".toList]

/-- The special builtins, and the utilities that only a shell can run. -/
def builtinNames : List Txt :=
  [":".toList, ".".toList, "break".toList, "continue".toList, "eval".toList, "exec".toList,
    "exit".toList, "export".toList, "readonly".toList, "return".toList, "set".toList,
    "shift".toList, "times".toList, "trap".toList, "unset".toList, "alias".toList, "bg".toList,
    "cd".toList, "command".toList, "fc".toList, "fg".toList, "getopts".toList, "hash".toList,
    "jobs".toList, "kill".toList, "read".toList, "type".toList, "ulimit".toList, "umask".toList,
    "unalias".toList, "wait".toList]

def joinPath (dir path : Txt) : Txt :=
  if path.head? = some '/' then path else dir ++ '/' :: path

/-- A machine on which every path leads to a directory. -/
def posix : Machine where
  reserved w := decide (w ∈ reservedWords)
  itself w := decide (w ∈ builtinNames)
  locate := joinPath
  enter dir path := some (joinPath dir path)
  cd_itself := by decide
  env_program := by decide
  timeout_program := by decide
  cd_word := by decide
  env_word := by decide
  timeout_word := by decide

/-! ## Worlds that stay the same -/

namespace World

/-- A world in which everything takes no time, changes nothing and ends with `k`. -/
def steady (k : Nat) (expand : Word → List Txt) (value : Word → Txt) (beyond : Txt → Outcome) :
    World where
  expand _ := expand
  value _ := value
  act s _ := s
  status _ := k
  lasts _ := 0
  beyond _ := beyond

variable {k : Nat} {expand : Word → List Txt} {value : Word → Txt} {beyond : Txt → Outcome}

theorem exit_steady (limit : Option Nat) (c : Command) :
    (steady k expand value beyond).exit limit c = k := by
  have hno : limit.any (fun n : Nat => decide ((n : ℚ) < (steady k expand value beyond).lasts c)) =
      false := by
    cases limit with
    | none => rfl
    | some n => exact decide_eq_false (not_lt.mpr (Nat.cast_nonneg n))
  rw [exit, hno, if_neg Bool.false_ne_true]
  rfl

end World

namespace Machine

/-- The operator that decides whether the last of these commands runs: that before the
first stage of its pipeline. -/
def leading (lead : Op) : List Op → Op
  | [] => lead
  | o :: os => leading (if o = .pipe then lead else o) os

theorem runsAfter_lead {o lead : Op} {status : Nat} {running : Bool}
    (h : running = runsAfter lead status true) :
    runsAfter o status running = runsAfter (if o = .pipe then lead else o) status true := by
  cases o with
  | pipe => exact h
  | _ => rfl

/-- Where every command ends with `k`, a command behind programs alone runs when its
leading operator lets `k` pass. -/
theorem mem_ran_of_leading {M : Machine} {k : Nat} {expand : Word → List Txt}
    {value : Word → Txt} {beyond : Txt → Outcome} {s : State} {before : Script} {o : Op}
    {c : Simple} {after : Script}
    (hbefore : ∀ p ∈ before, ∀ fds,
      (M.commandOf (.steady k expand value beyond) s fds p.2).1.builtin = false)
    {lead : Op} {running : Bool} (hrunning : running = runsAfter lead k true)
    (hlead : runsAfter (leading lead (before.map Prod.fst ++ [o])) k true = true) :
    ∃ fromPipe toPipe, (M.exec (.steady k expand value beyond) s fromPipe toPipe c).1 ∈
      (M.runScript (.steady k expand value beyond) s k running
        (before ++ (o, c) :: after)).ran := by
  induction before generalizing lead running with
  | nil =>
    have ho : runsAfter o k running = true := (runsAfter_lead hrunning).trans hlead
    rw [List.nil_append, runScript_cons, if_pos ho]
    exact ⟨_, _, .head _⟩
  | cons p before ih =>
    obtain ⟨o₁, c₁⟩ := p
    have hnext : runsAfter o₁ k running = _ := runsAfter_lead hrunning
    rw [List.map_cons, List.cons_append, leading] at hlead
    have hrest := @ih fun p hp => hbefore p (.tail _ hp)
    rw [List.cons_append]
    by_cases ho : runsAfter o₁ k running = true
    · rw [runScript_program ho (hbefore _ (.head _)), exec_program (hbefore _ (.head _) _)]
      simp only [World.exit_steady]
      obtain ⟨fromPipe, toPipe, hmem⟩ := hrest (ho.symm.trans hnext) hlead
      exact ⟨fromPipe, toPipe, .tail _ hmem⟩
    · rw [runScript_cons, if_neg ho]
      rw [Bool.not_eq_true] at ho
      exact hrest (ho.symm.trans hnext) hlead

end Machine

end Shell
end RocmTests

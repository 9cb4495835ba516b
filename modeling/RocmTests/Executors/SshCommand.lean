import RocmTests.Shell.Exports

/-!
# The text that goes to a node

`SshExecutor.run` wraps a command twice: a script that tells its process number, exports variables
and becomes a login shell, and around it the `bash -c` that the node is asked to run.  Both are
quoted for one shell each, so that the login shell is given the command as it is, whatever it is.
-/

namespace RocmTests
namespace Executors
namespace SshCommand

open Text Shell

def execName : Txt := "exec".toList

def echoName : Txt := "echo".toList

def loginOption : Txt := "-lc".toList

/-- `script`, with the environment of `_inner_run` -/
def script (effectiveEnv : List (Txt × Txt)) (cmd : Txt) : Txt :=
  "echo __SSH_PID__$$ >&2; ".toList ++
    (exportsText effectiveEnv ++ ("exec bash -lc ".toList ++ quote cmd))

/-- `wrapped_cmd` -/
def wrappedCmd (effectiveEnv : List (Txt × Txt)) (cmd : Txt) : Txt :=
  "bash -c ".toList ++ quote (script effectiveEnv cmd)

/-- The shell that runs the script has `exec` itself, and takes `echo` for a command. -/
structure Execs (M : Machine) : Prop where
  exec_itself : M.itself execName = true
  exec_word : M.reserved execName = false
  echo_word : M.reserved echoName = false

/-- The node starts the script, and what the script does last is to become a login shell that is
given the command. -/
structure GivesLogin (M : Machine) (W : World) (s : State) (effectiveEnv : List (Txt × Txt))
    (cmd : Txt) : Prop where
  script : (M.run W s (wrappedCmd effectiveEnv cmd)).ran.map Executed.command =
    [launched s [bashName, commandOption, script effectiveEnv cmd]]
  login : ((M.run W (fresh s.env s.dir) (SshCommand.script effectiveEnv cmd)).ran.getLast?.map
    fun e =>
    e.command.argv) = some [execName, bashName, loginOption, cmd]

section

variable {kept : Txt → Prop} {M : Machine} {W : World}

/-- The last command of a list runs when a semicolon is before it. -/
theorem last_ran (c : Simple) (l : Script) : ∀ (s : State) (status : Nat) (running : Bool),
    ∃ s', (M.runScript W s status running (l ++ [(.seq, c)])).ran.getLast? =
      some (M.exec W s' false false c).1 := by
  induction l with
  | nil => exact fun s _ _ => ⟨s, rfl⟩
  | cons p l ih =>
    intro s status running
    obtain ⟨o, c'⟩ := p
    rw [List.cons_append, Machine.runScript_cons]
    by_cases hruns : Machine.runsAfter o status running = true
    · rw [if_pos hruns]
      obtain ⟨s', hlast⟩ := ih (if o = .pipe ∨ Machine.intoPipe (l ++ [(.seq, c)]) = true then s
        else (M.exec W s (decide (o = .pipe)) (Machine.intoPipe (l ++ [(.seq, c)])) c').2)
        (M.exec W s (decide (o = .pipe)) (Machine.intoPipe (l ++ [(.seq, c)])) c').1.status true
      refine ⟨s', ?_⟩
      dsimp only
      rw [List.getLast?_cons, hlast]
      rfl
    · rw [if_neg hruns]
      exact ih s status false

/-- The command that tells the process number. -/
def echoCommand : Simple :=
  ⟨[.of .bare echoName, .of .bare "__SSH_PID__".toList ++ .of .active "$$".toList],
    [⟨none, .dup, .of .bare "2".toList⟩]⟩

def echoTokens : List Token :=
  [.word (.of .bare echoName), .word (.of .bare "__SSH_PID__".toList ++ .of .active "$$".toList),
    .redirect none .dup, .word (.of .bare "2".toList)]

def execWords (cmd : Txt) : List Word :=
  [.of .bare execName, .of .bare bashName, .of .bare loginOption, quotedWord cmd]

theorem tokens_script {effectiveEnv : List (Txt × Txt)}
    (hname : ∀ p ∈ effectiveEnv, isName p.1 = true)
    (cmd : Txt) : tokens (script effectiveEnv cmd) =
      .read (echoTokens ++
        Token.op .seq :: (exportTokens effectiveEnv ++ (execWords cmd).map .word)) := by
  have hecho : "echo __SSH_PID__$$ >&2; ".toList.foldl Lexer.step Lexer.start =
      ⟨echoTokens ++ [Token.op .seq], none, .plain⟩ := rfl
  have hexec (ts : List Token) : "exec bash -lc ".toList.foldl Lexer.step ⟨ts, none, .plain⟩ =
      ⟨ts ++ [Token.word (.of .bare execName)] ++ [Token.word (.of .bare bashName)] ++
        [Token.word (.of .bare loginOption)], none, .plain⟩ := rfl
  have hall := Lexer.foldl_append_of hecho (Lexer.foldl_append_of
    (foldl_exports hname (echoTokens ++ [Token.op .seq])) (Lexer.foldl_append_of (hexec _)
      (reads_quote cmd _ _)))
  have hfinish : tokens (script effectiveEnv cmd) = _ := congrArg Lexer.finish hall
  rw [hfinish]
  simp [Lexer.finish, Lexer.flush, execWords]

theorem script_tokens (hbash : Bash kept M W) (hexecs : Execs M) (effectiveEnv : List (Txt × Txt))
    (cmd : Txt) : Shell.script M.reserved
        (echoTokens ++ Token.op .seq :: (exportTokens effectiveEnv ++ (execWords cmd).map .word)) =
      .read ((.newline, echoCommand) :: asScript (exportCommands effectiveEnv) ++
        [(.seq, ⟨execWords cmd, []⟩)]) := by
  obtain ⟨o, ws, rest, hcommands, ho, htokens⟩ := exportTokens_spell effectiveEnv (execWords cmd) []
  have hbegins : ∀ p ∈ exportCommands effectiveEnv ++ [(.seq, execWords cmd)],
      Begins M.reserved p.2 := by
    intro p hp
    rcases List.mem_append.mp hp with hp | hp
    · obtain ⟨q, -, rfl⟩ := List.mem_map.mp hp
      exact ⟨_, _, rfl, hbash.export_word⟩
    · rw [List.mem_singleton.mp hp]
      exact ⟨.of .bare execName, _, rfl, hexecs.exec_word⟩
  have hspell : exportTokens effectiveEnv ++ (execWords cmd).map .word = spell ws rest := htokens
  have hlist : asScript (exportCommands effectiveEnv) ++ [(.seq, ⟨execWords cmd, []⟩)] =
      (.seq, ⟨ws, []⟩) :: asScript rest := by
    have hmap := congrArg asScript hcommands
    rwa [asScript, List.map_append, ho] at hmap
  rw [hcommands, ho] at hbegins
  have hopens : (((Op.seq, ws.map Token.word) :: rest.map fun p => (p.1, p.2.map Token.word)).any
      fun p => opensCompound M.reserved p.2) = false := by
    have hmap : (Op.seq, ws.map Token.word) :: rest.map (fun p => (p.1, p.2.map Token.word)) =
        ((Op.seq, ws) :: rest).map fun p => (p.1, p.2.map Token.word) := rfl
    rw [hmap, List.any_map, List.any_eq_false]
    exact fun p hp => Bool.eq_false_iff.mp (opensCompound_words (hbegins p hp))
  have hecho : opensCompound M.reserved echoTokens = false := by
    rw [echoTokens, opensCompound]
    rw [Word.text_of, hexecs.echo_word, Bool.and_false]
  have hne : ∀ p ∈ (Op.seq, ws) :: rest, p.2 ≠ [] := by
    intro p hp
    obtain ⟨w, ws', hw, -⟩ := hbegins p hp
    rw [hw]
    exact List.cons_ne_nil w ws'
  have hchunks : chunks (echoTokens ++ Token.op .seq :: spell ws rest) =
      (echoTokens, (.seq, (chunks (spell ws rest)).1) :: (chunks (spell ws rest)).2) := rfl
  have harrange : arrange .newline echoTokens ((.seq, ws.map Token.word) ::
      rest.map fun p => (p.1, p.2.map Token.word)) =
        (arrange .seq (ws.map .word) (rest.map fun p => (p.1, p.2.map .word))).map
          ((.newline, echoCommand) :: ·) := rfl
  rw [hspell]
  unfold Shell.script
  simp only [hchunks, chunks_spell, hecho, hopens, Bool.or_self, Bool.false_eq_true, if_false]
  rw [harrange, arrange_words (hne _ List.mem_cons_self)
    fun p hp => hne p (List.mem_cons_of_mem _ hp), Option.map_some, List.cons_append, hlist]
  rfl

theorem inert_words {ws : List Word} (h : ∀ w ∈ ws, w.plain = true) : ∀ w ∈ ws, inert w = true :=
  fun w hw => inert_of_plain (h w hw)

/-- The login shell is given the command, whatever is exported before and whatever the command
is. -/
theorem gives_login (hbash : Bash kept M W) (hexecs : Execs M) {effectiveEnv : List (Txt × Txt)}
    (hname : ∀ p ∈ effectiveEnv, isName p.1 = true) (s : State) (cmd : Txt) :
    GivesLogin M W s effectiveEnv cmd := by
  constructor
  · have hfront : "bash -c ".toList.foldl Lexer.step Lexer.start =
        ⟨[.word (.of .bare bashName), .word (.of .bare commandOption)], none, .plain⟩ := rfl
    have hall := Lexer.foldl_append_of hfront (reads_quote (script effectiveEnv cmd) _ _)
    have htokens : tokens (wrappedCmd effectiveEnv cmd) = .read [.word (.of .bare bashName),
        .word (.of .bare commandOption), .word (quotedWord (script effectiveEnv cmd))] :=
      congrArg Lexer.finish hall
    exact run_bash hbash htokens (inert_of_plain (plain_quotedWord _)) (text_quotedWord _)
  · have hread : Shell.read M.reserved (script effectiveEnv cmd) =
        .read ((.newline, echoCommand) :: asScript (exportCommands effectiveEnv) ++
          [(.seq, ⟨execWords cmd, []⟩)]) := by
      rw [Shell.read, tokens_script hname, Reading.bind_read]
      exact script_tokens hbash hexecs effectiveEnv cmd
    obtain ⟨s', hlast⟩ := last_ran (M := M) (W := W) ⟨execWords cmd, []⟩
      ((.newline, echoCommand) :: asScript (exportCommands effectiveEnv)) (fresh s.env s.dir) 0 true
    have hplain : ∀ w ∈ execWords cmd, w.plain = true := by
      intro w hw
      simp only [execWords, List.mem_cons, List.not_mem_nil, or_false] at hw
      rcases hw with rfl | rfl | rfl | rfl
      · exact Word.plain_of (by decide) _
      · exact Word.plain_of (by decide) _
      · exact Word.plain_of (by decide) _
      · exact plain_quotedWord cmd
    have hinert : ∀ w ∈ Word.of .bare execName ::
        [.of .bare bashName, .of .bare loginOption, quotedWord cmd], inert w = true :=
          inert_words hplain
    have hexec :=
      hbash.exec_itself (s := s') (w := .of .bare execName) hexecs.exec_itself (by decide)
      hinert
    have htexts : [Word.of .bare bashName, .of .bare loginOption, quotedWord cmd].map Word.text =
        [bashName, loginOption, cmd] := by
      rw [List.map_cons, List.map_cons, List.map_singleton, Word.text_of, Word.text_of,
        text_quotedWord]
    rw [htexts] at hexec
    rw [Machine.run, hread]
    dsimp only
    rw [hlast, Option.map_some, execWords, hexec]
    rfl

end

end SshCommand
end Executors
end RocmTests

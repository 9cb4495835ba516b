import RocmTests.Shell.Argument

/-!
# A shell inside a shell

`bash -c` is a program that reads its argument as a text of its own, in the environment and the
directory it was started in.  `leaves` are the programs that a text comes to when each shell that it
starts is replaced by the programs that one runs.

What the expansions of a shell do is left open but for words that they leave alone.
-/

namespace RocmTests
namespace Shell

open Text

def bashName : Txt := "bash".toList

def exportName : Txt := "export".toList

def commandOption : Txt := "-c".toList

/-- A program that is found under its name where a command begins. -/
structure Program (M : Machine) (name : Txt) : Prop where
  program : M.itself name = false
  word : M.reserved name = false

/-- What is known of both shells.  The variables in `kept` mean something to the shell itself, which
sets them or goes by them. -/
structure Bash (kept : Txt → Prop) (M : Machine) (W : World) : Prop where
  bash : Program M bashName
  export_itself : M.itself exportName = true
  export_word : M.reserved exportName = false
  expand : ∀ s w, inert w = true → W.expand s w = [w.text]
  exports : ∀ s c k v, c.argv = [exportName, k ++ '=' :: v] → isName k = true → ¬ kept k →
    W.act s c = { s with env := Function.update s.env k (some v) }

/-- The state in which a shell begins. -/
def fresh (env : Env) (dir : Txt) : State := ⟨env, fun _ => none, dir⟩

def Outcome.programs (out : Outcome) : List Command :=
  (out.ran.map Executed.command).filter fun c => !c.builtin

/-- What a program comes to, if it is `bash -c` with a text. -/
def nested (M : Machine) (W : World) (c : Command) : List Command :=
  match c.argv with
  | [name, option, t] =>
    if name = bashName ∧ option = commandOption then (M.run W (fresh c.env c.dir) t).programs
    else [c]
  | _ => [c]

def leaves (M : Machine) (W : World) (s : State) (t : Txt) : List Command :=
  (M.run W s t).programs.flatMap (nested M W)

/-- The text put between double quotes as it stands. -/
def bashC (t : Txt) : Txt := "bash -c ".toList ++ ('"' :: t ++ ['"'])

/-- A program started with these arguments. -/
def launched (s : State) (argv : List Txt) : Command :=
  ⟨false, argv, [], s.env, s.dir, Machine.piped false false⟩

/-- A shell given `bash -c "…"` starts one program, and hands it the text itself. -/
def Handed (kept : Txt → Prop) (t : Txt) : Prop :=
  ∀ M W s, Bash kept M W →
    (M.run W s (bashC t)).ran.map Executed.command = [launched s [bashName, commandOption, t]]

/-! ## Commands of words alone -/

section Words

variable {kept : Txt → Prop} {M : Machine} {W : World} {s : State} {w : Word} {ws : List Word}

theorem Bash.flatMap_fields (hbash : Bash kept M W) (h : ∀ v ∈ ws, inert v = true) :
    ws.flatMap (W.fields s) = ws.map Word.text := by
  have hfields : ∀ v ∈ ws, W.fields s v = [v.text] := by
    intro v hv
    unfold World.fields
    by_cases hplain : v.plain = true
    · rw [if_pos hplain]
    · rw [if_neg hplain]
      exact hbash.expand s v (h v hv)
  clear h
  induction ws with
  | nil => rfl
  | cons v ws ih =>
    rw [List.flatMap_cons, hfields v List.mem_cons_self,
      ih fun u hu => hfields u (List.mem_cons_of_mem v hu)]
    rfl

theorem operands_of_name (hname : '=' ∉ w.text) :
    Simple.assignments ⟨w :: ws, []⟩ = [] ∧ Simple.operands ⟨w :: ws, []⟩ = w :: ws := by
  have hno : ¬ isAssignment w = true := fun h => hname (mem_text_of_isAssignment h)
  exact ⟨List.takeWhile_cons_of_neg hno, List.dropWhile_cons_of_neg hno⟩

theorem Bash.argv_words (hbash : Bash kept M W) (hname : '=' ∉ w.text)
    (h : ∀ v ∈ w :: ws, inert v = true) :
    W.argv s ⟨w :: ws, []⟩ = w.text :: ws.map Word.text := by
  rw [World.argv, (operands_of_name hname).2, hbash.flatMap_fields h, List.map_cons]

/-- A program that is given words: it is started with their texts. -/
theorem Bash.exec_words (hbash : Bash kept M W) (hprogram : M.itself w.text = false)
    (hname : '=' ∉ w.text) (henv : w.text ≠ envName) (htimeout : w.text ≠ timeoutName)
    (h : ∀ v ∈ w :: ws, inert v = true) :
    (M.exec W s false false ⟨w :: ws, []⟩).1.command = launched s (w.text :: ws.map Word.text) ∧
      (M.exec W s false false ⟨w :: ws, []⟩).2 = s := by
  have hargv : W.argv s ⟨w :: ws, []⟩ = w.text :: ws.map Word.text := hbash.argv_words hname h
  have hcommand (fds : Nat → Dest) : M.commandOf W s fds ⟨w :: ws, []⟩ = _ :=
    Machine.commandOf_program hargv hprogram
  have hresolve := resolve_of_not_peel (peel_of_program henv htimeout (ws.map Word.text))
  have hbuiltin (fds : Nat → Dest) : (M.commandOf W s fds ⟨w :: ws, []⟩).1.builtin = false := by
    rw [hcommand]
  rw [Machine.exec_program (hbuiltin _), hcommand, hresolve, (operands_of_name hname).1]
  exact ⟨rfl, rfl⟩

/-- A builtin that is given words. -/
theorem Bash.exec_itself (hbash : Bash kept M W) (hitself : M.itself w.text = true)
    (hname : '=' ∉ w.text) (h : ∀ v ∈ w :: ws, inert v = true) :
    let c : Command := { launched s (w.text :: ws.map Word.text) with builtin := true }
    M.exec W s false false ⟨w :: ws, []⟩ =
      (⟨c, none, (M.builtin W s c).2⟩, (M.builtin W s c).1) := by
  have hargv : W.argv s ⟨w :: ws, []⟩ = w.text :: ws.map Word.text := hbash.argv_words hname h
  have hcommand (fds : Nat → Dest) : M.commandOf W s fds ⟨w :: ws, []⟩ = _ :=
    Machine.commandOf_itself hargv hitself
  unfold Machine.exec
  simp only [hcommand, (operands_of_name hname).1]
  rfl

end Words

/-! ## Lists of such commands -/

/-- The tokens of commands, an operator before each but the first. -/
def spell (ws : List Word) : List (Op × List Word) → List Token
  | [] => ws.map .word
  | (o, ws') :: rest => ws.map .word ++ .op o :: spell ws' rest

theorem chunks_spell (ws : List Word) (rest : List (Op × List Word)) :
    chunks (spell ws rest) = (ws.map .word, rest.map fun p => (p.1, p.2.map .word)) := by
  induction rest generalizing ws with
  | nil =>
    have h := chunks_append ws []
    have hnil : chunks [] = ([], []) := rfl
    rw [List.append_nil, hnil, List.append_nil] at h
    exact h
  | cons p rest ih =>
    obtain ⟨o, ws'⟩ := p
    have hop : chunks (.op o :: spell ws' rest) =
        ([], (o, (chunks (spell ws' rest)).1) :: (chunks (spell ws' rest)).2) := rfl
    rw [spell, chunks_append, hop, ih, List.append_nil]
    rfl

theorem simple_words (ws : List Word) : simple (ws.map .word) = some ⟨ws, []⟩ := by
  have h := simple_append ws []
  rw [List.append_nil] at h
  rw [h, simple, Option.map_some, Simple.behind, List.append_nil]

theorem arrange_words {before : Op} {ws : List Word} {rest : List (Op × List Word)}
    (hws : ws ≠ []) (hrest : ∀ p ∈ rest, p.2 ≠ []) :
    arrange before (ws.map .word) (rest.map fun p => (p.1, p.2.map .word)) =
      some ((before, ⟨ws, []⟩) :: rest.map fun p => (p.1, ⟨p.2, []⟩)) := by
  induction rest generalizing before ws with
  | nil => rw [List.map_nil, arrange, if_neg (by simpa using hws), simple_words]; rfl
  | cons p rest ih =>
    rw [List.map_cons, arrange, if_neg (by simpa using hws), simple_words, Option.bind_some,
      ih (hrest p List.mem_cons_self) fun q hq => hrest q (List.mem_cons_of_mem p hq)]
    rfl

/-- The first word of a command begins no compound command. -/
def Begins (reserved : Txt → Bool) (ws : List Word) : Prop :=
  ∃ w ws', ws = w :: ws' ∧ reserved w.text = false

theorem opensCompound_words {reserved : Txt → Bool} {ws : List Word} (h : Begins reserved ws) :
    opensCompound reserved (ws.map .word) = false := by
  obtain ⟨w, ws', rfl, hw⟩ := h
  rw [List.map_cons, opensCompound, hw, Bool.and_false]

/-- Commands of words alone are read as they were spelled. -/
theorem script_spell {reserved : Txt → Bool} {ws : List Word} {rest : List (Op × List Word)}
    (hws : Begins reserved ws) (hrest : ∀ p ∈ rest, Begins reserved p.2) :
    script reserved (spell ws rest) =
      .read ((.newline, ⟨ws, []⟩) :: rest.map fun p => (p.1, ⟨p.2, []⟩)) := by
  have hne : ∀ {ws : List Word}, Begins reserved ws → ws ≠ [] := by
    intro ws h
    obtain ⟨w, ws', rfl, -⟩ := h
    exact List.cons_ne_nil w ws'
  have hany : ((rest.map fun p => (p.1, p.2.map Token.word)).any
      fun p => opensCompound reserved p.2) = false := by
    rw [List.any_map, List.any_eq_false]
    exact fun p hp => Bool.eq_false_iff.mp (opensCompound_words (hrest p hp))
  unfold script
  simp only [chunks_spell, opensCompound_words hws, hany, Bool.or_self, Bool.false_eq_true,
    if_false]
  rw [arrange_words (hne hws) fun p hp => hne (hrest p hp)]
  rfl

/-! ## The text that is handed over -/

section Handing

variable {kept : Txt → Prop} {M : Machine} {W : World} {s : State} {t : Txt}

theorem tokens_bashC (h : calm t (some '"') = true) : tokens (bashC t) =
    .read [.word (.of .bare bashName), .word (.of .bare commandOption), .word (standing t)] := by
  have hfront : "bash -c ".toList.foldl Lexer.step Lexer.start =
      ⟨[.word (.of .bare bashName), .word (.of .bare commandOption)], none, .plain⟩ := rfl
  have hall := Lexer.foldl_append_of hfront (reads_standing h _ _)
  exact congrArg Lexer.finish hall

/-- `bash -c` and a word that stands for its text. -/
theorem run_bash (hbash : Bash kept M W) {cmd : Txt} {w : Word} (htokens : tokens cmd =
      .read [.word (.of .bare bashName), .word (.of .bare commandOption), .word w])
    (hinert : inert w = true) (htext : w.text = t) :
    (M.run W s cmd).ran.map Executed.command = [launched s [bashName, commandOption, t]] := by
  have hscript : read M.reserved cmd = .read [(.newline,
      ⟨[.of .bare bashName, .of .bare commandOption, w], []⟩)] := by
    have hbegins : Begins M.reserved [.of .bare bashName, .of .bare commandOption, w] :=
      ⟨.of .bare bashName, _, rfl, hbash.bash.word⟩
    have hspell := script_spell hbegins fun p (hp : p ∈ []) => by cases hp
    rw [read, htokens, Reading.bind_read]
    exact hspell
  have hall : ∀ v ∈ [Word.of .bare bashName, .of .bare commandOption, w], inert v = true := by
    intro v hv
    simp only [List.mem_cons, List.not_mem_nil, or_false] at hv
    rcases hv with rfl | rfl | rfl
    · exact inert_of_plain (by decide)
    · exact inert_of_plain (by decide)
    · exact hinert
  have hexec := hbash.exec_words (s := s) (w := .of .bare bashName)
    hbash.bash.program (by decide) (by decide) (by decide) hall
  have htexts : [Word.of .bare commandOption, w].map Word.text = [commandOption, t] := by
    rw [List.map_cons, List.map_singleton, Word.text_of, htext]
  rw [htexts, Word.text_of] at hexec
  rw [Machine.run, hscript]
  exact congrArg (fun c => [c]) hexec.1

/-- The shell inside is given a calm text as it is. -/
theorem handed_of_calm (h : calm t (some '"') = true) : Handed kept t :=
  fun _ _ _ hbash => run_bash hbash (tokens_bashC h) (inert_standing h) (text_standing t)

/-- What a text comes to that is handed over: what the shell inside makes of it. -/
theorem leaves_bashC (hbash : Bash kept M W) (h : Handed kept t) :
    leaves M W s (bashC t) = (M.run W (fresh s.env s.dir) t).programs := by
  have hprograms : (M.run W s (bashC t)).programs = [launched s [bashName, commandOption, t]] := by
    unfold Outcome.programs
    rw [h M W s hbash]
    rfl
  rw [leaves, hprograms, List.flatMap_singleton]
  unfold nested launched
  exact if_pos ⟨rfl, rfl⟩

end Handing

end Shell
end RocmTests

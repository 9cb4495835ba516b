import RocmTests.Shell.Exports
import RocmTests.Shell.Unquoted

/-!
# `make` on a node

`make_build` starts `make` itself with a list of arguments, or sends a node the text of a command
that starts it.  The text quotes the values of the environment for one shell and is then put between
double quotes for another one.
-/

namespace RocmTests
namespace Builder
namespace RemoteMake

open Text Shell

def makeName : Txt := "make".toList

/-- What `make_build` is called with.  `None` for the arguments or the environment is the
empty one. -/
structure MakeBuild where
  repoDir : Txt
  makeArgs : List Txt
  env : List (Txt × Txt)
  parallel : Bool

section

variable (b : MakeBuild) (jobs : Nat)

/-- Both branches count the processors of the node. -/
def jobsOption : Txt := "-j".toList ++ Nat.toDigits 10 jobs

/-- The text between the double quotes. -/
def innerText : Txt :=
  exportsText b.env ++ ("cd ".toList ++ (b.repoDir ++ (" && make ".toList ++
    (jobsOption jobs ++ ' ' :: [' '].intercalate b.makeArgs))))

/-- What is sent to the node. -/
def remoteCommand : Txt := bashC (innerText b jobs)

/-- `local_cmd` -/
def localArgv : List Txt :=
  makeName :: ((if b.parallel then [jobsOption jobs] else []) ++ b.makeArgs)

/-- The process that `subprocess.run` starts, if there is the directory. -/
def localRun (M : Machine) (s : State) : List Command :=
  match M.enter s.dir b.repoDir with
  | some dir =>
    [launched { s with env := s.env.apply (overlay b.env), dir := dir } (localArgv b jobs)]
  | none => []

/-- The login shell hands the shell inside the text that was built, and what the two come to is what
the local branch starts. -/
def SeesTheSame (kept : Txt → Prop) : Prop :=
  Handed kept (innerText b jobs) ∧ ∀ M W s, Bash kept M W → Program M makeName →
    leaves M W s (remoteCommand b jobs) = localRun b jobs M s

end

/-- A directory and names that a shell takes as they stand. -/
structure Setting (kept : Txt → Prop) (b : MakeBuild) : Prop where
  dir : Bare b.repoDir
  operand : isOption b.repoDir = false
  names : ∀ p ∈ b.env, isName p.1 = true
  kept : ∀ p ∈ b.env, ¬ kept p.1

/-- Arguments that a shell takes as they stand, and values that can stand, quoted, between double
quotes. -/
structure Clean (b : MakeBuild) : Prop where
  parallel : b.parallel = true
  args : ∀ a ∈ b.makeArgs, Bare a
  values : ∀ p ∈ b.env, Quotable p.2

/-! ## The two shells -/

section

variable {b : MakeBuild} {jobs : Nat} {kept : Txt → Prop} {M : Machine} {W : World}

theorem calm_arguments {args : List Txt} (h : ∀ a ∈ args, Bare a) :
    calm ([' '].intercalate args) (some '"') = true := by
  induction args with
  | nil => rfl
  | cons a args ih =>
    have ha := h a List.mem_cons_self
    by_cases hnil : args = []
    · rw [hnil, List.intercalate_singleton]
      exact calm_of_bare ha (by decide)
    · have hhead : ([' '] ++ [' '].intercalate args).head?.or (some '"') = some ' ' := rfl
      have hrest : calm ([' '] ++ [' '].intercalate args) (some '"') =
          calm ([' '].intercalate args) (some '"') := calm_front (forall_of_all (by decide)) _ _
      rw [List.intercalate_cons_of_ne_nil hnil, List.append_assoc, calm_append, hhead, hrest,
        calm_of_bare ha (by decide), ih fun c hc => h c (List.mem_cons_of_mem a hc), Bool.and_self]

theorem bare_jobsOption (jobs : Nat) : ∀ c ∈ jobsOption jobs, c ∉ special := by
  intro c hc
  rcases List.mem_append.mp hc with hc | hc
  · exact forall_of_all (p := fun c => c ∉ special) (by decide) c hc
  · have hdigit := Nat.isDigit_of_mem_toDigits (by decide) (by decide) hc
    have hno : special.all (fun c => !c.isDigit) = true := by decide
    intro hspecial
    have hfalse := List.all_eq_true.mp hno c hspecial
    rw [hdigit] at hfalse
    cases hfalse

/-- The text is calm as far as the values and the arguments are. -/
theorem calm_innerText (hset : Setting kept b) : calm (innerText b jobs) (some '"') = true ↔
    (∀ p ∈ b.env, Quotable p.2) ∧ calm ([' '].intercalate b.makeArgs) (some '"') = true := by
  have hsub : doubleSpecial ⊆ special := by decide
  have hjobs : calm (jobsOption jobs ++ ' ' :: [' '].intercalate b.makeArgs) (some '"') =
      calm ([' '].intercalate b.makeArgs) (some '"') := by
    rw [calm_front fun c hc hs => bare_jobsOption jobs c hc (hsub hs)]
    exact calm_cons_of_not_special (by decide) _ _
  have hmake := calm_front (a := " && make ".toList) (forall_of_all (by decide))
    (jobsOption jobs ++ ' ' :: [' '].intercalate b.makeArgs) (some '"')
  have hdir (t : Txt) (ht : t.head? = some ' ') :
      calm (b.repoDir ++ t) (some '"') = calm t (some '"') := by
    rw [calm_append, ht, Option.some_or, calm_of_bare hset.dir (by decide), Bool.true_and]
  have hcd := calm_front (a := "cd ".toList) (forall_of_all (by decide)) (b.repoDir ++
    (" && make ".toList ++ (jobsOption jobs ++ ' ' :: [' '].intercalate b.makeArgs))) (some '"')
  have hall := hcd.trans ((hdir _ rfl).trans (hmake.trans hjobs))
  unfold innerText
  rw [calm_append, Bool.and_eq_true, calm_exportsText hset.names]
  exact and_congr_right fun _ => Eq.congr_left hall

/-- The commands in front of the arguments. -/
def frontTokens (b : MakeBuild) (jobs : Nat) : List Token :=
  exportTokens b.env ++ ([.of .bare cdName, bareWord b.repoDir].map .word ++ .op .andThen ::
    [Word.of .bare makeName, .of .bare (jobsOption jobs)].map .word)

theorem reads_jobsOption (jobs : Nat) : Reads (jobsOption jobs) (.of .bare (jobsOption jobs)) :=
  reads_bare (List.cons_ne_nil _ _) (bare_jobsOption jobs)

theorem finish_innerText (hset : Setting kept b) :
    (innerText b jobs).foldl Lexer.step Lexer.start =
      ([' '].intercalate b.makeArgs).foldl Lexer.step (Lexer.start.after (frontTokens b jobs)) := by
  have hcd (ts : List Token) : "cd ".toList.foldl Lexer.step ⟨ts, none, .plain⟩ =
      ⟨ts ++ [Token.word (.of .bare cdName)], none, .plain⟩ := rfl
  have hmake (ts : List Token) (w : Word) (m : Mode) (hm : Lexer.Open m) :
      " && make ".toList.foldl Lexer.step ⟨ts, some w, m⟩ =
        ⟨ts ++ [Token.word w] ++ [Token.op .andThen] ++ [Token.word (.of .bare makeName)], none,
          .plain⟩ := by
    rcases hm with rfl | rfl <;> rfl
  have hjobs (ts : List Token) : (jobsOption jobs ++ [' ']).foldl Lexer.step ⟨ts, none, .plain⟩ =
      ⟨ts ++ [Token.word (.of .bare (jobsOption jobs))], none, .plain⟩ := by
    rw [List.foldl_append, reads_jobsOption]
    rfl
  obtain ⟨m, hm, hdir⟩ : ∃ m, Lexer.Open m ∧
      b.repoDir.foldl Lexer.step
          ⟨exportTokens b.env ++ [Token.word (.of .bare cdName)], none, .plain⟩ =
        ⟨exportTokens b.env ++ [Token.word (.of .bare cdName)], some (bareWord b.repoDir), m⟩ :=
    Lexer.foldl_bare_argument hset.dir
  have hexports := foldl_exports hset.names []
  have hfront := Lexer.foldl_append_of hexports (Lexer.foldl_append_of (hcd _)
    (Lexer.foldl_append_of hdir (Lexer.foldl_append_of (hmake _ _ m hm) (hjobs _))))
  have htext : innerText b jobs = (exportsText b.env ++ ("cd ".toList ++ (b.repoDir ++
      (" && make ".toList ++ (jobsOption jobs ++ [' ']))))) ++ [' '].intercalate b.makeArgs := by
    unfold innerText
    simp only [List.append_assoc, List.cons_append, List.nil_append]
  have hstart : List.foldl Lexer.step Lexer.start _ = _ := hfront
  have htokens : Lexer.start.after (frontTokens b jobs) = ⟨[] ++ exportTokens b.env ++
      [Token.word (.of .bare cdName)] ++ [Token.word (bareWord b.repoDir)] ++ [Token.op .andThen] ++
        [Token.word (.of .bare makeName)] ++ [Token.word (.of .bare (jobsOption jobs))], none,
        .plain⟩ := by
    simp [frontTokens, Lexer.after, Lexer.start]
  rw [htext, List.foldl_append, hstart, htokens]
  rfl

/-- The tokens of the text, with those of the arguments at the end. -/
theorem tokens_innerText (hset : Setting kept b) : tokens (innerText b jobs) =
    (tokens ([' '].intercalate b.makeArgs)).map (frontTokens b jobs ++ ·) := by
  rw [tokens, finish_innerText hset, Lexer.foldl_step_after, Lexer.finish_after, tokens]

theorem tokens_of_bare (hset : Setting kept b) (hargs : ∀ a ∈ b.makeArgs, Bare a) :
    tokens (innerText b jobs) = .read (exportTokens b.env ++
      spell [.of .bare cdName, bareWord b.repoDir] [(.andThen,
        .of .bare makeName :: .of .bare (jobsOption jobs) :: b.makeArgs.map bareWord)]) := by
  have harguments : tokens ([' '].intercalate b.makeArgs) =
      .read (b.makeArgs.map fun a => .word (bareWord a)) := Lexer.finish_bare_arguments hargs []
  rw [tokens_innerText hset, harguments, Reading.map_read]
  simp [frontTokens, spell]

/-- `cd` with the directory, in the shell inside. -/
theorem exec_cd (hbash : Bash kept M W) (hset : Setting kept b) (s : State) :
    let c : Command := { launched s [cdName, b.repoDir] with builtin := true }
    M.exec W s false false ⟨[.of .bare cdName, bareWord b.repoDir], []⟩ =
      match M.enter s.dir b.repoDir with
      | some dir => (⟨c, none, 0⟩, { s with dir := dir })
      | none => (⟨c, none, 1⟩, s) := by
  have hinert : ∀ v ∈ [Word.of .bare cdName, bareWord b.repoDir], inert v = true := by
    intro v hv
    rcases List.mem_cons.mp hv with rfl | hv
    · exact inert_of_plain (by decide)
    · rw [List.mem_singleton.mp hv]
      exact hset.dir.inert
  have hexec := hbash.exec_itself (s := s) (w := .of .bare cdName) M.cd_itself (by decide) hinert
  rw [Word.text_of, List.map_singleton, text_bareWord] at hexec
  refine hexec.trans ?_
  unfold Machine.builtin launched
  simp only [hset.operand, and_self, if_true]
  cases M.enter s.dir b.repoDir <;> rfl

theorem programs_cd (hbash : Bash kept M W) (hset : Setting kept b) (s : State) (c : Simple)
    (rest : Script) : (M.runScript W s 0 true
        ((.seq, ⟨[.of .bare cdName, bareWord b.repoDir], []⟩) :: (.andThen, c) :: rest)).programs =
      match M.enter s.dir b.repoDir with
      | some dir => (M.runScript W { s with dir := dir } 0 true ((.andThen, c) :: rest)).programs
      | none => (M.runScript W s 1 true ((.andThen, c) :: rest)).programs := by
  have hruns : Machine.runsAfter .seq 0 true = true := rfl
  have hpipe : Machine.intoPipe ((.andThen, c) :: rest) = false := rfl
  have hseq : decide (Op.seq = Op.pipe) = false := rfl
  rw [Machine.runScript_cons, if_pos hruns, hpipe, hseq, exec_cd hbash hset]
  cases M.enter s.dir b.repoDir <;> rfl

theorem inert_front (jobs : Nat) : ∀ w ∈ [Word.of .bare makeName, .of .bare (jobsOption jobs)],
    inert w = true := by
  intro w hw
  rcases List.mem_cons.mp hw with rfl | hw
  · exact inert_of_plain (by decide)
  · rw [List.mem_singleton.mp hw]
    exact inert_of_plain (Word.plain_of (by decide) _)

/-- `make` with its arguments, in the shell inside. -/
theorem exec_make (hbash : Bash kept M W) (hmake : Program M makeName) (hclean : Clean b)
    (s : State) : (M.exec W s false false ⟨.of .bare makeName :: .of .bare (jobsOption jobs) ::
      b.makeArgs.map bareWord, []⟩).1.command = launched s (localArgv b jobs) := by
  have hinert : ∀ v ∈ Word.of .bare makeName :: .of .bare (jobsOption jobs) ::
      b.makeArgs.map bareWord, inert v = true := by
    intro v hv
    rcases List.mem_append.mp (show v ∈ [Word.of .bare makeName, .of .bare (jobsOption jobs)] ++
      b.makeArgs.map bareWord from hv) with hv | hv
    · exact inert_front jobs v hv
    · obtain ⟨a, ha, rfl⟩ := List.mem_map.mp hv
      exact (hclean.args a ha).inert
  have hexec := (hbash.exec_words (s := s) (w := .of .bare makeName) hmake.program (by decide)
    (by decide) (by decide) hinert).1
  have htexts : (b.makeArgs.map bareWord).map Word.text = b.makeArgs := by
    rw [List.map_map]
    exact List.map_id'' text_bareWord _
  rw [Word.text_of, List.map_cons, Word.text_of, htexts] at hexec
  rw [hexec, localArgv, hclean.parallel]
  rfl

/-- What the shell inside makes of the text. -/
theorem programs_innerText (hbash : Bash kept M W) (hmake : Program M makeName)
    (hset : Setting kept b) (hclean : Clean b) (s : State) :
    (M.run W s (innerText b jobs)).programs = localRun b jobs M s := by
  have hbegins : Begins M.reserved [.of .bare cdName, bareWord b.repoDir] :=
    ⟨.of .bare cdName, _, rfl, M.cd_word⟩
  have hthen : ∀ p ∈ [(Op.andThen, Word.of .bare makeName :: .of .bare (jobsOption jobs) ::
      b.makeArgs.map bareWord)], Begins M.reserved p.2 := by
    intro p hp
    rw [List.mem_singleton.mp hp]
    exact ⟨.of .bare makeName, _, rfl, hmake.word⟩
  rw [hbash.run_exports hset.names hset.kept (tokens_of_bare hset hclean.args) hbegins hthen]
  have hcommand (st : State) : (M.exec W st false false ⟨.of .bare makeName ::
      .of .bare (jobsOption jobs) :: b.makeArgs.map bareWord, []⟩).1.command =
        launched st (localArgv b jobs) := exec_make hbash hmake hclean st
  have hcd := programs_cd hbash hset { s with env := s.env.apply (overlay b.env) }
    ⟨.of .bare makeName :: .of .bare (jobsOption jobs) :: b.makeArgs.map bareWord, []⟩ []
  refine Eq.trans hcd ?_
  unfold localRun
  dsimp only
  cases M.enter s.dir b.repoDir with
  | none => rfl
  | some dir =>
    have hone := hcommand { s with env := s.env.apply (overlay b.env), dir := dir }
    have hnot : (!(launched { s with env := s.env.apply (overlay b.env), dir := dir }
        (localArgv b jobs)).builtin) = true := rfl
    dsimp only
    rw [← hone] at hnot ⊢
    exact List.filter_cons_of_pos hnot

/-- Where the arguments and the values are clean, the node sees what is seen here. -/
theorem seesTheSame_of_clean (hset : Setting kept b) (hclean : Clean b) :
    SeesTheSame b jobs kept := by
  have hcalm : calm (innerText b jobs) (some '"') = true := (calm_innerText hset).mpr
    ⟨hclean.values, calm_arguments hclean.args⟩
  refine ⟨handed_of_calm hcalm, ?_⟩
  intro M W s hbash hmake
  rw [remoteCommand, leaves_bashC hbash (handed_of_calm hcalm)]
  exact programs_innerText hbash hmake hset hclean _

/-! ## Nothing else is seen the same -/

/-- A first argument that a word stands for is never one too many. -/
theorem no_extra_argument {j : Txt} (hj : Reads j (.of .bare j)) (st : State) (args : List Txt) :
    ∀ {ts : List Token} {c : Simple}, tokens ([' '].intercalate args) = .read ts →
      simple (chunks ts).1 = some c → args ≠ j :: c.words.flatMap (World.strict.fields st) := by
  have hfields : World.strict.fields st (.of .bare j) = [j] := by
    rw [World.fields_strict, if_pos (inert_of_plain (Word.plain_of (by decide) j)), Word.text_of]
  induction args with
  | nil => exact fun _ _ => nofun
  | cons a args ih =>
    intro ts c hread hc hargs
    obtain ⟨rfl, hrest⟩ := List.cons.inj hargs
    by_cases hnil : args = []
    · rw [hnil, List.intercalate_singleton, tokens_of_reads hj] at hread
      cases hread
      cases hc
      rw [hnil, List.flatMap_cons, hfields] at hrest
      cases hrest
    · have hblank : (a ++ [' ']).foldl Lexer.step Lexer.start =
          Lexer.start.after [.word (.of .bare a)] := by
        rw [List.foldl_append]
        exact congrArg (fun l => List.foldl Lexer.step l [' ']) (hj [] none)
      have hmore := tokens_append hblank ([' '].intercalate args)
      rw [List.intercalate_cons_of_ne_nil hnil, hmore] at hread
      cases htokens : tokens ([' '].intercalate args) with
      | refused =>
        rw [htokens] at hread
        cases hread
      | beyond =>
        rw [htokens] at hread
        cases hread
      | read ts' =>
        rw [htokens] at hread
        obtain rfl := Reading.read.inj hread
        obtain ⟨c', hc', rfl⟩ := Option.map_eq_some_iff.mp hc
        refine ih htokens hc' ?_
        rw [hrest, List.flatMap_cons, hfields]
        rfl

/-- The first program of a list that begins with one. -/
theorem programs_program {st : State} {c : Simple} {args : List Txt} (rest : Script)
    (hargv : W.argv st c = makeName :: args) (hmake : M.itself makeName = false) :
    ∃ first more, (M.runScript W st 0 true ((.andThen, c) :: rest)).programs = first :: more ∧
      first.argv = makeName :: args := by
  have hcommand (fds : Nat → Dest) : M.commandOf W st fds c = _ :=
    Machine.commandOf_program hargv hmake
  have hbuiltin (fds : Nat → Dest) : (M.commandOf W st fds c).1.builtin = false := by rw [hcommand]
  have hnot : (M.exec W st false (Machine.intoPipe rest) c).1.command.builtin = false := by
    rw [Machine.exec_command]
    exact hbuiltin _
  have hruns : Machine.runsAfter .andThen 0 true = true := rfl
  have hpipe : decide (Op.andThen = Op.pipe) = false := rfl
  rw [Machine.runScript_program hruns hbuiltin, hpipe]
  refine ⟨_, _, List.filter_cons_of_pos (by rw [hnot]; rfl), ?_⟩
  rw [Machine.exec_command]
  exact argv_commandOf hargv hmake (by decide) (by decide)

/-- What the strict world makes of the text, if it makes of it what is started here. -/
theorem words_of_localRun (hset : Setting kept b) {s : State} (h :
    (posix.run .strict s (innerText b jobs)).programs = localRun b jobs posix s) :
    ∃ ts c st, tokens ([' '].intercalate b.makeArgs) = .read ts ∧ simple (chunks ts).1 = some c ∧
      localArgv b jobs = makeName :: jobsOption jobs ::
        c.words.flatMap (World.strict.fields st) := by
  have hrun : localRun b jobs posix s = [launched { s with
      env := s.env.apply (overlay b.env),
      dir := joinPath s.dir b.repoDir } (localArgv b jobs)] := rfl
  rw [hrun, Machine.run, Shell.read, tokens_innerText hset] at h
  cases htokens : tokens ([' '].intercalate b.makeArgs) with
  | refused =>
    rw [htokens] at h
    cases h
  | beyond =>
    rw [htokens] at h
    cases h
  | read ts =>
    rw [htokens, Reading.map_read, Reading.bind_read] at h
    cases hscript : script posix.reserved (frontTokens b jobs ++ ts) with
    | refused =>
      rw [hscript] at h
      cases h
    | beyond =>
      rw [hscript] at h
      cases h
    | read l =>
      rw [hscript] at h
      dsimp only at h
      obtain ⟨-, hl⟩ := not_opens_of_script hscript
      have hfront : frontTokens b jobs ++ ts = exportTokens b.env ++
          ([Word.of .bare cdName, bareWord b.repoDir].map .word ++ Token.op .andThen ::
            ([Word.of .bare makeName, .of .bare (jobsOption jobs)].map .word ++ ts)) := by
        rw [frontTokens, List.append_assoc, List.append_assoc]
        rfl
      rw [hfront, arrange_exports (arrange_front (List.cons_ne_nil _ _) · .andThen _),
        arrange_behind (List.cons_ne_nil _ _)] at hl
      obtain ⟨l', hl', rfl⟩ := Option.map_eq_some_iff.mp hl
      obtain ⟨c, hc, hfollow⟩ := Option.bind_eq_some_iff.mp hl'
      obtain ⟨later, -, rfl⟩ := Option.map_eq_some_iff.mp hfollow
      refine ⟨ts, c, { s with env := s.env.apply (overlay b.env), dir := joinPath s.dir b.repoDir },
        rfl, hc, ?_⟩
      rw [(bash_strict kept).programs_begun hset.names hset.kept] at h
      rw [programs_cd (bash_strict kept) hset] at h
      have hargv : World.strict.argv
          { s with env := s.env.apply (overlay b.env), dir := joinPath s.dir b.repoDir }
          (c.behind [.of .bare makeName, .of .bare (jobsOption jobs)]) = _ :=
            argv_behind (by decide)
      rw [texts_of_inert _ (inert_front jobs), List.map_cons, List.map_singleton, Word.text_of,
        Word.text_of] at hargv
      have hmake : posix.itself makeName = false := by decide
      obtain ⟨first, more, hprograms, hfirst⟩ := programs_program later hargv hmake
      have hall := hprograms.symm.trans h
      rw [(List.cons.inj hall).1] at hfirst
      exact hfirst

/-- Only clean arguments and values are seen the same. -/
theorem clean_of_seesTheSame (hset : Setting kept b) (h : SeesTheSame b jobs kept) : Clean b := by
  have hcalm := (calm_innerText hset).mp ((handed_iff kept _).mp h.1)
  have hleaves := h.2 posix .strict (fresh (fun _ => none) []) (bash_strict kept)
    ⟨by decide, by decide⟩
  rw [remoteCommand, leaves_bashC (bash_strict kept) h.1] at hleaves
  obtain ⟨ts, c, st, hread, hc, hargv⟩ := words_of_localRun hset hleaves
  rw [localArgv] at hargv
  have hrest := (List.cons.inj hargv).2
  cases hparallel : b.parallel with
  | false =>
    rw [hparallel] at hrest
    exact absurd hrest (no_extra_argument (reads_jobsOption jobs) st b.makeArgs hread hc)
  | true =>
    rw [hparallel] at hrest
    have hargs : b.makeArgs = c.words.flatMap (World.strict.fields st) := (List.cons.inj hrest).2
    exact ⟨hparallel, bare_of_read hread hc hargs.symm, hcalm.1⟩

end

end RemoteMake
end Builder
end RocmTests

import RocmTests.Shell.Quote
import RocmTests.Shell.Run

/-!
# Monitor commands without the GPU masks

`_UnmaskedSshMonitorExecutor` puts `env -u …` in front of a command text and hands the
text on.  The shell on the other side gives those words to the first simple command of
the text, and to no other.
-/

namespace RocmTests
namespace Monitored
namespace UnmaskedMonitor

open Text Shell

/-! ## The executors -/

/-- What the monitor uses of an executor.  The outcome is what the node executes. -/
structure AbstractExecutor where
  run (command : Txt) (timeout : Option ℚ) (stream : Bool) : Outcome
  startBackground (command : Txt) (timeout : Option ℚ) (logPath consoleLabel : Option Txt)
    (stream : Bool) : Outcome

def rocr : Txt := "ROCR_VISIBLE_DEVICES".toList

def hip : Txt := "HIP_VISIBLE_DEVICES".toList

def cuda : Txt := "CUDA_VISIBLE_DEVICES".toList

def masks : List Txt := [rocr, hip, cuda]

def clearing : Txt :=
  "env -u ROCR_VISIBLE_DEVICES -u HIP_VISIBLE_DEVICES -u CUDA_VISIBLE_DEVICES ".toList

def unmaskedSshMonitorExecutor (ssh : AbstractExecutor) : AbstractExecutor where
  run command timeout stream :=
    let cleared := clearing ++ command
    ssh.run cleared timeout stream
  startBackground command timeout logPath consoleLabel stream :=
    let cleared := clearing ++ command
    ssh.startBackground cleared timeout logPath consoleLabel stream

/-- An executor that hands its command to the shell of a node in the state `s`. -/
def shellExecutor (M : Machine) (W : World) (s : State) : AbstractExecutor where
  run command _ _ := M.run W s command
  startBackground command _ _ _ _ := M.run W s command

/-! ## The claim about a text -/

/-- The command apart from what it sees of the masks. -/
def unmasked (c : Command) : Command := { c with env := c.env.without masks }

/-- No program behaves differently for the masks. -/
structure Blind (W : World) : Prop where
  status : ∀ c, W.status (unmasked c) = W.status c
  lasts : ∀ c, W.lasts (unmasked c) = W.lasts c

def trace (o : Outcome) : List (Command × Option Nat × Nat) :=
  o.ran.map fun e => (unmasked e.command, e.limit, e.status)

structure SameUnmasked (masked plain : Outcome) : Prop where
  ran : trace masked = trace plain
  status : masked.status = plain.status
  unset : ∀ e ∈ masked.ran, ∀ v ∈ masks, e.command.env v = none

/-- Running the text through the wrapper executes the same commands with the same
statuses, and every one of them sees the masks unset. -/
def Preserves (M : Machine) (command : Txt) : Prop :=
  ∀ (W : World), Blind W → ∀ (s : State) (timeout : Option ℚ) (stream : Bool),
    SameUnmasked ((unmaskedSshMonitorExecutor (shellExecutor M W s)).run command timeout stream)
      ((shellExecutor M W s).run command timeout stream)

/-! ## The words in front -/

def clearingTexts : List Txt :=
  [envName, unsetOption, rocr, unsetOption, hip, unsetOption, cuda]

def clearingWords : List Word := clearingTexts.map (.of .bare)

theorem tokens_clearing (command : Txt) :
    tokens (clearing ++ command) = (tokens command).map (clearingWords.map Token.word ++ ·) := by
  have htexts : clearing = clearingTexts.flatMap fun t => t ++ [' '] := by decide
  have hbare : clearingTexts.all (fun t => decide (t ≠ []) && t.all fun c => decide (c ∉ special)) =
      true := by decide
  refine tokens_append ?_ command
  rw [htexts, Lexer.start, @foldl_words _ (fun t => t) (.of .bare) clearingTexts fun t ht => ?_]
  · rfl
  · have hone := List.all_eq_true.mp hbare t ht
    rw [Bool.and_eq_true] at hone
    exact reads_bare (of_decide_eq_true hone.1) (forall_of_all hone.2)

theorem clearing_append_ne (command : Txt) : clearing ++ command ≠ command := by
  intro h
  have hne : clearing ≠ [] := by decide
  exact hne (List.append_cancel_right (h.trans (List.nil_append command).symm))

variable {M : Machine} {W : World} {s : State} {c : Simple} {command : Txt}

theorem env_not_compound (M : Machine) :
    (Word.unquoted (.of .bare envName) && M.reserved (Word.text (.of .bare envName))) = false := by
  rw [Word.text_of, M.env_word, Bool.and_false]

/-- What `env` makes of the arguments after the words in front. -/
theorem fields_behind (c : Simple) : W.argv s (c.behind clearingWords) =
    clearingTexts ++ c.words.flatMap (W.fields s) := by
  have hnot : isAssignment (.of .bare envName) = false := by decide
  have hfields (t : Txt) : W.fields s (.of .bare t) = [t] := by
    rw [World.fields, if_pos (Word.plain_of (by decide) t), Word.text_of]
  have hops : (c.behind clearingWords).operands = clearingWords ++ c.words := by
    rw [Simple.operands, Simple.behind, clearingWords, clearingTexts, List.map_cons,
      List.cons_append, List.dropWhile_cons_of_neg (by rw [hnot]; exact Bool.false_ne_true)]
  rw [World.argv, hops, List.flatMap_append, clearingWords, List.flatMap_map]
  simp only [hfields, List.flatMap_singleton']

theorem assignments_behind (c : Simple) : (c.behind clearingWords).assignments = [] := by
  have hnot : isAssignment (.of .bare envName) = false := by decide
  rw [Simple.assignments, Simple.behind, clearingWords, clearingTexts, List.map_cons,
    List.cons_append, List.takeWhile_cons_of_neg (by rw [hnot]; exact Bool.false_ne_true)]

/-- Behind the words in front every command is a program. -/
theorem commandOf_behind (fds : Nat → Dest) : M.commandOf W s fds (c.behind clearingWords) =
    (⟨false, (resolve (clearingTexts ++ c.words.flatMap (W.fields s))).argv, [],
      s.env.apply (resolve (clearingTexts ++ c.words.flatMap (W.fields s))).changes, s.dir, fds⟩,
      (resolve (clearingTexts ++ c.words.flatMap (W.fields s))).limit) := by
  have hargv : W.argv s (c.behind clearingWords) =
      envName :: (clearingTexts.tail ++ c.words.flatMap (W.fields s)) := fields_behind c
  rw [Machine.commandOf_program hargv M.env_program, assignments_behind]
  rfl

theorem unset_masks (e : Env) : e.apply (masks.map fun v => (v, none)) = e.without masks := by
  funext v
  simp only [masks, List.map_cons, List.map_nil, Env.apply_cons, Env.apply_nil, Env.without,
    Function.update_apply, List.mem_cons, List.not_mem_nil, or_false]
  by_cases hr : v = rocr <;> by_cases hh : v = hip <;> by_cases hc : v = cuda <;> simp [hr, hh, hc]

/-! ## Words that `env` takes as the shell does -/

theorem isOption_of_isAssignment {a : Word} (h : isAssignment a = true) :
    isOption a.text = false := by
  simp only [isAssignment, Bool.and_eq_true] at h
  obtain ⟨⟨hname, -⟩, -⟩ := h
  cases a with
  | nil => rfl
  | cons g a =>
    rw [isOption, Word.text, List.map_cons, List.head?_cons, decide_eq_false_iff_not,
      Option.some.injEq]
    intro hg
    rw [namePart, List.takeWhile_cons_of_pos (by rw [hg]; rfl), Word.text, List.map_cons, isName,
      Bool.and_eq_true, List.all_cons, Bool.and_eq_true, hg] at hname
    exact absurd hname.2.1 (by decide)

theorem plain_of_sublist {w w' : Word} (h : List.Sublist w w') (hplain : w'.plain = true) :
    w.plain = true :=
  List.all_eq_true.mpr fun g hg => List.all_eq_true.mp hplain g (h.mem hg)

/-- A plain assignment means the same to `env` as to the shell. -/
theorem assignment_text {a : Word} (hplain : a.plain = true) :
    assignment a.text = ((W.assigned s a).1, some (W.assigned s a).2) := by
  have hvalue : (valuePart a).plain = true :=
    plain_of_sublist ((List.tail_sublist _).trans (List.dropWhile_sublist _)) hplain
  rw [assignment, World.assigned, World.text, if_pos hvalue, Word.text, List.takeWhile_map,
    List.dropWhile_map, ← List.map_tail]
  rfl

theorem fields_words (c : Simple) : c.words.flatMap (W.fields s) =
    c.assignments.flatMap (W.fields s) ++ W.argv s c := by
  rw [World.argv, ← List.flatMap_append, Simple.assignments, Simple.operands,
    List.takeWhile_append_dropWhile]

/-- What `env` makes of the words in front and what follows them. -/
theorem peel_clearing {rest command : List Txt} {sets : List Change}
    (hfirst : rest.head?.any isOption = false) (hsets : envAssignments rest = (sets, command))
    (hne : command ≠ []) : peel (clearingTexts ++ rest) =
      some ((masks.map fun v => (v, none)) ++ sets, none, command) := by
  have hoptions : envOptions (clearingTexts.tail ++ rest) =
      (masks.map fun v => (v, none), rest) := by
    have hrest := envOptions_of_command hfirst
    simp only [clearingTexts, List.tail_cons, List.cons_append, List.nil_append, envOptions,
      if_true,
      hrest]
    rfl
  exact peel_env hoptions hfirst hsets hne

/-! ## When the words in front change nothing else -/

/-- The environment that the program of a simple command gets from `e`. -/
def programEnv (W : World) (s : State) (c : Simple) (e : Env) : Env :=
  (e.apply ((c.assignments.map (W.assigned s)).map fun p => (p.1, some p.2))).apply
    (resolve (W.argv s c)).changes

/-- A simple command that names a program, plainly, by something that `env` takes
neither for an option nor for an assignment. -/
structure NamesProgram (M : Machine) (c : Simple) (w : Word) (ws : List Word) : Prop where
  operands : c.operands = w :: ws
  plain : w.plain = true
  program : M.itself w.text = false
  command : '=' ∉ w.text
  option : c.assignments = [] → isOption w.text = false
  assignments : ∀ a ∈ c.assignments, a.plain = true

section Program

variable {w : Word} {ws : List Word} (h : NamesProgram M c w ws)

include h

theorem argv_program : W.argv s c = w.text :: ws.flatMap (W.fields s) := by
  rw [World.argv, h.operands, List.flatMap_cons, World.fields, if_pos h.plain]
  rfl

theorem resolve_clearing : resolve (clearingTexts ++ c.words.flatMap (W.fields s)) =
    ⟨(masks.map fun v => (v, none)) ++
        ((c.assignments.map (W.assigned s)).map fun p => (p.1, some p.2)) ++
        (resolve (W.argv s c)).changes,
      (resolve (W.argv s c)).limit, (resolve (W.argv s c)).argv⟩ := by
  have hassign (a : Word) (ha : a ∈ c.assignments) : isAssignment a = true :=
    List.mem_takeWhile_imp ha
  have hmap : (c.assignments.map Word.text).map assignment =
      (c.assignments.map (W.assigned s)).map fun p => (p.1, some p.2) := by
    rw [List.map_map, List.map_map]
    exact List.map_congr_left fun a ha => assignment_text (h.assignments a ha)
  have hmem : ∀ t ∈ c.assignments.map Word.text, '=' ∈ t := by
    intro t ht
    obtain ⟨a, ha, rfl⟩ := List.mem_map.mp ht
    exact mem_text_of_isAssignment (hassign a ha)
  have hfirst : (c.assignments.map Word.text ++ w.text :: ws.flatMap (W.fields s)).head?.any
      isOption = false := by
    cases hc : c.assignments with
    | nil => exact h.option hc
    | cons a as => exact isOption_of_isAssignment (hassign a (hc ▸ .head _))
  have hsets : envAssignments (c.assignments.map Word.text ++ w.text :: ws.flatMap (W.fields s)) =
      ((c.assignments.map (W.assigned s)).map fun p => (p.1, some p.2),
        w.text :: ws.flatMap (W.fields s)) := by
    rw [envAssignments_append hmem, envAssignments_of_command h.command, List.append_nil, hmap]
  rw [fields_words, W.flatMap_fields s h.assignments, argv_program h,
    resolve_of_peel (peel_clearing hfirst hsets (List.cons_ne_nil _ _)), tighter_none_left]

/-- The same program with the same arguments, and the masks unset before its own
assignments. -/
theorem commandOf_program (fds : Nat → Dest) :
    M.commandOf W s fds c = (⟨false, (resolve (W.argv s c)).argv, [], programEnv W s c s.env, s.dir,
      fds⟩, (resolve (W.argv s c)).limit) ∧
    M.commandOf W s fds (c.behind clearingWords) =
      (⟨false, (resolve (W.argv s c)).argv, [], programEnv W s c (s.env.without masks), s.dir,
        fds⟩, (resolve (W.argv s c)).limit) := by
  constructor
  · rw [Machine.commandOf_program (argv_program h) h.program, ← argv_program h]
    rfl
  · rw [commandOf_behind, resolve_clearing h, List.append_assoc]
    simp only [Env.apply_append, unset_masks]
    rfl

end Program

/-- However its words expand, the command gets an environment without the masks. -/
def Clears (M : Machine) (c : Simple) : Prop :=
  ∀ W s fds, ∀ v ∈ masks, (M.commandOf W s fds c).1.env v = none

/-- Nothing in the command sets a mask again. -/
def KeepsUnset (c : Simple) : Prop :=
  ∀ W s, ∀ e : Env, ∀ v ∈ masks, programEnv W s c (e.without masks) v = none

/-- Either the shell refuses the text with and without the words in front, or the text
begins with a program that the words reach, and every later command clears the masks
itself. -/
def Unmaskable (M : Machine) (command : Txt) : Prop :=
  (read M.reserved command = .refused ∧ read M.reserved (clearing ++ command) = .refused) ∨
    ∃ ts c later, tokens command = .read ts ∧ (chunks ts).1 ≠ [] ∧
      script M.reserved ts = .read ((.newline, c) :: later) ∧
      (∃ w ws, NamesProgram M c w ws) ∧ KeepsUnset c ∧ ∀ p ∈ later, Clears M p.2

theorem read_clearing (M : Machine) (command : Txt) : read M.reserved (clearing ++ command) =
    (tokens command).bind fun ts => script M.reserved (clearingWords.map Token.word ++ ts) := by
  rw [Shell.read, tokens_clearing]
  cases tokens command <;> rfl

theorem exit_unmasked (hW : Blind W) {c c' : Command} (h : unmasked c = unmasked c')
    (limit : Option Nat) : W.exit limit c = W.exit limit c' := by
  have hstatus : W.status c = W.status c' := by rw [← hW.status, h, hW.status]
  have hlasts : W.lasts c = W.lasts c' := by rw [← hW.lasts, h, hW.lasts]
  rw [World.exit, World.exit, hstatus, hlasts]

theorem programEnv_without (e : Env) : (programEnv W s c (e.without masks)).without masks =
    (programEnv W s c e).without masks := by
  rw [programEnv, programEnv, ← Env.apply_append, ← Env.apply_append, ← Env.without_apply]

theorem fdsOf_behind (fromPipe toPipe : Bool) (ws : List Word) :
    M.fdsOf W s fromPipe toPipe (c.behind ws) = M.fdsOf W s fromPipe toPipe c := rfl

/-- A program behind the words in front is executed as it was, with the masks unset. -/
theorem exec_behind (hW : Blind W) {w : Word} {ws : List Word} (h : NamesProgram M c w ws)
    (fromPipe toPipe : Bool) :
    (unmasked (M.exec W s fromPipe toPipe (c.behind clearingWords)).1.command,
        (M.exec W s fromPipe toPipe (c.behind clearingWords)).1.limit,
        (M.exec W s fromPipe toPipe (c.behind clearingWords)).1.status) =
      (unmasked (M.exec W s fromPipe toPipe c).1.command,
        (M.exec W s fromPipe toPipe c).1.limit, (M.exec W s fromPipe toPipe c).1.status) := by
  obtain ⟨hplain, hbehind⟩ := commandOf_program (W := W) (s := s) h (M.fdsOf W s fromPipe toPipe c)
  rw [Machine.exec_program (c := c) (by rw [hplain]),
    Machine.exec_program (c := c.behind clearingWords) (by rw [fdsOf_behind, hbehind]),
    fdsOf_behind, hplain, hbehind]
  have hsame : unmasked ⟨false, (resolve (W.argv s c)).argv, [],
        programEnv W s c (s.env.without masks), s.dir, M.fdsOf W s fromPipe toPipe c⟩ =
      unmasked ⟨false, (resolve (W.argv s c)).argv, [], programEnv W s c s.env, s.dir,
        M.fdsOf W s fromPipe toPipe c⟩ := by
    simp only [unmasked, programEnv_without]
  simp only [hsame, exit_unmasked hW hsame]

theorem preserves_of_unmaskable (h : Unmaskable M command) : Preserves M command := by
  intro W hW s _ _
  show SameUnmasked (M.run W s (clearing ++ command)) (M.run W s command)
  obtain ⟨hplain, hmasked⟩ | ⟨ts, c, later, htokens, hne, hscript,
      ⟨w, ws, hprogram⟩, hkeeps, hlater⟩ := h
  · unfold Machine.run
    rw [hplain, hmasked]
    exact ⟨rfl, rfl, fun e he => by cases he⟩
  · obtain ⟨c', later', hl, hbehind⟩ := @script_append_of_command M.reserved _
      clearingWords.tail ts _ (env_not_compound M) hne hscript
    obtain ⟨⟨-, rfl⟩, rfl⟩ : (Op.newline = Op.newline ∧ c = c') ∧ later = later' := by
      simpa using hl
    have hplain : read M.reserved command = .read ((.newline, c) :: later) := by
      rw [Shell.read, htokens]
      exact hscript
    have hmasked : read M.reserved (clearing ++ command) =
        .read ((.newline, c.behind clearingWords) :: later) := by
      rw [read_clearing, htokens]
      exact hbehind
    have hexec :=
      exec_behind (s := s) hW hprogram (decide (Op.newline = .pipe)) (Machine.intoPipe later)
    have hboth := fun fds => commandOf_program (W := W) (s := s) hprogram fds
    unfold Machine.run
    rw [hplain, hmasked]
    simp only
    rw [Machine.runScript_program rfl fun fds => congrArg (·.1.builtin) (hboth fds).1,
      Machine.runScript_program rfl fun fds => congrArg (·.1.builtin) (hboth fds).2]
    simp only [Prod.mk.injEq] at hexec
    refine ⟨?_, ?_, ?_⟩
    · simp only [trace, List.map_cons, hexec]
    · simp only [hexec]
    · intro e he v hv
      rcases List.mem_cons.mp he with rfl | he
      · rw [Machine.exec_command, (hboth _).2]
        exact hkeeps W s s.env v hv
      · exact Machine.forall_ran (P := fun c => ∀ v ∈ masks, c.env v = none)
          (fun p hp s fds => hlater p hp W s fds) _ _ _ e he v hv

/-! ## And only then -/

theorem blind_steady {k : Nat} {expand : Word → List Txt} {value : Word → Txt}
    {beyond : Txt → Outcome} : Blind (.steady k expand value beyond) :=
  ⟨fun _ => rfl, fun _ => rfl⟩

def anywhere : State := ⟨fun _ => none, fun _ => none, []⟩

theorem run_read {l : Script} (h : read M.reserved command = .read l) :
    M.run W s command = M.runScript W s 0 true l := by
  rw [Machine.run, h]

theorem run_refused (h : read M.reserved command = .refused) :
    M.run W s command = ⟨[], 2⟩ := by
  rw [Machine.run, h]

theorem run_beyond (h : read M.reserved command = .beyond) :
    M.run W s command = W.beyond s command := by
  rw [Machine.run, h]

/-- A text behind the words in front that is read runs something. -/
theorem trace_clearing_ne {l : Script} (h : read M.reserved (clearing ++ command) = .read l) :
    trace (M.run W s (clearing ++ command)) ≠ [] := by
  obtain ⟨ts, hts⟩ : ∃ ts, script M.reserved (clearingWords.map Token.word ++ ts) = .read l := by
    rw [read_clearing] at h
    cases htokens : tokens command with
    | read ts =>
      rw [htokens] at h
      exact ⟨ts, h⟩
    | refused =>
      rw [htokens] at h
      cases h
    | beyond =>
      rw [htokens] at h
      cases h
  obtain ⟨c, later, rfl⟩ := @script_append_head M.reserved _ clearingWords.tail ts _
    (env_not_compound M) hts
  obtain ⟨more, hmore⟩ :=
    @Machine.ran_line M W s 0 true (c.behind clearingWords) later
  rw [run_read h]
  intro hnil
  exact List.cons_ne_nil _ _ (hmore.symm.trans (List.map_eq_nil_iff.mp hnil))

/-- The text is one that the shell reads, and a command begins it. -/
theorem read_of_preserves (h : Preserves M command) :
    (read M.reserved command = .refused ∧ read M.reserved (clearing ++ command) = .refused) ∨
      ∃ ts c later, tokens command = .read ts ∧ (chunks ts).1 ≠ [] ∧
        script M.reserved ts = .read ((.newline, c) :: later) ∧
        script M.reserved (clearingWords.map Token.word ++ ts) =
          .read ((.newline, c.behind clearingWords) :: later) := by
  have hsame (beyond : Txt → Outcome) :=
    h (.steady 0 (fun _ => []) (fun _ => []) beyond) blind_steady anywhere none false
  simp only [unmaskedSshMonitorExecutor, shellExecutor] at hsame
  cases hread : read M.reserved command with
  | beyond =>
    exfalso
    have hstatus := (hsame fun t => ⟨[], if t = command then 125 else 0⟩).status
    rw [run_beyond hread] at hstatus
    have hle : (M.run (.steady 0 (fun _ => []) (fun _ => [])
        fun t => ⟨[], if t = command then 125 else 0⟩) anywhere (clearing ++ command)).status ≤
        124 := by
      unfold Machine.run
      split
      · exact Machine.status_runScript_le (Nat.le_refl _) (fun _ => Nat.zero_le _) _ _ _ _
          (Nat.zero_le _)
      · decide
      · simp only [World.steady, if_neg (clearing_append_ne command)]
        exact Nat.zero_le _
    rw [hstatus] at hle
    simp only [World.steady, if_true] at hle
    omega
  | refused =>
    refine Or.inl ⟨rfl, ?_⟩
    cases hmasked : read M.reserved (clearing ++ command) with
    | refused => rfl
    | beyond =>
      have hstatus := (hsame fun _ => ⟨[], 3⟩).status
      rw [run_beyond hmasked, run_refused hread] at hstatus
      have hfalse : 3 = 2 := hstatus
      omega
    | read l =>
      have htrace := (hsame fun _ => ⟨[], 3⟩).ran
      rw [run_refused hread] at htrace
      exact absurd htrace (trace_clearing_ne hmasked)
  | read l =>
    right
    have hplain := hread
    rw [Shell.read] at hread
    cases htokens : tokens command with
    | refused =>
      rw [htokens] at hread
      cases hread
    | beyond =>
      rw [htokens] at hread
      cases hread
    | read ts =>
      rw [htokens, Reading.bind_read] at hread
      by_cases hne : (chunks ts).1 = []
      · -- the words in front become a command of their own
        exfalso
        have hblank :=
          @script_append_of_blank M.reserved _ clearingWords.tail ts _ (env_not_compound M)
          hne hread
        have hmasked : read M.reserved (clearing ++ command) =
            .read ((.newline, ⟨clearingWords, []⟩) :: l) := by
          rw [read_clearing, htokens]
          exact hblank
        have htrace := (hsame fun _ => ⟨[], 0⟩).ran
        have hprogram (fds : Nat → Dest) : (M.commandOf (.steady 0 (fun _ => []) (fun _ => [])
            fun _ => ⟨[], 0⟩) anywhere fds ⟨clearingWords, []⟩).1.builtin = false :=
          congrArg (·.1.builtin) (commandOf_behind (c := ⟨[], []⟩) fds)
        rw [run_read hplain, run_read hmasked, Machine.runScript_program rfl hprogram,
          Machine.exec_program (hprogram _), World.exit_steady] at htrace
        have hlen := congrArg List.length htrace
        simp only [trace, List.length_map, List.length_cons] at hlen
        omega
      · obtain ⟨c, later, rfl, hbehind⟩ :=
          @script_append_of_command M.reserved _ clearingWords.tail ts _ (env_not_compound M)
            hne hread
        exact ⟨ts, c, later, rfl, hne, hread, hbehind⟩

/-! ## The first command -/

/-- The first command of the text, with and without the words in front. -/
structure First (M : Machine) (c : Simple) : Prop where
  same : ∀ W, Blind W → ∀ s, ∃ fds,
    unmasked (M.commandOf W s fds (c.behind clearingWords)).1 =
      unmasked (M.commandOf W s fds c).1 ∧
    ∀ v ∈ masks, (M.commandOf W s fds (c.behind clearingWords)).1.env v = none

theorem first_of_preserves (h : Preserves M command) {later : Script}
    (hplain : read M.reserved command = .read ((.newline, c) :: later))
    (hmasked : read M.reserved (clearing ++ command) =
      .read ((.newline, c.behind clearingWords) :: later)) : First M c where
  same W hW s := by
    have hsame := h W hW s none false
    simp only [unmaskedSshMonitorExecutor, shellExecutor, run_read hplain,
      run_read hmasked] at hsame
    obtain ⟨more, hmore⟩ := @Machine.ran_line M W s 0 true c later
    obtain ⟨more', hmore'⟩ := @Machine.ran_line M W s 0 true (c.behind clearingWords) later
    have htrace := hsame.ran
    have hunset := hsame.unset _ (hmore' ▸ List.Mem.head _)
    rw [trace, trace, hmore, hmore', List.map_cons, List.map_cons, List.cons.injEq,
      Prod.mk.injEq] at htrace
    rw [Machine.exec_command] at htrace hunset
    rw [Machine.exec_command] at htrace
    exact ⟨_, htrace.1.1, hunset⟩

/-- The arguments of the first command. -/
theorem First.argv (h : First M c) (W : World) (hW : Blind W) (s : State) :
    ∃ name args, W.argv s c = name :: args ∧ M.itself name = false ∧
      (resolve (clearingTexts ++ c.words.flatMap (W.fields s))).argv =
        (resolve (name :: args)).argv := by
  obtain ⟨fds, hsame, -⟩ := h.same W hW s
  rw [commandOf_behind] at hsame
  have hbuiltin : false = (M.commandOf W s fds c).1.builtin := congrArg Command.builtin hsame
  have hargv := congrArg Command.argv hsame
  change _ = (M.commandOf W s fds c).1.argv at hargv
  cases hc : W.argv s c with
  | nil =>
    unfold Machine.commandOf at hbuiltin
    rw [hc] at hbuiltin
    cases hbuiltin
  | cons name args =>
    cases hname : M.itself name with
    | true =>
      unfold Machine.commandOf at hbuiltin
      simp only [hc, hname, if_true] at hbuiltin
      cases hbuiltin
    | false =>
      rw [Machine.commandOf_program hc hname] at hargv
      exact ⟨name, args, rfl, hname, hargv⟩

/-- A world in which the words that are not plain expand to `expand`. -/
def expanding (expand : Word → List Txt) : World :=
  .steady 0 expand (fun _ => []) fun _ => ⟨[], 0⟩

theorem First.operands (h : First M c) : ∃ w ws, c.operands = w :: ws ∧ w.plain = true ∧
    M.itself w.text = false := by
  cases hops : c.operands with
  | nil =>
    obtain ⟨name, args, hargv, -⟩ := h.argv (expanding fun _ => []) blind_steady anywhere
    rw [World.argv, hops] at hargv
    cases hargv
  | cons w ws =>
    refine ⟨w, ws, rfl, ?_⟩
    obtain ⟨name, args, hargv, hname, -⟩ :=
      h.argv (expanding fun _ => [cdName]) blind_steady anywhere
    rw [World.argv, hops, List.flatMap_cons, World.fields] at hargv
    split_ifs at hargv with hplain
    · rw [List.cons_append, List.cons.injEq] at hargv
      exact ⟨hplain, hargv.1 ▸ hname⟩
    · -- a name that expands to `cd` is the shell's own
      have hcd : cdName = name := (List.cons.inj hargv).1
      rw [← hcd, M.cd_itself] at hname
      cases hname

/-- The command that `env` becomes behind the words in front, or `env` itself. -/
theorem length_resolve_clearing (rest : List Txt) :
    (resolve (clearingTexts ++ rest)).argv = clearingTexts ++ rest ∨
      (envOptions rest).2.head?.any isOption = false ∧
        (resolve (clearingTexts ++ rest)).argv.length ≤
          (envAssignments (envOptions rest).2).2.length := by
  cases hpeel : peel (clearingTexts ++ rest) with
  | none =>
    left
    rw [resolve_of_not_peel hpeel]
  | some p =>
    obtain ⟨changes, limit, command⟩ := p
    right
    have hoptions : envOptions (clearingTexts.tail ++ rest) =
        ((masks.map fun v => (v, none)) ++ (envOptions rest).1, (envOptions rest).2) := rfl
    have hcons : clearingTexts ++ rest = envName :: (clearingTexts.tail ++ rest) := rfl
    rw [resolve_of_peel hpeel]
    rw [hcons] at hpeel
    simp only [peel, if_true, hoptions] at hpeel
    split_ifs at hpeel with hoption hnil
    simp only [Option.some.injEq, Prod.mk.injEq] at hpeel
    rw [hpeel.2.2]
    exact ⟨Bool.eq_false_iff.mpr hoption, length_resolve_le _⟩

/-- Assignments of which one expands to something else: `env` takes that for the
command. -/
theorem envAssignments_expanded {as : List Word} (has : ∀ a ∈ as, isAssignment a = true)
    {a : Word} (ha : a ∈ as) (hplain : a.plain = false) (tail : List Txt) :
    ∃ sets more, envAssignments (as.map (fun a => if a.plain then a.text else ['x']) ++ tail) =
      (sets, ['x'] :: more) ∧ tail.length ≤ more.length := by
  induction as with
  | nil => cases ha
  | cons b as ih =>
    rw [List.map_cons, List.cons_append]
    by_cases hb : b.plain = true
    · have ha' : a ∈ as := by
        rcases List.mem_cons.mp ha with rfl | ha
        · rw [hb] at hplain
          cases hplain
        · exact ha
      obtain ⟨sets, more, hsets, hlen⟩ := ih (fun a ha => has a (.tail _ ha)) ha'
      rw [if_pos hb, envAssignments, if_pos (mem_text_of_isAssignment (has b (.head _))), hsets]
      exact ⟨_, more, rfl, hlen⟩
    · rw [if_neg hb, envAssignments_of_command (by decide)]
      exact ⟨_, _, rfl, by rw [List.length_append]; omega⟩

theorem First.assignments (h : First M c) : ∀ a ∈ c.assignments, a.plain = true := by
  intro a ha
  by_contra hplain
  rw [Bool.not_eq_true] at hplain
  obtain ⟨w, ws, hops, hw, -⟩ := h.operands
  obtain ⟨name, args, hargv, -, hsame⟩ :=
    h.argv (expanding fun _ => [['x']]) blind_steady anywhere
  have hfields (ws : List Word) : ws.flatMap ((expanding fun _ => [['x']]).fields anywhere) =
      ws.map fun a => if a.plain then a.text else ['x'] := by
    rw [← List.flatMap_singleton' (ws.map _), List.flatMap_map]
    refine List.flatMap_congr fun a _ => ?_
    rw [World.fields]
    split_ifs <;> rfl
  have has : ∀ a ∈ c.assignments, isAssignment a = true := fun a ha => List.mem_takeWhile_imp ha
  obtain ⟨sets, more, hsets, hlen⟩ := envAssignments_expanded has ha hplain (name :: args)
  have hfirst : (c.assignments.map (fun a => if a.plain then a.text else ['x']) ++
      name :: args).head?.any isOption = false := by
    cases hc : c.assignments with
    | nil =>
      rw [hc] at ha
      cases ha
    | cons b bs =>
      rw [List.map_cons, List.cons_append, List.head?_cons, Option.any_some]
      split_ifs
      · exact isOption_of_isAssignment (has b (hc ▸ .head _))
      · rfl
  rw [fields_words, hargv, hfields] at hsame
  have hx : resolve (['x'] :: more) = ⟨[], none, ['x'] :: more⟩ :=
    resolve_of_not_peel (peel_of_program (by decide) (by decide) more)
  rw [resolve_of_peel (peel_clearing hfirst hsets (List.cons_ne_nil _ _)), hx] at hsame
  have hle := length_resolve_le (name :: args)
  rw [← hsame] at hle
  simp only [List.length_cons] at hle hlen
  omega

theorem ne_name_of_mem {t : Txt} (h : '=' ∈ t ∨ isOption t = true) :
    t ≠ envName ∧ t ≠ timeoutName := by
  constructor <;> rintro rfl <;> revert h <;> decide

/-- The first command names a program by something that `env` leaves alone: otherwise
`env` keeps fewer arguments than there were, or all of its own. -/
theorem First.namesProgram (h : First M c) : ∃ w ws, NamesProgram M c w ws := by
  obtain ⟨w, ws, hops, hplain, hprogram⟩ := h.operands
  obtain ⟨name, args, hargv, -, hsame⟩ :=
    h.argv (expanding fun w => [w.text]) blind_steady anywhere
  have hname : w.text = name := by
    rw [World.argv, hops, List.flatMap_cons, World.fields, if_pos hplain, List.cons_append,
      List.cons.injEq] at hargv
    exact hargv.1
  subst hname
  rw [fields_words, hargv, World.flatMap_fields _ _ h.assignments] at hsame
  -- neither an assignment nor an option is a wrapper to `resolve`
  have hshort (hodd : '=' ∈ w.text ∨ isOption w.text = true) :
      (envOptions (c.assignments.map Word.text ++ w.text :: args)).2.head?.any isOption = false ∧
        args.length < (envAssignments
          (envOptions (c.assignments.map Word.text ++ w.text :: args)).2).2.length := by
    obtain ⟨henv, htimeout⟩ := ne_name_of_mem hodd
    rw [resolve_of_not_peel (peel_of_program henv htimeout args)] at hsame
    rcases length_resolve_clearing (c.assignments.map Word.text ++ w.text :: args) with
      hfull | ⟨hoption, hlen⟩
    · exfalso
      have hlen := congrArg List.length (hfull.symm.trans hsame)
      simp only [clearingTexts, List.length_append, List.length_cons] at hlen
      omega
    · rw [hsame] at hlen
      exact ⟨hoption, hlen⟩
  have hoption : c.assignments = [] → isOption w.text = false := by
    intro hnil
    by_contra htrue
    rw [Bool.not_eq_false] at htrue
    obtain ⟨hhead, hlen⟩ := hshort (Or.inr htrue)
    rw [hnil, List.map_nil, List.nil_append] at hhead hlen
    cases args with
    | nil =>
      rw [show envOptions [w.text] = ([], [w.text]) from rfl] at hhead
      rw [List.head?_cons, Option.any_some, htrue] at hhead
      cases hhead
    | cons v args =>
      rw [envOptions] at hhead hlen
      split_ifs at hhead hlen
      · have hle := (length_envAssignments (envOptions args).2).trans (length_envOptions args)
        simp only [List.length_cons] at hlen
        omega
      · rw [List.head?_cons, Option.any_some, htrue] at hhead
        cases hhead
  refine ⟨w, ws, hops, hplain, hprogram, ?_, hoption, h.assignments⟩
  intro hequals
  obtain ⟨-, hlen⟩ := hshort (Or.inl hequals)
  have hfirst : (c.assignments.map Word.text ++ w.text :: args).head?.any isOption = false := by
    cases hc : c.assignments with
    | nil => exact hoption hc
    | cons a as =>
      exact isOption_of_isAssignment (List.mem_takeWhile_imp (hc ▸ .head _ : a ∈ c.assignments))
  have hmem : ∀ t ∈ c.assignments.map Word.text, '=' ∈ t := by
    intro t ht
    obtain ⟨a, ha, rfl⟩ := List.mem_map.mp ht
    exact mem_text_of_isAssignment (List.mem_takeWhile_imp ha)
  rw [envOptions_of_command hfirst, envAssignments_append hmem, envAssignments, if_pos hequals]
    at hlen
  exact absurd (length_envAssignments args) (Nat.not_le_of_lt hlen)

theorem First.keepsUnset (h : First M c) : KeepsUnset c := by
  intro W s e v hv
  obtain ⟨w, ws, hprogram⟩ := h.namesProgram
  -- the same expansions, whatever the environment
  obtain ⟨fds, -, hunset⟩ := h.same
    (.steady 0 (W.expand s) (W.value s) fun _ => ⟨[], 0⟩) blind_steady { s with env := e }
  rw [(commandOf_program hprogram fds).2] at hunset
  exact hunset v hv

/-! ## The later commands -/

/-- A world whose expansions are those of `W` in the state `s`, whatever the state. -/
def fixed (k : Nat) (W : World) (s : State) : World :=
  .steady k (W.expand s) (W.value s) fun _ => ⟨[], 0⟩

theorem env_fixed (M : Machine) (k : Nat) (W : World) (s : State) (fds fds' : Nat → Dest) :
    (M.commandOf (fixed k W s) s fds' c).1.env = (M.commandOf W s fds c).1.env := by
  have hargv : (fixed k W s).argv s c = W.argv s c := rfl
  unfold Machine.commandOf
  rw [hargv]
  dsimp only
  split
  · rfl
  · split_ifs <;> rfl

/-- A command that clears the masks is a program: the shell has no other environment
for its own commands. -/
theorem program_of_clears (h : Clears M c) (W : World) (s : State) (fds : Nat → Dest) :
    (M.commandOf W s fds c).1.builtin = false := by
  by_contra hbuiltin
  rw [Bool.not_eq_false] at hbuiltin
  have hargv : (fixed 0 W s).argv { s with env := fun _ => some [] } c = W.argv s c := rfl
  have hfixed : (M.commandOf (fixed 0 W s) { s with env := fun _ => some [] } fds c).1.builtin =
      true := by
    unfold Machine.commandOf at hbuiltin ⊢
    rw [hargv]
    dsimp only at hbuiltin ⊢
    split at hbuiltin
    · rfl
    · split_ifs at hbuiltin ⊢ with hname
      rfl
  have hunset := h (fixed 0 W s) { s with env := fun _ => some [] } fds rocr (.head _)
  rw [Machine.env_of_builtin hfixed] at hunset
  cases hunset

/-- Behind commands that clear the masks, and so are programs, a command is reached when
all of them end with a suitable status. -/
theorem clears_of_reached (h : Preserves M command) {before after : Script} {o : Op}
    {first : Simple} (hmasked : read M.reserved (clearing ++ command) =
      .read ((.newline, first.behind clearingWords) :: (before ++ (o, c) :: after)))
    (hbefore : ∀ p ∈ before, Clears M p.2) : Clears M c := by
  intro W s fds v hv
  obtain ⟨k, hk⟩ : ∃ k, Machine.runsAfter (Machine.leading .newline
      (((.newline, first.behind clearingWords) :: before).map Prod.fst ++ [o])) k true = true := by
    cases Machine.leading .newline
        (((.newline, first.behind clearingWords) :: before).map Prod.fst ++ [o]) with
    | orElse => exact ⟨1, rfl⟩
    | _ => exact ⟨0, rfl⟩
  have hprograms : ∀ p ∈ (.newline, first.behind clearingWords) :: before, ∀ fds,
      (M.commandOf (fixed k W s) s fds p.2).1.builtin = false := by
    intro p hp fds
    rcases List.mem_cons.mp hp with rfl | hp
    · exact congrArg (·.1.builtin) (commandOf_behind fds)
    · exact program_of_clears (hbefore p hp) _ _ _
  obtain ⟨fromPipe, toPipe, hmem⟩ : ∃ fromPipe toPipe,
      (M.exec (fixed k W s) s fromPipe toPipe c).1 ∈ (M.runScript (fixed k W s) s k true
        ((.newline, first.behind clearingWords) :: before ++ (o, c) :: after)).ran :=
    Machine.mem_ran_of_leading hprograms rfl hk
  have hunset := (h (fixed k W s) blind_steady s none false).unset
  simp only [unmaskedSshMonitorExecutor, shellExecutor, run_read hmasked] at hunset
  have hnone := hunset _ hmem v hv
  rw [Machine.exec_command] at hnone
  rw [← env_fixed M k W s fds]
  exact hnone

theorem clears_of_preserves (h : Preserves M command) {first : Simple} {before later : Script}
    (hmasked : read M.reserved (clearing ++ command) =
      .read ((.newline, first.behind clearingWords) :: (before ++ later)))
    (hbefore : ∀ p ∈ before, Clears M p.2) : ∀ p ∈ later, Clears M p.2 := by
  induction later generalizing before with
  | nil =>
    intro p hp
    cases hp
  | cons q later ih =>
    obtain ⟨o, c⟩ := q
    have hc := clears_of_reached h hmasked hbefore
    intro p hp
    rcases List.mem_cons.mp hp with rfl | hp
    · exact hc
    · refine @ih (before ++ [(o, c)]) ?_ ?_ p hp
      · rw [List.append_assoc]
        exact hmasked
      · intro q hq
        rcases List.mem_append.mp hq with hq | hq
        · exact hbefore q hq
        · rw [List.mem_singleton.mp hq]
          exact hc

/-- The wrapper preserves a text exactly when the words in front reach a program and
every later command clears the masks itself. -/
theorem preserves_iff (M : Machine) (command : Txt) :
    Preserves M command ↔ Unmaskable M command := by
  refine ⟨fun h => ?_, preserves_of_unmaskable⟩
  obtain hrefused | ⟨ts, c, later, htokens, hne, hscript, hbehind⟩ := read_of_preserves h
  · exact Or.inl hrefused
  · have hplain : read M.reserved command = .read ((.newline, c) :: later) := by
      rw [Shell.read, htokens]
      exact hscript
    have hmasked : read M.reserved (clearing ++ command) =
        .read ((.newline, c.behind clearingWords) :: ([] ++ later)) := by
      rw [read_clearing, htokens]
      exact hbehind
    have hfirst := first_of_preserves h hplain hmasked
    exact Or.inr ⟨ts, c, later, htokens, hne, hscript, hfirst.namesProgram, hfirst.keepsUnset,
      clears_of_preserves h hmasked fun p hp => by cases hp⟩

/-- A program on its own sets no mask. -/
theorem keepsUnset_of_program {w : Word} {ws : List Word} (hops : c.operands = w :: ws)
    (hassign : c.assignments = []) (hplain : w.plain = true) (henv : w.text ≠ envName)
    (htimeout : w.text ≠ timeoutName) : KeepsUnset c := by
  intro W s e v hv
  have hargv : W.argv s c = w.text :: ws.flatMap (W.fields s) := by
    rw [World.argv, hops, List.flatMap_cons, World.fields, if_pos hplain]
    rfl
  rw [programEnv, hassign, hargv, resolve_of_not_peel (peel_of_program henv htimeout _)]
  exact Env.without_of_mem hv e

/-- The command that the monitor starts is one program. -/
example : Unmaskable posix "amd-smi monitor -p -t -u -m -v -w 1 --csv --overwrite".toList := by
  refine Or.inr ⟨_, _, [], rfl, by decide, rfl, ⟨_, _, rfl, by decide, by decide, by decide,
    fun _ => by decide, fun a ha => by cases ha⟩, ?_, fun p hp => by cases hp⟩
  exact keepsUnset_of_program rfl rfl (by decide) (by decide) (by decide)

/-- A command that begins by entering its directory: `env` looks for a program `cd`. -/
theorem cd_not_preserved : ¬ Preserves posix "cd /opt/cuda_memtest && git clean -dfx".toList := by
  intro h
  have hplain : read posix.reserved "cd /opt/cuda_memtest && git clean -dfx".toList =
      .read [(.newline, ⟨[.of .bare "cd".toList, .of .bare "/opt/cuda_memtest".toList], []⟩),
        (.andThen, ⟨[.of .bare "git".toList, .of .bare "clean".toList, .of .bare "-dfx".toList],
          []⟩)] := by decide
  obtain ⟨c, later, hread, hmasked⟩ : ∃ c later,
      read posix.reserved "cd /opt/cuda_memtest && git clean -dfx".toList =
        .read ((.newline, c) :: later) ∧
      read posix.reserved (clearing ++ "cd /opt/cuda_memtest && git clean -dfx".toList) =
        .read ((.newline, c.behind clearingWords) :: later) := by
    obtain ⟨hrefused, -⟩ | ⟨ts, c, later, htokens, -, hscript, hbehind⟩ := read_of_preserves h
    · rw [hplain] at hrefused
      cases hrefused
    · refine ⟨c, later, ?_, ?_⟩
      · rw [Shell.read, htokens]
        exact hscript
      · rw [read_clearing, htokens]
        exact hbehind
  obtain ⟨w, ws, hops, -, hprogram⟩ := (first_of_preserves h hread hmasked).operands
  rw [hplain] at hread
  cases hread
  obtain ⟨rfl, -⟩ : Word.of .bare "cd".toList = w ∧ _ := List.cons.inj hops
  exact absurd hprogram (by decide)

end UnmaskedMonitor
end Monitored
end RocmTests

import RocmTests.Shell.Exports
import RocmTests.Shell.Nested
import RocmTests.Shell.Quote

/-!
# Command lines put together from words

A `Piece` is a text that stands for one argument: a quoted text, or one without special characters.
Pieces with a blank between each two are read back as their arguments, and where the first of them
names a program, that program is all that runs.
-/

namespace RocmTests
namespace Shell

open Text

/-- A text without special characters. -/
def Unspecial (t : Txt) : Prop := t ≠ [] ∧ ∀ c ∈ t, c ∉ special

theorem unspecial_of_all {t : Txt} (hne : t ≠ [])
    (h : t.all (fun c => decide (c ∉ special)) = true) : Unspecial t :=
  ⟨hne, fun c hc => of_decide_eq_true (List.all_eq_true.mp h c hc)⟩

theorem Unspecial.append {t u : Txt} (ht : Unspecial t) (hu : ∀ c ∈ u, c ∉ special) :
    Unspecial (t ++ u) := by
  refine ⟨List.append_ne_nil_of_left_ne_nil ht.1 u, fun c hc => ?_⟩
  rcases List.mem_append.mp hc with hc | hc
  · exact ht.2 c hc
  · exact hu c hc

theorem Unspecial.all {ts : List Txt} (h : ts.all (fun t => decide (t ≠ []) &&
    t.all fun c => decide (c ∉ special)) = true) : ∀ t ∈ ts, Unspecial t := by
  intro t ht
  have hall := List.all_eq_true.mp h t ht
  rw [Bool.and_eq_true] at hall
  exact unspecial_of_all (of_decide_eq_true hall.1) hall.2

theorem isSafe_showInt (i : Int) : ∀ c ∈ showInt i, isSafe c = true := by
  have hdigit {n : Nat} {c : Char} (h : c ∈ showNat n) : isSafe c = true := by
    have hc := isDigit_of_mem_showNat h
    simp [isSafe, Char.isAlphanum, hc]
  intro c hc
  cases i with
  | ofNat n => exact hdigit hc
  | negSucc n =>
    rcases List.mem_cons.mp hc with rfl | hc
    · decide
    · exact hdigit hc

theorem showInt_ne_nil (i : Int) : showInt i ≠ [] := by
  cases i with
  | ofNat n => exact showNat_ne_nil n
  | negSucc n => exact List.cons_ne_nil _ _

theorem unspecial_showInt (i : Int) : Unspecial (showInt i) :=
  ⟨showInt_ne_nil i, fun c hc => not_mem_special_of_isSafe (isSafe_showInt i c hc)⟩

structure Piece where
  text : Txt
  word : Word
  reads : Reads text word
  inert : inert word = true

namespace Piece

def arg (p : Piece) : Txt := p.word.text

def bare (t : Txt) (h : Unspecial t) : Piece where
  text := t
  word := .of .bare t
  reads := reads_bare h.1 h.2
  inert := inert_of_plain (Word.plain_of (by decide) t)

def quoted (t : Txt) : Piece where
  text := quote t
  word := quotedWord t
  reads := reads_quote t
  inert := inert_of_plain (plain_quotedWord t)

/-- Two texts without a blank between them. -/
def glued (p q : Piece) (h : Shell.inert (p.word ++ q.word) = true) : Piece where
  text := p.text ++ q.text
  word := p.word ++ q.word
  reads := p.reads.append q.reads
  inert := h

@[simp] theorem arg_bare {t : Txt} (h : Unspecial t) : (bare t h).arg = t := Word.text_of _ t

@[simp] theorem arg_quoted (t : Txt) : (quoted t).arg = t := text_quotedWord t

@[simp] theorem text_bare {t : Txt} (h : Unspecial t) : (bare t h).text = t := rfl

@[simp] theorem text_quoted (t : Txt) : (quoted t).text = quote t := rfl

end Piece

/-- The pieces as one text. -/
def line (ps : List Piece) : Txt := [' '].intercalate (ps.map Piece.text)

theorem exists_pieces {ts : List Txt} (h : ∀ t ∈ ts, Unspecial t) : ∃ ps : List Piece,
    ps.map Piece.text = ts ∧ ps.map Piece.arg = ts := by
  induction ts with
  | nil => exact ⟨[], rfl, rfl⟩
  | cons t ts ih =>
    obtain ⟨ps, htext, harg⟩ := ih fun u hu => h u (List.mem_cons_of_mem t hu)
    refine ⟨Piece.bare t (h t List.mem_cons_self) :: ps, ?_, ?_⟩
    · rw [List.map_cons, htext, Piece.text_bare]
    · rw [List.map_cons, harg, Piece.arg_bare]

/-- Words, and behind them texts that are quoted. -/
theorem exists_line {ts : List Txt} (h : ∀ t ∈ ts, Unspecial t) (us : List Txt) : ∃ ps : List Piece,
    line ps = [' '].intercalate (ts ++ us.map quote) ∧ ps.map Piece.arg = ts ++ us := by
  obtain ⟨ps, htext, harg⟩ := exists_pieces h
  refine ⟨ps ++ us.map Piece.quoted, ?_, ?_⟩
  · rw [line, List.map_append, htext, List.map_map]
    rfl
  · have hquoted : (us.map Piece.quoted).map Piece.arg = us := by
      rw [List.map_map]
      exact List.map_id'' Piece.arg_quoted us
    rw [List.map_append, harg, hquoted]

theorem joined_append {ts us : List Txt} (hts : ts ≠ []) (hus : us ≠ []) :
    [' '].intercalate (ts ++ us) = [' '].intercalate ts ++ ' ' :: [' '].intercalate us := by
  induction ts with
  | nil => exact absurd rfl hts
  | cons t ts ih =>
    rw [List.cons_append,
      List.intercalate_cons_of_ne_nil (List.append_ne_nil_of_right_ne_nil ts hus)]
    by_cases hnil : ts = []
    · rw [hnil, List.nil_append, List.intercalate_singleton, List.append_assoc]
      rfl
    · rw [ih hnil, List.intercalate_cons_of_ne_nil hnil]
      exact (List.append_assoc _ _ _).symm

theorem line_append {ps qs : List Piece} (hps : ps ≠ []) (hqs : qs ≠ []) :
    line (ps ++ qs) = line ps ++ ' ' :: line qs := by
  rw [line, List.map_append, joined_append (mt List.map_eq_nil_iff.mp hps)
    (mt List.map_eq_nil_iff.mp hqs)]
  rfl

theorem Piece.text_ne_nil (p : Piece) : p.text ≠ [] := by
  intro hnil
  have hreads := p.reads [] none
  rw [hnil] at hreads
  cases hreads

theorem line_ne_nil {ps : List Piece} (hps : ps ≠ []) : line ps ≠ [] := by
  obtain ⟨p, ps, rfl⟩ := List.exists_cons_of_ne_nil hps
  by_cases hnil : ps = []
  · rw [hnil, line, List.map_singleton, List.intercalate_singleton]
    exact p.text_ne_nil
  · rw [show p :: ps = [p] ++ ps from rfl, line_append (List.cons_ne_nil p []) hnil]
    exact List.append_ne_nil_of_right_ne_nil _ (List.cons_ne_nil ' ' _)

/-- Words that stand together in one text are as good as words of their own. -/
theorem joined_within {ts us vs : List Txt} (hts : ts ≠ []) (hvs : vs ≠ []) (hus : [] ∉ us) :
    [' '].intercalate
      (ts ++ (if [' '].intercalate us ≠ [] then [[' '].intercalate us] else []) ++ vs) =
      [' '].intercalate (ts ++ us ++ vs) := by
  by_cases hnil : us = []
  · rw [hnil, List.intercalate_nil, if_neg fun h => h rfl]
  · have hjoined : [' '].intercalate us ≠ [] := by
      obtain ⟨u, us, rfl⟩ := List.exists_cons_of_ne_nil hnil
      have hu : u ≠ [] := fun h => hus (h ▸ List.mem_cons_self)
      by_cases hone : us = []
      · rw [hone, List.intercalate_singleton]
        exact hu
      · rw [List.intercalate_cons_of_ne_nil hone, List.append_assoc]
        exact List.append_ne_nil_of_left_ne_nil hu _
    rw [if_pos hjoined, List.append_assoc, List.append_assoc,
      joined_append hts (List.append_ne_nil_of_left_ne_nil (List.cons_ne_nil _ []) vs),
      joined_append hts (List.append_ne_nil_of_left_ne_nil hnil vs),
      joined_append (List.cons_ne_nil _ []) hvs, joined_append hnil hvs, List.intercalate_singleton]

theorem finish_line (ps : List Piece) : ∀ ts : List Token,
    ((line ps).foldl Lexer.step ⟨ts, none, .plain⟩).finish =
      .read (ts ++ ps.map fun p => Token.word p.word) := by
  induction ps with
  | nil =>
    intro ts
    rw [List.map_nil, List.append_nil]
    rfl
  | cons p ps ih =>
    intro ts
    have hp := p.reads ts none
    rw [Option.getD_none, List.nil_append] at hp
    by_cases hnil : ps = []
    · have hline : line (p :: ps) = p.text := by
        rw [hnil, line, List.map_singleton, List.intercalate_singleton]
      rw [hline, hp, hnil]
      rfl
    · have hline : line (p :: ps) = p.text ++ ([' '] ++ line ps) := by
        rw [line, List.map_cons, List.intercalate_cons_of_ne_nil (mt List.map_eq_nil_iff.mp hnil)]
        exact List.append_assoc ..
      rw [hline, List.foldl_append, hp, List.foldl_append, List.foldl_cons, List.foldl_nil,
        Lexer.step_blank, ih, List.append_assoc]
      rfl

theorem tokens_line (ps : List Piece) :
    tokens (line ps) = .read (ps.map fun p => Token.word p.word) :=
  finish_line ps []

section Running

variable {kept : Txt → Prop} {M : Machine} {W : World} {s : State}

/-- A name that is no assignment and no wrapper. -/
structure Plainly (name : Txt) : Prop where
  noEquals : '=' ∉ name
  noEnv : name ≠ envName
  noTimeout : name ≠ timeoutName

instance (name : Txt) : Decidable (Plainly name) :=
  decidable_of_iff ('=' ∉ name ∧ name ≠ envName ∧ name ≠ timeoutName)
    ⟨fun h => ⟨h.1, h.2.1, h.2.2⟩, fun h => ⟨h.1, h.2, h.3⟩⟩

/-- A text that is read as words starts one program with them. -/
theorem Bash.run_words (hbash : Bash kept M W) {cmd : Txt} {w : Word} {ws : List Word}
    (htokens : tokens cmd = .read ((w :: ws).map Token.word)) (hprogram : Program M w.text)
    (hname : Plainly w.text) (hinert : ∀ v ∈ w :: ws, inert v = true) :
    (M.run W s cmd).ran.map Executed.command = [launched s (w.text :: ws.map Word.text)] := by
  have hscript : read M.reserved cmd = .read [(.newline, ⟨w :: ws, []⟩)] := by
    have hspell := script_spell ⟨w, ws, rfl, hprogram.word⟩ fun p (hp : p ∈ []) => by cases hp
    rw [read, htokens, Reading.bind_read]
    exact hspell
  have hexec :=
    hbash.exec_words (s := s) hprogram.program hname.noEquals hname.noEnv hname.noTimeout
    hinert
  rw [Machine.run, hscript]
  exact congrArg (fun c => [c]) hexec.1

theorem Bash.run_line (hbash : Bash kept M W) {p : Piece} (ps : List Piece)
    (hprogram : Program M p.arg) (hname : Plainly p.arg) :
    (M.run W s (line (p :: ps))).ran.map Executed.command =
      [launched s (p.arg :: ps.map Piece.arg)] := by
  have hinert : ∀ v ∈ p.word :: ps.map Piece.word, inert v = true := by
    intro v hv
    rcases List.mem_cons.mp hv with rfl | hv
    · exact p.inert
    · obtain ⟨q, -, rfl⟩ := List.mem_map.mp hv
      exact q.inert
  have htokens : tokens (line (p :: ps)) =
      .read ((p.word :: ps.map Piece.word).map Token.word) := by
    rw [tokens_line, List.map_cons, List.map_cons, List.map_map]
    rfl
  have hran := hbash.run_words (s := s) htokens hprogram hname hinert
  rw [List.map_map] at hran
  exact hran

end Running

/-!
## `cd dir && env NAME=value … program`

A command of this shape does what it says: the program runs in the directory, with the values for
those variables and with its arguments as they were given, or it does not run when the directory
cannot be entered.
-/

namespace Piece

/-- A variable and a quoted value. -/
def assigned (p : Txt × Txt) (h : isName p.1 = true) : Piece where
  text := p.1 ++ '=' :: quote p.2
  word := exportWord p
  reads := reads_exportWord h
  inert := inert_of_plain (plain_exportWord p)

@[simp] theorem arg_assigned {p : Txt × Txt} (h : isName p.1 = true) :
    (assigned p h).arg = p.1 ++ '=' :: p.2 := text_exportWord p

end Piece

theorem isNameChar_of_isName {t : Txt} (h : isName t = true) : ∀ c ∈ t, isNameChar c = true := by
  rw [isName, Bool.and_eq_true] at h
  exact List.all_eq_true.mp h.2

theorem assignment_of_isName {p : Txt × Txt} (h : isName p.1 = true) :
    assignment (p.1 ++ '=' :: p.2) = (p.1, some p.2) := by
  have hno : ∀ c ∈ p.1, decide (c ≠ '=') = true := by
    intro c hc
    refine decide_eq_true fun heq => ?_
    have hname := isNameChar_of_isName h c hc
    rw [heq] at hname
    exact absurd hname (by decide)
  rw [assignment, List.takeWhile_append_of_pos hno, List.dropWhile_append_of_pos hno]
  simp

theorem exists_assigned {sets : List (Txt × Txt)} (h : ∀ p ∈ sets, isName p.1 = true) :
    ∃ ps : List Piece, ps.map Piece.text = sets.map (fun p => p.1 ++ '=' :: quote p.2) ∧
      ps.map Piece.arg = sets.map fun p => p.1 ++ '=' :: p.2 := by
  induction sets with
  | nil => exact ⟨[], rfl, rfl⟩
  | cons p sets ih =>
    obtain ⟨ps, htext, harg⟩ := ih fun q hq => h q (List.mem_cons_of_mem p hq)
    refine ⟨Piece.assigned p (h p List.mem_cons_self) :: ps, ?_, ?_⟩
    · rw [List.map_cons, htext]
      rfl
    · rw [List.map_cons, harg, Piece.arg_assigned]
      rfl

/-- What `env` makes of variables with values and a program. -/
theorem resolve_env {sets : List (Txt × Txt)} (hsets : ∀ p ∈ sets, isName p.1 = true) {name : Txt}
    (hname : Plainly name) (hoption : isOption name = false) (args : List Txt) :
    resolve (envName :: (sets.map (fun p => p.1 ++ '=' :: p.2) ++ name :: args)) =
      ⟨overlay sets, none, name :: args⟩ := by
  have hhead : (sets.map (fun p => p.1 ++ '=' :: p.2) ++ name :: args).head?.any isOption =
      false := by
    cases sets with
    | nil => exact hoption
    | cons p sets =>
      have hp := hsets p List.mem_cons_self
      cases hk : p.1 with
      | nil =>
        rw [hk] at hp
        cases hp
      | cons c k =>
        have hc : isNameChar c = true := isNameChar_of_isName hp c (hk ▸ List.mem_cons_self)
        rw [List.map_cons, hk]
        show decide (some c = some '-') = false
        refine decide_eq_false fun heq => ?_
        rw [Option.some.inj heq] at hc
        exact absurd hc (by decide)
  have hassign : envAssignments (sets.map (fun p => p.1 ++ '=' :: p.2) ++ name :: args) =
      (overlay sets, name :: args) := by
    have hall : ∀ w ∈ sets.map (fun p => p.1 ++ '=' :: p.2), '=' ∈ w := by
      intro w hw
      obtain ⟨p, -, rfl⟩ := List.mem_map.mp hw
      exact List.mem_append_right _ List.mem_cons_self
    rw [envAssignments_append hall, envAssignments_of_command hname.noEquals, List.append_nil,
      List.map_map]
    refine congrArg (·, name :: args) (List.map_congr_left fun p hp => ?_)
    exact assignment_of_isName (hsets p hp)
  have hpeel := peel_env (envOptions_of_command hhead) hhead hassign (List.cons_ne_nil name args)
  rw [resolve_of_peel hpeel, resolve_of_not_peel (peel_of_program hname.noEnv hname.noTimeout args)]
  simp

/-! ### Two lists of words -/

theorem foldl_line {ps : List Piece} (hps : ps ≠ []) : ∀ ts : List Token,
    (line ps ++ [' ']).foldl Lexer.step ⟨ts, none, .plain⟩ =
      ⟨ts ++ ps.map (fun p => Token.word p.word), none, .plain⟩ := by
  induction ps with
  | nil => exact absurd rfl hps
  | cons p ps ih =>
    intro ts
    have hp := p.reads ts none
    rw [Option.getD_none, List.nil_append] at hp
    have hone : (p.text ++ [' ']).foldl Lexer.step ⟨ts, none, .plain⟩ =
        ⟨ts ++ [Token.word p.word], none, .plain⟩ := by
      rw [List.foldl_append, hp]
      rfl
    by_cases hnil : ps = []
    · have hline : line (p :: ps) = p.text := by
        rw [hnil, line, List.map_singleton, List.intercalate_singleton]
      rw [hline, hone, hnil]
      rfl
    · have hline : line (p :: ps) ++ [' '] = (p.text ++ [' ']) ++ (line ps ++ [' ']) := by
        rw [line, List.map_cons, List.intercalate_cons_of_ne_nil (mt List.map_eq_nil_iff.mp hnil),
          line]
        simp only [List.append_assoc]
      rw [hline, List.foldl_append, hone, ih hnil, List.append_assoc]
      rfl

/-- One list, and another if it succeeds. -/
def andThen (a b : Txt) : Txt := a ++ (" && ".toList ++ b)

theorem tokens_andThen {ps : List Piece} (hps : ps ≠ []) (qs : List Piece) :
    tokens (andThen (line ps) (line qs)) =
      .read (spell (ps.map Piece.word) [(.andThen, qs.map Piece.word)]) := by
  have hsplit : andThen (line ps) (line qs) = (line ps ++ [' ']) ++ ("&& ".toList ++ line qs) := by
    rw [andThen, List.append_assoc]
    rfl
  have hop (ts : List Token) : "&& ".toList.foldl Lexer.step ⟨ts, none, .plain⟩ =
      ⟨ts ++ [Token.op .andThen], none, .plain⟩ := rfl
  rw [tokens, hsplit, List.foldl_append]
  show ((("&& ".toList ++ line qs).foldl Lexer.step
    ((line ps ++ [' ']).foldl Lexer.step ⟨[], none, .plain⟩)).finish) = _
  rw [foldl_line hps, List.foldl_append, hop, finish_line]
  simp [spell, List.map_map, Function.comp_def]

section Running

variable {kept : Txt → Prop} {M : Machine} {W : World} {s : State}

theorem inert_words_pieces (ps : List Piece) : ∀ w ∈ ps.map Piece.word, inert w = true := by
  intro w hw
  obtain ⟨p, -, rfl⟩ := List.mem_map.mp hw
  exact p.inert

theorem texts_pieces (ps : List Piece) : (ps.map Piece.word).map Word.text = ps.map Piece.arg :=
  List.map_map

/-- The program that `env` starts. -/
def started (s : State) (sets : List (Txt × Txt)) (argv : List Txt) : Command :=
  ⟨false, argv, [], s.env.apply (overlay sets), s.dir, Machine.piped false false⟩

theorem Bash.exec_env (hbash : Bash kept M W) {ps : List Piece} {sets : List (Txt × Txt)}
    (hsets : ∀ p ∈ sets, isName p.1 = true) {name : Txt} (hname : Plainly name)
    (hoption : isOption name = false) {args : List Txt}
    (hps : ps.map Piece.arg = envName :: (sets.map (fun p => p.1 ++ '=' :: p.2) ++ name :: args)) :
    (M.exec W s false false ⟨ps.map Piece.word, []⟩).1.command = started s sets (name :: args) := by
  obtain ⟨p, ps', rfl, hp, hps'⟩ := List.map_eq_cons_iff.mp hps
  have hno : '=' ∉ p.word.text := by
    rw [show p.word.text = envName from hp]
    decide
  have hargv : W.argv s ⟨(p :: ps').map Piece.word, []⟩ =
      envName :: (sets.map (fun p => p.1 ++ '=' :: p.2) ++ name :: args) := by
    rw [← hps, ← texts_pieces]
    exact hbash.argv_words hno (inert_words_pieces (p :: ps'))
  have hcommand (fds : Nat → Dest) : M.commandOf W s fds ⟨(p :: ps').map Piece.word, []⟩ = _ :=
    Machine.commandOf_program hargv M.env_program
  have hbuiltin (fds : Nat → Dest) :
      (M.commandOf W s fds ⟨(p :: ps').map Piece.word, []⟩).1.builtin = false := by
    rw [hcommand]
  have hassigned : Simple.assignments ⟨p.word :: ps'.map Piece.word, []⟩ = [] :=
    (operands_of_name hno).1
  rw [Machine.exec_program (hbuiltin _), hcommand, resolve_env hsets hname hoption]
  show Command.mk false _ []
    ((s.env.apply ((Simple.assignments ⟨p.word :: ps'.map Piece.word, []⟩).map
    (W.assigned s) |>.map fun p => (p.1, some p.2))).apply _) _ _ = _
  rw [hassigned]
  rfl

/-- The variables, if there are any, in front of a program and its arguments. -/
def prefixed (sets : List (Txt × Txt)) (argv : List Txt) : List Txt :=
  if sets = [] then argv else envName :: (sets.map (fun p => p.1 ++ '=' :: p.2) ++ argv)

/-- `env` and the variables, if there are any, in front of a command. -/
def withEnv (sets : List (Txt × Txt)) (core : Txt) : Txt :=
  if sets = [] then core
  else "env ".toList ++
    ([' '].intercalate (sets.map fun p => p.1 ++ '=' :: quote p.2) ++ ' ' :: core)

theorem exists_withEnv {sets : List (Txt × Txt)} (hsets : ∀ p ∈ sets, isName p.1 = true)
    {ps : List Piece} (hps : ps ≠ []) : ∃ qs : List Piece, qs ≠ [] ∧
      withEnv sets (line ps) = line qs ∧ qs.map Piece.arg = prefixed sets (ps.map Piece.arg) := by
  by_cases hnil : sets = []
  · refine ⟨ps, hps, ?_, ?_⟩
    · rw [withEnv, if_pos hnil]
    · rw [prefixed, if_pos hnil]
  · obtain ⟨assigned, htext, hargs⟩ := exists_assigned hsets
    have hassigned : assigned ≠ [] := by
      intro h
      rw [h] at htext
      exact hnil (List.map_eq_nil_iff.mp htext.symm)
    have henv : Unspecial envName := unspecial_of_all (by decide) (by decide)
    refine ⟨[.bare envName henv] ++ (assigned ++ ps), List.cons_ne_nil _ _, ?_, ?_⟩
    · rw [withEnv, if_neg hnil, ← htext, line_append (List.cons_ne_nil _ _)
        (List.append_ne_nil_of_left_ne_nil hassigned ps), line_append hassigned hps]
      rfl
    · rw [prefixed, if_neg hnil, List.map_append, List.map_append, hargs, List.map_singleton,
        Piece.arg_bare]
      rfl

/-- A program that `env` may start, and that a shell may start itself. -/
structure Startable (M : Machine) (name : Txt) : Prop where
  program : Program M name
  plainly : Plainly name
  operand : isOption name = false

theorem begins_prefixed {sets : List (Txt × Txt)} {name : Txt} (hname : Startable M name)
    {args : List Txt} {ps : List Piece} (hps : ps.map Piece.arg = prefixed sets (name :: args)) :
    Begins M.reserved (ps.map Piece.word) := by
  rw [prefixed] at hps
  by_cases hnil : sets = []
  · rw [if_pos hnil] at hps
    obtain ⟨p, ps', rfl, hp, -⟩ := List.map_eq_cons_iff.mp hps
    refine ⟨p.word, ps'.map Piece.word, rfl, ?_⟩
    rw [show p.word.text = name from hp]
    exact hname.program.word
  · rw [if_neg hnil] at hps
    obtain ⟨p, ps', rfl, hp, -⟩ := List.map_eq_cons_iff.mp hps
    refine ⟨p.word, ps'.map Piece.word, rfl, ?_⟩
    rw [show p.word.text = envName from hp]
    exact M.env_word

theorem Bash.exec_prefixed (hbash : Bash kept M W) {sets : List (Txt × Txt)}
    (hsets : ∀ p ∈ sets, isName p.1 = true) {name : Txt} (hname : Startable M name)
    {args : List Txt} {ps : List Piece} (hps : ps.map Piece.arg = prefixed sets (name :: args))
    (s : State) :
    (M.exec W s false false ⟨ps.map Piece.word, []⟩).1.command = started s sets (name :: args) := by
  rw [prefixed] at hps
  by_cases hnil : sets = []
  · rw [if_pos hnil] at hps
    obtain ⟨p, ps', rfl, rfl, rfl⟩ := List.map_eq_cons_iff.mp hps
    have hexec := hbash.exec_words (s := s) hname.program.program hname.plainly.noEquals
      hname.plainly.noEnv hname.plainly.noTimeout (inert_words_pieces (p :: ps'))
    rw [hnil, List.map_cons, ← texts_pieces]
    exact hexec.1
  · rw [if_neg hnil] at hps
    exact hbash.exec_env hsets hname.plainly hname.operand hps

/-- The program is all that runs. -/
theorem Bash.run_prefixed (hbash : Bash kept M W) {sets : List (Txt × Txt)}
    (hsets : ∀ p ∈ sets, isName p.1 = true) {name : Txt} (hname : Startable M name)
    {args : List Txt} {ps : List Piece} (hps : ps.map Piece.arg = prefixed sets (name :: args))
    (s : State) : (M.run W s (line ps)).programs = [started s sets (name :: args)] := by
  have hscript : read M.reserved (line ps) = .read [(.newline, ⟨ps.map Piece.word, []⟩)] := by
    have hspell := script_spell (begins_prefixed hname hps) fun p (hp : p ∈ []) => by cases hp
    rw [spell, List.map_map] at hspell
    rw [read, tokens_line, Reading.bind_read]
    exact hspell
  have hexec := hbash.exec_prefixed hsets hname hps s
  rw [Machine.run, hscript]
  show List.filter _ [(M.exec W s false false ⟨ps.map Piece.word, []⟩).1.command] = _
  rw [hexec]
  rfl

theorem builtin_cd {c : Command} {d : Txt} (hc : c.argv = [cdName, d]) (hd : isOption d = false) :
    M.builtin W s c = ({ s with dir := (M.enter s.dir d).getD s.dir },
      if (M.enter s.dir d).isSome then 0 else 1) := by
  rw [Machine.builtin, hc]
  dsimp only
  rw [if_pos ⟨rfl, hd⟩]
  cases M.enter s.dir d <;> rfl

/-- `cd` with a directory that is no option. -/
theorem Bash.exec_enter (hbash : Bash kept M W) {p q : Piece} (hp : p.arg = cdName)
    (hq : isOption q.arg = false) (s : State) :
    M.exec W s false false ⟨[p, q].map Piece.word, []⟩ =
      (⟨{ launched s [cdName, q.arg] with builtin := true }, none,
          if (M.enter s.dir q.arg).isSome then 0 else 1⟩,
        { s with dir := (M.enter s.dir q.arg).getD s.dir }) := by
  have hword : p.word.text = cdName := hp
  have hitself : M.itself p.word.text = true := by
    rw [hword]
    exact M.cd_itself
  have hno : '=' ∉ p.word.text := by
    rw [hword]
    decide
  have hexec := hbash.exec_itself (s := s) hitself hno (inert_words_pieces [p, q])
  rw [hword] at hexec
  refine hexec.trans ?_
  dsimp only
  rw [builtin_cd (d := q.arg) rfl hq]
  rfl

/-- The program runs in the directory, and not at all where that cannot be entered. -/
theorem Bash.run_inside (hbash : Bash kept M W) {sets : List (Txt × Txt)}
    (hsets : ∀ p ∈ sets, isName p.1 = true) {name : Txt} (hname : Startable M name)
    {args : List Txt} {ps : List Piece} (hps : ps.map Piece.arg = prefixed sets (name :: args))
    {p q : Piece} (hp : p.arg = cdName) (hq : isOption q.arg = false) (s : State) :
    (M.run W s (andThen (line [p, q]) (line ps))).programs =
      (M.enter s.dir q.arg).toList.map fun dir =>
        started { s with dir := dir } sets (name :: args) := by
  have hbegins : Begins M.reserved ([p, q].map Piece.word) := by
    refine ⟨p.word, [q.word], rfl, ?_⟩
    rw [show p.word.text = cdName from hp]
    exact M.cd_word
  have hscript : read M.reserved (andThen (line [p, q]) (line ps)) =
      .read [(.newline, ⟨[p, q].map Piece.word, []⟩), (.andThen, ⟨ps.map Piece.word, []⟩)] := by
    rw [read, tokens_andThen (List.cons_ne_nil p [q]) ps, Reading.bind_read]
    refine script_spell hbegins fun o ho => ?_
    rw [List.mem_singleton.mp ho]
    exact begins_prefixed hname hps
  rw [Machine.run, hscript]
  show (M.runScript W s 0 true _).programs = _
  rw [Machine.runScript_andThen]
  dsimp only
  rw [hbash.exec_enter hp hq]
  dsimp only
  cases hdir : M.enter s.dir q.arg with
  | none => rfl
  | some dir =>
    have hexec := hbash.exec_prefixed hsets hname hps { s with dir := dir }
    show List.filter _ [_, (M.exec W { s with dir := dir } false false
      ⟨ps.map Piece.word, []⟩).1.command] = _
    rw [hexec]
    rfl

end Running

end Shell
end RocmTests

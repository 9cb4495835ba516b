import RocmTests.Shell.Nested

/-!
# Variables exported in front of a command

`export K=…;` for each variable, the values quoted, and after them the command.  Where a shell reads
the text it begins the command with those values in its environment, whatever the values are.
-/

namespace RocmTests
namespace Shell

open Text

def exportText (p : Txt × Txt) : Txt := "export ".toList ++ (p.1 ++ '=' :: quote p.2) ++ [';']

/-- `" ".join(f"export {key}={shlex.quote(str(value))};" …) + " "`, or nothing. -/
def exportsText (env : List (Txt × Txt)) : Txt :=
  if env = [] then [] else [' '].intercalate (env.map exportText) ++ [' ']

def overlay (env : List (Txt × Txt)) : List Change := env.map fun p => (p.1, some p.2)

theorem exportsText_cons (p : Txt × Txt) (env : List (Txt × Txt)) :
    exportsText (p :: env) = exportText p ++ ' ' :: exportsText env := by
  unfold exportsText
  rw [if_neg (List.cons_ne_nil p env), List.map_cons]
  by_cases hnil : env = []
  · rw [if_pos hnil, hnil, List.map_nil, List.intercalate_singleton]
  · rw [if_neg hnil, List.intercalate_cons_of_ne_nil (mt List.map_eq_nil_iff.mp hnil)]
    simp only [List.append_assoc, List.cons_append, List.nil_append]

/-- The operand of `export`. -/
def exportWord (p : Txt × Txt) : Word := .of .bare (p.1 ++ ['=']) ++ quotedWord p.2

theorem text_exportWord (p : Txt × Txt) : (exportWord p).text = p.1 ++ '=' :: p.2 := by
  rw [exportWord, Word.text_append, Word.text_of, text_quotedWord, List.append_assoc]
  rfl

theorem plain_exportWord (p : Txt × Txt) : (exportWord p).plain = true :=
  Word.plain_append (Word.plain_of (by decide) _) (plain_quotedWord p.2)

theorem not_mem_special_of_isName {t : Txt} (h : isName t = true) : ∀ c ∈ t, c ∉ special := by
  intro c hc
  rw [isName, Bool.and_eq_true] at h
  have hname : isNameChar c = true := List.all_eq_true.mp h.2 c hc
  have hno : special.all (fun c => !isNameChar c) = true := by decide
  intro hspecial
  have hfalse := List.all_eq_true.mp hno c hspecial
  rw [hname] at hfalse
  cases hfalse

theorem reads_exportWord {p : Txt × Txt} (h : isName p.1 = true) :
    Reads (p.1 ++ '=' :: quote p.2) (exportWord p) := by
  have hbare : ∀ c ∈ p.1 ++ ['='], c ∉ special := by
    intro c hc
    rcases List.mem_append.mp hc with hc | hc
    · exact not_mem_special_of_isName h c hc
    · rw [List.mem_singleton.mp hc]
      decide
  have hname := reads_bare (List.append_ne_nil_of_right_ne_nil p.1 (List.cons_ne_nil '=' [])) hbare
  have hall := hname.append (reads_quote p.2)
  rwa [List.append_assoc] at hall

/-- The commands that export variables. -/
def exportCommands (env : List (Txt × Txt)) : List (Op × List Word) :=
  env.map fun p => (.seq, [.of .bare exportName, exportWord p])

def asScript (l : List (Op × List Word)) : Script := l.map fun p => (p.1, ⟨p.2, []⟩)

def exportTokens (env : List (Txt × Txt)) : List Token :=
  env.flatMap fun p => [.word (.of .bare exportName), .word (exportWord p), .op .seq]

theorem Lexer.step_between (ts : List Token) :
    Lexer.step ⟨ts, none, .plain⟩ ' ' = ⟨ts, none, .plain⟩ := rfl

theorem foldl_exportText {p : Txt × Txt} (h : isName p.1 = true) (ts : List Token) :
    (exportText p).foldl Lexer.step ⟨ts, none, .plain⟩ =
      ⟨ts ++ [Token.word (.of .bare exportName), Token.word (exportWord p), .op .seq], none,
        .plain⟩ := by
  have hexport : "export ".toList.foldl Lexer.step ⟨ts, none, .plain⟩ =
      ⟨ts ++ [Token.word (.of .bare exportName)], none, .plain⟩ := rfl
  have hend (ts : List Token) (w : Word) : [';'].foldl Lexer.step ⟨ts, some w, .plain⟩ =
      ⟨ts ++ [Token.word w] ++ [Token.op .seq], none, .plain⟩ := rfl
  have hword := reads_exportWord h (ts ++ [Token.word (.of .bare exportName)]) none
  rw [Option.getD_none, List.nil_append] at hword
  have hall := Lexer.foldl_append_of (Lexer.foldl_append_of hexport hword) (hend _ _)
  have htokens : ts ++ [Token.word (.of .bare exportName)] ++ [Token.word (exportWord p)] ++
      [Token.op .seq] =
      ts ++ [Token.word (.of .bare exportName), Token.word (exportWord p), .op .seq] := by
    rw [List.append_assoc, List.append_assoc]
    rfl
  rw [← htokens]
  exact hall

theorem foldl_exports {env : List (Txt × Txt)} (h : ∀ p ∈ env, isName p.1 = true) :
    ∀ ts : List Token, (exportsText env).foldl Lexer.step ⟨ts, none, .plain⟩ =
      ⟨ts ++ exportTokens env, none, .plain⟩ := by
  induction env with
  | nil =>
    intro ts
    rw [exportTokens, List.flatMap_nil, List.append_nil]
    rfl
  | cons p env ih =>
    intro ts
    rw [exportsText_cons, List.foldl_append, foldl_exportText (h p List.mem_cons_self),
      List.foldl_cons,
      Lexer.step_between, ih fun q hq => h q (List.mem_cons_of_mem p hq), List.append_assoc]
    rfl

/-- In front of commands, the exports are commands of their own. -/
theorem exportTokens_spell (env : List (Txt × Txt)) (ws : List Word)
    (rest : List (Op × List Word)) :
    ∃ o ws' rest', exportCommands env ++ (.seq, ws) :: rest = (o, ws') :: rest' ∧ o = .seq ∧
      exportTokens env ++ spell ws rest = spell ws' rest' := by
  induction env with
  | nil => exact ⟨_, _, _, rfl, rfl, rfl⟩
  | cons p env ih =>
    obtain ⟨o, ws', rest', hcommands, ho, htokens⟩ := ih
    refine ⟨_, _, _, rfl, rfl, ?_⟩
    subst ho
    have hrest : exportTokens (p :: env) ++ spell ws rest = [Token.word (.of .bare exportName),
        .word (exportWord p), .op .seq] ++ (exportTokens env ++ spell ws rest) := by
      rw [exportTokens, List.flatMap_cons, List.append_assoc]
      rfl
    have hmap : List.map (fun p => (Op.seq, [Word.of .bare exportName, exportWord p])) env ++
        (.seq, ws) :: rest = (.seq, ws') :: rest' := hcommands
    rw [hrest, htokens]
    show _ = spell _ (List.map _ env ++ (.seq, ws) :: rest)
    rw [hmap]
    rfl

/-! ## In front of any command -/

/-- A command of words alone, and an operator, in front of tokens. -/
theorem arrange_front {ws : List Word} (hws : ws ≠ []) (before o : Op) (ts : List Token) :
    arrange before (chunks (ws.map .word ++ Token.op o :: ts)).1
        (chunks (ws.map .word ++ Token.op o :: ts)).2 =
      (arrange o (chunks ts).1 (chunks ts).2).map ((before, ⟨ws, []⟩) :: ·) := by
  have hop : chunks (.op o :: ts) = ([], (o, (chunks ts).1) :: (chunks ts).2) := rfl
  have hne : ws.map Token.word ≠ [] := mt List.map_eq_nil_iff.mp hws
  rw [chunks_append, hop, List.append_nil, arrange_eq hne, simple_words, Option.bind_some, follow]

/-- Words in front of tokens. -/
theorem arrange_behind {ws : List Word} (hws : ws ≠ []) (before : Op) (ts : List Token) :
    arrange before (chunks (ws.map .word ++ ts)).1 (chunks (ws.map .word ++ ts)).2 =
      (simple (chunks ts).1).bind fun c =>
        (follow (chunks ts).2).map fun l => (before, c.behind ws) :: l := by
  have hne : ws.map Token.word ++ (chunks ts).1 ≠ [] :=
    List.append_ne_nil_of_left_ne_nil (mt List.map_eq_nil_iff.mp hws) _
  rw [chunks_append, arrange_eq hne, simple_append, Option.bind_map]
  rfl

/-- The first command stands behind `before`. -/
def begun (before : Op) : Script → Script
  | [] => []
  | (_, c) :: l => (before, c) :: l

theorem begun_exports (env : List (Txt × Txt)) (c : Simple) (l : Script) :
    begun .seq (asScript (exportCommands env) ++ (.seq, c) :: l) =
      asScript (exportCommands env) ++ (.seq, c) :: l := by
  cases env <;> rfl

/-- The exports in front of any tokens that begin with a command. -/
theorem arrange_exports {ts : List Token} {c : Simple} {o : Option Script}
    (hts : ∀ before, arrange before (chunks ts).1 (chunks ts).2 = o.map ((before, c) :: ·))
    (env : List (Txt × Txt)) : ∀ before : Op,
    arrange before (chunks (exportTokens env ++ ts)).1 (chunks (exportTokens env ++ ts)).2 =
      o.map fun l => begun before (asScript (exportCommands env) ++ (.seq, c) :: l) := by
  induction env with
  | nil => exact hts
  | cons p env ih =>
    intro before
    have hfront := arrange_front (List.cons_ne_nil (Word.of .bare exportName) [exportWord p]) before
      .seq (exportTokens env ++ ts)
    have htokens : exportTokens (p :: env) ++ ts =
      [Word.of .bare exportName, exportWord p].map .word ++
        .op .seq :: (exportTokens env ++ ts) := by
      rw [exportTokens, List.flatMap_cons, List.append_assoc]
      rfl
    rw [htokens, hfront, ih, Option.map_map]
    congr 1
    funext l
    exact congrArg ((before, _) :: ·) (begun_exports env c l)

/-! ## Running them -/

section Running

variable {kept : Txt → Prop} {M : Machine} {W : World}

/-- A command behind a semicolon runs whatever was before it. -/
theorem runScript_seq (s : State) (c : Simple) (rest : Script) (status status' : Nat)
    (running running' : Bool) : M.runScript W s status running ((.seq, c) :: rest) =
      M.runScript W s status' running' ((.seq, c) :: rest) := rfl

theorem runScript_newline (s : State) (c : Simple) (rest : Script) (status : Nat)
    (running : Bool) : M.runScript W s status running ((.newline, c) :: rest) =
      M.runScript W s status running ((.seq, c) :: rest) := by
  rw [Machine.runScript_cons, Machine.runScript_cons]
  have hnewline : Machine.runsAfter .newline status running = true := rfl
  have hseq : Machine.runsAfter .seq status running = true := rfl
  rw [if_pos hnewline, if_pos hseq]
  simp only [reduceCtorEq, decide_false]

/-- One `export` with a value, and the rest. -/
theorem Bash.programs_export (hbash : Bash kept M W) {p : Txt × Txt} (hname : isName p.1 = true)
    (hkept : ¬ kept p.1) (s : State) (c : Simple) (rest : Script) (status : Nat) (running : Bool) :
    (M.runScript W s status running
        ((.seq, ⟨[.of .bare exportName, exportWord p], []⟩) :: (.seq, c) :: rest)).programs =
      (M.runScript W { s with env := Function.update s.env p.1 (some p.2) } 0 true
        ((.seq, c) :: rest)).programs := by
  have hinert : ∀ v ∈ [Word.of .bare exportName, exportWord p], inert v = true := by
    intro v hv
    rcases List.mem_cons.mp hv with rfl | hv
    · exact inert_of_plain (by decide)
    · rw [List.mem_singleton.mp hv]
      exact inert_of_plain (plain_exportWord p)
  have hexec := hbash.exec_itself (s := s) (w := .of .bare exportName) hbash.export_itself
    (by decide) hinert
  rw [Word.text_of, List.map_singleton, text_exportWord] at hexec
  have hno : exportName ≠ cdName := by decide
  have hbuiltin : ∀ c : Command, c.argv = [exportName, p.1 ++ '=' :: p.2] →
      (M.builtin W s c).1 = { s with env := Function.update s.env p.1 (some p.2) } := by
    intro c hc
    unfold Machine.builtin
    rw [hc]
    simp only [hno, false_and, if_false]
    exact hbash.exports s c p.1 p.2 hc hname hkept
  have hruns : Machine.runsAfter .seq status running = true := rfl
  have hpipe : Machine.intoPipe ((.seq, c) :: rest) = false := rfl
  have hseq : decide (Op.seq = Op.pipe) = false := rfl
  rw [Machine.runScript_cons, if_pos hruns, hpipe, hseq, hexec]
  simp only [reduceCtorEq, Bool.false_eq_true, or_self, if_false]
  rw [hbuiltin _ rfl, runScript_seq _ _ _ _ 0 true true]
  rfl

/-- All of them: the command begins with the values in its environment. -/
theorem Bash.programs_exports (hbash : Bash kept M W) {env : List (Txt × Txt)}
    (hname : ∀ p ∈ env, isName p.1 = true) (hkept : ∀ p ∈ env, ¬ kept p.1) (c : Simple)
    (rest : Script) : ∀ (s : State) (status : Nat) (running : Bool),
    (M.runScript W s status running (asScript (exportCommands env) ++ (.seq, c) :: rest)).programs =
      (M.runScript W { s with env := s.env.apply (overlay env) } 0 true
        ((.seq, c) :: rest)).programs := by
  induction env with
  | nil =>
    intro s status running
    rw [show asScript (exportCommands []) ++ (.seq, c) :: rest = (.seq, c) :: rest from rfl,
      runScript_seq _ _ _ status 0 running true]
    rfl
  | cons p env ih =>
    intro s status running
    have hrest := ih (fun q hq => hname q (List.mem_cons_of_mem p hq))
      (fun q hq => hkept q (List.mem_cons_of_mem p hq))
      { s with env := Function.update s.env p.1 (some p.2) } 0 true
    have hone (c' : Simple) (rest' : Script) := hbash.programs_export (hname p List.mem_cons_self)
      (hkept p List.mem_cons_self) s c' rest' status running
    obtain ⟨c', rest', hnext⟩ : ∃ c' rest', asScript (exportCommands env) ++ (.seq, c) :: rest =
        (Op.seq, c') :: rest' := by
      cases env with
      | nil => exact ⟨_, _, rfl⟩
      | cons q env => exact ⟨_, _, rfl⟩
    have hcons : asScript (exportCommands (p :: env)) ++ (.seq, c) :: rest =
        (.seq, ⟨[.of .bare exportName, exportWord p], []⟩) ::
          (asScript (exportCommands env) ++ (.seq, c) :: rest) := rfl
    rw [hcons, hnext, hone, ← hnext, hrest]
    rfl

/-- However the exports begin. -/
theorem Bash.programs_begun (hbash : Bash kept M W) {env : List (Txt × Txt)}
    (hname : ∀ p ∈ env, isName p.1 = true) (hkept : ∀ p ∈ env, ¬ kept p.1) (c : Simple)
    (rest : Script) (s : State) : (M.runScript W s 0 true
        (begun .newline (asScript (exportCommands env) ++ (.seq, c) :: rest))).programs =
      (M.runScript W { s with env := s.env.apply (overlay env) } 0 true
        ((.seq, c) :: rest)).programs := by
  have hall := hbash.programs_exports hname hkept c rest s 0 true
  rw [← begun_exports] at hall
  rw [← hall]
  cases env with
  | nil => exact congrArg Outcome.programs (runScript_newline s c rest 0 true)
  | cons p env => exact congrArg Outcome.programs (runScript_newline s _ _ 0 true)

/-- A text of exports and then commands of words alone. -/
theorem Bash.run_exports (hbash : Bash kept M W) {env : List (Txt × Txt)} {t : Txt} {ws : List Word}
    {rest : List (Op × List Word)} (hname : ∀ p ∈ env, isName p.1 = true)
    (hkept : ∀ p ∈ env, ¬ kept p.1) (ht : tokens t = .read (exportTokens env ++ spell ws rest))
    (hws : Begins M.reserved ws) (hrest : ∀ p ∈ rest, Begins M.reserved p.2) (s : State) :
    (M.run W s t).programs = (M.runScript W { s with env := s.env.apply (overlay env) } 0 true
      (asScript ((.seq, ws) :: rest))).programs := by
  obtain ⟨o, ws', rest', hcommands, ho, htokens⟩ := exportTokens_spell env ws rest
  have hbegins : ∀ p ∈ exportCommands env ++ (.seq, ws) :: rest, Begins M.reserved p.2 := by
    intro p hp
    rcases List.mem_append.mp hp with hp | hp
    · obtain ⟨q, -, rfl⟩ := List.mem_map.mp hp
      exact ⟨_, _, rfl, hbash.export_word⟩
    · rcases List.mem_cons.mp hp with rfl | hp
      · exact hws
      · exact hrest p hp
  rw [hcommands] at hbegins
  have hread : read M.reserved t = .read ((.newline, ⟨ws', []⟩) :: asScript rest') := by
    rw [read, ht, Reading.bind_read, htokens]
    exact script_spell (hbegins _ List.mem_cons_self)
      fun p hp => hbegins p (List.mem_cons_of_mem _ hp)
  have hscript : asScript (exportCommands env) ++ (.seq, ⟨ws, []⟩) :: asScript rest =
      (o, ⟨ws', []⟩) :: asScript rest' := by
    have hmap := congrArg asScript hcommands
    rwa [asScript, List.map_append] at hmap
  have hbegun := hbash.programs_begun hname hkept ⟨ws, []⟩ (asScript rest) s
  rw [hscript] at hbegun
  rw [Machine.run, hread]
  exact hbegun

end Running

/-! ## Exports between double quotes -/

/-- A value that can stand, quoted, between double quotes. -/
def Quotable (v : Txt) : Prop := '\'' ∉ v ∧ calm v (some '\'') = true

instance (v : Txt) : Decidable (Quotable v) := inferInstanceAs (Decidable (_ ∧ _))

theorem not_mem_of_calm {t : Txt} {next : Option Char} (h : calm t next = true) : '"' ∉ t := by
  induction t with
  | nil => exact List.not_mem_nil
  | cons c t ih =>
    rw [calm_cons, Bool.and_eq_true] at h
    intro hmem
    rcases List.mem_cons.mp hmem with rfl | hmem
    · have hno (next : Option Char) : stays '"' next = false := rfl
      rw [hno] at h
      exact Bool.false_ne_true h.1
    · exact ih h.2 hmem

theorem isSafe_not_doubleSpecial {v : Txt} (h : v.all isSafe = true) :
    ∀ c ∈ v, c ∉ doubleSpecial := by
  intro c hc hspecial
  have hsub : doubleSpecial ⊆ special := by decide
  exact not_mem_special_of_isSafe (List.all_eq_true.mp h c hc) (hsub hspecial)

theorem flatMap_quoteChar {v : Txt} (h : '\'' ∉ v) : v.flatMap quoteChar = v := by
  induction v with
  | nil => rfl
  | cons c v ih =>
    have hc : c ≠ '\'' := fun hc => h (hc ▸ List.mem_cons_self)
    rw [List.flatMap_cons, quoteChar, if_neg hc, ih fun hv => h (List.mem_cons_of_mem c hv)]
    rfl

/-- Quoting gives a calm text exactly for such a value. -/
theorem calm_quote (v : Txt) (next : Option Char) : calm (quote v) next = true ↔ Quotable v := by
  unfold quote
  by_cases hnil : v = []
  · subst hnil
    exact ⟨fun _ => by decide, fun _ => calm_of_not_special (forall_of_all (by decide)) next⟩
  rw [if_neg hnil]
  by_cases hsafe : v.all isSafe = true
  · have hcalm := calm_of_not_special (isSafe_not_doubleSpecial hsafe)
    have hquote : '\'' ∉ v := fun hv => absurd (List.all_eq_true.mp hsafe _ hv) (by decide)
    rw [if_pos hsafe]
    exact ⟨fun _ => ⟨hquote, hcalm _⟩, fun _ => hcalm _⟩
  rw [if_neg hsafe]
  have hclose : calm ['\''] next = true := calm_of_not_special (forall_of_all (by decide)) next
  rw [calm_cons_of_not_special (by decide), calm_append, hclose, Bool.and_true, List.head?_cons,
    Option.some_or]
  by_cases hmem : '\'' ∈ v
  · refine ⟨fun h => absurd ?_ (not_mem_of_calm h), fun h => absurd hmem h.1⟩
    exact List.mem_flatMap.mpr ⟨_, hmem, by decide⟩
  · rw [flatMap_quoteChar hmem]
    exact ⟨fun h => ⟨hmem, h⟩, fun h => h.2⟩

theorem calm_exportText {p : Txt × Txt} (h : isName p.1 = true) (next : Option Char) :
    calm (exportText p) next = true ↔ Quotable p.2 := by
  have hsub : doubleSpecial ⊆ special := by decide
  have hname (next : Option Char) : calm p.1 next = true :=
    calm_of_not_special (fun c hc hs => not_mem_special_of_isName h c hc (hsub hs)) next
  have hequals (t : Txt) (next : Option Char) : calm ('=' :: t) next = calm t next :=
    calm_cons_of_not_special (by decide) t next
  have hend : calm [';'] next = true := calm_of_not_special (forall_of_all (by decide)) next
  have hvalue : calm (p.1 ++ '=' :: quote p.2 ++ [';']) next = true ↔ Quotable p.2 := by
    rw [calm_append, calm_append, hname, hequals, hend, Bool.true_and, Bool.and_true]
    exact calm_quote p.2 _
  have hfront : calm ("export ".toList ++ (p.1 ++ '=' :: quote p.2 ++ [';'])) next =
      calm (p.1 ++ '=' :: quote p.2 ++ [';']) next := calm_front (forall_of_all (by decide)) _ next
  unfold exportText
  rw [List.append_assoc]
  exact (Eq.congr_left hfront).trans hvalue

theorem calm_exportsText {env : List (Txt × Txt)} (h : ∀ p ∈ env, isName p.1 = true)
    (next : Option Char) : calm (exportsText env) next = true ↔ ∀ p ∈ env, Quotable p.2 := by
  induction env with
  | nil => exact ⟨fun _ p hp => (List.not_mem_nil hp).elim, fun _ => rfl⟩
  | cons p env ih =>
    have hblank : calm (' ' :: exportsText env) next = calm (exportsText env) next :=
      calm_cons_of_not_special (by decide) _ next
    rw [exportsText_cons, calm_append, hblank, Bool.and_eq_true,
      calm_exportText (h p List.mem_cons_self),
      ih fun q hq => h q (List.mem_cons_of_mem p hq), List.forall_mem_cons]

end Shell
end RocmTests

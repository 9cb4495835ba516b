import RocmTests.Shell.Lexer

/-!
# Lists of simple commands

The tokens of a text are cut at the operators, and every piece between two operators
is a simple command: words and redirections.  A piece may be empty only where the text
begins or ends, or on a blank line.  The commands stand in one flat list, each with the
operator before it; `&&` and `||` bind alike and to the left, so that a reader of the
list needs no more than the status so far.

A piece that begins with a reserved word is a compound command and `beyond` the
grammar.  So is a text of several lines with a syntax error, for a shell has run the
lines before it.
-/

namespace RocmTests
namespace Shell

open Text

/-- A redirection as it is written. -/
structure Redirection where
  fd : Option Nat
  op : RedirectOp
  target : Word
deriving DecidableEq

structure Simple where
  words : List Word
  redirections : List Redirection
deriving DecidableEq

abbrev Script := List (Op × Simple)

def simple : List Token → Option Simple
  | [] => some ⟨[], []⟩
  | .word w :: ts => (simple ts).map fun c => { c with words := w :: c.words }
  | .redirect fd o :: .word w :: ts =>
    (simple ts).map fun c => { c with redirections := ⟨fd, o, w⟩ :: c.redirections }
  | _ => none

/-- The tokens before the first operator, and after each operator those before the
next. -/
def chunks : List Token → List Token × List (Op × List Token)
  | [] => ([], [])
  | .op o :: ts => ([], (o, (chunks ts).1) :: (chunks ts).2)
  | t :: ts => (t :: (chunks ts).1, (chunks ts).2)

/-- The commands of the pieces, of which the first follows `before`. -/
def arrange (before : Op) (c : List Token) : List (Op × List Token) → Option Script
  | [] =>
    if c = [] then if before = .seq ∨ before = .newline then some [] else none
    else (simple c).map fun s => [(before, s)]
  | (o, c') :: rest =>
    if c = [] then if o = .newline then arrange before c' rest else none
    else (simple c).bind fun s => (arrange o c' rest).map fun l => (before, s) :: l

def opensCompound (reserved : Txt → Bool) : List Token → Bool
  | .word w :: _ => w.unquoted && reserved w.text
  | _ => false

/-- The commands of a text, or what the shell makes of a syntax error.  A shell has run
the lines before the one that it refuses. -/
def orRefused (lines : Bool) : Option Script → Reading Script
  | some l => .read l
  | none => if lines then .beyond else .refused

/-- A text begins as if a line had just ended. -/
def script (reserved : Txt → Bool) (ts : List Token) : Reading Script :=
  let cs := chunks ts
  if opensCompound reserved cs.1 || cs.2.any fun p => opensCompound reserved p.2 then .beyond
  else orRefused (ts.contains (.op .newline)) (arrange .newline cs.1 cs.2)

def read (reserved : Txt → Bool) (t : Txt) : Reading Script :=
  (tokens t).bind (script reserved)

/-! ## Words in front of a text -/

/-- The command with the words `ws` before its own. -/
def Simple.behind (ws : List Word) (c : Simple) : Simple := { c with words := ws ++ c.words }

/-- What stands after a command. -/
def follow : List (Op × List Token) → Option Script
  | [] => some []
  | (o, c) :: rest => arrange o c rest

theorem arrange_eq {before : Op} {c : List Token} (hc : c ≠ []) (rest : List (Op × List Token)) :
    arrange before c rest = (simple c).bind fun s =>
      (follow rest).map fun l => (before, s) :: l := by
  cases rest with
  | nil =>
    rw [arrange, if_neg hc, follow]
    cases simple c <;> rfl
  | cons p rest => rw [arrange, if_neg hc, follow]

theorem simple_append (ws : List Word) (ts : List Token) :
    simple (ws.map Token.word ++ ts) = (simple ts).map (Simple.behind ws) := by
  induction ws with
  | nil =>
    have hid : Simple.behind [] = id := rfl
    rw [List.map_nil, List.nil_append, hid, Option.map_id]
    rfl
  | cons w ws ih =>
    rw [List.map_cons, List.cons_append, simple, ih, Option.map_map]
    rfl

theorem chunks_append (ws : List Word) (ts : List Token) :
    chunks (ws.map Token.word ++ ts) = (ws.map Token.word ++ (chunks ts).1, (chunks ts).2) := by
  induction ws with
  | nil => rfl
  | cons w ws ih =>
    have hword (t : List Token) : chunks (.word w :: t) = (.word w :: (chunks t).1, (chunks t).2) :=
      rfl
    rw [List.map_cons, List.cons_append, hword, ih]
    rfl

theorem orRefused_eq_read {lines : Bool} {o : Option Script} {l : Script} :
    orRefused lines o = .read l ↔ o = some l := by
  cases o with
  | some l' => rw [orRefused, Reading.read.injEq, Option.some.injEq]
  | none => cases lines <;> simp [orRefused]

section Front

variable {reserved : Txt → Bool} {w : Word} {ws : List Word} {ts : List Token} {l : Script}

/-- The script of a text behind words: the words join the first piece, and the text is
no longer read where a command begins. -/
theorem script_append (hw : (w.unquoted && reserved w.text) = false) :
    script reserved ((w :: ws).map Token.word ++ ts) =
      if (chunks ts).2.any fun p => opensCompound reserved p.2 then .beyond
      else orRefused (ts.contains (.op .newline))
        ((simple (chunks ts).1).bind fun s => (follow (chunks ts).2).map fun l =>
          (Op.newline, s.behind (w :: ws)) :: l) := by
  have hopens : opensCompound reserved ((w :: ws).map Token.word ++ (chunks ts).1) = false := hw
  have hne : (w :: ws).map Token.word ++ (chunks ts).1 ≠ [] := by
    rw [List.map_cons, List.cons_append]
    exact List.cons_ne_nil _ _
  have hnewline : ((w :: ws).map Token.word ++ ts).contains (.op .newline) =
      ts.contains (.op .newline) := by
    rw [List.contains_eq_mem, List.contains_eq_mem]
    congr 1
    rw [List.mem_append, or_iff_right]
    intro hmem
    obtain ⟨_, _, h⟩ := List.mem_map.mp hmem
    cases h
  simp only [script, chunks_append, hopens, Bool.false_or, arrange_eq hne, simple_append, hnewline]
  cases simple (chunks ts).1 <;> rfl

theorem not_opens_of_script (h : script reserved ts = .read l) :
    ((chunks ts).2.any fun p => opensCompound reserved p.2) = false ∧
      arrange .newline (chunks ts).1 (chunks ts).2 = some l := by
  simp only [script] at h
  split_ifs at h with hopens
  rw [Bool.or_eq_true, not_or, Bool.not_eq_true, Bool.not_eq_true] at hopens
  exact ⟨hopens.2, orRefused_eq_read.mp h⟩

/-- Behind words, a text that begins with a command keeps all its commands. -/
theorem script_append_of_command (hw : (w.unquoted && reserved w.text) = false)
    (hne : (chunks ts).1 ≠ []) (h : script reserved ts = .read l) :
    ∃ c later, l = (.newline, c) :: later ∧
      script reserved ((w :: ws).map Token.word ++ ts) =
        .read ((.newline, c.behind (w :: ws)) :: later) := by
  obtain ⟨hopens, hl⟩ := not_opens_of_script h
  rw [script_append hw, hopens, if_neg Bool.false_ne_true]
  rw [arrange_eq hne, Option.bind_eq_some_iff] at hl
  obtain ⟨c, hc, hl⟩ := hl
  obtain ⟨later, hlater, rfl⟩ := Option.map_eq_some_iff.mp hl
  refine ⟨c, later, rfl, orRefused_eq_read.mpr ?_⟩
  rw [hc, hlater]
  rfl

/-- Behind words, a text that begins with no command gains one. -/
theorem script_append_of_blank (hw : (w.unquoted && reserved w.text) = false)
    (hnil : (chunks ts).1 = []) (h : script reserved ts = .read l) :
    script reserved ((w :: ws).map Token.word ++ ts) = .read ((.newline, ⟨w :: ws, []⟩) :: l) := by
  obtain ⟨hopens, hl⟩ := not_opens_of_script h
  have hbehind : (⟨[], []⟩ : Simple).behind (w :: ws) = ⟨w :: ws, []⟩ := by
    rw [Simple.behind, List.append_nil]
  have hfollow : follow (chunks ts).2 = some l := by
    rw [hnil] at hl
    cases hrest : (chunks ts).2 with
    | nil =>
      rw [hrest, arrange, if_pos rfl, if_pos (Or.inr rfl)] at hl
      exact hl
    | cons p rest =>
      obtain ⟨o, c⟩ := p
      rw [hrest, arrange, if_pos rfl] at hl
      split_ifs at hl with ho
      rw [follow, ho]
      exact hl
  rw [script_append hw, hopens, if_neg Bool.false_ne_true, hnil, hfollow, simple, Option.bind_some,
    hbehind]
  rfl

/-- Whatever a text behind words is read as, it begins with those words. -/
theorem script_append_head (hw : (w.unquoted && reserved w.text) = false)
    (h : script reserved ((w :: ws).map Token.word ++ ts) = .read l) :
    ∃ (c : Simple) (later : Script), l = (.newline, c.behind (w :: ws)) :: later := by
  rw [script_append hw] at h
  split_ifs at h
  obtain ⟨c, -, hl⟩ := Option.bind_eq_some_iff.mp (orRefused_eq_read.mp h)
  obtain ⟨later, -, rfl⟩ := Option.map_eq_some_iff.mp hl
  exact ⟨c, later, rfl⟩

end Front

end Shell
end RocmTests

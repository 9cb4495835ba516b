import RocmTests.Shell.Lexer

/-!
# `shlex`

`quote` writes a text so that a POSIX shell reads it back as one word, and `split`
takes a text apart without a shell: it knows quotes and blanks, and an operator is to
it a word like any other.
-/

namespace RocmTests
namespace Shell

open Text

/-! ## Reading words back -/

/-- The characters that mean something to a shell outside quotes. -/
def special : Txt :=
  [' ', '\t', '\n', ';', '&', '|', '>', '<', '(', ')', Char.ofNat 96, '\'', '"', '\\', '$', '#',
    '*', '?', '[', '~', '{', '}']

/-- A text that the shell reads as `w`, at the beginning of a word or within one. -/
def Reads (t : Txt) (w : Word) : Prop :=
  ∀ (ts : List Token) (word : Option Word),
    t.foldl Lexer.step ⟨ts, word, .plain⟩ = ⟨ts, some (word.getD [] ++ w), .plain⟩

theorem Reads.append {t t' : Txt} {w w' : Word} (h : Reads t w) (h' : Reads t' w') :
    Reads (t ++ t') (w ++ w') := by
  intro ts word
  rw [List.foldl_append, h, h', Option.getD_some, List.append_assoc]

namespace Lexer

variable {ts : List Token} {word : Option Word} {w : Word} {c : Char}

theorem step_bare (hc : c ∉ special) :
    step ⟨ts, word, .plain⟩ c = ⟨ts, some (word.getD [] ++ [⟨c, .bare⟩]), .plain⟩ := by
  simp only [special, List.mem_cons, List.not_mem_nil, or_false, not_or] at hc
  simp [step, plain, push, go, hc]

theorem step_blank : step ⟨ts, some w, .plain⟩ ' ' = ⟨ts ++ [Token.word w], none, .plain⟩ := rfl

theorem foldl_bare {t : Txt} (ht : ∀ c ∈ t, c ∉ special) : ∀ w : Word,
    t.foldl step ⟨ts, some w, .plain⟩ = ⟨ts, some (w ++ .of .bare t), .plain⟩ := by
  induction t with
  | nil =>
    intro w
    rw [Word.of, List.map_nil, List.append_nil]
    rfl
  | cons c t ih =>
    intro w
    rw [List.foldl_cons, step_bare (ht c (.head _)), ih fun c hc => ht c (.tail _ hc)]
    simp [Word.of]

theorem foldl_single {t : Txt} (ht : '\'' ∉ t) : ∀ w : Word,
    t.foldl step ⟨ts, some w, .single⟩ = ⟨ts, some (w ++ .of .quoted t), .single⟩ := by
  induction t with
  | nil =>
    intro w
    rw [Word.of, List.map_nil, List.append_nil]
    rfl
  | cons c t ih =>
    intro w
    have hc : c ≠ '\'' := fun h => ht (h ▸ .head _)
    have hstep : step ⟨ts, some w, .single⟩ c = ⟨ts, some (w ++ [⟨c, .quoted⟩]), .single⟩ := by
      simp [step, push, hc]
    rw [List.foldl_cons, hstep, ih fun h => ht (.tail _ h)]
    simp [Word.of]

end Lexer

/-- A text without special characters stands for itself. -/
theorem reads_bare {t : Txt} (hne : t ≠ []) (ht : ∀ c ∈ t, c ∉ special) :
    Reads t (.of .bare t) := by
  intro ts word
  obtain ⟨c, t, rfl⟩ := List.exists_cons_of_ne_nil hne
  rw [List.foldl_cons, Lexer.step_bare (ht c (.head _)),
    Lexer.foldl_bare fun c hc => ht c (.tail _ hc), List.append_assoc]
  rfl

/-- Texts that read as words, each before a blank, put those words in front. -/
theorem foldl_words {α : Type} {text : α → Txt} {word : α → Word} (l : List α)
    (h : ∀ a ∈ l, Reads (text a) (word a)) : ∀ ts : List Token,
    (l.flatMap fun a => text a ++ [' ']).foldl Lexer.step ⟨ts, none, .plain⟩ =
      ⟨ts ++ l.map fun a => .word (word a), none, .plain⟩ := by
  induction l with
  | nil =>
    intro ts
    rw [List.map_nil, List.append_nil]
    rfl
  | cons a l ih =>
    intro ts
    rw [List.flatMap_cons, List.foldl_append, List.foldl_append, h a (.head _) ts none,
      List.foldl_cons, List.foldl_nil, Lexer.step_blank, ih fun b hb => h b (.tail _ hb),
      List.map_cons, List.append_assoc]
    rfl

/-! ## `shlex.quote` -/

/-- A character that `quote` leaves alone. -/
def isSafe (c : Char) : Bool :=
  c.isAlphanum || c ∈ ['_', '@', '%', '+', '=', ':', ',', '.', '/', '-']

def quoteChar (c : Char) : Txt := if c = '\'' then ['\'', '"', '\'', '"', '\''] else [c]

def quote (s : Txt) : Txt :=
  if s = [] then ['\'', '\'']
  else if s.all isSafe then s
  else '\'' :: (s.flatMap quoteChar ++ ['\''])

/-- The word that a shell reads where `quote s` stands. -/
def quotedWord (s : Txt) : Word := .of (if s ≠ [] ∧ s.all isSafe then .bare else .quoted) s

theorem text_quotedWord (s : Txt) : (quotedWord s).text = s := Word.text_of _ s

theorem plain_quotedWord (s : Txt) : (quotedWord s).plain = true :=
  Word.plain_of (by split_ifs <;> decide) s

theorem not_mem_special_of_isSafe {c : Char} (h : isSafe c = true) : c ∉ special := by
  intro hc
  have hunsafe : special.all (fun c => !isSafe c) = true := by decide
  have hfalse := List.all_eq_true.mp hunsafe c hc
  rw [h] at hfalse
  cases hfalse

theorem foldl_quoteChars {ts : List Token} (s : Txt) : ∀ w : Word,
    (s.flatMap quoteChar).foldl Lexer.step ⟨ts, some w, .single⟩ =
      ⟨ts, some (w ++ .of .quoted s), .single⟩ := by
  induction s with
  | nil =>
    intro w
    rw [Word.of, List.map_nil, List.append_nil]
    rfl
  | cons c s ih =>
    intro w
    have hone : (quoteChar c).foldl Lexer.step ⟨ts, some w, .single⟩ =
        ⟨ts, some (w ++ [⟨c, .quoted⟩]), .single⟩ := by
      unfold quoteChar
      split_ifs with hc
      · subst hc
        rfl
      · exact Lexer.foldl_single (by simpa using Ne.symm hc) w
    rw [List.flatMap_cons, List.foldl_append, hone, ih]
    simp [Word.of]

/-- A shell reads a quoted text back as one word. -/
theorem reads_quote (s : Txt) : Reads (quote s) (quotedWord s) := by
  unfold quote quotedWord
  by_cases hnil : s = []
  · rw [if_pos hnil, hnil]
    intro ts word
    rw [Word.of, List.map_nil, List.append_nil]
    rfl
  · rw [if_neg hnil]
    by_cases hsafe : s.all isSafe = true
    · rw [if_pos hsafe, if_pos ⟨hnil, hsafe⟩]
      exact reads_bare hnil fun c hc =>
        not_mem_special_of_isSafe (List.all_eq_true.mp hsafe c hc)
    · rw [if_neg hsafe, if_neg fun h => hsafe h.2]
      intro ts word
      have hopen : Lexer.step ⟨ts, word, .plain⟩ '\'' = ⟨ts, some (word.getD []), .single⟩ := rfl
      rw [List.foldl_cons, hopen, List.foldl_append, foldl_quoteChars]
      rfl

/-! ## `shlex.split` -/

inductive SplitMode where
  | plain
  | single
  | double
  | escape
  | escapeInDouble
deriving DecidableEq

structure Splitter where
  done : List Txt
  word : Option Txt
  mode : SplitMode
deriving DecidableEq

namespace Splitter

def start : Splitter := ⟨[], none, .plain⟩

def push (l : Splitter) (c : Char) : Splitter := { l with word := some (l.word.getD [] ++ [c]) }

def opened (l : Splitter) : Splitter := { l with word := some (l.word.getD []) }

def flush (l : Splitter) : Splitter :=
  match l.word with
  | none => l
  | some w => { l with done := l.done ++ [w], word := none }

def step (l : Splitter) (c : Char) : Splitter :=
  match l.mode with
  | .plain =>
    if c ∈ [' ', '\t', '\r', '\n'] then l.flush
    else if c = '\'' then { l.opened with mode := .single }
    else if c = '"' then { l.opened with mode := .double }
    else if c = '\\' then { l.opened with mode := .escape }
    else l.push c
  | .single => if c = '\'' then { l with mode := .plain } else l.push c
  | .double =>
    if c = '"' then { l with mode := .plain }
    else if c = '\\' then { l with mode := .escapeInDouble }
    else l.push c
  | .escape => { l.push c with mode := .plain }
  -- between double quotes a backslash escapes itself and the quote, and else it stays
  | .escapeInDouble =>
    if c = '"' ∨ c = '\\' then { l.push c with mode := .double }
    else { (l.push '\\').push c with mode := .double }

/-- The words, or `ValueError` for a quote or an escape that is not finished. -/
def finish (l : Splitter) : Option (List Txt) :=
  match l.mode with
  | .plain => some l.flush.done
  | _ => none

end Splitter

def split (s : Txt) : Option (List Txt) := (s.foldl Splitter.step Splitter.start).finish

end Shell
end RocmTests

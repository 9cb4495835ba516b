import RocmTests.Text.Lines

/-!
# The words and operators of a shell text

A POSIX shell reads a text from left to right and takes it apart into words,
operators and redirections.  `Lexer.step` is what one character does.  Tokens that
have been read stay as they are, so that a text put in front of another one, and
ending in a blank, only puts its own tokens in front: `tokens_append`.

A word keeps, for each of its characters, whether it was quoted and whether the
shell still has something to expand there: a parameter, a pattern, a tilde or a
brace.  What the expansion gives is left to whoever runs the word.

Not every text is read here.  Command substitution, subshells, background commands,
here-documents and the rarer redirections are `beyond` this grammar.  A quote that is
not closed is not beyond it: such a text the shell refuses.
-/

namespace RocmTests
namespace Shell

open Text

/-- What reading a text gives: its contents, a syntax error, or a construct that the
grammar here does not cover. -/
inductive Reading (α : Type) where
  | read (a : α)
  | refused
  | beyond
deriving DecidableEq

namespace Reading

variable {α β : Type}

def map (f : α → β) : Reading α → Reading β
  | read a => read (f a)
  | refused => refused
  | beyond => beyond

def bind (r : Reading α) (f : α → Reading β) : Reading β :=
  match r with
  | read a => f a
  | refused => refused
  | beyond => beyond

@[simp] theorem map_read (f : α → β) (a : α) : (read a).map f = read (f a) := rfl

@[simp] theorem map_refused (f : α → β) : (refused : Reading α).map f = refused := rfl

@[simp] theorem map_beyond (f : α → β) : (beyond : Reading α).map f = beyond := rfl

@[simp] theorem bind_read (a : α) (f : α → Reading β) : (read a).bind f = f a := rfl

@[simp] theorem bind_refused (f : α → Reading β) : (refused : Reading α).bind f = refused := rfl

@[simp] theorem bind_beyond (f : α → Reading β) : (beyond : Reading α).bind f = beyond := rfl

end Reading

/-! ## Words and tokens -/

/-- How a character stands in a word.  At an `active` one the shell expands. -/
inductive Kind where
  | quoted
  | bare
  | active
deriving DecidableEq

structure Glyph where
  char : Char
  kind : Kind
deriving DecidableEq

abbrev Word := List Glyph

namespace Word

def text (w : Word) : Txt := w.map Glyph.char

/-- The word stands for its own text. -/
def plain (w : Word) : Bool := w.all fun g => decide (g.kind ≠ .active)

def unquoted (w : Word) : Bool := w.all fun g => decide (g.kind ≠ .quoted)

/-- The word with all characters of one kind. -/
def of (k : Kind) (t : Txt) : Word := t.map fun c => ⟨c, k⟩

@[simp] theorem text_of (k : Kind) (t : Txt) : (of k t).text = t := by
  rw [text, of, List.map_map]
  exact List.map_id' t

@[simp] theorem text_append (w w' : Word) : text (w ++ w') = w.text ++ w'.text :=
  List.map_append ..

theorem plain_append {w w' : Word} (h : w.plain = true) (h' : w'.plain = true) :
    plain (w ++ w') = true := by
  rw [plain, List.all_append, Bool.and_eq_true]
  exact ⟨h, h'⟩

theorem plain_of {k : Kind} (hk : k ≠ .active) (t : Txt) : (of k t).plain = true := by
  rw [plain, List.all_eq_true]
  intro g hg
  obtain ⟨c, -, rfl⟩ := List.mem_map.mp hg
  exact decide_eq_true hk

end Word

/-- The operators between the commands of a list. -/
inductive Op where
  | andThen
  | orElse
  | seq
  | newline
  | pipe
deriving DecidableEq

inductive RedirectOp where
  | input
  | output
  | append
  | dup
deriving DecidableEq

inductive Token where
  | word (w : Word)
  | op (o : Op)
  | redirect (fd : Option Nat) (o : RedirectOp)
deriving DecidableEq

/-! ## One character -/

inductive Mode where
  | plain
  | comment
  | single
  | double
  | escape
  | escapeInDouble
  | dollar (inDouble : Bool)
  | braces (inDouble : Bool)
  | ampersand
  | bar
  | greater (fd : Option Nat)
  | less (fd : Option Nat)
  | beyond
deriving DecidableEq

/-- The tokens read so far and the word being read, if there is one. -/
structure Lexer where
  done : List Token
  word : Option Word
  mode : Mode
deriving DecidableEq

namespace Lexer

def start : Lexer := ⟨[], none, .plain⟩

def go (l : Lexer) (m : Mode) : Lexer := { l with mode := m }

def emit (l : Lexer) (t : Token) : Lexer := { l with done := l.done ++ [t] }

def push (l : Lexer) (k : Kind) (c : Char) : Lexer :=
  { l with word := some (l.word.getD [] ++ [⟨c, k⟩]) }

/-- A quote begins a word, even one that stays without characters. -/
def opened (l : Lexer) : Lexer := { l with word := some (l.word.getD []) }

def flush (l : Lexer) : Lexer :=
  match l.word with
  | none => l
  | some w => { l with done := l.done ++ [.word w], word := none }

def digits (w : Word) : Bool := w ≠ [] && w.all fun g => g.kind = .bare && g.char.isDigit

def number (t : Txt) : Nat := t.foldl (fun n c => 10 * n + (c.toNat - 48)) 0

/-- Bare digits right before `<` or `>` are the descriptor that is redirected. -/
def descriptor (l : Lexer) : Option Nat :=
  match l.word with
  | some w => if digits w then some (number w.text) else none
  | none => none

def redirecting (l : Lexer) : Lexer :=
  match l.descriptor with
  | some _ => { l with word := none }
  | none => l.flush

/-- One character outside quotes. -/
def plain (l : Lexer) (c : Char) : Lexer :=
  if c = ' ' ∨ c = '\t' then l.flush.go .plain
  else if c = '\n' then (l.flush.emit (.op .newline)).go .plain
  else if c = ';' then (l.flush.emit (.op .seq)).go .plain
  else if c = '&' then l.flush.go .ampersand
  else if c = '|' then l.flush.go .bar
  else if c = '>' then l.redirecting.go (.greater l.descriptor)
  else if c = '<' then l.redirecting.go (.less l.descriptor)
  else if c = '(' ∨ c = ')' ∨ c = Char.ofNat 96 then l.go .beyond
  else if c = '\'' then l.opened.go .single
  else if c = '"' then l.opened.go .double
  else if c = '\\' then l.go .escape
  else if c = '$' then (l.push .active c).go (.dollar false)
  else if c = '#' ∧ l.word = none then l.go .comment
  else if c ∈ ['*', '?', '[', '~', '{', '}'] then (l.push .active c).go .plain
  else (l.push .bare c).go .plain

/-- One character between double quotes. -/
def double (l : Lexer) (c : Char) : Lexer :=
  if c = '"' then l.go .plain
  else if c = '\\' then l.go .escapeInDouble
  else if c = '$' then (l.push .active c).go (.dollar true)
  else if c = Char.ofNat 96 then l.go .beyond
  else (l.push .quoted c).go .double

def step (l : Lexer) (c : Char) : Lexer :=
  match l.mode with
  | .plain => l.plain c
  | .comment => if c = '\n' then (l.go .plain).plain c else l
  | .single => if c = '\'' then l.go .plain else l.push .quoted c
  | .double => l.double c
  -- a backslash and a newline are nothing at all
  | .escape => if c = '\n' then l.go .plain else (l.push .quoted c).go .plain
  | .escapeInDouble =>
    if c = '\n' then l.go .double
    else if c ∈ ['$', Char.ofNat 96, '"', '\\'] then (l.push .quoted c).go .double
    else ((l.push .quoted '\\').push .quoted c).go .double
  | .dollar inDouble =>
    if c = '(' then l.go .beyond
    else if c = '{' then (l.push .active c).go (.braces inDouble)
    else if inDouble then l.double c
    else if c = '\'' ∨ c = '"' then l.go .beyond
    else l.plain c
  | .braces inDouble =>
    if c = '}' then (l.push .active c).go (if inDouble then .double else .plain)
    else if c ∈ ['\'', '"', '\\', '$', Char.ofNat 96, '{', ' ', '\t', '\n'] then l.go .beyond
    else l.push .active c
  | .ampersand => if c = '&' then (l.emit (.op .andThen)).go .plain else l.go .beyond
  | .bar =>
    if c = '|' then (l.emit (.op .orElse)).go .plain
    else if c = '&' then l.go .beyond
    else ((l.emit (.op .pipe)).go .plain).plain c
  | .greater fd =>
    if c = '>' then (l.emit (.redirect fd .append)).go .plain
    else if c = '&' then (l.emit (.redirect fd .dup)).go .plain
    else if c = '|' then l.go .beyond
    else ((l.emit (.redirect fd .output)).go .plain).plain c
  | .less fd =>
    if c ∈ ['<', '&', '>'] then l.go .beyond
    else ((l.emit (.redirect fd .input)).go .plain).plain c
  | .beyond => l

/-- The text ends here. -/
def finish (l : Lexer) : Reading (List Token) :=
  match l.mode with
  | .plain | .comment | .dollar false => .read l.flush.done
  | .bar => .read (l.emit (.op .pipe)).done
  | .greater fd => .read (l.emit (.redirect fd .output)).done
  | .less fd => .read (l.emit (.redirect fd .input)).done
  | .single | .double | .escapeInDouble | .dollar true => .refused
  | .escape | .ampersand | .braces _ | .beyond => .beyond

end Lexer

def tokens (t : Txt) : Reading (List Token) := (t.foldl Lexer.step Lexer.start).finish

/-! ## Tokens in front -/

namespace Lexer

variable {ts : List Token} {l : Lexer} {c : Char} {m : Mode} {k : Kind} {t : Token}

/-- The same reading with the tokens `ts` before it. -/
def after (ts : List Token) (l : Lexer) : Lexer := { l with done := ts ++ l.done }

@[simp] theorem go_after : (l.after ts).go m = (l.go m).after ts := rfl

@[simp] theorem push_after : (l.after ts).push k c = (l.push k c).after ts := rfl

@[simp] theorem opened_after : (l.after ts).opened = l.opened.after ts := rfl

@[simp] theorem emit_after : (l.after ts).emit t = (l.emit t).after ts := by
  simp [emit, after]

@[simp] theorem flush_after : (l.after ts).flush = l.flush.after ts := by
  obtain ⟨done, word, mode⟩ := l
  cases word <;> simp [flush, after]

@[simp] theorem descriptor_after : (l.after ts).descriptor = l.descriptor := rfl

@[simp] theorem redirecting_after : (l.after ts).redirecting = l.redirecting.after ts := by
  rw [redirecting, redirecting, descriptor_after]
  cases l.descriptor with
  | none => exact flush_after
  | some n => rfl

@[simp] theorem plain_after : (l.after ts).plain c = (l.plain c).after ts := by
  have hword : (l.after ts).word = l.word := rfl
  simp only [plain, apply_ite (after ts), flush_after, go_after, emit_after, redirecting_after,
    descriptor_after, opened_after, push_after, hword]

@[simp] theorem double_after : (l.after ts).double c = (l.double c).after ts := by
  simp only [double, apply_ite (after ts), go_after, push_after]

theorem step_after : (l.after ts).step c = (l.step c).after ts := by
  have hmode : (l.after ts).mode = l.mode := rfl
  rw [step, step, hmode]
  cases l.mode <;>
    simp only [apply_ite (after ts), plain_after, double_after, go_after, push_after, emit_after]

theorem foldl_step_after (cs : Txt) : ∀ l : Lexer,
    cs.foldl step (l.after ts) = (cs.foldl step l).after ts := by
  induction cs with
  | nil => exact fun _ => rfl
  | cons c cs ih =>
    intro l
    rw [List.foldl_cons, List.foldl_cons, step_after, ih]

theorem finish_after : (l.after ts).finish = l.finish.map (ts ++ ·) := by
  have hmode : (l.after ts).mode = l.mode := rfl
  rw [finish, finish, hmode]
  have hdone (l : Lexer) : (l.after ts).done = ts ++ l.done := rfl
  cases l.mode with
  | dollar d => cases d <;> simp [hdone]
  | _ => simp [hdone]

end Lexer

/-- A text that leaves the lexer between two words puts its tokens in front of those
of the text that follows. -/
theorem tokens_append {t : Txt} {ts : List Token}
    (h : t.foldl Lexer.step Lexer.start = Lexer.start.after ts) (cs : Txt) :
    tokens (t ++ cs) = (tokens cs).map (ts ++ ·) := by
  rw [tokens, List.foldl_append, h, Lexer.foldl_step_after, Lexer.finish_after, tokens]

end Shell
end RocmTests

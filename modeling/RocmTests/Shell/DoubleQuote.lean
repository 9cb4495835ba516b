import RocmTests.Shell.Quote

/-!
# Double quotes

Between double quotes a backslash keeps four characters from their meaning.  A text whose
occurrences of the four have a backslash before them is read as itself.
-/

namespace RocmTests
namespace Shell

open Text

/-- The characters that mean something between double quotes. -/
def doubleSpecial : Txt := ['\\', '"', '$', Char.ofNat 96]

def doubleChar (c : Char) : Txt := if c ∈ doubleSpecial then ['\\', c] else [c]

def doubleQuoted (s : Txt) : Txt := '"' :: s.flatMap doubleChar ++ ['"']

namespace Lexer

variable {ts : List Token} {w : Word}

/-- Two texts one after the other. -/
theorem foldl_append_of {a b : Txt} {l l₁ l₂ : Lexer} (ha : a.foldl step l = l₁)
    (hb : b.foldl step l₁ = l₂) : (a ++ b).foldl step l = l₂ := by
  rw [List.foldl_append, ha, hb]

theorem foldl_doubleChar (c : Char) : (doubleChar c).foldl step ⟨ts, some w, .double⟩ =
    ⟨ts, some (w ++ [⟨c, .quoted⟩]), .double⟩ := by
  unfold doubleChar
  split_ifs with hc
  · simp only [doubleSpecial, List.mem_cons, List.not_mem_nil, or_false] at hc
    rcases hc with rfl | rfl | rfl | rfl <;> rfl
  · simp only [doubleSpecial, List.mem_cons, List.not_mem_nil, or_false, not_or] at hc
    simp only [List.foldl_cons, List.foldl_nil, step, double, hc, if_false]
    rfl

theorem foldl_doubleChars (s : Txt) : ∀ w : Word,
    (s.flatMap doubleChar).foldl step ⟨ts, some w, .double⟩ =
      ⟨ts, some (w ++ .of .quoted s), .double⟩ := by
  induction s with
  | nil =>
    intro w
    rw [Word.of, List.map_nil, List.append_nil]
    rfl
  | cons c s ih =>
    intro w
    rw [List.flatMap_cons, List.foldl_append, foldl_doubleChar, ih]
    simp [Word.of]

end Lexer

/-- A shell reads a text between double quotes back as one word. -/
theorem reads_doubleQuoted (s : Txt) : Reads (doubleQuoted s) (.of .quoted s) := by
  intro ts word
  have hopen : Lexer.step ⟨ts, word, .plain⟩ '"' = ⟨ts, some (word.getD []), .double⟩ := rfl
  rw [doubleQuoted, List.cons_append, List.foldl_cons, hopen, List.foldl_append,
    Lexer.foldl_doubleChars]
  rfl

/-- The text that is left of it is the one that was quoted. -/
theorem tokens_of_reads {t : Txt} {w : Word} (h : Reads t w) : tokens t = .read [.word w] := by
  rw [tokens, Lexer.start, h [] none]
  rfl

/-!
## A text between double quotes as it stands

`bash -c "…"` around a text that nobody has escaped hands the text over only when it is `calm`:
no double quote and no backquote in it, no backslash before a character that it would keep from its
meaning, and no dollar before a parameter.  Whether a backslash or a dollar is calm depends on the
character after it, so that a piece of a text is calm before the piece that follows.
-/

/-- Behind a dollar these begin an expansion. -/
def beginsParameter (c : Char) : Bool :=
  c.isAlphanum || c ∈ ['_', '@', '*', '#', '?', '-', '$', '!', '\x7b', '(', '[']

/-- A character between double quotes that stays, before the character `next`. -/
def stays (c : Char) (next : Option Char) : Bool :=
  if c = '\\' then next.any fun d => decide (d ∉ doubleSpecial ∧ d ≠ '\n')
  else if c = '$' then next.all fun d => !beginsParameter d
  else decide (c ≠ '"' ∧ c ≠ Char.ofNat 96)

/-- Every character of the text stays, and after the text comes `next`. -/
def calm : Txt → Option Char → Bool
  | [], _ => true
  | c :: t, next => stays c (t.head?.or next) && calm t next

@[simp] theorem calm_nil (next : Option Char) : calm [] next = true := rfl

theorem calm_cons (c : Char) (t : Txt) (next : Option Char) :
    calm (c :: t) next = (stays c (t.head?.or next) && calm t next) := rfl

theorem calm_append (a b : Txt) (next : Option Char) :
    calm (a ++ b) next = (calm a (b.head?.or next) && calm b next) := by
  induction a with
  | nil => rfl
  | cons c a ih =>
    rw [List.cons_append, calm_cons, calm_cons, ih, List.head?_append, Option.or_assoc,
      Bool.and_assoc]

theorem stays_of_not_special {c : Char} (hc : c ∉ doubleSpecial) (next : Option Char) :
    stays c next = true := by
  simp only [doubleSpecial, List.mem_cons, List.not_mem_nil, or_false, not_or] at hc
  unfold stays
  rw [if_neg hc.1, if_neg hc.2.2.1]
  exact decide_eq_true ⟨hc.2.1, hc.2.2.2⟩

theorem calm_cons_of_not_special {c : Char} (hc : c ∉ doubleSpecial) (t : Txt)
    (next : Option Char) :
    calm (c :: t) next = calm t next := by
  rw [calm_cons, stays_of_not_special hc, Bool.true_and]

/-- A text without the four special characters is calm wherever it stands. -/
theorem calm_of_not_special {t : Txt} (ht : ∀ c ∈ t, c ∉ doubleSpecial) (next : Option Char) :
    calm t next = true := by
  induction t with
  | nil => rfl
  | cons c t ih =>
    rw [calm_cons_of_not_special (ht c List.mem_cons_self),
      ih fun d hd => ht d (List.mem_cons_of_mem c hd)]

theorem calm_front {a : Txt} (ha : ∀ c ∈ a, c ∉ doubleSpecial) (b : Txt) (next : Option Char) :
    calm (a ++ b) next = calm b next := by
  rw [calm_append, calm_of_not_special ha, Bool.true_and]

/-- The word that a calm text is read as.  A dollar is still looked at. -/
def standing (t : Txt) : Word := t.map fun c => ⟨c, if c = '$' then .active else .quoted⟩

@[simp] theorem text_standing (t : Txt) : (standing t).text = t := by
  rw [standing, Word.text, List.map_map]
  exact List.map_id' t

namespace Lexer

variable {ts : List Token} {w : Word} {c d : Char}

theorem step_dollar (h : stays '$' (some d) = true) :
    step ⟨ts, some w, .dollar true⟩ d = step ⟨ts, some w, .double⟩ d := by
  have hd : beginsParameter d = false := by simpa [stays] using h
  have hparen : d ≠ '(' := by
    intro hc
    rw [hc] at hd
    exact absurd hd (by decide)
  have hbrace : d ≠ '\x7b' := by
    intro hc
    rw [hc] at hd
    exact absurd hd (by decide)
  have hdollar : step ⟨ts, some w, .dollar true⟩ d = double ⟨ts, some w, .dollar true⟩ d := by
    simp only [step, hparen, hbrace, if_false, if_true]
  rw [hdollar]
  unfold double
  rfl

/-- A backslash that stays is read as if it had been there all along. -/
theorem step_escape (h : stays '\\' (some d) = true) : step ⟨ts, some w, .escapeInDouble⟩ d =
    step ⟨ts, some (w ++ [⟨'\\', .quoted⟩]), .double⟩ d := by
  have hd : d ∉ doubleSpecial ∧ d ≠ '\n' := by simpa [stays] using h
  have hspecial := hd.1
  simp only [doubleSpecial, List.mem_cons, List.not_mem_nil, or_false, not_or] at hspecial
  simp only [step, double, hspecial, hd.2, List.mem_cons, List.not_mem_nil, if_false, or_self]
  rfl

theorem step_staying (hslash : c ≠ '\\') (hdollar : c ≠ '$') (h : stays c (some d) = true) :
    step ⟨ts, some w, .double⟩ c = ⟨ts, some (w ++ [⟨c, .quoted⟩]), .double⟩ := by
  unfold stays at h
  rw [if_neg hslash, if_neg hdollar, decide_eq_true_eq] at h
  simp only [step, double, hslash, hdollar, h, if_false]
  rfl

/-- One character that stays, before another one. -/
theorem foldl_stays (h : stays c (some d) = true) (t : Txt) :
    (c :: d :: t).foldl step ⟨ts, some w, .double⟩ =
      (d :: t).foldl step ⟨ts, some (w ++ standing [c]), .double⟩ := by
  rw [List.foldl_cons]
  by_cases hslash : c = '\\'
  · subst hslash
    have hstep : step ⟨ts, some w, .double⟩ '\\' = ⟨ts, some w, .escapeInDouble⟩ := rfl
    rw [hstep, List.foldl_cons, step_escape h]
    rfl
  by_cases hdollar : c = '$'
  · subst hdollar
    have hstep : step ⟨ts, some w, .double⟩ '$' =
        ⟨ts, some (w ++ [⟨'$', .active⟩]), .dollar true⟩ := rfl
    rw [hstep, List.foldl_cons, step_dollar h]
    rfl
  · rw [step_staying hslash hdollar h, standing, List.map_singleton, if_neg hdollar]

theorem foldl_calm (t : Txt) : ∀ w : Word, calm t (some '"') = true →
    (t ++ ['"']).foldl step ⟨ts, some w, .double⟩ = ⟨ts, some (w ++ standing t), .plain⟩ := by
  induction t with
  | nil =>
    intro w _
    rw [standing, List.map_nil, List.append_nil]
    rfl
  | cons c t ih =>
    intro w h
    rw [calm_cons, Bool.and_eq_true] at h
    have hstanding : standing (c :: t) = standing [c] ++ standing t := rfl
    obtain ⟨d, r, hnext⟩ : ∃ d r, t ++ ['"'] = d :: r :=
      List.exists_cons_of_ne_nil (List.append_ne_nil_of_right_ne_nil t (List.cons_ne_nil _ _))
    have hhead : t.head?.or (some '"') = some d := by
      have hor : (t ++ ['"']).head? = t.head?.or (['"'].head?) := List.head?_append
      rwa [hnext, List.head?_cons, List.head?_cons, eq_comm] at hor
    rw [List.cons_append, hnext, foldl_stays (hhead ▸ h.1), ← hnext, ih _ h.2, hstanding,
      List.append_assoc]

end Lexer

/-- A calm text between double quotes is one word with the characters of the text. -/
theorem reads_standing {t : Txt} (h : calm t (some '"') = true) :
    Reads ('"' :: t ++ ['"']) (standing t) := by
  intro ts word
  have hopen : Lexer.step ⟨ts, word, .plain⟩ '"' = ⟨ts, some (word.getD []), .double⟩ := rfl
  rw [List.cons_append, List.foldl_cons, hopen, Lexer.foldl_calm t _ h]

end Shell
end RocmTests

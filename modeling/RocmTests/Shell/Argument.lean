import RocmTests.Shell.DoubleQuote
import RocmTests.Shell.Run

/-!
# Arguments written without quotes

A text written into a command without quotes is read back as one argument when no character of it
ends a word or quotes another, and when the expansions find nothing to do in it: a dollar stands
before no parameter, a tilde not where a path begins, a bracket is not closed, and braces hold no
alternatives.
-/

namespace RocmTests
namespace Shell

open Text

/-! ## What is left alone -/

/-- What follows an open brace makes alternatives of it. -/
def alternates (t : Txt) : Bool :=
  t.contains '\x7d' && (t.contains ',' || decide (['.', '.'] <:+: t))

/-- A name, or one that a value is added to. -/
def isAssigned (t : Txt) : Bool := isName t || (t.getLast? = some '+' && isName t.dropLast)

/-- A directory of a user may stand behind this much of a word: nothing, or a name, an equals sign
and perhaps directories with a colon after each. -/
def beginsPath (before : Txt) : Bool :=
  before = [] || isAssigned (before.takeWhile (· ≠ '=')) &&
    (before.dropWhile (· ≠ '=') = ['='] || before.getLast? = some ':')

/-- The shell leaves a character alone between what is before it and what is after it. -/
def leftAlone (before : Txt) (g : Glyph) (after : Word) : Bool :=
  if g.kind ≠ .active then true
  else if g.char = '$' then after.head?.all fun h => !beginsParameter h.char
  else if g.char = '~' then !beginsPath before
  else if g.char = '[' then !(after.text.drop 1).contains ']'
  else if g.char = '\x7b' then !alternates after.text
  else g.char = '\x7d'

def inertBehind : Txt → Word → Bool
  | _, [] => true
  | before, g :: w => leftAlone before g w && inertBehind (before ++ [g.char]) w

/-- No expansion finds anything to do in the word. -/
def inert (w : Word) : Bool := inertBehind [] w

theorem inertBehind_of_plain {w : Word} (h : w.plain = true) (before : Txt) :
    inertBehind before w = true := by
  induction w generalizing before with
  | nil => rfl
  | cons g w ih =>
    rw [Word.plain, List.all_cons, Bool.and_eq_true, decide_eq_true_eq] at h
    rw [inertBehind, ih h.2, Bool.and_true]
    exact if_pos h.1

theorem inert_of_plain {w : Word} (h : w.plain = true) : inert w = true := inertBehind_of_plain h []

/-- Between double quotes only a dollar could be looked at. -/
theorem inertBehind_standing {t : Txt} {next : Option Char} (h : calm t next = true)
    (before : Txt) : inertBehind before (standing t) = true := by
  induction t generalizing before with
  | nil => rfl
  | cons c t ih =>
    rw [calm_cons, Bool.and_eq_true] at h
    have hcons : standing (c :: t) = ⟨c, if c = '$' then .active else .quoted⟩ :: standing t := rfl
    rw [hcons, inertBehind, ih h.2, Bool.and_true]
    unfold leftAlone
    by_cases hdollar : c = '$'
    · subst hdollar
      cases t with
      | nil => rfl
      | cons d t =>
        have hstays := h.1
        rwa [List.head?_cons, Option.some_or] at hstays
    · rw [if_neg hdollar]
      rfl

theorem inert_standing {t : Txt} {next : Option Char} (h : calm t next = true) :
    inert (standing t) = true := inertBehind_standing h []

/-! ## Arguments -/

/-- These end a word, or take the meaning of other characters away. -/
def breaking : Txt :=
  [' ', '\t', '\n', ';', '&', '|', '>', '<', '(', ')', Char.ofNat 96, '\'', '"', '\\']

/-- Where these stand the shell looks for something to expand. -/
def expanding : Txt := ['$', '*', '?', '[', '~', '\x7b', '\x7d']

def bareGlyph (c : Char) : Glyph := ⟨c, if c ∈ expanding then .active else .bare⟩

/-- The word that a text without quotes is read as. -/
def bareWord (t : Txt) : Word := t.map bareGlyph

@[simp] theorem text_bareWord (t : Txt) : (bareWord t).text = t := by
  rw [bareWord, Word.text, List.map_map]
  exact List.map_id' t

/-- A text that a shell takes, as it stands, for one argument. -/
structure Bare (t : Txt) : Prop where
  nonempty : t ≠ []
  whole : ∀ c ∈ t, c ∉ breaking
  noComment : t.head? ≠ some '#'
  inert : inert (bareWord t) = true

instance (t : Txt) : Decidable (Bare t) :=
  decidable_of_iff (t ≠ [] ∧ (t.all fun c => decide (c ∉ breaking)) = true ∧ t.head? ≠ some '#' ∧
      Shell.inert (bareWord t) = true)
    ⟨fun ⟨h₁, h₂, h₃, h₄⟩ => ⟨h₁, forall_of_all h₂, h₃, h₄⟩,
      fun h => ⟨h.1, List.all_eq_true.mpr fun c hc => decide_eq_true (h.2 c hc), h.3, h.4⟩⟩

/-- Two neighbours in a word of an argument: a dollar stands before no parameter. -/
def loose : Txt → Bool
  | c :: d :: t => (decide (c ≠ '$') || !beginsParameter d) && loose (d :: t)
  | _ => true

theorem loose_of_inertBehind {t before : Txt}
    (h : inertBehind before (bareWord t) = true) : loose t = true := by
  induction t generalizing before with
  | nil => rfl
  | cons c t ih =>
    have hcons : bareWord (c :: t) = bareGlyph c :: bareWord t := rfl
    rw [hcons, inertBehind, Bool.and_eq_true] at h
    cases t with
    | nil => rfl
    | cons d t =>
      rw [loose, ih h.2, Bool.and_true, Bool.or_eq_true]
      by_cases hc : c = '$'
      · subst hc
        exact Or.inr h.1
      · exact Or.inl (decide_eq_true hc)

namespace Lexer

variable {ts : List Token} {word : Option Word} {w : Word} {c : Char} {m : Mode}

theorem plain_bareGlyph (hc : c ∉ breaking) (hcomment : c = '#' → word ≠ none) :
    plain ⟨ts, word, m⟩ c = ⟨ts, some (word.getD [] ++ [bareGlyph c]),
      if c = '$' then .dollar false else .plain⟩ := by
  simp only [breaking, List.mem_cons, List.not_mem_nil, or_false, not_or] at hc
  have hno : ¬ (c = '#' ∧ word = none) := fun h => hcomment h.1 h.2
  by_cases hdollar : c = '$'
  · subst hdollar
    rfl
  · by_cases hactive : c ∈ ['*', '?', '[', '~', '\x7b', '\x7d']
    · have hexpanding : c ∈ expanding := List.mem_cons_of_mem _ hactive
      simp only [plain, hc, hno, hdollar, hactive, bareGlyph, hexpanding, or_self, if_true,
        if_false]
      rfl
    · have hexpanding : c ∉ expanding :=
        fun h => hactive ((List.mem_cons.mp h).resolve_left hdollar)
      simp only [plain, hc, hno, hdollar, hactive, bareGlyph, hexpanding, or_self, if_false]
      rfl

/-- Between words, and behind a dollar that no parameter follows. -/
def Open (m : Mode) : Prop := m = .plain ∨ m = .dollar false

theorem step_open (hm : Open m) (hparameter : m = .dollar false → beginsParameter c = false)
    (hc : c ∉ breaking) : step ⟨ts, some w, m⟩ c = plain ⟨ts, some w, m⟩ c := by
  rcases hm with rfl | rfl
  · rfl
  · have hno := hparameter rfl
    have hbrace : c ≠ '\x7b' := by
      intro hc
      rw [hc] at hno
      exact absurd hno (by decide)
    simp only [breaking, List.mem_cons, List.not_mem_nil, or_false, not_or] at hc
    simp only [step, hc, hbrace, if_false, Bool.false_eq_true, or_self]

theorem step_open_blank (hm : Open m) :
    step ⟨ts, some w, m⟩ ' ' = ⟨ts ++ [Token.word w], none, .plain⟩ := by
  rcases hm with rfl | rfl <;> rfl

theorem finish_open (hm : Open m) :
    finish ⟨ts, some w, m⟩ = .read (ts ++ [Token.word w]) := by
  rcases hm with rfl | rfl <;> rfl

/-- Text behind the beginning of an argument. -/
theorem foldl_bareGlyphs {t : Txt} (hwhole : ∀ c ∈ t, c ∉ breaking) (hloose : loose t = true) :
    ∀ (w : Word) (m : Mode), Open m →
      (m = .dollar false → ∀ c ∈ t.head?, beginsParameter c = false) →
      ∃ m', Open m' ∧ t.foldl step ⟨ts, some w, m⟩ = ⟨ts, some (w ++ bareWord t), m'⟩ := by
  induction t with
  | nil =>
    intro w m hm _
    refine ⟨m, hm, ?_⟩
    rw [bareWord, List.map_nil, List.append_nil]
    rfl
  | cons c t ih =>
    intro w m hm hparameter
    have hc := hwhole c List.mem_cons_self
    have hsome : c = '#' → (some w : Option Word) ≠ none := fun _ => Option.some_ne_none w
    have hstep : step ⟨ts, some w, m⟩ c = ⟨ts, some (w ++ [bareGlyph c]),
        if c = '$' then .dollar false else .plain⟩ := by
      rw [step_open hm (fun h => hparameter h c rfl) hc, plain_bareGlyph hc hsome]
      rfl
    have hnext : (if c = '$' then Mode.dollar false else .plain) = .dollar false →
        ∀ d ∈ t.head?, beginsParameter d = false := by
      intro hmode d hd
      have hdollar : c = '$' := by
        by_contra hne
        rw [if_neg hne] at hmode
        cases hmode
      obtain ⟨t', rfl⟩ : ∃ t', t = d :: t' := ⟨t.tail, (List.cons_head?_tail hd).symm⟩
      rw [loose, Bool.and_eq_true, Bool.or_eq_true] at hloose
      have hno := hloose.1.resolve_left fun h => of_decide_eq_true h hdollar
      simpa using hno
    have hloose' : loose t = true := by
      cases t with
      | nil => rfl
      | cons d t =>
        rw [loose, Bool.and_eq_true] at hloose
        exact hloose.2
    have hopen : Open (if c = '$' then .dollar false else .plain) := by
      by_cases hdollar : c = '$'
      · exact Or.inr (if_pos hdollar)
      · exact Or.inl (if_neg hdollar)
    obtain ⟨m', hm', hfold⟩ := ih (fun d hd => hwhole d (List.mem_cons_of_mem c hd)) hloose'
      (w ++ [bareGlyph c]) _ hopen hnext
    refine ⟨m', hm', ?_⟩
    rw [List.foldl_cons, hstep, hfold, List.append_assoc]
    rfl

theorem foldl_bare_argument {t : Txt} (h : Bare t) : ∃ m, Open m ∧
    t.foldl step ⟨ts, none, .plain⟩ = ⟨ts, some (bareWord t), m⟩ := by
  obtain ⟨c, t, rfl⟩ := List.exists_cons_of_ne_nil h.nonempty
  have hc : c ≠ '#' := fun hc => h.noComment (by rw [hc, List.head?_cons])
  obtain ⟨m, hm, hfold⟩ : ∃ m, Open m ∧ (c :: t).foldl step ⟨ts, some [], .plain⟩ =
      ⟨ts, some ([] ++ bareWord (c :: t)), m⟩ :=
    foldl_bareGlyphs h.whole (loose_of_inertBehind h.inert) [] .plain (Or.inl rfl)
      (fun hmode => by cases hmode)
  refine ⟨m, hm, ?_⟩
  have hwhole := h.whole c List.mem_cons_self
  have hopens : plain ⟨ts, none, .plain⟩ c = plain ⟨ts, some [], .plain⟩ c := by
    rw [plain_bareGlyph hwhole fun h => absurd h hc, plain_bareGlyph hwhole fun h => absurd h hc]
    rfl
  rw [List.nil_append] at hfold
  rw [← hfold]
  exact congrArg (t.foldl step) hopens

theorem foldl_bare_argument_blank {t : Txt} (h : Bare t) :
    (t ++ [' ']).foldl step ⟨ts, none, .plain⟩ =
      ⟨ts ++ [Token.word (bareWord t)], none, .plain⟩ := by
  obtain ⟨m, hm, hfold⟩ : ∃ m, Open m ∧ t.foldl step ⟨ts, none, .plain⟩ =
      ⟨ts, some (bareWord t), m⟩ := foldl_bare_argument h
  rw [List.foldl_append, hfold]
  exact step_open_blank hm

/-- Arguments with a blank between each two of them, at the end of a text. -/
theorem finish_bare_arguments {args : List Txt} (h : ∀ a ∈ args, Bare a) : ∀ ts : List Token,
    (([' '].intercalate args).foldl step ⟨ts, none, .plain⟩).finish =
      .read (ts ++ args.map fun a => .word (bareWord a)) := by
  induction args with
  | nil =>
    intro ts
    rw [List.map_nil, List.append_nil]
    rfl
  | cons a args ih =>
    intro ts
    have ha := h a List.mem_cons_self
    by_cases hnil : args = []
    · obtain ⟨m, hm, hfold⟩ : ∃ m, Open m ∧ a.foldl step ⟨ts, none, .plain⟩ =
          ⟨ts, some (bareWord a), m⟩ := foldl_bare_argument ha
      rw [hnil, List.intercalate_singleton, hfold, finish_open hm]
      rfl
    · rw [List.intercalate_cons_of_ne_nil hnil, List.foldl_append, foldl_bare_argument_blank ha,
        ih fun b hb => h b (List.mem_cons_of_mem a hb), List.append_assoc]
      rfl

end Lexer

/-- Such an argument is calm between double quotes, before a character that begins no parameter. -/
theorem calm_of_bare {t : Txt} (h : Bare t) {next : Char} (hnext : beginsParameter next = false) :
    calm t (some next) = true := by
  have hwhole := h.whole
  have hloose := loose_of_inertBehind h.inert
  clear h
  induction t with
  | nil => rfl
  | cons c t ih =>
    have hc := hwhole c List.mem_cons_self
    simp only [breaking, List.mem_cons, List.not_mem_nil, or_false, not_or] at hc
    have hstays : stays c (t.head?.or (some next)) = true := by
      unfold stays
      rw [if_neg hc.2.2.2.2.2.2.2.2.2.2.2.2.2]
      by_cases hdollar : c = '$'
      · subst hdollar
        rw [if_pos rfl]
        cases t with
        | nil => simpa using hnext
        | cons d t =>
          rw [loose, Bool.and_eq_true] at hloose
          simpa using hloose.1
      · rw [if_neg hdollar]
        exact decide_eq_true ⟨by tauto, by tauto⟩
    have hloose' : loose t = true := by
      cases t with
      | nil => rfl
      | cons d t =>
        rw [loose, Bool.and_eq_true] at hloose
        exact hloose.2
    rw [calm_cons, hstays, ih (fun d hd => hwhole d (List.mem_cons_of_mem c hd)) hloose',
      Bool.and_true]

end Shell
end RocmTests

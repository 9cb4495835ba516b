import RocmTests.Text.Lines

/-!
# Regular expressions

The part of Python's `re` that the patterns of this repository use, with its
backtracking order: an alternative to the left is tried first, and a repetition
takes as much as it can before it gives characters back.  `run` gives all ways to
match from a position, in the order in which they are tried, so the first is the
match that `re` returns.

Which characters beyond ASCII count as alphanumeric is left to a parameter.
-/

namespace RocmTests
namespace Text

/-- A place in a text.  `before` is held reversed. -/
structure Pos where
  before : Txt
  after : Txt
deriving DecidableEq

/-- A way to match: where it ends and what its groups hold. -/
structure Found where
  pos : Pos
  groups : List (Nat × Txt) := []
deriving DecidableEq

/-- What a group holds. -/
def Found.group (m : Found) (n : Nat) : Txt := (m.groups.lookup n).getD []

inductive Re where
  | eps
  | cls (p : Char → Bool)
  | seq (r s : Re)
  | alt (r s : Re)
  | star (p : Char → Bool)
  | wordBoundary
  | lineStart
  | group (n : Nat) (r : Re)

namespace Re

/-! ## Building patterns -/

def empty : Re := cls fun _ => false

def cat : List Re → Re
  | [] => eps
  | [r] => r
  | r :: rs => seq r (cat rs)

def alts : List Re → Re
  | [] => empty
  | [r] => r
  | r :: rs => alt r (alts rs)

def plus (p : Char → Bool) : Re := seq (cls p) (star p)

def opt (r : Re) : Re := alt r eps

/-- `.*` without `re.DOTALL`. -/
def dots : Re := star fun c => c ≠ '\n'

/-- `\b...\b`. -/
def word (r : Re) : Re := cat [wordBoundary, r, wordBoundary]

def lit (s : String) : Re := cat (s.toList.map fun c => cls fun x => x = c)

/-- A letter of a pattern under `re.IGNORECASE`: the dotless and the dotted `i`,
the long `s` and the Kelvin sign also count. -/
def sameLetter (c x : Char) : Bool :=
  x = c || x.toLower = c.toLower ||
    (match c.toLower with
    | 'i' => x.toNat = 304 || x.toNat = 305
    | 's' => x.toNat = 383
    | 'k' => x.toNat = 8490
    | _ => false)

/-- A literal under `re.IGNORECASE`. -/
def ilit (s : String) : Re := cat (s.toList.map fun c => cls (sameLetter c))

/-! ## Matching -/

/-- Greedy repetition, longest first. -/
def runStar (p : Char → Bool) : Txt → Txt → List Pos
  | before, [] => [⟨before, []⟩]
  | before, c :: after =>
    if p c then runStar p (c :: before) after ++ [⟨before, c :: after⟩] else [⟨before, c :: after⟩]

def atBoundary (isWord : Char → Bool) (p : Pos) : Bool :=
  (p.before.head?.any isWord) != (p.after.head?.any isWord)

def atLineStart (p : Pos) : Bool :=
  match p.before with
  | [] => true
  | c :: _ => c = '\n'

/-- The characters between two places of one text. -/
def between (p q : Pos) : Txt := (q.before.take (q.before.length - p.before.length)).reverse

variable (isWord : Char → Bool)

def run : Re → Pos → List Found
  | eps, p => [{ pos := p }]
  | cls f, p =>
    match p.after with
    | [] => []
    | c :: after => if f c then [{ pos := ⟨c :: p.before, after⟩ }] else []
  | seq r s, p =>
    (run r p).flatMap fun m => (run s m.pos).map fun n => ⟨n.pos, m.groups ++ n.groups⟩
  | alt r s, p => run r p ++ run s p
  | star f, p => (runStar f p.before p.after).map fun q => { pos := q }
  | wordBoundary, p => if atBoundary isWord p then [{ pos := p }] else []
  | lineStart, p => if atLineStart p then [{ pos := p }] else []
  | group n r, p => (run r p).map fun m => ⟨m.pos, (n, between p m.pos) :: m.groups⟩

/-- The match at a place, if there is one. -/
def matchAt (r : Re) (p : Pos) : Option Found := (run isWord r p).head?

/-- `search` from a place on: where the match begins and how it ends. -/
def searchFrom (r : Re) : Txt → Txt → Option (Pos × Found)
  | before, [] => (matchAt isWord r ⟨before, []⟩).map fun m => (⟨before, []⟩, m)
  | before, c :: after =>
    match matchAt isWord r ⟨before, c :: after⟩ with
    | some m => some (⟨before, c :: after⟩, m)
    | none => searchFrom r (c :: before) after

def search (r : Re) (text : Txt) : Bool := (searchFrom isWord r [] text).isSome

/-- `re.sub` with an empty replacement, for a pattern that does not match the
empty text.  `fuel` bounds the number of matches; the length of the text is
enough. -/
def removeFrom (r : Re) : Nat → Txt → Txt → Txt
  | 0, _, after => after
  | fuel + 1, before, after =>
    match searchFrom isWord r before after with
    | none => after
    | some (p, m) =>
      (p.before.take (p.before.length - before.length)).reverse ++
        removeFrom r fuel m.pos.before m.pos.after

def remove (r : Re) (text : Txt) : Txt := removeFrom isWord r text.length [] text

/-- `re.sub` with a fixed replacement, likewise. -/
def substFrom (r : Re) (repl : Txt) : Nat → Txt → Txt → Txt
  | 0, _, after => after
  | fuel + 1, before, after =>
    match searchFrom isWord r before after with
    | none => after
    | some (p, m) =>
      (p.before.take (p.before.length - before.length)).reverse ++ repl ++
        substFrom r repl fuel m.pos.before m.pos.after

def subst (r : Re) (repl text : Txt) : Txt := substFrom isWord r repl text.length [] text

/-- `re.findall`, for a pattern that does not match the empty text.  `skip` counts
the characters that still belong to the match before. -/
def findAllFrom (r : Re) : Nat → Txt → Txt → List Found
  | _, _, [] => []
  | skip + 1, before, c :: after => findAllFrom r skip (c :: before) after
  | 0, before, c :: after =>
    match matchAt isWord r ⟨before, c :: after⟩ with
    | some m => m :: findAllFrom r (m.pos.before.length - before.length - 1) (c :: before) after
    | none => findAllFrom r 0 (c :: before) after

def findAll (r : Re) (text : Txt) : List Found := findAllFrom isWord r 0 [] text

/-! ## Whether there is a match -/

section

variable {isWord}

/-- The pattern matches the text from `p` to `q`. -/
def Spans (isWord : Char → Bool) (r : Re) (p q : Pos) : Prop := ∃ m ∈ run isWord r p, m.pos = q

theorem spans_seq {r s : Re} {p q : Pos} :
    Spans isWord (seq r s) p q ↔ ∃ o, Spans isWord r p o ∧ Spans isWord s o q := by
  unfold Spans
  rw [run]
  simp only [List.mem_flatMap, List.mem_map]
  constructor
  · intro h
    obtain ⟨m, ⟨k, hk, n, hn, hm⟩, hq⟩ := h
    subst hm
    exact ⟨k.pos, ⟨k, hk, rfl⟩, n, hn, hq⟩
  · intro h
    obtain ⟨o, ⟨k, hk, ho⟩, n, hn, hq⟩ := h
    subst ho
    exact ⟨_, ⟨k, hk, n, hn, rfl⟩, hq⟩

theorem spans_alt {r s : Re} {p q : Pos} :
    Spans isWord (alt r s) p q ↔ Spans isWord r p q ∨ Spans isWord s p q := by
  unfold Spans
  rw [run]
  simp only [List.mem_append, or_and_right, exists_or]

theorem matchAt_isSome_iff {r : Re} {p : Pos} :
    (matchAt isWord r p).isSome = true ↔ ∃ q, Spans isWord r p q := by
  unfold matchAt Spans
  cases run isWord r p with
  | nil => simp
  | cons m ms => exact iff_of_true rfl ⟨m.pos, m, List.mem_cons_self, rfl⟩

theorem searchFrom_isSome_iff {r : Re} (after : Txt) :
    ∀ before : Txt, (searchFrom isWord r before after).isSome = true ↔
      ∃ u v, after = u ++ v ∧ ∃ q, Spans isWord r ⟨u.reverse ++ before, v⟩ q := by
  induction after with
  | nil =>
    intro before
    rw [searchFrom, Option.isSome_map, matchAt_isSome_iff]
    constructor
    · intro h
      exact ⟨[], [], rfl, h⟩
    · intro h
      obtain ⟨u, v, huv, h⟩ := h
      obtain ⟨rfl, rfl⟩ := List.append_eq_nil_iff.mp huv.symm
      exact h
  | cons c after ih =>
    intro before
    rw [searchFrom]
    cases hm : matchAt isWord r ⟨before, c :: after⟩ with
    | some m =>
      have hspans := matchAt_isSome_iff.mp (show (matchAt isWord r _).isSome = true by rw [hm]; rfl)
      exact iff_of_true rfl ⟨[], c :: after, rfl, hspans⟩
    | none =>
      show (searchFrom isWord r (c :: before) after).isSome = true ↔ _
      rw [ih (c :: before)]
      constructor
      · intro h
        obtain ⟨u, v, huv, h⟩ := h
        refine ⟨c :: u, v, by rw [huv]; rfl, ?_⟩
        rw [List.reverse_cons, List.append_assoc]
        exact h
      · intro h
        obtain ⟨u, v, huv, h⟩ := h
        cases u with
        | nil =>
          rw [List.nil_append] at huv
          rw [← huv] at h
          have hsome := matchAt_isSome_iff.mpr h
          rw [List.reverse_nil, List.nil_append, hm] at hsome
          cases hsome
        | cons d u =>
          rw [List.cons_append, List.cons.injEq] at huv
          obtain ⟨rfl, huv⟩ := huv
          refine ⟨u, v, huv, ?_⟩
          rw [List.reverse_cons, List.append_assoc] at h
          exact h

theorem search_iff {r : Re} {text : Txt} : search isWord r text = true ↔
    ∃ u v, text = u ++ v ∧ ∃ q, Spans isWord r ⟨u.reverse, v⟩ q := by
  unfold search
  rw [searchFrom_isSome_iff]
  simp only [List.append_nil]

/-- A search for a pattern that spans what either of two patterns spans. -/
theorem search_or {r s t : Re} {text : Txt}
    (h : ∀ p q, Spans isWord r p q ↔ Spans isWord s p q ∨ Spans isWord t p q) :
    search isWord r text = true ↔
      search isWord s text = true ∨ search isWord t text = true := by
  simp only [search_iff, h, exists_or, and_or_left]

theorem search_empty {text : Txt} : search isWord empty text = false := by
  rw [Bool.eq_false_iff, ne_eq, search_iff]
  intro h
  obtain ⟨u, v, _, q, m, hm, _⟩ := h
  unfold empty at hm
  rw [run] at hm
  cases v <;> simp at hm

theorem search_alts {text : Txt} (rs : List Re) :
    search isWord (alts rs) text = true ↔ ∃ r ∈ rs, search isWord r text = true := by
  induction rs with
  | nil => simp [alts, search_empty]
  | cons r rs ih =>
    cases rs with
    | nil => simp [alts]
    | cons r' rs =>
      have halts : alts (r :: r' :: rs) = alt r (alts (r' :: rs)) := rfl
      rw [halts, search_or fun p q => spans_alt, ih]
      simp only [List.mem_cons, exists_eq_or_imp]

end

end Re

end Text
end RocmTests

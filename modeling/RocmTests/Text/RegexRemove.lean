import Mathlib.Logic.Relation
import RocmTests.Text.RegexMatch

/-!
# What a removal leaves

`re.sub` with an empty replacement cuts one match after another out of a text.  When
every match stands by itself, with a word character at either end and none beside
it, a cut neither makes nor breaks a word elsewhere: a literal that does not overlap
the match is found before the cut exactly where it is found after it.
-/

namespace RocmTests
namespace Text
namespace Re

variable {isWord : Char → Bool}

/-- The text `m` begins with a word character, and no other is next to it. -/
structure Delimited (isWord : Char → Bool) (x m y : Txt) : Prop where
  head : m.head?.any isWord = true
  left : x.getLast?.any isWord = false
  right : y.head?.any isWord = false

theorem Delimited.ne_nil {x m y : Txt} (h : Delimited isWord x m y) : m ≠ [] := by
  rintro rfl
  exact absurd h.head (by simp)

/-- Every match of the pattern stands by itself. -/
def Delimits (isWord : Char → Bool) (r : Re) : Prop :=
  ∀ b m v, Matches isWord r b m v → Delimited isWord b.reverse m v

/-- One match is cut out. -/
def Cut (isWord : Char → Bool) (r : Re) (t t' : Txt) : Prop :=
  ∃ x m y, t = x ++ m ++ y ∧ t' = x ++ y ∧ Delimited isWord x m y ∧
    ∃ b v, Matches isWord r b m v

/-! ## A removal is a sequence of cuts -/

theorem Spans.of_matchAt {r : Re} {p : Pos} {f : Found} (h : matchAt isWord r p = some f) :
    Spans isWord r p f.pos := ⟨f, List.mem_of_mem_head? h, rfl⟩

theorem searchFrom_some {r : Re} (after : Txt) : ∀ {before : Txt} {p : Pos} {f : Found},
    searchFrom isWord r before after = some (p, f) →
      ∃ x m, after = x ++ (m ++ f.pos.after) ∧ p.before = x.reverse ++ before ∧
        f.pos.before = m.reverse ++ p.before ∧
        Matches isWord r (x.reverse ++ before) m f.pos.after := by
  induction after with
  | nil =>
    intro before p f h
    rw [searchFrom, Option.map_eq_some_iff] at h
    obtain ⟨g, hg, hgf⟩ := h
    obtain ⟨rfl, rfl⟩ := Prod.mk.inj hgf
    obtain ⟨m, hm, hb⟩ := (Spans.of_matchAt hg).split
    obtain ⟨m', hm', hmatch⟩ := (Spans.of_matchAt hg).exists_matches
    rw [List.append_cancel_right (hm'.symm.trans hm)] at hmatch
    exact ⟨[], m, hm, rfl, hb, hmatch⟩
  | cons c after ih =>
    intro before p f h
    rw [searchFrom] at h
    cases hat : matchAt isWord r ⟨before, c :: after⟩ with
    | none =>
      rw [hat] at h
      obtain ⟨x, m, hafter, hbefore, hend, hmatch⟩ := ih h
      refine ⟨c :: x, m, by rw [hafter]; rfl, ?_, hend, ?_⟩
      · rw [hbefore, List.reverse_cons, List.append_assoc]
        rfl
      · rw [List.reverse_cons, List.append_assoc]
        exact hmatch
    | some g =>
      rw [hat] at h
      obtain ⟨rfl, rfl⟩ := Prod.mk.inj (Option.some.inj h)
      obtain ⟨m, hm, hb⟩ := (Spans.of_matchAt hat).split
      obtain ⟨m', hm', hmatch⟩ := (Spans.of_matchAt hat).exists_matches
      rw [List.append_cancel_right (hm'.symm.trans hm)] at hmatch
      exact ⟨[], m, hm, rfl, hb, hmatch⟩

/-- A replacement keeps what the text begins with and no match begins in. -/
theorem isPrefix_subst {r : Re} {x t : Txt} (repl : Txt)
    (hr : ∀ b m v, Matches isWord r b m v → ∃ c, m.head? = some c ∧ c ∉ x) (h : x <+: t) :
    x <+: subst isWord r repl t := by
  unfold subst
  cases hlen : t.length with
  | zero => exact h
  | succ fuel =>
    rw [substFrom]
    cases hsearch : searchFrom isWord r [] t with
    | none => exact h
    | some found =>
      obtain ⟨p, f⟩ := found
      obtain ⟨y, m, rfl, hp, -, hmatch⟩ := searchFrom_some t hsearch
      obtain ⟨c, hc, hcx⟩ := hr _ _ _ hmatch
      have hxy : x <+: y := by
        refine List.prefix_of_prefix_length_le h (List.prefix_append y _) ?_
        by_contra hlt
        obtain ⟨z, hz⟩ := List.prefix_of_prefix_length_le (List.prefix_append y _) h (by omega)
        obtain ⟨w, hw⟩ := h
        rw [← hz, List.append_assoc] at hw
        have hrest := List.append_cancel_left hw
        cases z with
        | nil =>
          rw [← hz, List.append_nil] at hlt
          exact hlt (le_refl _)
        | cons d z =>
          cases m with
          | nil => cases hc
          | cons e m =>
            rw [List.head?_cons, Option.some.injEq] at hc
            rw [List.cons_append, List.cons_append, List.cons.injEq] at hrest
            rw [← hz, ← hc, ← hrest.1] at hcx
            exact hcx (List.mem_append_right y List.mem_cons_self)
      have hkept : (p.before.take (p.before.length - ([] : Txt).length)).reverse = y := by
        rw [hp, List.append_nil, List.length_nil, Nat.sub_zero, List.take_length,
          List.reverse_reverse]
      simp only [hkept, List.append_assoc]
      exact hxy.trans (List.prefix_append y _)

/-- The later matches are cut out first: the text to the left of a cut is then still
the one the match was found in. -/
theorem removeFrom_cuts {r : Re} (hr : Delimits isWord r) (fuel : Nat) : ∀ before after : Txt,
    Relation.ReflTransGen (Cut isWord r) (before.reverse ++ after)
        (before.reverse ++ removeFrom isWord r fuel before after) ∧
      (after.head?.any isWord = false →
        (removeFrom isWord r fuel before after).head?.any isWord = false) := by
  induction fuel with
  | zero =>
    intro before after
    exact ⟨.refl, id⟩
  | succ fuel ih =>
    intro before after
    rw [removeFrom]
    cases hsearch : searchFrom isWord r before after with
    | none => exact ⟨.refl, id⟩
    | some found =>
      obtain ⟨p, f⟩ := found
      obtain ⟨x, m, rfl, hp, hf, hmatch⟩ := searchFrom_some after hsearch
      have hdel := hr _ _ _ hmatch
      have hkept : (p.before.take (p.before.length - before.length)).reverse = x := by
        rw [hp, List.length_append, Nat.add_sub_cancel, List.take_left, List.reverse_reverse]
      obtain ⟨hrest, hhead⟩ := ih f.pos.before f.pos.after
      simp only [hkept]
      rw [hf, hp] at hrest hhead
      constructor
      · have hcut : Cut isWord r
            (before.reverse ++ x ++ m ++
              removeFrom isWord r fuel (m.reverse ++ (x.reverse ++ before))
              f.pos.after)
            (before.reverse ++ x ++ removeFrom isWord r fuel (m.reverse ++ (x.reverse ++ before))
              f.pos.after) := by
          refine ⟨_, m, _, rfl, rfl, ⟨hdel.head, ?_, hhead hdel.right⟩, _, _, hmatch⟩
          rw [← hdel.left, List.reverse_append, List.reverse_reverse]
        rw [hf, hp]
        simp only [List.reverse_append, List.reverse_reverse, List.append_assoc] at hrest hcut ⊢
        exact hrest.tail hcut
      · intro hafter
        cases x with
        | nil =>
          have hm := hdel.head
          rw [List.nil_append, List.head?_append_of_ne_nil _ hdel.ne_nil, hm] at hafter
          cases hafter
        | cons c x => exact hafter

theorem remove_cuts {r : Re} (hr : Delimits isWord r) (text : Txt) :
    Relation.ReflTransGen (Cut isWord r) text (remove isWord r text) :=
  (removeFrom_cuts hr text.length [] text).1

/-- What one cut keeps, a removal keeps. -/
theorem remove_keeps {r : Re} {P : Txt → Prop} (hr : Delimits isWord r)
    (hcut : ∀ t t', Cut isWord r t t' → P t → P t') {text : Txt} (h : P text) :
    P (remove isWord r text) := by
  have hcuts := remove_cuts hr text
  generalize remove isWord r text = t' at hcuts
  induction hcuts with
  | refl => exact h
  | tail _ hstep ih => exact hcut _ _ hstep ih

/-! ## Text that does not overlap a cut -/

/-- No word of `t` is in `m`. -/
def Foreign (isWord : Char → Bool) (t m : Txt) : Prop :=
  ∀ t₁ t₂, t = t₁ ++ t₂ → t₁.getLast?.any isWord = false → t₂.head?.any isWord = true →
    ¬ t₂.takeWhile isWord <:+: m

/-- A word that begins within `m` and has `y` behind it ends within `m`. -/
theorem takeWhile_inside {m m₂ t v y : Txt} (hm : m₂ <:+ m) (h : m₂ ++ y = t ++ v)
    (hy : y.head?.any isWord = false) : t.takeWhile isWord <:+: m := by
  have hword : ∀ c ∈ t.takeWhile isWord, isWord c = true := fun c hc => List.mem_takeWhile_imp hc
  have hsplit : m₂ ++ y = t.takeWhile isWord ++ (t.dropWhile isWord ++ v) := by
    rw [h, ← List.append_assoc, List.takeWhile_append_dropWhile]
  rcases List.append_eq_append_iff.mp hsplit with ⟨c, hc, hyc⟩ | ⟨c, hc, -⟩
  · cases c with
    | nil =>
      rw [hc, List.append_nil]
      exact hm.isInfix
    | cons a c =>
      have ha : isWord a = true := hword a (hc ▸ List.mem_append_right m₂ List.mem_cons_self)
      rw [hyc, List.cons_append, List.head?_cons, Option.any_some, ha] at hy
      cases hy
  · exact (List.prefix_append _ c).isInfix.trans (hc ▸ hm.isInfix)

/-- A text whose words are foreign to the match is on one side of it. -/
theorem beside_cut {x m y b t v : Txt} (h : x ++ m ++ y = b ++ t ++ v)
    (hd : Delimited isWord x m y) (hhead : t.head?.any isWord = true)
    (ht : Foreign isWord t m) :
    (∃ z, x = b ++ t ++ z ∧ v = z ++ m ++ y) ∨ ∃ z, y = z ++ t ++ v ∧ b = x ++ m ++ z := by
  rw [List.append_assoc b] at h
  rcases List.append_eq_append_iff.mp h with ⟨z, hb, hy⟩ | ⟨z, hxm, hz⟩
  · exact .inr ⟨z, by rw [hy, List.append_assoc], hb⟩
  · rcases List.append_eq_append_iff.mp hxm with ⟨z', hbx, hmz⟩ | ⟨z', hxz, hzz⟩
    · -- the text begins within the match
      have hfirst := takeWhile_inside (hmz ▸ List.suffix_append z' z) hz.symm hd.right
      exact absurd hfirst (ht [] t rfl rfl hhead)
    · rw [hzz, List.append_assoc] at hz
      rcases List.append_eq_append_iff.mp hz with ⟨c, hzc, hmc⟩ | ⟨c, htc, hmy⟩
      · exact .inl ⟨c, by rw [hxz, hzc, List.append_assoc], by rw [hmc, List.append_assoc]⟩
      · cases c with
        | nil =>
          rw [List.append_nil] at htc
          exact .inl ⟨[], by rw [hxz, htc, List.append_nil], hmy.symm⟩
        | cons a c =>
          -- the text goes on into the match
          have hleft : z'.getLast?.any isWord = false := by
            cases z' with
            | nil => rfl
            | cons a' z' =>
              have hx := hd.left
              rwa [hxz, List.getLast?_append_of_ne_nil _ (List.cons_ne_nil a' z')] at hx
          have hright : (a :: c).head?.any isWord = true := by
            have hm := hd.head
            cases m with
            | nil => exact absurd rfl hd.ne_nil
            | cons a' m =>
              rw [List.cons_append, List.cons_append] at hmy
              rw [List.head?_cons, ← (List.cons.inj hmy).1]
              exact hm
          exact absurd (takeWhile_inside List.suffix_rfl hmy hd.right)
            (ht z' (a :: c) htc hleft hright)

/-! ## Literals -/

theorem spans_seq_assoc {r s t : Re} {p q : Pos} :
    Spans isWord (seq (seq r s) t) p q ↔ Spans isWord (seq r (seq s t)) p q := by
  simp only [spans_seq]
  constructor
  · rintro ⟨o, ⟨o', hr, hs⟩, ht⟩
    exact ⟨o', hr, o, hs, ht⟩
  · rintro ⟨o', hr, o, hs, ht⟩
    exact ⟨o, ⟨o', hr, hs⟩, ht⟩

theorem matches_boundary_cat {c : Bool} {rs : List Re} {b m v : Txt} :
    Matches isWord (cat ((if c then [wordBoundary] else []) ++ rs)) b m v ↔
      (c = true → atBoundary isWord ⟨b, m ++ v⟩ = true) ∧ Matches isWord (cat rs) b m v := by
  cases c with
  | false => simp
  | true =>
    simp only [if_true, List.singleton_append, matches_cat_cons, matches_wordBoundary,
      forall_const]
    constructor
    · rintro ⟨_, m₂, rfl, ⟨rfl, hb⟩, hrest⟩
      exact ⟨hb, hrest⟩
    · rintro ⟨hb, hrest⟩
      exact ⟨[], m, rfl, ⟨rfl, hb⟩, hrest⟩

theorem matches_cat_boundary {rs : List Re} : ∀ {b m v : Txt},
    Matches isWord (cat (rs ++ [wordBoundary])) b m v ↔
      Matches isWord (cat rs) b m v ∧ atBoundary isWord ⟨m.reverse ++ b, v⟩ = true := by
  induction rs with
  | nil =>
    intro b m v
    rw [List.nil_append, cat, cat, matches_wordBoundary, matches_eps]
    constructor
    · rintro ⟨rfl, hb⟩
      exact ⟨rfl, hb⟩
    · rintro ⟨rfl, hb⟩
      exact ⟨rfl, hb⟩
  | cons r rs ih =>
    intro b m v
    rw [List.cons_append, matches_cat_cons, matches_cat_cons]
    simp only [ih]
    constructor
    · rintro ⟨m₁, m₂, rfl, hr, hrs, hb⟩
      rw [← List.append_assoc, ← List.reverse_append] at hb
      exact ⟨⟨m₁, m₂, rfl, hr, hrs⟩, hb⟩
    · rintro ⟨⟨m₁, m₂, rfl, hr, hrs⟩, hb⟩
      rw [List.reverse_append, List.append_assoc] at hb
      exact ⟨m₁, m₂, rfl, hr, hrs, hb⟩


/-- A literal up to case, with or without a word boundary at either end. -/
structure Piece where
  left : Bool
  text : String
  right : Bool

namespace Piece

def re (p : Piece) : Re :=
  cat ((if p.left then [wordBoundary] else []) ++ ilit p.text ::
    (if p.right then [wordBoundary] else []))

/-- The piece is the text `m` between `b`, held reversed, and `v`. -/
structure At (isWord : Char → Bool) (p : Piece) (b m v : Txt) : Prop where
  letters : Letters p.text m
  left : p.left = true → atBoundary isWord ⟨b, m ++ v⟩ = true
  right : p.right = true → atBoundary isWord ⟨m.reverse ++ b, v⟩ = true

theorem matches_re {p : Piece} {b m v : Txt} : Matches isWord p.re b m v ↔ p.At isWord b m v := by
  have hlast (b m v : Txt) :
      Matches isWord (cat (if p.right then [wordBoundary] else [])) b m v ↔
        (p.right = true → atBoundary isWord ⟨b, m ++ v⟩ = true) ∧ m = [] := by
    rw [← List.append_nil (if p.right then [wordBoundary] else []), matches_boundary_cat, cat,
      matches_eps]
  simp only [re, matches_boundary_cat, matches_cat_cons, matches_ilit, hlast]
  constructor
  · rintro ⟨hleft, m₁, m₂, rfl, hletters, hright, rfl⟩
    rw [List.append_nil] at *
    exact ⟨hletters, hleft, hright⟩
  · intro h
    exact ⟨h.left, m, [], (List.append_nil m).symm, h.letters, h.right, rfl⟩

/-- The piece begins with a word character, ends with one where a boundary follows, and
has no word that a match of the pattern contains. -/
structure Apart (isWord : Char → Bool) (p : Piece) (r : Re) : Prop where
  head : ∀ t, Letters p.text t → t.head?.any isWord = true
  last : p.right = true → ∀ t, Letters p.text t → t.getLast?.any isWord = true
  foreign : ∀ t, Letters p.text t → ∀ b m v, Matches isWord r b m v → Foreign isWord t m

/-- A cut leaves the piece where it is, on one side of it. -/
theorem At.cut {p : Piece} {r : Re} (hp : p.Apart isWord r) {x m y b t v : Txt}
    (hd : Delimited isWord x m y) (hm : ∃ b v, Matches isWord r b m v)
    (heq : x ++ m ++ y = b ++ t ++ v) (h : p.At isWord b.reverse t v) :
    (∃ z, x = b ++ t ++ z ∧ v = z ++ m ++ y ∧ p.At isWord b.reverse t (z ++ y)) ∨
      ∃ z, y = z ++ t ++ v ∧ b = x ++ m ++ z ∧ p.At isWord (x ++ z).reverse t v := by
  obtain ⟨b', v', hmatch⟩ := hm
  have hhead := hp.head t h.letters
  have hne : t ≠ [] := by
    rintro rfl
    cases hhead
  rcases beside_cut heq hd hhead (hp.foreign t h.letters b' m v' hmatch) with
    ⟨z, hx, hv⟩ | ⟨z, hy, hb⟩
  · refine .inl ⟨z, hx, hv, h.letters, fun hl => ?_, fun hr => ?_⟩
    · have hleft := h.left hl
      unfold atBoundary at *
      rw [List.head?_append_of_ne_nil _ hne] at *
      exact hleft
    · have hright := h.right hr
      cases z with
      | nil =>
        have hlast := hp.last hr t h.letters
        have hxlast := hd.left
        rw [hx, List.append_nil, List.getLast?_append_of_ne_nil _ hne, hlast] at hxlast
        cases hxlast
      | cons c z =>
        rw [hv] at hright
        exact hright
  · refine .inr ⟨z, hy, hb, h.letters, fun hl => ?_, fun hr => ?_⟩
    · have hleft := h.left hl
      cases z with
      | nil =>
        have hyhead := hd.right
        rw [hy, List.nil_append, List.head?_append_of_ne_nil _ hne, hhead] at hyhead
        cases hyhead
      | cons c z =>
        rw [hb] at hleft
        unfold atBoundary at *
        rw [List.head?_reverse, List.getLast?_append_of_ne_nil _ (List.cons_ne_nil c z)] at *
        exact hleft
    · have hright := h.right hr
      unfold atBoundary at *
      rw [List.head?_append_of_ne_nil _ (by simpa using hne)] at *
      exact hright

end Piece

/-! ## Patterns of one or two pieces -/

/-- A piece, or two on one line. -/
inductive Shape where
  | one (p : Piece)
  | two (p q : Piece)

namespace Shape

def re : Shape → Re
  | one p => p.re
  | two p q => cat [p.re, dots, q.re]

def Apart (isWord : Char → Bool) (r : Re) : Shape → Prop
  | one p => p.Apart isWord r
  | two p q => p.Apart isWord r ∧ q.Apart isWord r

theorem search_one {p : Piece} {text : Txt} : search isWord (one p).re text = true ↔
    ∃ u m v, text = u ++ m ++ v ∧ p.At isWord u.reverse m v := by
  simp only [search_iff_matches, re, Piece.matches_re, List.append_assoc]

theorem search_two {p q : Piece} {text : Txt} : search isWord (two p q).re text = true ↔
    ∃ u m d n v, text = u ++ m ++ d ++ n ++ v ∧ p.At isWord u.reverse m (d ++ n ++ v) ∧
      (∀ c ∈ d, c ≠ '\n') ∧ q.At isWord (u ++ m ++ d).reverse n v := by
  have hre : (two p q).re = seq p.re (seq dots q.re) := rfl
  simp only [search_iff_matches, hre, matches_seq, dots, matches_star, Piece.matches_re,
    decide_eq_true_eq]
  constructor
  · rintro ⟨u, _, v, rfl, m, _, rfl, hp, d, n, rfl, hd, hq⟩
    refine ⟨u, m, d, n, v, by simp, hp, hd, ?_⟩
    simpa using hq
  · rintro ⟨u, m, d, n, v, rfl, hp, hd, hq⟩
    refine ⟨u, m ++ (d ++ n), v, by simp, m, d ++ n, rfl, hp, d, n, rfl, hd, ?_⟩
    simpa using hq

section

variable {r : Re} {x m y : Txt} (hd : Delimited isWord x m y) (hm : ∃ b v, Matches isWord r b m v)
include hd hm

theorem search_one_cut {p : Piece} (hp : p.Apart isWord r)
    (h : search isWord (one p).re (x ++ m ++ y) = true) :
    search isWord (one p).re (x ++ y) = true := by
  rw [search_one] at *
  obtain ⟨u, t, v, heq, hat⟩ := h
  rcases hat.cut hp hd hm heq with ⟨z, rfl, -, hat'⟩ | ⟨z, rfl, -, hat'⟩
  · exact ⟨u, t, z ++ y, by simp, hat'⟩
  · exact ⟨x ++ z, t, v, by simp, hat'⟩

theorem search_two_cut {p q : Piece} (hps : p.Apart isWord r) (hqs : q.Apart isWord r)
    (h : search isWord (two p q).re (x ++ m ++ y) = true) :
    search isWord (two p q).re (x ++ y) = true := by
  rw [search_two] at *
  obtain ⟨u, t, d, n, v, heq, hp, hdots, hq⟩ := h
  have heq' : x ++ m ++ y = u ++ t ++ (d ++ n ++ v) := by
    rw [heq]
    simp only [List.append_assoc]
  rcases hp.cut hps hd hm heq' with ⟨z, hx, -, hp'⟩ | ⟨z, hy, hu, hp'⟩
  · rcases hq.cut hqs hd hm heq with ⟨w, hx', -, hq'⟩ | ⟨w, hy', hw, hq'⟩
    · have hz : z = d ++ n ++ w := by
        rw [hx] at hx'
        simpa using hx'
      refine ⟨u, t, d, n, w ++ y, by rw [hx']; simp, ?_, hdots, hq'⟩
      rw [hz, List.append_assoc] at hp'
      exact hp'
    · -- what is cut out lies between the two
      have hdz : d = z ++ m ++ w := by
        rw [hx] at hw
        simpa using hw
      refine ⟨u, t, z ++ w, n, v, by rw [hx, hy']; simp, ?_, ?_, ?_⟩
      · rw [hy'] at hp'
        simpa using hp'
      · intro c hc
        apply hdots
        rw [hdz]
        rcases List.mem_append.mp hc with hc | hc
        · exact List.mem_append_left _ (List.mem_append_left _ hc)
        · exact List.mem_append_right _ hc
      · rw [hx] at hq'
        simpa using hq'
  · rcases hq.cut hqs hd hm heq with ⟨w, hx', -, -⟩ | ⟨w, -, hw, hq'⟩
    · have hlen := congrArg List.length hx'
      have hpos := List.length_pos_iff.mpr hd.ne_nil
      rw [hu] at hlen
      simp only [List.length_append] at hlen
      omega
    · have hwz : w = z ++ t ++ d := by
        rw [hu] at hw
        simpa using hw.symm
      refine ⟨x ++ z, t, d, n, v, by rw [hy]; simp, hp', hdots, ?_⟩
      rw [hwz] at hq'
      simpa using hq'

end

/-- A cut does not take away what is found of pieces that are apart from it. -/
theorem search_cut {r : Re} {t t' : Txt} (hcut : Cut isWord r t t') {s : Shape}
    (hs : s.Apart isWord r) (h : search isWord s.re t = true) : search isWord s.re t' = true := by
  obtain ⟨x, m, y, rfl, rfl, hd, hm⟩ := hcut
  cases s with
  | one p => exact search_one_cut hd hm hs h
  | two p q => exact search_two_cut hd hm hs.1 hs.2 h

/-- Nor does a removal. -/
theorem search_remove {r : Re} (hr : Delimits isWord r) {s : Shape} (hs : s.Apart isWord r)
    {text : Txt} (h : search isWord s.re text = true) :
    search isWord s.re (remove isWord r text) = true :=
  remove_keeps (P := fun t => search isWord s.re t = true) hr
    (fun _ _ hcut => search_cut hcut hs) h

end Shape

end Re
end Text
end RocmTests

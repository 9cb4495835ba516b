import Mathlib.Data.List.Forall2
import RocmTests.Text.Regex

/-!
# What a match looks like

`Matches r b m v` says that the pattern can match the text `m` between `b`, held
reversed, and `v`.  There is one equation for each constructor, and a match
depends on what surrounds it only through the neighbouring characters.  The first
match that `matchAt` gives, with its groups, is described along a pattern in the
same way.
-/

namespace RocmTests
namespace Text
namespace Re

variable {isWord : Char → Bool}

def Matches (isWord : Char → Bool) (r : Re) (b m v : Txt) : Prop :=
  Spans isWord r ⟨b, m ++ v⟩ ⟨m.reverse ++ b, v⟩

/-! ## One equation for each constructor -/

theorem mem_runStar {p : Char → Bool} (a : Txt) : ∀ (b : Txt) (q : Pos),
    q ∈ runStar p b a ↔
      ∃ m, a = m ++ q.after ∧ q.before = m.reverse ++ b ∧ ∀ c ∈ m, p c = true := by
  induction a with
  | nil =>
    intro b q
    rw [runStar, List.mem_singleton]
    constructor
    · intro h
      rw [h]
      exact ⟨[], rfl, rfl, by simp⟩
    · intro h
      obtain ⟨m, hm, hb, _⟩ := h
      obtain ⟨rfl, hq⟩ := List.append_eq_nil_iff.mp hm.symm
      obtain ⟨qb, qa⟩ := q
      simp only [List.reverse_nil, List.nil_append] at hb hq
      rw [hb, hq]
  | cons c a ih =>
    intro b q
    have hhere : q = ⟨b, c :: a⟩ → ∃ m, c :: a = m ++ q.after ∧ q.before = m.reverse ++ b ∧
        ∀ c ∈ m, p c = true := by
      intro h
      rw [h]
      exact ⟨[], rfl, rfl, by simp⟩
    have hsplit : (∃ m, c :: a = m ++ q.after ∧ q.before = m.reverse ++ b ∧
        ∀ c ∈ m, p c = true) → q = ⟨b, c :: a⟩ ∨ p c = true ∧ q ∈ runStar p (c :: b) a := by
      intro h
      obtain ⟨m, hm, hb, hp⟩ := h
      cases m with
      | nil =>
        left
        obtain ⟨qb, qa⟩ := q
        simp only [List.reverse_nil, List.nil_append] at hb hm
        rw [hb, hm]
      | cons d m =>
        right
        rw [List.cons_append, List.cons.injEq] at hm
        obtain ⟨rfl, hm⟩ := hm
        refine ⟨hp c List.mem_cons_self, (ih (c :: b) q).mpr ⟨m, hm, ?_, ?_⟩⟩
        · rw [hb, List.reverse_cons, List.append_assoc]
          rfl
        · exact fun x hx => hp x (List.mem_cons_of_mem _ hx)
    rw [runStar]
    by_cases hc : p c = true
    · rw [if_pos hc, List.mem_append, List.mem_singleton]
      constructor
      · intro h
        rcases h with h | h
        · obtain ⟨m, hm, hb, hp⟩ := (ih (c :: b) q).mp h
          refine ⟨c :: m, by rw [hm]; rfl, ?_, ?_⟩
          · rw [hb, List.reverse_cons, List.append_assoc]
            rfl
          · intro x hx
            rcases List.mem_cons.mp hx with hx | hx
            · rw [hx]
              exact hc
            · exact hp x hx
        · exact hhere h
      · intro h
        rcases hsplit h with h | h
        · exact Or.inr h
        · exact Or.inl h.2
    · rw [if_neg hc, List.mem_singleton]
      constructor
      · exact hhere
      · intro h
        rcases hsplit h with h | h
        · exact h
        · exact absurd h.1 hc

/-- A match takes a piece of the text. -/
theorem Spans.split {r : Re} : ∀ {p q : Pos}, Spans isWord r p q →
    ∃ m, p.after = m ++ q.after ∧ q.before = m.reverse ++ p.before := by
  induction r with
  | eps =>
    intro p q h
    obtain ⟨m, hm, hq⟩ := h
    rw [run, List.mem_singleton] at hm
    rw [← hq, hm]
    exact ⟨[], rfl, rfl⟩
  | cls f =>
    intro p q h
    obtain ⟨m, hm, hq⟩ := h
    rw [run] at hm
    cases ha : p.after with
    | nil =>
      rw [ha] at hm
      cases hm
    | cons c a =>
      rw [ha] at hm
      simp only at hm
      by_cases hc : f c = true
      · rw [if_pos hc, List.mem_singleton] at hm
        rw [← hq, hm]
        exact ⟨[c], rfl, rfl⟩
      · rw [if_neg hc] at hm
        cases hm
  | seq r s ihr ihs =>
    intro p q h
    obtain ⟨o, hr, hs⟩ := spans_seq.mp h
    obtain ⟨m, hm, hb⟩ := ihr hr
    obtain ⟨n, hn, hb'⟩ := ihs hs
    refine ⟨m ++ n, ?_, ?_⟩
    · rw [hm, hn, List.append_assoc]
    · rw [hb', hb, List.reverse_append, List.append_assoc]
  | alt r s ihr ihs =>
    intro p q h
    rcases spans_alt.mp h with h | h
    · exact ihr h
    · exact ihs h
  | star f =>
    intro p q h
    obtain ⟨m, hm, hq⟩ := h
    rw [run, List.mem_map] at hm
    obtain ⟨o, ho, hmo⟩ := hm
    obtain ⟨m', hm', hb, _⟩ := (mem_runStar _ _ _).mp ho
    rw [← hq, ← hmo]
    exact ⟨m', hm', hb⟩
  | wordBoundary =>
    intro p q h
    obtain ⟨m, hm, hq⟩ := h
    rw [run] at hm
    by_cases hb : atBoundary isWord p = true
    · rw [if_pos hb, List.mem_singleton] at hm
      rw [← hq, hm]
      exact ⟨[], rfl, rfl⟩
    · rw [if_neg hb] at hm
      cases hm
  | lineStart =>
    intro p q h
    obtain ⟨m, hm, hq⟩ := h
    rw [run] at hm
    by_cases hb : atLineStart p = true
    · rw [if_pos hb, List.mem_singleton] at hm
      rw [← hq, hm]
      exact ⟨[], rfl, rfl⟩
    · rw [if_neg hb] at hm
      cases hm
  | group n r ih =>
    intro p q h
    obtain ⟨m, hm, hq⟩ := h
    rw [run, List.mem_map] at hm
    obtain ⟨k, hk, hkm⟩ := hm
    rw [← hkm] at hq
    exact ih ⟨k, hk, hq⟩

theorem Spans.exists_matches {r : Re} {b a : Txt} {q : Pos} (h : Spans isWord r ⟨b, a⟩ q) :
    ∃ m, a = m ++ q.after ∧ Matches isWord r b m q.after := by
  obtain ⟨m, hm, hb⟩ := h.split
  refine ⟨m, hm, ?_⟩
  unfold Matches
  obtain ⟨qb, qa⟩ := q
  simp only at hm hb ⊢
  rw [← hm, ← hb]
  exact h

theorem search_iff_matches {r : Re} {text : Txt} : search isWord r text = true ↔
    ∃ u m v, text = u ++ (m ++ v) ∧ Matches isWord r u.reverse m v := by
  rw [search_iff]
  constructor
  · intro h
    obtain ⟨u, a, hua, q, hq⟩ := h
    obtain ⟨m, hm, hmatch⟩ := hq.exists_matches
    exact ⟨u, m, q.after, by rw [hua, hm], hmatch⟩
  · intro h
    obtain ⟨u, m, v, htext, hmatch⟩ := h
    exact ⟨u, m ++ v, htext, _, hmatch⟩

variable {b m v : Txt}

theorem matches_eps : Matches isWord eps b m v ↔ m = [] := by
  unfold Matches Spans
  rw [run]
  constructor
  · intro h
    obtain ⟨k, hk, hq⟩ := h
    rw [List.mem_singleton.mp hk] at hq
    have hv := congrArg Pos.after hq
    simp only at hv
    exact List.append_left_eq_self.mp hv
  · intro h
    rw [h]
    exact ⟨_, List.mem_singleton_self _, rfl⟩

theorem matches_cls {f : Char → Bool} :
    Matches isWord (cls f) b m v ↔ ∃ c, m = [c] ∧ f c = true := by
  unfold Matches Spans
  rw [run]
  constructor
  · intro h
    obtain ⟨k, hk, hq⟩ := h
    cases m with
    | nil =>
      cases v with
      | nil => cases hk
      | cons c v =>
        simp only [List.nil_append] at hk
        by_cases hc : f c = true
        · rw [if_pos hc, List.mem_singleton] at hk
          rw [hk] at hq
          have hlen := congrArg (fun p => p.after.length) hq
          simp at hlen
        · rw [if_neg hc] at hk
          cases hk
    | cons c m =>
      simp only [List.cons_append] at hk
      by_cases hc : f c = true
      · rw [if_pos hc, List.mem_singleton] at hk
        rw [hk] at hq
        have hv := congrArg Pos.after hq
        simp only at hv
        rw [List.append_left_eq_self.mp hv]
        exact ⟨c, rfl, hc⟩
      · rw [if_neg hc] at hk
        cases hk
  · intro h
    obtain ⟨c, rfl, hc⟩ := h
    simp only [List.cons_append, List.nil_append, if_pos hc]
    exact ⟨_, List.mem_singleton_self _, rfl⟩

theorem matches_seq {r s : Re} : Matches isWord (seq r s) b m v ↔
    ∃ m₁ m₂, m = m₁ ++ m₂ ∧ Matches isWord r b m₁ (m₂ ++ v) ∧
      Matches isWord s (m₁.reverse ++ b) m₂ v := by
  unfold Matches
  rw [spans_seq]
  constructor
  · intro h
    obtain ⟨o, hr, hs⟩ := h
    obtain ⟨m₁, hm₁, hb₁⟩ := hr.split
    obtain ⟨m₂, hm₂, hb₂⟩ := hs.split
    obtain ⟨ob, oa⟩ := o
    simp only at hm₁ hb₁ hm₂ hb₂
    have hm : m = m₁ ++ m₂ := by
      rw [hm₂, ← List.append_assoc] at hm₁
      exact List.append_cancel_right hm₁
    refine ⟨m₁, m₂, hm, ?_, ?_⟩
    · rw [← hm₂, ← hm₁, ← hb₁]
      exact hr
    · rw [← hm₂, ← hb₁, ← hb₂]
      exact hs
  · intro h
    obtain ⟨m₁, m₂, hm, hr, hs⟩ := h
    refine ⟨⟨m₁.reverse ++ b, m₂ ++ v⟩, ?_, ?_⟩
    · rw [hm, List.append_assoc]
      exact hr
    · rw [hm, List.reverse_append, List.append_assoc]
      exact hs

theorem matches_alt {r s : Re} : Matches isWord (alt r s) b m v ↔
    Matches isWord r b m v ∨ Matches isWord s b m v := spans_alt

theorem matches_star {f : Char → Bool} :
    Matches isWord (star f) b m v ↔ ∀ c ∈ m, f c = true := by
  unfold Matches Spans
  rw [run]
  constructor
  · intro h
    obtain ⟨k, hk, hq⟩ := h
    rw [List.mem_map] at hk
    obtain ⟨o, ho, hok⟩ := hk
    rw [← hok] at hq
    simp only at hq
    rw [hq] at ho
    obtain ⟨m', hm', _, hp⟩ := (mem_runStar _ _ _).mp ho
    rw [List.append_cancel_right hm']
    exact hp
  · intro h
    exact ⟨_, List.mem_map.mpr ⟨⟨m.reverse ++ b, v⟩, (mem_runStar _ _ _).mpr ⟨m, rfl, rfl, h⟩, rfl⟩,
      rfl⟩

theorem matches_wordBoundary :
    Matches isWord wordBoundary b m v ↔ m = [] ∧ atBoundary isWord ⟨b, v⟩ = true := by
  unfold Matches Spans
  rw [run]
  constructor
  · intro h
    obtain ⟨k, hk, hq⟩ := h
    by_cases hb : atBoundary isWord ⟨b, m ++ v⟩ = true
    · rw [if_pos hb, List.mem_singleton] at hk
      rw [hk] at hq
      have hv := List.append_left_eq_self.mp (congrArg Pos.after hq)
      rw [hv] at hb
      exact ⟨hv, hb⟩
    · rw [if_neg hb] at hk
      cases hk
  · intro h
    obtain ⟨rfl, hb⟩ := h
    simp only [List.nil_append, if_pos hb]
    exact ⟨_, List.mem_singleton_self _, rfl⟩

theorem matches_lineStart :
    Matches isWord lineStart b m v ↔ m = [] ∧ atLineStart ⟨b, v⟩ = true := by
  unfold Matches Spans
  rw [run]
  constructor
  · intro h
    obtain ⟨k, hk, hq⟩ := h
    by_cases hb : atLineStart ⟨b, m ++ v⟩ = true
    · rw [if_pos hb, List.mem_singleton] at hk
      rw [hk] at hq
      exact ⟨List.append_left_eq_self.mp (congrArg Pos.after hq), hb⟩
    · rw [if_neg hb] at hk
      cases hk
  · intro h
    obtain ⟨rfl, hb⟩ := h
    have hb' : atLineStart ⟨b, [] ++ v⟩ = true := hb
    rw [if_pos hb']
    exact ⟨_, List.mem_singleton_self _, rfl⟩

theorem matches_group {n : Nat} {r : Re} :
    Matches isWord (group n r) b m v ↔ Matches isWord r b m v := by
  unfold Matches Spans
  rw [run]
  simp only [List.mem_map, exists_exists_and_eq_and]

/-! ## Composite patterns -/

theorem matches_cat_cons {r : Re} {rs : List Re} : Matches isWord (cat (r :: rs)) b m v ↔
    ∃ m₁ m₂, m = m₁ ++ m₂ ∧ Matches isWord r b m₁ (m₂ ++ v) ∧
      Matches isWord (cat rs) (m₁.reverse ++ b) m₂ v := by
  cases rs with
  | nil =>
    simp only [cat, matches_eps]
    constructor
    · intro h
      exact ⟨m, [], (List.append_nil m).symm, h, rfl⟩
    · intro h
      obtain ⟨m₁, m₂, hm, hr, rfl⟩ := h
      rw [hm, List.append_nil]
      exact hr
  | cons r' rs => exact matches_seq

theorem matches_empty : ¬ Matches isWord empty b m v := by
  unfold empty
  rw [matches_cls]
  rintro ⟨c, _, h⟩
  cases h

theorem matches_alts {rs : List Re} :
    Matches isWord (alts rs) b m v ↔ ∃ r ∈ rs, Matches isWord r b m v := by
  induction rs with
  | nil => simp [alts, matches_empty]
  | cons r rs ih =>
    cases rs with
    | nil => simp [alts]
    | cons r' rs =>
      have halts : alts (r :: r' :: rs) = alt r (alts (r' :: rs)) := rfl
      rw [halts, matches_alt, ih]
      simp only [List.mem_cons, exists_eq_or_imp]

theorem matches_plus {f : Char → Bool} :
    Matches isWord (plus f) b m v ↔ m ≠ [] ∧ ∀ c ∈ m, f c = true := by
  unfold plus
  simp only [matches_seq, matches_cls, matches_star]
  constructor
  · rintro ⟨m₁, m₂, rfl, ⟨c, rfl, hc⟩, hm₂⟩
    refine ⟨by simp, ?_⟩
    intro x hx
    rcases List.mem_cons.mp hx with hx | hx
    · rw [hx]
      exact hc
    · exact hm₂ x hx
  · rintro ⟨hne, hall⟩
    cases m with
    | nil => exact absurd rfl hne
    | cons c m =>
      exact ⟨[c], m, rfl, ⟨c, rfl, hall c List.mem_cons_self⟩,
        fun x hx => hall x (List.mem_cons_of_mem _ hx)⟩

/-- A sequence of character classes. -/
theorem matches_classes {fs : List (Char → Bool)} :
    Matches isWord (cat (fs.map cls)) b m v ↔ List.Forall₂ (fun f c => f c = true) fs m := by
  induction fs generalizing b m with
  | nil =>
    rw [List.map_nil, cat, matches_eps, List.forall₂_nil_left_iff]
  | cons f fs ih =>
    rw [List.map_cons, matches_cat_cons, List.forall₂_cons_left_iff]
    simp only [ih, matches_cls]
    constructor
    · rintro ⟨m₁, m₂, hm, ⟨c, rfl, hc⟩, hrest⟩
      exact ⟨c, m₂, hc, hrest, hm⟩
    · rintro ⟨c, m₂, hc, hrest, hm⟩
      exact ⟨[c], m₂, hm, ⟨c, rfl, hc⟩, hrest⟩

theorem matches_lit {s : String} : Matches isWord (lit s) b m v ↔ m = s.toList := by
  have hmap : lit s = cat ((s.toList.map fun c => fun x : Char => decide (x = c)).map cls) := by
    rw [lit, List.map_map]
    rfl
  rw [hmap, matches_classes, List.forall₂_map_left_iff]
  constructor
  · intro h
    have heq : List.Forall₂ (· = ·) m s.toList := (h.imp fun _ _ hx => of_decide_eq_true hx).flip
    rw [List.forall₂_eq_eq_eq] at heq
    exact heq
  · intro h
    rw [h]
    exact List.forall₂_same.mpr fun _ _ => decide_eq_true rfl

theorem search_lit {s : String} {text : Txt} :
    search isWord (lit s) text = true ↔ s.toList <:+: text := by
  rw [search_iff_matches]
  constructor
  · intro h
    obtain ⟨u, m, v, htext, hm⟩ := h
    rw [matches_lit.mp hm] at htext
    exact ⟨u, v, by rw [htext, List.append_assoc]⟩
  · intro h
    obtain ⟨u, v, htext⟩ := h
    exact ⟨u, s.toList, v, by rw [← htext, List.append_assoc], matches_lit.mpr rfl⟩

theorem matches_ilit {s : String} : Matches isWord (ilit s) b m v ↔
    List.Forall₂ (fun c x => sameLetter c x = true) s.toList m := by
  have hmap : ilit s = cat ((s.toList.map sameLetter).map cls) := by
    rw [ilit, List.map_map]
    rfl
  rw [hmap, matches_classes, List.forall₂_map_left_iff]

/-! ## Literals up to case -/

/-- The text `m` is the literal `s` up to case. -/
def Letters (s : String) (m : Txt) : Prop :=
  List.Forall₂ (fun c x => sameLetter c x = true) s.toList m

theorem toLower_of_sameLetter {c x : Char} (h : sameLetter c x = true) (hi : c.toLower ≠ 'i')
    (hs : c.toLower ≠ 's') (hk : c.toLower ≠ 'k') : x.toLower = c.toLower := by
  unfold sameLetter at h
  simp only [Bool.or_eq_true, decide_eq_true_eq] at h
  rcases h with (h | h) | h
  · rw [h]
  · exact h
  · cases h

theorem exists_of_mem {R : Char → Char → Prop} {as bs : Txt} (h : List.Forall₂ R as bs) {a : Char}
    (ha : a ∈ as) : ∃ x ∈ bs, R a x := by
  induction h with
  | nil => cases ha
  | cons hr _ ih =>
    rcases List.mem_cons.mp ha with rfl | ha
    · exact ⟨_, List.mem_cons_self, hr⟩
    · obtain ⟨x, hx, hrx⟩ := ih ha
      exact ⟨x, List.mem_cons_of_mem _ hx, hrx⟩

theorem Letters.not_mem {s : String} {m : Txt} (h : Letters s m) {x : Char}
    (hs : ∀ c ∈ s.toList, sameLetter c x = false) : x ∉ m := by
  intro hmem
  obtain ⟨c, hc, hsame⟩ := exists_of_mem h.flip hmem
  rw [hs c hc] at hsame
  cases hsame

/-- A letter of the literal occurs, up to case. -/
theorem Letters.exists_toLower {s : String} {m : Txt} (h : Letters s m) {c : Char}
    (hc : c ∈ s.toList) (hi : c.toLower ≠ 'i') (hs : c.toLower ≠ 's') (hk : c.toLower ≠ 'k') :
    ∃ x ∈ m, x.toLower = c.toLower := by
  obtain ⟨x, hx, hsame⟩ := exists_of_mem h hc
  exact ⟨x, hx, toLower_of_sameLetter hsame hi hs hk⟩

theorem Letters.head {s : String} {m : Txt} (h : Letters s m) {c : Char}
    (hc : s.toList.head? = some c) : ∃ x, m.head? = some x ∧ sameLetter c x = true := by
  unfold Letters at h
  cases hs : s.toList with
  | nil =>
    rw [hs] at hc
    cases hc
  | cons d ds =>
    rw [hs] at h hc
    cases h with
    | cons hd _ =>
      rw [List.head?_cons, Option.some.injEq] at hc
      exact ⟨_, rfl, hc ▸ hd⟩

/-! ## The surroundings of a match -/

/-- The neighbours to the left are alike for word boundaries and line starts. -/
def LeftAlike (isWord : Char → Bool) (b b' : Txt) : Prop :=
  b.head?.any isWord = b'.head?.any isWord ∧ atLineStart ⟨b, []⟩ = atLineStart ⟨b', []⟩

/-- The neighbours to the right are alike for word boundaries. -/
def RightAlike (isWord : Char → Bool) (v v' : Txt) : Prop :=
  v.head?.any isWord = v'.head?.any isWord

theorem LeftAlike.append {b b' : Txt} (h : LeftAlike isWord b b') (m : Txt) :
    LeftAlike isWord (m ++ b) (m ++ b') := by
  cases m with
  | nil => exact h
  | cons c m => exact ⟨rfl, rfl⟩

theorem RightAlike.append {v v' : Txt} (h : RightAlike isWord v v') (m : Txt) :
    RightAlike isWord (m ++ v) (m ++ v') := by
  cases m with
  | nil => exact h
  | cons c m => rfl

/-- A match depends on what surrounds it only through its neighbours. -/
theorem Matches.congr {r : Re} {b' v' : Txt} (h : Matches isWord r b m v)
    (hb : LeftAlike isWord b b') (hv : RightAlike isWord v v') : Matches isWord r b' m v' := by
  induction r generalizing b b' m v v' with
  | eps => rw [matches_eps] at *; exact h
  | cls f => rw [matches_cls] at *; exact h
  | seq r s ihr ihs =>
    rw [matches_seq] at *
    obtain ⟨m₁, m₂, hm, hr, hs⟩ := h
    exact ⟨m₁, m₂, hm, ihr hr hb (hv.append m₂), ihs hs (hb.append m₁.reverse) hv⟩
  | alt r s ihr ihs =>
    rw [matches_alt] at *
    rcases h with h | h
    · exact Or.inl (ihr h hb hv)
    · exact Or.inr (ihs h hb hv)
  | star f => rw [matches_star] at *; exact h
  | wordBoundary =>
    rw [matches_wordBoundary] at *
    refine ⟨h.1, ?_⟩
    have hbound := h.2
    unfold atBoundary at *
    rw [← hb.1, ← hv]
    exact hbound
  | lineStart =>
    rw [matches_lineStart] at *
    exact ⟨h.1, hb.2 ▸ h.2⟩
  | group n r ih =>
    rw [matches_group] at *
    exact ih h hb hv

/-! ## The first match -/

theorem matchAt_eq_none_iff {r : Re} {a : Txt} : matchAt isWord r ⟨b, a⟩ = none ↔
    ∀ m v, a = m ++ v → ¬ Matches isWord r b m v := by
  rw [← Option.not_isSome_iff_eq_none, matchAt_isSome_iff]
  constructor
  · intro h m v ha hm
    rw [ha] at h
    exact h ⟨_, hm⟩
  · intro h hq
    obtain ⟨q, hq⟩ := hq
    obtain ⟨m, ha, hm⟩ := hq.exists_matches
    exact h m q.after ha hm

/-- The first match takes `m` from the text and holds these groups. -/
def Takes (isWord : Char → Bool) (r : Re) (b m v : Txt) (gs : List (Nat × Txt)) : Prop :=
  matchAt isWord r ⟨b, m ++ v⟩ = some ⟨⟨m.reverse ++ b, v⟩, gs⟩

theorem takes_cls {f : Char → Bool} {c : Char} (hc : f c = true) :
    Takes isWord (cls f) b [c] v [] := by
  unfold Takes matchAt
  rw [run]
  simp only [List.cons_append, List.nil_append, if_pos hc]
  rfl

theorem takes_eps : Takes isWord eps b [] v [] := by
  unfold Takes matchAt
  rw [run]
  rfl

theorem Takes.seq {r s : Re} {m₁ m₂ : Txt} {g₁ g₂ : List (Nat × Txt)}
    (hr : Takes isWord r b m₁ (m₂ ++ v) g₁) (hs : Takes isWord s (m₁.reverse ++ b) m₂ v g₂) :
    Takes isWord (Re.seq r s) b (m₁ ++ m₂) v (g₁ ++ g₂) := by
  unfold Takes matchAt at *
  rw [run, List.append_assoc]
  cases hrun : run isWord r ⟨b, m₁ ++ (m₂ ++ v)⟩ with
  | nil =>
    rw [hrun] at hr
    cases hr
  | cons k ks =>
    rw [hrun, List.head?_cons, Option.some.injEq] at hr
    rw [List.flatMap_cons, hr]
    cases hrun' : run isWord s ⟨m₁.reverse ++ b, m₂ ++ v⟩ with
    | nil =>
      rw [hrun'] at hs
      cases hs
    | cons l ls =>
      rw [hrun', List.head?_cons, Option.some.injEq] at hs
      rw [List.map_cons, List.cons_append, List.head?_cons, hs, List.reverse_append,
        List.append_assoc]

theorem Takes.cat_cons {r : Re} {rs : List Re} {m₁ m₂ : Txt} {g₁ g₂ : List (Nat × Txt)}
    (hr : Takes isWord r b m₁ (m₂ ++ v) g₁) (hs : Takes isWord (cat rs) (m₁.reverse ++ b) m₂ v g₂) :
    Takes isWord (cat (r :: rs)) b (m₁ ++ m₂) v (g₁ ++ g₂) := by
  cases rs with
  | nil =>
    -- nothing follows, so nothing more is taken
    unfold cat at hs
    have heps : Takes isWord eps (m₁.reverse ++ b) [] (m₂ ++ v) [] := takes_eps
    unfold Takes at hs heps
    rw [List.nil_append] at heps
    rw [heps, Option.some.injEq] at hs
    have hg : g₂ = [] := (congrArg Found.groups hs).symm
    have hlen := congrArg (fun k : Found => k.pos.after.length) hs
    have hm : m₂ = [] := by
      simp only [List.length_append] at hlen
      exact List.eq_nil_of_length_eq_zero (by omega)
    rw [hm, hg, List.append_nil, List.append_nil]
    rw [hm] at hr
    exact hr
  | cons r' rs => exact hr.seq hs

/-- The same where what follows is itself a piece and the rest. -/
theorem Takes.piece {r : Re} {rs : List Re} {m₁ x y : Txt} {g₁ g₂ : List (Nat × Txt)}
    (hr : Takes isWord r b m₁ (x ++ (y ++ v)) g₁)
    (hs : Takes isWord (cat rs) (m₁.reverse ++ b) (x ++ y) v g₂) :
    Takes isWord (cat (r :: rs)) b (m₁ ++ (x ++ y)) v (g₁ ++ g₂) := by
  rw [← List.append_assoc] at hr
  exact hr.cat_cons hs

/-- A part without groups leaves the groups of what follows. -/
theorem Takes.cat_plain {r : Re} {rs : List Re} {m₁ m₂ : Txt} {g : List (Nat × Txt)}
    (hr : Takes isWord r b m₁ (m₂ ++ v) []) (hs : Takes isWord (cat rs) (m₁.reverse ++ b) m₂ v g) :
    Takes isWord (cat (r :: rs)) b (m₁ ++ m₂) v g :=
  hr.cat_cons hs

theorem Takes.piece_plain {r : Re} {rs : List Re} {m₁ x y : Txt} {g : List (Nat × Txt)}
    (hr : Takes isWord r b m₁ (x ++ (y ++ v)) [])
    (hs : Takes isWord (cat rs) (m₁.reverse ++ b) (x ++ y) v g) :
    Takes isWord (cat (r :: rs)) b (m₁ ++ (x ++ y)) v g :=
  hr.piece hs

theorem takes_classes {fs : List (Char → Bool)} (h : List.Forall₂ (fun f c => f c = true) fs m) :
    Takes isWord (cat (fs.map cls)) b m v [] := by
  induction h generalizing b with
  | nil => exact takes_eps
  | cons hc _ ih => exact (takes_cls hc).cat_cons ih

theorem takes_lit (s : String) : Takes isWord (lit s) b s.toList v [] := by
  have hmap : lit s = cat ((s.toList.map fun c => fun x : Char => decide (x = c)).map cls) := by
    rw [lit, List.map_map]
    rfl
  rw [hmap]
  apply takes_classes
  rw [List.forall₂_map_left_iff]
  exact List.forall₂_same.mpr fun _ _ => decide_eq_true rfl

theorem takes_ilit (s : String) : Takes isWord (ilit s) b s.toList v [] := by
  have hmap : ilit s = cat ((s.toList.map sameLetter).map cls) := by
    rw [ilit, List.map_map]
    rfl
  rw [hmap]
  apply takes_classes
  rw [List.forall₂_map_left_iff, List.forall₂_same]
  intro c _
  rw [sameLetter, decide_eq_true rfl]
  rfl

theorem head_runStar {f : Char → Bool} (hv : ∀ c, v.head? = some c → f c = false)
    (hm : ∀ c ∈ m, f c = true) : ∀ b : Txt,
      (runStar f b (m ++ v)).head? = some ⟨m.reverse ++ b, v⟩ := by
  induction m with
  | nil =>
    intro b
    cases v with
    | nil => rfl
    | cons c v =>
      have hc : f c = false := hv c rfl
      show (runStar f b (c :: v)).head? = _
      rw [runStar, hc]
      rfl
  | cons c m ih =>
    intro b
    have hrest := ih (fun x hx => hm x (List.mem_cons_of_mem _ hx)) (c :: b)
    rw [List.cons_append, runStar, if_pos (hm c List.mem_cons_self), List.head?_append, hrest,
      List.reverse_cons, List.append_assoc]
    rfl

/-- A repetition takes all it can. -/
theorem takes_star {f : Char → Bool} (hm : ∀ c ∈ m, f c = true)
    (hv : ∀ c, v.head? = some c → f c = false) : Takes isWord (star f) b m v [] := by
  unfold Takes matchAt
  rw [run, List.head?_map, head_runStar hv hm b]
  rfl

theorem takes_plus {f : Char → Bool} (hne : m ≠ []) (hm : ∀ c ∈ m, f c = true)
    (hv : ∀ c, v.head? = some c → f c = false) : Takes isWord (plus f) b m v [] := by
  cases m with
  | nil => exact absurd rfl hne
  | cons c m =>
    exact (takes_cls (hm c List.mem_cons_self)).seq
      (takes_star (fun x hx => hm x (List.mem_cons_of_mem _ hx)) hv)

theorem Takes.group {r : Re} {gs : List (Nat × Txt)} (n : Nat) (h : Takes isWord r b m v gs) :
    Takes isWord (Re.group n r) b m v ((n, m) :: gs) := by
  unfold Takes matchAt at *
  rw [run, List.head?_map, h]
  simp [between]

theorem Takes.alt_left {r s : Re} {gs : List (Nat × Txt)} (h : Takes isWord r b m v gs) :
    Takes isWord (alt r s) b m v gs := by
  unfold Takes matchAt at *
  rw [run, List.head?_append, h]
  rfl

theorem Takes.alt_right {r s : Re} {gs : List (Nat × Txt)}
    (hr : matchAt isWord r ⟨b, m ++ v⟩ = none) (h : Takes isWord s b m v gs) :
    Takes isWord (alt r s) b m v gs := by
  unfold Takes matchAt at *
  rw [run, List.head?_append, hr]
  exact h

/-! ## Searching through a text -/

/-- No match begins in `x`. -/
def Quiet (isWord : Char → Bool) (r : Re) (b x y : Txt) : Prop :=
  ∀ u w, x = u ++ w → w ≠ [] → matchAt isWord r ⟨u.reverse ++ b, w ++ y⟩ = none

theorem Quiet.tail {r : Re} {c : Char} {x y : Txt} (h : Quiet isWord r b (c :: x) y) :
    Quiet isWord r (c :: b) x y := by
  intro u w hx hw
  have hcons := h (c :: u) w (by rw [hx]; rfl) hw
  rw [List.reverse_cons, List.append_assoc] at hcons
  exact hcons

theorem Quiet.drop {r : Re} {x x' y : Txt} (h : Quiet isWord r b (x ++ x') y) :
    Quiet isWord r (x.reverse ++ b) x' y := by
  intro u w hx hw
  have hpart := h (x ++ u) w (by rw [hx, List.append_assoc]) hw
  rwa [List.reverse_append, List.append_assoc] at hpart

theorem Quiet.append {r : Re} {x x' y : Txt} (h : Quiet isWord r b x (x' ++ y))
    (h' : Quiet isWord r (x.reverse ++ b) x' y) : Quiet isWord r b (x ++ x') y := by
  intro u w hx hw
  rcases List.append_eq_append_iff.mp hx with ⟨t, hu, hx'⟩ | ⟨t, hx, hw'⟩
  · -- the place is in the second part
    have hmatch := h' t w hx' hw
    rw [hu, List.reverse_append, List.append_assoc]
    exact hmatch
  · -- the place is in the first part, or where the second begins
    cases t with
    | nil =>
      rw [List.append_nil] at hx
      have hmatch := h' [] x' (by rfl) (by rw [← List.nil_append x', ← hw']; exact hw)
      rw [← hx, hw']
      exact hmatch
    | cons c t =>
      have hmatch := h u (c :: t) hx (List.cons_ne_nil c t)
      rw [hw', List.append_assoc]
      exact hmatch

theorem searchFrom_quiet {r : Re} {x y : Txt} : ∀ {b : Txt}, Quiet isWord r b x y →
    searchFrom isWord r b (x ++ y) = searchFrom isWord r (x.reverse ++ b) y := by
  induction x with
  | nil =>
    intro b _
    rfl
  | cons c x ih =>
    intro b h
    have hnone := h [] (c :: x) rfl (List.cons_ne_nil c x)
    rw [List.cons_append, searchFrom]
    rw [List.cons_append] at hnone
    simp only [List.reverse_nil, List.nil_append] at hnone
    rw [hnone]
    simp only
    rw [ih h.tail, List.reverse_cons, List.append_assoc]
    rfl

theorem findAllFrom_quiet {r : Re} {x y : Txt} : ∀ {b : Txt}, Quiet isWord r b x y →
    findAllFrom isWord r 0 b (x ++ y) = findAllFrom isWord r 0 (x.reverse ++ b) y := by
  induction x with
  | nil =>
    intro b _
    rfl
  | cons c x ih =>
    intro b h
    have hnone := h [] (c :: x) rfl (List.cons_ne_nil c x)
    rw [List.cons_append, findAllFrom]
    rw [List.cons_append] at hnone
    simp only [List.reverse_nil, List.nil_append] at hnone
    rw [hnone]
    simp only
    rw [ih h.tail, List.reverse_cons, List.append_assoc]
    rfl

theorem quiet_of_findAllFrom {r : Re} {x : Txt} : ∀ {b : Txt},
    findAllFrom isWord r 0 b x = [] → Quiet isWord r b x [] := by
  induction x with
  | nil =>
    intro b _ u w huw hw
    exact absurd (List.append_eq_nil_iff.mp huw.symm).2 hw
  | cons c x ih =>
    intro b h u w huw hw
    rw [findAllFrom] at h
    cases hm : matchAt isWord r ⟨b, c :: x⟩ with
    | some m =>
      rw [hm] at h
      cases h
    | none =>
      rw [hm] at h
      cases u with
      | nil =>
        rw [List.nil_append] at huw
        rw [List.append_nil, ← huw]
        exact hm
      | cons d u =>
        rw [List.cons_append, List.cons.injEq] at huw
        have hrest := ih h u w huw.2 hw
        rw [huw.1] at hrest
        rw [List.reverse_cons, List.append_assoc]
        exact hrest

/-- Nothing is found exactly if no match begins anywhere. -/
theorem findAll_eq_nil_iff {r : Re} {x : Txt} :
    findAll isWord r x = [] ↔ Quiet isWord r [] x [] := by
  constructor
  · exact quiet_of_findAllFrom
  · intro h
    have hquiet := findAllFrom_quiet h
    rw [List.append_nil] at hquiet
    unfold findAll
    rw [hquiet]
    rfl

theorem findAll_eq_nil_of_search {r : Re} {x : Txt} (h : search isWord r x = false) :
    findAll isWord r x = [] := by
  rw [findAll_eq_nil_iff]
  intro u w huw _
  rw [matchAt_eq_none_iff]
  intro m v hmv hm
  rw [List.append_nil] at hmv hm
  have hsearch : search isWord r x = true := by
    rw [search_iff_matches]
    exact ⟨u, m, v, by rw [huw, hmv], hm⟩
  rw [h] at hsearch
  cases hsearch

theorem findAllFrom_skip {r : Re} : ∀ (m b : Txt),
    findAllFrom isWord r m.length b (m ++ v) = findAllFrom isWord r 0 (m.reverse ++ b) v := by
  intro m
  induction m with
  | nil =>
    intro b
    rfl
  | cons c m ih =>
    intro b
    rw [List.cons_append, List.length_cons, findAllFrom, ih (c :: b), List.reverse_cons,
      List.append_assoc]
    rfl

/-- A match is found where it is, and the search goes on after it. -/
theorem findAllFrom_takes {r : Re} {gs : List (Nat × Txt)} (hne : m ≠ [])
    (h : Takes isWord r b m v gs) : findAllFrom isWord r 0 b (m ++ v) =
      ⟨⟨m.reverse ++ b, v⟩, gs⟩ :: findAllFrom isWord r 0 (m.reverse ++ b) v := by
  cases m with
  | nil => exact absurd rfl hne
  | cons c m =>
    unfold Takes at h
    rw [List.cons_append] at h ⊢
    rw [findAllFrom, h]
    simp only
    have hlen : ((c :: m).reverse ++ b).length - b.length - 1 = m.length := by
      simp only [List.length_append, List.length_reverse, List.length_cons]
      omega
    rw [hlen, findAllFrom_skip, List.reverse_cons, List.append_assoc]
    rfl

theorem searchFrom_takes {r : Re} {gs : List (Nat × Txt)} (hne : m ≠ [])
    (h : Takes isWord r b m v gs) :
    searchFrom isWord r b (m ++ v) = some (⟨b, m ++ v⟩, ⟨⟨m.reverse ++ b, v⟩, gs⟩) := by
  cases m with
  | nil => exact absurd rfl hne
  | cons c m =>
    unfold Takes at h
    rw [List.cons_append] at h ⊢
    rw [searchFrom, h]

/-! ## Patterns that begin with a fixed text -/

/-- Every match begins with `s`. -/
def BeginsWith (isWord : Char → Bool) (r : Re) (s : Txt) : Prop :=
  ∀ b m v, Matches isWord r b m v → s <+: m

theorem beginsWith_lit (s : String) : BeginsWith isWord (lit s) s.toList := by
  intro b m v h
  exact matches_lit.mp h ▸ List.prefix_rfl

theorem BeginsWith.cat {r : Re} {s : Txt} (h : BeginsWith isWord r s) (rs : List Re) :
    BeginsWith isWord (Re.cat (r :: rs)) s := by
  intro b m v hm
  obtain ⟨m₁, m₂, rfl, hr, _⟩ := matches_cat_cons.mp hm
  exact (h b m₁ _ hr).trans (List.prefix_append m₁ m₂)

/-- Where the first character does not occur, no match begins. -/
theorem BeginsWith.quiet_of_not_mem {r : Re} {s x y : Txt} {c : Char}
    (h : BeginsWith isWord r (c :: s)) (hx : c ∉ x) : Quiet isWord r b x y := by
  intro u w hxw hw
  rw [matchAt_eq_none_iff]
  intro m v hmv hm
  obtain ⟨t, ht⟩ := h _ _ _ hm
  cases w with
  | nil => exact hw rfl
  | cons d w =>
    rw [← ht, List.cons_append, List.cons_append, List.cons_append, List.cons.injEq] at hmv
    apply hx
    rw [hxw, ← hmv.1]
    exact List.mem_append_right u List.mem_cons_self

/-- Where the fixed text does not occur and a character that is not in it comes
last, no match begins. -/
theorem BeginsWith.quiet_of_not_infix {r : Re} {s x y : Txt} {c : Char}
    (h : BeginsWith isWord r s) (hx : ¬ s <:+: x) (hlast : x = [] ∨ x.getLast? = some c)
    (hc : c ∉ s) : Quiet isWord r b x y := by
  intro u w hxw hw
  rw [matchAt_eq_none_iff]
  intro m v hmv hm
  have hpre : s <+: w ++ y := by
    rw [hmv]
    exact (h _ _ _ hm).trans (List.prefix_append m v)
  rcases List.prefix_or_prefix_of_prefix hpre (List.prefix_append w y) with hs | hw'
  · apply hx
    rw [hxw]
    exact hs.isInfix.trans (List.suffix_append u w).isInfix
  · -- the last character of the piece would be in the fixed text
    have hmem : c ∈ w := by
      rcases hlast with hnil | hlast
      · rw [hxw] at hnil
        exact absurd (List.append_eq_nil_iff.mp hnil).2 hw
      · rw [hxw, List.getLast?_append_of_ne_nil u hw] at hlast
        exact List.mem_of_getLast? hlast
    exact hc (hw'.subset hmem)

theorem BeginsWith.matchAt_nil {r : Re} {s : Txt} {c : Char} (h : BeginsWith isWord r (c :: s)) :
    matchAt isWord r ⟨b, []⟩ = none := by
  rw [matchAt_eq_none_iff]
  intro m v hmv hm
  obtain ⟨t, ht⟩ := h _ _ _ hm
  rw [(List.append_eq_nil_iff.mp hmv.symm).1] at ht
  cases ht

theorem BeginsWith.search_of_quiet {r : Re} {s x : Txt} {c : Char}
    (h : BeginsWith isWord r (c :: s)) (hx : Quiet isWord r [] x []) :
    search isWord r x = false := by
  have hfrom := searchFrom_quiet hx
  rw [List.append_nil, searchFrom, h.matchAt_nil] at hfrom
  unfold search
  rw [hfrom]
  rfl

/-! ## Runs of a class -/

/-- A run of a class that something else follows is determined by the text. -/
theorem run_unique {p : Char → Bool} {x x' z z' : Txt} (h : x ++ z = x' ++ z')
    (hx : ∀ c ∈ x, p c = true) (hx' : ∀ c ∈ x', p c = true)
    (hz : ∀ c, z.head? = some c → p c = false) (hz' : ∀ c, z'.head? = some c → p c = false) :
    x = x' ∧ z = z' := by
  have htake : ∀ x z : Txt, (∀ c ∈ x, p c = true) → (∀ c, z.head? = some c → p c = false) →
      (x ++ z).takeWhile p = x := by
    intro x z hx hz
    rw [List.takeWhile_append_of_pos hx]
    cases z with
    | nil => exact List.append_nil x
    | cons c z =>
      rw [List.takeWhile_cons_of_neg, List.append_nil]
      rw [hz c rfl]
      exact Bool.false_ne_true
  have hxx : x = x' := by
    rw [← htake x z hx hz, h, htake x' z' hx' hz']
  rw [hxx] at h
  exact ⟨hxx, List.append_cancel_left h⟩

theorem head_append {t v : Txt} {c : Char} (h : t.head? = some c) : (t ++ v).head? = some c := by
  rw [List.head?_append, h]
  rfl

/-- A character that a class does not take stops a run of it. -/
theorem stops {p : Char → Bool} {t : Txt} {c : Char} (ht : t.head? = some c) (hc : p c = false) :
    ∀ x, t.head? = some x → p x = false := by
  intro x hx
  rw [ht] at hx
  rw [← Option.some.inj hx]
  exact hc

end Re
end Text
end RocmTests

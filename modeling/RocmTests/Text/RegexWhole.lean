import RocmTests.Text.Numeral
import RocmTests.Text.RegexMatch

/-!
# Matching a whole line

Repetition of a pattern, patterns that must reach the end of a line, and what the
first match is where a repetition has to give characters back.  A piece of a match that
holds no line end lies within the line in which it begins, and white space reaches over
the end of a line only if what follows it there is what follows the white space in the
match.
-/

namespace RocmTests
namespace Text
namespace Re

/-- `(?:r)*` with at most `n` repetitions.  For a pattern that takes at least one
character the length of the text is enough. -/
def many : Nat → Re → Re
  | 0, _ => eps
  | n + 1, r => alt (seq r (many n r)) eps

/-- `match` with a pattern that ends in `$`, on a text without line ends. -/
def matchToEnd (isWord : Char → Bool) (r : Re) (text : Txt) : Option Found :=
  (run isWord r ⟨[], text⟩).find? fun m => m.pos.after.isEmpty

variable {isWord : Char → Bool} {b m v : Txt}

theorem matchToEnd_of_takes {r : Re} {gs : List (Nat × Txt)} (h : Takes isWord r [] m [] gs) :
    matchToEnd isWord r m = some ⟨⟨m.reverse, []⟩, gs⟩ := by
  unfold Takes matchAt at h
  rw [List.append_nil, List.append_nil] at h
  unfold matchToEnd
  cases hrun : run isWord r ⟨[], m⟩ with
  | nil =>
    rw [hrun] at h
    cases h
  | cons k ks =>
    rw [hrun, List.head?_cons, Option.some.injEq] at h
    rw [h]
    rfl

theorem matchToEnd_eq_none {r : Re} (h : ¬ Matches isWord r [] m []) :
    matchToEnd isWord r m = none := by
  unfold matchToEnd
  rw [List.find?_eq_none]
  intro k hk hafter
  apply h
  have hend : k.pos.after = [] := List.isEmpty_iff.mp hafter
  have hspans : Spans isWord r ⟨[], m⟩ k.pos := ⟨k, hk, rfl⟩
  obtain ⟨m', hm', hmatch⟩ := hspans.exists_matches
  rw [hend] at hm' hmatch
  rw [hm', List.append_nil]
  exact hmatch

/-- Pieces that each match are all taken if nothing after them matches. -/
theorem takes_many {r : Re} {xs : List Txt} (hxs : ∀ x ∈ xs, ∀ b v, Takes isWord r b x v [])
    (hv : ∀ b, matchAt isWord r ⟨b, v⟩ = none) : ∀ {n : Nat} {b : Txt}, xs.length ≤ n →
      Takes isWord (many n r) b xs.flatten v [] := by
  induction xs with
  | nil =>
    intro n b _
    cases n with
    | zero => exact takes_eps
    | succ n =>
      apply Takes.alt_right _ takes_eps
      unfold matchAt
      rw [List.nil_append, run]
      have hnone := hv b
      unfold matchAt at hnone
      rw [List.head?_eq_none_iff] at hnone
      rw [hnone]
      rfl
  | cons x xs ih =>
    intro n b hn
    cases n with
    | zero => exact absurd hn (by simp)
    | succ n =>
      have hrest := ih (fun y hy => hxs y (List.mem_cons_of_mem _ hy)) (n := n)
        (b := x.reverse ++ b) (by rw [List.length_cons] at hn; omega)
      rw [List.flatten_cons]
      exact ((hxs x List.mem_cons_self b _).seq hrest).alt_left

/-- A repetition gives characters back until what follows can match. -/
theorem takes_star_seq {f : Char → Bool} {s : Re} {x : Txt} {gs : List (Nat × Txt)}
    (hs : ∀ b, Takes isWord s b x v gs)
    (hmore : ∀ p t b, x ++ v = p ++ t → p ≠ [] → (∀ c ∈ p, f c = true) →
      matchAt isWord s ⟨b, t⟩ = none)
    (hm : ∀ c ∈ m, f c = true) : ∀ b : Txt,
      Takes isWord (seq (star f) s) b (m ++ x) v gs := by
  have hrun : ∀ (a : Txt) (b : Txt), run isWord (seq (star f) s) ⟨b, a⟩ =
      (runStar f b a).flatMap fun q => run isWord s q := by
    intro a b
    rw [run, run, List.flatMap_map]
    simp only [List.nil_append]
    congr
    funext q
    exact List.map_id _
  induction m with
  | nil =>
    intro b
    -- every longer repetition leaves a text that `s` does not match
    have hlast : ∀ a b : Txt, ∃ ps : List Pos, runStar f b a = ps ++ [⟨b, a⟩] ∧
        ∀ q ∈ ps, ∃ p, p ≠ [] ∧ a = p ++ q.after ∧ ∀ c ∈ p, f c = true := by
      intro a b
      cases a with
      | nil => exact ⟨[], rfl, by simp⟩
      | cons c a =>
        rw [runStar]
        by_cases hc : f c = true
        · rw [if_pos hc]
          refine ⟨_, rfl, ?_⟩
          intro q hq
          obtain ⟨p, hp, _, hf⟩ := (mem_runStar a (c :: b) q).mp hq
          exact ⟨c :: p, List.cons_ne_nil _ _, by rw [hp]; rfl,
            List.forall_mem_cons.mpr ⟨hc, hf⟩⟩
        · rw [if_neg hc]
          exact ⟨[], rfl, by simp⟩
    obtain ⟨ps, hps, hlonger⟩ := hlast (x ++ v) b
    have hnone : ps.flatMap (fun q => run isWord s q) = [] := by
      rw [List.flatMap_eq_nil_iff]
      intro q hq
      obtain ⟨p, hne, hp, hf⟩ := hlonger q hq
      have hmatch := hmore p q.after q.before hp hne hf
      unfold matchAt at hmatch
      exact List.head?_eq_none_iff.mp hmatch
    have htakes := hs b
    unfold Takes matchAt at htakes ⊢
    rw [List.nil_append, hrun, hps, List.flatMap_append, hnone, List.nil_append,
      List.flatMap_cons, List.flatMap_nil, List.append_nil]
    exact htakes
  | cons c m ih =>
    intro b
    have hrest := ih (fun y hy => hm y (List.mem_cons_of_mem _ hy)) (c :: b)
    unfold Takes matchAt at hrest ⊢
    rw [hrun] at hrest ⊢
    rw [List.cons_append, List.cons_append, runStar, if_pos (hm c List.mem_cons_self),
      List.flatMap_append, List.head?_append, hrest, Option.some_or, List.reverse_cons,
      List.append_assoc, List.singleton_append]

/-! ## Groups -/

/-- The groups of a pattern with what they enclose. -/
def groupBodies : Re → List (Nat × Re)
  | seq r s => groupBodies r ++ groupBodies s
  | alt r s => groupBodies r ++ groupBodies s
  | group n r => (n, r) :: groupBodies r
  | _ => []

theorem Spans.between_matches {r : Re} {p q : Pos} (h : Spans isWord r p q) :
    Matches isWord r p.before (between p q) q.after := by
  obtain ⟨t, ht, hq⟩ := h.split
  have hbetween : between p q = t := by
    have hlen : (t.reverse ++ p.before).length - p.before.length = t.reverse.length := by
      rw [List.length_append]
      omega
    unfold between
    rw [hq, hlen, List.take_left, List.reverse_reverse]
  unfold Matches
  rw [hbetween, ← ht, ← hq]
  exact h

/-- The text of a group is a match of what the group encloses. -/
theorem mem_groups {r : Re} : ∀ {p : Pos} {f : Found}, f ∈ run isWord r p → ∀ x ∈ f.groups,
    ∃ body, (x.1, body) ∈ groupBodies r ∧ ∃ b v, Matches isWord body b x.2 v := by
  induction r with
  | eps =>
    intro p f hf x hx
    rw [run, List.mem_singleton] at hf
    rw [hf] at hx
    cases hx
  | cls g =>
    intro p f hf x hx
    rw [run] at hf
    split at hf
    · cases hf
    · split_ifs at hf
      · rw [List.mem_singleton.mp hf] at hx
        cases hx
      · cases hf
  | seq r s ihr ihs =>
    intro p f hf x hx
    rw [run, List.mem_flatMap] at hf
    obtain ⟨k, hk, hf⟩ := hf
    obtain ⟨l, hl, rfl⟩ := List.mem_map.mp hf
    rcases List.mem_append.mp hx with hx | hx
    · obtain ⟨body, hbody, hmatch⟩ := ihr hk x hx
      exact ⟨body, List.mem_append_left _ hbody, hmatch⟩
    · obtain ⟨body, hbody, hmatch⟩ := ihs hl x hx
      exact ⟨body, List.mem_append_right _ hbody, hmatch⟩
  | alt r s ihr ihs =>
    intro p f hf x hx
    rw [run] at hf
    rcases List.mem_append.mp hf with hf | hf
    · obtain ⟨body, hbody, hmatch⟩ := ihr hf x hx
      exact ⟨body, List.mem_append_left _ hbody, hmatch⟩
    · obtain ⟨body, hbody, hmatch⟩ := ihs hf x hx
      exact ⟨body, List.mem_append_right _ hbody, hmatch⟩
  | star g =>
    intro p f hf x hx
    rw [run] at hf
    obtain ⟨q, -, rfl⟩ := List.mem_map.mp hf
    cases hx
  | wordBoundary =>
    intro p f hf x hx
    rw [run] at hf
    split_ifs at hf
    · rw [List.mem_singleton.mp hf] at hx
      cases hx
    · cases hf
  | lineStart =>
    intro p f hf x hx
    rw [run] at hf
    split_ifs at hf
    · rw [List.mem_singleton.mp hf] at hx
      cases hx
    · cases hf
  | group n r ih =>
    intro p f hf x hx
    rw [run] at hf
    obtain ⟨k, hk, rfl⟩ := List.mem_map.mp hf
    rcases List.mem_cons.mp hx with rfl | hx
    · have hspans : Spans isWord r p k.pos := ⟨k, hk, rfl⟩
      exact ⟨r, .head _, _, _, hspans.between_matches⟩
    · obtain ⟨body, hbody, hmatch⟩ := ih hk x hx
      exact ⟨body, .tail _ hbody, hmatch⟩

theorem group_matches {r : Re} {p : Pos} {f : Found} (hf : f ∈ run isWord r p) (n : Nat) :
    f.group n = [] ∨
      ∃ body, (n, body) ∈ groupBodies r ∧ ∃ b v, Matches isWord body b (f.group n) v := by
  unfold Found.group
  cases hlookup : f.groups.lookup n with
  | none => exact .inl rfl
  | some t =>
    right
    obtain ⟨l₁, l₂, hsplit, -⟩ := List.lookup_eq_some_iff.mp hlookup
    exact mem_groups hf (n, t) (by rw [hsplit]; simp)

theorem mem_findAllFrom {r : Re} {f : Found} : ∀ {a : Txt} {skip : Nat} {b : Txt},
    f ∈ findAllFrom isWord r skip b a → ∃ p, f ∈ run isWord r p := by
  intro a
  induction a with
  | nil =>
    intro skip b hf
    cases skip <;> cases hf
  | cons c a ih =>
    intro skip b hf
    cases skip with
    | succ skip => exact ih hf
    | zero =>
      rw [findAllFrom] at hf
      cases hmatch : matchAt isWord r ⟨b, c :: a⟩ with
      | none =>
        rw [hmatch] at hf
        exact ih hf
      | some m =>
        rw [hmatch] at hf
        rcases List.mem_cons.mp hf with rfl | hf
        · exact ⟨_, List.mem_of_mem_head? hmatch⟩
        · exact ih hf

/-! ## Matches in a text that is made of lines -/

section

open Markers (isSpace)

/-- What contains no line end lies within the line. -/
theorem inside_of_not_mem {m v w y : Txt} (h : w ++ y = m ++ v) (hw : w.getLast? = some '\n')
    (hm : '\n' ∉ m) : ∃ t, w = m ++ t ∧ v = t ++ y ∧ t.getLast? = some '\n' := by
  rcases List.append_eq_append_iff.mp h with ⟨t, hmt, _⟩ | ⟨t, hwt, hv⟩
  · -- the line would end within the match
    apply absurd _ hm
    rw [hmt]
    exact List.mem_append_left t (List.mem_of_getLast? hw)
  · have hne : t ≠ [] := by
      rintro rfl
      rw [List.append_nil] at hwt
      rw [hwt] at hw
      exact hm (List.mem_of_getLast? hw)
    rw [hwt, List.getLast?_append_of_ne_nil m hne] at hw
    exact ⟨t, hwt, hv, hw⟩

/-- Within one line, only its first place is at the start of a line. -/
theorem begin_of_atLineStart {u w x b a : Txt} (h : x ++ ['\n'] = u ++ w) (hw : w ≠ [])
    (hx : '\n' ∉ x) (hstart : atLineStart ⟨u.reverse ++ b, a⟩ = true) : u = [] := by
  have hsub : ∀ d ∈ u, d ∈ x := by
    intro d hd
    rcases List.append_eq_append_iff.mp h with ⟨t, hu, ht⟩ | ⟨t, hxu, _⟩
    · -- nothing of the line end is left for the first part
      cases t with
      | nil =>
        rw [hu, List.append_nil] at hd
        exact hd
      | cons d' t =>
        rw [List.cons_append, List.cons.injEq] at ht
        exact absurd (List.append_eq_nil_iff.mp ht.2.symm).2 hw
    · rw [hxu]
      exact List.mem_append_left t hd
  cases hrev : u.reverse with
  | nil => exact List.reverse_eq_nil_iff.mp hrev
  | cons d u' =>
    rw [hrev] at hstart
    have hd : d = '\n' := of_decide_eq_true hstart
    have hmem : d ∈ u := by
      rw [← List.mem_reverse, hrev]
      exact List.mem_cons_self
    exact absurd (hd ▸ hsub d hmem) hx

/-- The white space characters, as `isSpace` has them. -/
def spaces : List Nat :=
  [9, 10, 11, 12, 13, 28, 29, 30, 31, 32, 133, 160, 5760, 8192, 8193, 8194, 8195, 8196, 8197, 8198,
    8199, 8200, 8201, 8202, 8232, 8233, 8239, 8287, 12288]

theorem isSpace_of_sameLetter {c x : Char} (h : sameLetter c x = true)
    (hc : ∀ n ∈ spaces, sameLetter c (Char.ofNat n) = false) : isSpace x = false := by
  by_contra hsp
  have hspace : isSpace x = true := by simpa using hsp
  have hx := hc x.toNat (of_decide_eq_true hspace)
  rw [Char.ofNat_toNat, h] at hx
  cases hx

/-- White space that does not go on behind the end of the line lies within the line. -/
theorem inside_of_isSpace {s r w y : Txt} (h : w ++ y = s ++ r) (hw : w.getLast? = some '\n')
    (hs : ∀ x ∈ s, isSpace x = true) (hy : ∀ s', (∀ x ∈ s', isSpace x = true) → y ≠ s' ++ r) :
    ∃ t, w = s ++ t ∧ r = t ++ y ∧ t.getLast? = some '\n' := by
  rcases List.append_eq_append_iff.mp h with ⟨s', hss', hys⟩ | ⟨t, hwt, hr⟩
  · have hspace : ∀ x ∈ s', isSpace x = true := by
      intro x hx
      apply hs
      rw [hss']
      exact List.mem_append_right w hx
    exact absurd hys (hy s' hspace)
  · have hne : t ≠ [] := by
      rintro rfl
      exact hy [] (by simp) hr.symm
    rw [hwt, List.getLast?_append_of_ne_nil s hne] at hw
    exact ⟨t, hwt, hr, hw⟩

end

end Re
end Text
end RocmTests

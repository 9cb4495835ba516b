import Mathlib.Data.List.DropRight
import Mathlib.Data.Nat.Find
import RocmTests.Monitored.DmesgDelta

/-!
# The anchor by plain search

The plain search tries the suffixes of the old log from the longest one down, each
of them at every position of the new log.  `_write_dmesg_delta` looks only at the
positions of the last old line, and once at each.
-/

namespace RocmTests
namespace Monitored
namespace DmesgDelta

open Text

theorem EarliestMax.unique {f : Nat → Nat} {n : Nat} {m m' : Option Nat} (h : EarliestMax f n m)
    (h' : EarliestMax f n m') : m = m' := by
  cases m with
  | none =>
    cases m' with
    | none => rfl
    | some b =>
      have hzero : f b = 0 := h b h'.1 h'.2.1
      have hpos : 0 < f b := h'.2.2.1
      omega
  | some a =>
    cases m' with
    | none =>
      have hzero : f a = 0 := h' a h.1 h.2.1
      have hpos : 0 < f a := h.2.2.1
      omega
    | some b =>
      obtain ⟨ha, han, _, hamax, hafirst⟩ := h
      obtain ⟨hb, hbn, _, hbmax, hbfirst⟩ := h'
      have hab := hamax b hb hbn
      have hba := hbmax a ha han
      rcases Nat.lt_trichotomy a b with hlt | heq | hgt
      · have := hbfirst a ha hlt
        omega
      · rw [heq]
      · have := hafirst b hb hgt
        omega

theorem EarliestMax.congr {f g : Nat → Nat} {n : Nat} {m : Option Nat} (h : EarliestMax f n m)
    (hfg : ∀ e, e ≤ n → f e = g e) : EarliestMax g n m := by
  cases m with
  | none =>
    intro e h1 hn
    rw [← hfg e hn]
    exact h e h1 hn
  | some m =>
    obtain ⟨h1, hmn, hpos, hmax, hfirst⟩ := h
    refine ⟨h1, hmn, hfg m hmn ▸ hpos, fun e he hn => ?_, fun e he hlt => ?_⟩
    · rw [← hfg e hn, ← hfg m hmn]
      exact hmax e he hn
    · rw [← hfg e (by omega), ← hfg m hmn]
      exact hfirst e he hlt

section

variable {α : Type}

theorem rtake_suffix_rtake (xs : List α) {m n : Nat} (h : m ≤ n) : xs.rtake m <:+ xs.rtake n := by
  rw [List.rtake, List.rtake]
  have heq : xs.drop (xs.length - m) =
      (xs.drop (xs.length - n)).drop (xs.length - m - (xs.length - n)) := by
    rw [List.drop_drop]
    congr 1
    omega
  rw [heq]
  exact List.drop_suffix _ _

theorem length_rtake {xs : List α} {m : Nat} (h : m ≤ xs.length) : (xs.rtake m).length = m := by
  rw [List.rtake, List.length_drop]
  omega

theorem maxDepth_le (pre post : List α) : maxDepth pre post ≤ pre.length := by
  unfold maxDepth
  omega

variable [DecidableEq α]

/-- How many lines at the end of `xs` also end `ys`. -/
def commonSuffix (xs ys : List α) : Nat := Nat.findGreatest (fun m => xs.rtake m <:+ ys) xs.length

/-- What a position is worth. -/
def score (pre post : List α) (e : Nat) : Nat :=
  min (maxDepth pre post) (min e (commonSuffix pre (post.take e)))

/-- Every length from `m` down to 1 against every position. -/
def plainSearch (pre post : List α) : Nat → Option Nat
  | 0 => none
  | m + 1 =>
    ((List.range' 1 post.length).find? fun e => decide (pre.rtake (m + 1) <:+ post.take e)).or
      (plainSearch pre post m)

/-- `_write_dmesg_delta` with the plain search. -/
def plainDelta (banner : α) (pre post : List α) : List α :=
  (plainSearch pre post (maxDepth pre post)).elim (banner :: post) post.drop

theorem le_commonSuffix_iff {xs ys : List α} {m : Nat} (hm : m ≤ xs.length) :
    m ≤ commonSuffix xs ys ↔ xs.rtake m <:+ ys := by
  constructor
  · intro h
    have hgreatest : xs.rtake (commonSuffix xs ys) <:+ ys :=
      Nat.findGreatest_spec (P := fun m => xs.rtake m <:+ ys) (Nat.zero_le _)
        (by rw [List.rtake_zero]; exact List.nil_suffix)
    exact (rtake_suffix_rtake xs h).trans hgreatest
  · intro h
    exact Nat.le_findGreatest hm h

theorem le_score_iff {pre post : List α} {m : Nat} (hm : m ≤ maxDepth pre post) (e : Nat) :
    m ≤ score pre post e ↔ pre.rtake m <:+ post.take e := by
  have hpre : m ≤ pre.length := hm.trans (maxDepth_le pre post)
  rw [score, le_min_iff, le_min_iff, le_commonSuffix_iff hpre]
  refine ⟨fun h => h.2.2, fun h => ⟨hm, ?_, h⟩⟩
  have hlen := h.length_le
  rw [length_rtake hpre, List.length_take] at hlen
  omega

theorem agreement_eq_score (pre post : List α) (e : Nat) :
    agreement pre.reverse (maxDepth pre post) post e = score pre post e := by
  refine eq_of_forall_le_iff fun m => ?_
  by_cases hm : m ≤ maxDepth pre post
  · have hpre : m ≤ pre.length := hm.trans (maxDepth_le pre post)
    rw [le_score_iff hm, agreement, le_runLength_iff, List.length_reverse, List.length_reverse,
      take_reverse_eq_iff hpre]
    refine ⟨fun h => h.2.2.2, fun h => ⟨hm, ?_, hpre, h⟩⟩
    have hlen := h.length_le
    rwa [length_rtake hpre] at hlen
  · refine iff_of_false (fun h => hm (h.trans (agreement_le _ _ _ _).2)) fun h => hm (h.trans ?_)
    exact min_le_left _ _

/-- When no position is worth more than `m`, the search from `m` down finds the
earliest of the best. -/
theorem plainSearch_spec (pre post : List α) (m : Nat) :
    m ≤ maxDepth pre post →
      (∀ e, 1 ≤ e → e ≤ post.length → score pre post e ≤ m) →
      EarliestMax (score pre post) post.length (plainSearch pre post m) := by
  induction m with
  | zero =>
    intro _ hle e h1 hn
    exact Nat.le_zero.mp (hle e h1 hn)
  | succ m ih =>
    intro hm hle
    have hmem (e : Nat) : e ∈ List.range' 1 post.length ↔ 1 ≤ e ∧ e ≤ post.length := by
      rw [List.mem_range'_1]
      omega
    rw [plainSearch]
    cases hfind : (List.range' 1 post.length).find?
        fun e => decide (pre.rtake (m + 1) <:+ post.take e) with
    | none =>
      refine ih (by omega) fun e h1 hn => ?_
      have hnot : ¬ pre.rtake (m + 1) <:+ post.take e := by
        simpa using List.find?_eq_none.mp hfind e ((hmem e).mpr ⟨h1, hn⟩)
      rw [← le_score_iff hm] at hnot
      omega
    | some a =>
      obtain ⟨hhit, before, after, hsplit, hbefore⟩ := List.find?_eq_some_iff_append.mp hfind
      have ha := (hmem a).mp (hsplit ▸ List.mem_append_right before List.mem_cons_self)
      have hge : m + 1 ≤ score pre post a := (le_score_iff hm a).mpr (of_decide_eq_true hhit)
      refine ⟨ha.1, ha.2, by omega, fun e h1 hn => ?_, fun e h1 hlt => ?_⟩
      · have := hle e h1 hn
        omega
      · have hin : e ∈ before := by
          have hsorted : (before ++ a :: after).Pairwise (· < ·) :=
            hsplit ▸ List.pairwise_lt_range'
          have hmem' := hsplit ▸ (hmem e).mpr ⟨h1, by omega⟩
          rcases List.mem_append.mp hmem' with h | h
          · exact h
          · have hafter := (List.pairwise_append.mp hsorted).2.1
            rcases List.mem_cons.mp h with rfl | h
            · omega
            · have := List.rel_of_pairwise_cons hafter h
              omega
        have hnot : ¬ pre.rtake (m + 1) <:+ post.take e := by simpa using hbefore e hin
        rw [← le_score_iff hm] at hnot
        omega

theorem matchedAt_score (pre post : List α) :
    EarliestMax (score pre post) post.length (matchedAt pre post) :=
  (matchedAt_spec pre post).congr fun e _ => agreement_eq_score pre post e

theorem matchedAt_eq (pre post : List α) :
    matchedAt pre post = plainSearch pre post (maxDepth pre post) :=
  (matchedAt_score pre post).unique
    (plainSearch_spec pre post _ (Nat.le_refl _) fun _ _ _ => min_le_left _ _)

theorem deltaLines_eq (banner : α) {pre : List α} (hpre : pre ≠ []) (post : List α) :
    deltaLines banner pre post = plainDelta banner pre post := by
  rw [deltaLines, if_neg hpre, plainDelta, matchedAt_eq]
  cases plainSearch pre post (maxDepth pre post) <;> rfl

theorem new_suffix_deltaLines (banner : α) {pre : List α} (hpre : pre ≠ []) (new : List α) :
    new <:+ deltaLines banner pre (pre ++ new) := by
  have h := (deltaLines_keeps_iff banner hpre new 0).mpr (.inl (maxDepth_le _ _))
  rwa [Nat.zero_sub, List.drop_zero, List.drop_zero] at h

end

/-- The delta is what the plain search makes of it: the position is the earliest one
whose score is largest, and none when no score is positive.  The file holds these
lines. -/
theorem deltaLines_plain (pre post : List Txt) (hpre : pre ≠ []) :
    deltaLines banner pre post = plainDelta banner pre post ∧
      EarliestMax (score pre post) post.length
        (plainSearch pre post (maxDepth pre post)) ∧
      (∀ new, post = pre ++ new → new <:+ deltaLines banner pre post) ∧
      ∀ pretest posttest, splitlines pretest = pre → splitlines posttest = post →
        pretest ≠ snapshotUnavailable →
        splitlines (writeDmesgDelta (some pretest) (true, posttest)) =
          deltaLines banner pre post := by
  refine ⟨deltaLines_eq banner hpre post,
    plainSearch_spec pre post _ (Nat.le_refl _) fun _ _ _ => min_le_left _ _, ?_, ?_⟩
  · rintro new rfl
    exact new_suffix_deltaLines banner hpre new
  · rintro pretest posttest rfl rfl hcaptured
    exact splitlines_writeDmesgDelta hcaptured

/-- The anchor comes three times, and the line before it has left the buffer. -/
theorem deltaLines_plain_reset :
    deltaLines banner [fault, reset, reset] [reset, reset, fault, reset] =
        plainDelta banner [fault, reset, reset] [reset, reset, fault, reset] ∧
      EarliestMax (score [fault, reset, reset] [reset, reset, fault, reset]) 4 (some 2) :=
  have h := deltaLines_plain [fault, reset, reset] [reset, reset, fault, reset]
    (List.cons_ne_nil _ _)
  ⟨h.1, h.2.1⟩

end DmesgDelta
end Monitored
end RocmTests

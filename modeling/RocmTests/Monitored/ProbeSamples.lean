import RocmTests.Monitored.DmesgCategories

/-!
# The samples of the pretest probe

A line is counted after `ras_downgrade` under the first category whose pattern it has.
The samples are searched for in the raw lines, one category at a time.
-/

namespace RocmTests
namespace Monitored
namespace DmesgCategories

open Text Text.Re Markers

variable (alnum : Char → Bool)

/-- Whether the line is counted under the category. -/
def countedUnder (cat : Category) (line : Txt) : Bool :=
  (rasDowngrade alnum line).bind (firstCategory alnum) = some cat

/-- The categories with a count, in the order of the rules. -/
def countedRules (text : Txt) : List (Category × Re) :=
  dmesgCategoryRules.filter fun rule => categorizeDmesgCritical alnum text rule.1 ≠ 0

/-- The categories under which a line is counted. -/
def rulesWithLine (text : Txt) : List (Category × Re) :=
  dmesgCategoryRules.filter fun rule => (splitlines text).any (countedUnder alnum rule.1)

/-- Those of them whose pattern is in the raw text of some line. -/
def shownRules (text : Txt) : List (Category × Re) :=
  (rulesWithLine alnum text).filter fun rule => (splitlines text).any (found alnum rule.2)

/-- The i-th sample is the first line counted under the i-th category with a count. -/
def SamplesCounted (isRecent : Txt → Bool) (capture : Bool × Txt) : Prop :=
  ∀ (i : Nat) (sample : Txt),
    (pretestHealthProbe alnum isRecent capture).2.samples[i]? = some sample →
    ∃ rule : Category × Re, ∃ line, (countedRules alnum (lookbackText isRecent capture))[i]? =
      some rule ∧
      (splitlines (lookbackText isRecent capture)).find? (countedUnder alnum rule.1) = some line ∧
      sample = strip line

/-- The raw search finds the counted lines: for the first five categories that are shown,
the first line with the pattern reads like the first line counted under the category in
the same place. -/
def RawSearchMeetsCount (text : Txt) : Prop :=
  ∀ i < 5, ∀ rule : Category × Re, ∀ raw, (shownRules alnum text)[i]? = some rule →
    (splitlines text).find? (found alnum rule.2) = some raw →
    ∃ rule' : Category × Re, ∃ line, (rulesWithLine alnum text)[i]? = some rule' ∧
      (splitlines text).find? (countedUnder alnum rule'.1) = some line ∧ strip raw = strip line

section

variable {alnum}

theorem countCategory_apply (counts : Category → Nat) (line : Txt) (cat : Category) :
    countCategory alnum counts line cat =
      counts cat + if countedUnder alnum cat line then 1 else 0 := by
  unfold countCategory countedUnder
  cases (rasDowngrade alnum line).bind (firstCategory alnum) with
  | none => rfl
  | some cat' =>
    by_cases h : cat = cat'
    · rw [h]
      simp [bump]
    · simp [bump, h, Ne.symm h]

theorem foldl_countCategory_apply (lines : List Txt) (cat : Category) :
    ∀ counts : Category → Nat, lines.foldl (countCategory alnum) counts cat =
      counts cat + lines.countP (countedUnder alnum cat) := by
  induction lines with
  | nil =>
    intro counts
    rfl
  | cons line lines ih =>
    intro counts
    rw [List.foldl_cons, ih, countCategory_apply, List.countP_cons]
    omega

theorem categorize_apply (text : Txt) (cat : Category) :
    categorizeDmesgCritical alnum text cat =
      (splitlines text).countP (countedUnder alnum cat) := by
  unfold categorizeDmesgCritical
  rw [foldl_countCategory_apply, Nat.zero_add]

theorem categorize_ne_zero_iff (text : Txt) (cat : Category) :
    categorizeDmesgCritical alnum text cat ≠ 0 ↔
      (splitlines text).any (countedUnder alnum cat) = true := by
  rw [categorize_apply, ← Nat.pos_iff_ne_zero, List.countP_pos_iff, List.any_eq_true]

theorem countedRules_eq (text : Txt) : countedRules alnum text = rulesWithLine alnum text := by
  unfold countedRules rulesWithLine
  congr 1
  funext rule
  rw [Bool.eq_iff_iff, decide_eq_true_iff]
  exact categorize_ne_zero_iff text rule.1

/-! ## What is sampled -/

/-- The sample of a category, if it gives one. -/
def sampleOf (alnum : Char → Bool) (counts : Category → Nat) (recent : Txt)
    (rule : Category × Re) : Option Txt :=
  if counts rule.1 = 0 then none
  else ((splitlines recent).find? (found alnum rule.2)).map strip

theorem probeSamples_eq (counts : Category → Nat) (recent : Txt) (rules : List (Category × Re)) :
    ∀ samples : List Txt, samples.length < 5 →
      probeSamples alnum counts recent rules samples =
        (samples ++ rules.filterMap (sampleOf alnum counts recent)).take 5 := by
  induction rules with
  | nil =>
    intro samples hlen
    rw [List.filterMap_nil, List.append_nil, List.take_of_length_le (Nat.le_of_lt hlen)]
    rfl
  | cons rule rules ih =>
    intro samples hlen
    obtain ⟨cat, pattern⟩ := rule
    unfold probeSamples
    by_cases hzero : counts cat = 0
    · have hnone : sampleOf alnum counts recent (cat, pattern) = none := if_pos hzero
      rw [if_pos hzero, ih samples hlen, List.filterMap_cons_none hnone]
    · rw [if_neg hzero]
      cases hfind : (splitlines recent).find? (found alnum pattern) with
      | none =>
        have hnone : sampleOf alnum counts recent (cat, pattern) = none := by
          unfold sampleOf
          rw [if_neg hzero, hfind]
          rfl
        rw [List.filterMap_cons_none hnone]
        simp only [Option.toList_none, List.map_nil, List.append_nil]
        rw [if_neg (Nat.not_le.mpr hlen)]
        exact ih samples hlen
      | some line =>
        have hsome : sampleOf alnum counts recent (cat, pattern) = some (strip line) := by
          unfold sampleOf
          rw [if_neg hzero, hfind]
          rfl
        rw [List.filterMap_cons_some hsome]
        simp only [Option.toList_some, List.map_cons, List.map_nil]
        rw [show samples ++ strip line :: rules.filterMap (sampleOf alnum counts recent) =
          (samples ++ [strip line]) ++ rules.filterMap (sampleOf alnum counts recent) from
          List.append_cons ..]
        by_cases hfull : 5 ≤ (samples ++ [strip line]).length
        · rw [if_pos hfull]
          have hfive : (samples ++ [strip line]).length = 5 := by
            rw [List.length_append, List.length_singleton] at hfull ⊢
            omega
          rw [List.take_append_of_le_length hfull, ← hfive, List.take_length]
        · rw [if_neg hfull]
          exact ih _ (Nat.not_le.mp hfull)

theorem filterMap_sampleOf (text : Txt) :
    dmesgCategoryRules.filterMap (sampleOf alnum (categorizeDmesgCritical alnum text) text) =
      (shownRules alnum text).filterMap fun rule =>
        ((splitlines text).find? (found alnum rule.2)).map strip := by
  unfold shownRules rulesWithLine
  rw [List.filterMap_filter, List.filterMap_filter]
  congr 1
  funext rule
  unfold sampleOf
  by_cases hzero : categorizeDmesgCritical alnum text rule.1 = 0
  · have hany : (splitlines text).any (countedUnder alnum rule.1) = false := by
      rw [Bool.eq_false_iff]
      exact fun h => (categorize_ne_zero_iff text rule.1).mpr h hzero
    rw [if_pos hzero, hany]
    rfl
  · rw [if_neg hzero, (categorize_ne_zero_iff text rule.1).mp hzero, if_pos rfl]
    cases hraw : (splitlines text).any (found alnum rule.2) with
    | true => rfl
    | false =>
      rw [List.find?_eq_none.mpr fun line hline => List.any_eq_false.mp hraw line hline]
      rfl

theorem getElem?_filterMap {α β : Type} (f : α → Option β) (xs : List α)
    (h : ∀ x ∈ xs, (f x).isSome) (i : Nat) : (xs.filterMap f)[i]? = xs[i]?.bind f := by
  induction xs generalizing i with
  | nil => rfl
  | cons x xs ih =>
    obtain ⟨y, hy⟩ := Option.isSome_iff_exists.mp (h x (.head _))
    rw [List.filterMap_cons_some hy]
    cases i with
    | zero => exact hy.symm
    | succ i => exact ih (fun x' hx' => h x' (.tail _ hx')) i

theorem getElem?_samples (isRecent : Txt → Bool) (capture : Bool × Txt) (i : Nat) :
    (pretestHealthProbe alnum isRecent capture).2.samples[i]? =
      if i < 5 then
        (shownRules alnum (lookbackText isRecent capture))[i]?.bind fun rule =>
          ((splitlines (lookbackText isRecent capture)).find? (found alnum rule.2)).map strip
      else none := by
  have hshown (text : Txt) : ∀ rule ∈ shownRules alnum text,
      (((splitlines text).find? (found alnum rule.2)).map strip).isSome := by
    intro rule hrule
    rw [Option.isSome_map, List.find?_isSome]
    exact List.any_eq_true.mp (List.mem_filter.mp hrule).2
  have hsamples : (pretestHealthProbe alnum isRecent capture).2.samples =
      ((shownRules alnum (lookbackText isRecent capture)).filterMap fun rule =>
        ((splitlines (lookbackText isRecent capture)).find? (found alnum rule.2)).map strip).take
          5 := by
    unfold pretestHealthProbe lookbackText
    by_cases h : (capture.1 && !capture.2.isEmpty) = true
    · rw [if_pos h, if_pos h]
      simp only
      rw [probeSamples_eq _ _ _ [] (by decide), List.nil_append, filterMap_sampleOf]
    · rw [if_neg h, if_neg h]
      rfl
  rw [hsamples, List.getElem?_take, getElem?_filterMap _ _ (hshown _)]

/-- The samples are the counted lines exactly when the raw search finds them. -/
theorem samplesCounted_iff (alnum : Char → Bool) (isRecent : Txt → Bool) (capture : Bool × Txt) :
    SamplesCounted alnum isRecent capture ↔
      RawSearchMeetsCount alnum (lookbackText isRecent capture) := by
  unfold SamplesCounted RawSearchMeetsCount
  generalize htext : lookbackText isRecent capture = text
  simp only [getElem?_samples, htext, countedRules_eq]
  constructor
  · intro h i hi rule raw hrule hraw
    obtain ⟨rule', line, hrule', hline, heq⟩ := h i (strip raw) (by
      rw [if_pos hi, hrule, Option.bind_some, hraw, Option.map_some])
    exact ⟨rule', line, hrule', hline, heq⟩
  · intro h i sample hsample
    by_cases hi : i < 5
    · rw [if_pos hi] at hsample
      obtain ⟨rule, hrule, hsample⟩ := Option.bind_eq_some_iff.mp hsample
      obtain ⟨raw, hraw, rfl⟩ := Option.map_eq_some_iff.mp hsample
      exact h i hi rule raw hrule hraw
    · rw [if_neg hi] at hsample
      cases hsample

end

/-- A corrected error that is not counted is the sample of the reset after it. -/
theorem sample_not_counted :
    ¬ SamplesCounted (fun _ => false) (fun _ => true)
      (true, "RAS corrected error\ngpu reset".toList) := by
  intro h
  obtain ⟨rule, line, -, hline, heq⟩ := h 0 "RAS corrected error".toList (by decide)
  have hlines : splitlines (lookbackText (fun _ => true)
      (true, "RAS corrected error\ngpu reset".toList)) =
      ["RAS corrected error".toList, "gpu reset".toList] := by decide
  have hmem := List.mem_of_find?_eq_some hline
  rw [hlines] at hmem
  rcases List.mem_pair.mp hmem with rfl | rfl
  · have hdowngraded : rasDowngrade (fun _ => false) "RAS corrected error".toList = none := by
      decide
    have hcounted := List.find?_some hline
    unfold countedUnder at hcounted
    rw [hdowngraded] at hcounted
    simp at hcounted
  · revert heq
    decide

end DmesgCategories
end Monitored
end RocmTests

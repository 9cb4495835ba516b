import RocmTests.Monitored.DmesgPatterns

/-!
# Critical kernel lines, counted twice

Layer 3 of the validation counts the lines that the flat pattern matches; the
pretest probe counts them by category.  Both look at a line after `ras_downgrade`.
One category rule is wider than the flat pattern.
-/

namespace RocmTests
namespace Monitored
namespace DmesgCategories

open Text Text.Re Markers

variable (alnum : Char → Bool)

/-- Whether a pattern is found in a text. -/
def found (r : Re) (text : Txt) : Bool := search (isWordChar alnum) r text

def rasDowngrade (line : Txt) : Option Txt :=
  let candidate := remove (isWordChar alnum) rasNonActionableUncorrectable line
  if found alnum rasCorrectedOnly candidate && !found alnum rasUncorrectable candidate then none
  else some candidate

/-- The patterns that lines are counted with. -/
inductive LinePattern where
  | critical
  | info
deriving DecidableEq, Repr

def lineMatches : LinePattern → Txt → Bool
  | .critical, line => (rasDowngrade alnum line).any (found alnum dmesgCritical)
  | .info, line => found alnum dmesgInfo line

/-- `_count_lines_matching`. -/
def countLinesMatching (text : Txt) (pattern : LinePattern) : Nat :=
  (splitlines text).foldl (fun n line => if lineMatches alnum pattern line then n + 1 else n) 0

/-! ## Categories -/

def bump (counts : Category → Nat) (cat : Category) : Category → Nat :=
  Function.update counts cat (counts cat + 1)

/-- The first category whose pattern is found. -/
def firstCategory (candidate : Txt) : Option Category :=
  (dmesgCategoryRules.find? fun rule => found alnum rule.2 candidate).map (·.1)

def countCategory (counts : Category → Nat) (line : Txt) : Category → Nat :=
  match (rasDowngrade alnum line).bind (firstCategory alnum) with
  | some cat => bump counts cat
  | none => counts

def categorizeDmesgCritical (text : Txt) : Category → Nat :=
  (splitlines text).foldl (countCategory alnum) fun _ => 0

/-- `sum(counts.values())`. -/
def total (counts : Category → Nat) : Nat := (dmesgCategoryRules.map fun rule => counts rule.1).sum

/-! ## The pretest probe -/

structure ProbeSummary where
  probeOk : Bool
  criticalTotal : Nat
  byCategory : Category → Nat
  samples : List Txt
  reason : Option String

/-- `_filter_dmesg_recent`, where `isRecent` is whether a line has no timestamp or
one after the cutoff. -/
def filterDmesgRecent (isRecent : Txt → Bool) (text : Txt) : Txt :=
  joinLines ((splitlines text).filter isRecent)

/-- The text the probe looks at. -/
def lookbackText (isRecent : Txt → Bool) (capture : Bool × Txt) : Txt :=
  if capture.1 && !capture.2.isEmpty then filterDmesgRecent isRecent capture.2 else []

/-- The first matching line of each category that was counted, five at most. -/
def probeSamples (counts : Category → Nat) (recent : Txt) :
    List (Category × Re) → List Txt → List Txt
  | [], samples => samples
  | (cat, pattern) :: rules, samples =>
    if counts cat = 0 then probeSamples counts recent rules samples
    else
      let samples := samples ++
        ((splitlines recent).find? (found alnum pattern)).toList.map strip
      if 5 ≤ samples.length then samples else probeSamples counts recent rules samples

def pretestHealthProbe (isRecent : Txt → Bool) (capture : Bool × Txt) : Bool × ProbeSummary :=
  if capture.1 && !capture.2.isEmpty then
    let recent := filterDmesgRecent isRecent capture.2
    let counts := categorizeDmesgCritical alnum recent
    (total counts == 0, ⟨true, total counts, counts,
      probeSamples alnum counts recent dmesgCategoryRules [], none⟩)
  else
    (true, ⟨false, 0, fun _ => 0, [], some "dmesg capture unavailable (empty stdout)"⟩)

/-! ## What the category rules find -/

/-- What the wider category rule finds beyond the flat pattern: an uncorrected
word and later a bare `error`. -/
def uncorrectedThenBareError : Re := cat [word uncorrected, dots, word (ilit "error")]

section

variable {alnum}

theorem found_uncorrectedThenError_iff (candidate : Txt) :
    found alnum uncorrectedThenError candidate = true ↔
      found alnum uncorrectedThenHardware candidate = true ∨
        found alnum uncorrectedThenBareError candidate = true := by
  apply search_or
  intro p q
  unfold uncorrectedThenError uncorrectedThenHardware uncorrectedThenBareError
  generalize word uncorrected = u
  simp only [cat, word, alts, spans_seq, spans_alt, or_and_right, and_or_left, exists_or, or_assoc]

theorem found_alts_iff (rs : List Re) (candidate : Txt) :
    found alnum (alts rs) candidate = true ↔ ∃ r ∈ rs, found alnum r candidate = true :=
  search_alts rs

/-- A line has a category when the flat pattern finds it or the surplus does. -/
theorem firstCategory_isSome_iff (candidate : Txt) :
    (firstCategory alnum candidate).isSome = true ↔
      found alnum dmesgCritical candidate = true ∨
        found alnum uncorrectedThenBareError candidate = true := by
  unfold firstCategory dmesgCritical dmesgCategoryRules
  rw [Option.isSome_map, List.find?_isSome]
  simp only [List.mem_cons, List.not_mem_nil, or_false, exists_eq_or_imp, exists_eq_left,
    found_alts_iff, found_uncorrectedThenError_iff]
  apply iff_of_eq
  ac_rfl

/-! ## The two counts -/

def hasCategory (alnum : Char → Bool) (line : Txt) : Bool :=
  ((rasDowngrade alnum line).bind (firstCategory alnum)).isSome

theorem total_bump (counts : Category → Nat) (cat : Category) :
    total (bump counts cat) = total counts + 1 := by
  unfold total bump dmesgCategoryRules
  cases cat with
  | _ =>
    simp only [List.map_cons, List.map_nil, List.sum_cons, List.sum_nil, Function.update_apply]
    simp only [reduceCtorEq, if_true, if_false]
    omega

theorem total_countCategory (counts : Category → Nat) (line : Txt) :
    total (countCategory alnum counts line) =
      total counts + if hasCategory alnum line then 1 else 0 := by
  unfold countCategory hasCategory
  cases (rasDowngrade alnum line).bind (firstCategory alnum) with
  | none => rfl
  | some cat => exact total_bump counts cat

theorem total_foldl (lines : List Txt) :
    ∀ counts : Category → Nat, total (lines.foldl (countCategory alnum) counts) =
      total counts + lines.countP (hasCategory alnum) := by
  induction lines with
  | nil =>
    intro counts
    rfl
  | cons line lines ih =>
    intro counts
    rw [List.foldl_cons, ih, total_countCategory, List.countP_cons]
    omega

theorem total_categorize (text : Txt) :
    total (categorizeDmesgCritical alnum text) =
      (splitlines text).countP (hasCategory alnum) := by
  unfold categorizeDmesgCritical
  rw [total_foldl]
  have hzero : total (fun _ => 0) = 0 := rfl
  omega

theorem foldl_count {α : Type} (p : α → Bool) (xs : List α) :
    ∀ n : Nat, xs.foldl (fun n x => if p x then n + 1 else n) n = n + xs.countP p := by
  induction xs with
  | nil =>
    intro n
    rfl
  | cons x xs ih =>
    intro n
    rw [List.foldl_cons, ih, List.countP_cons]
    split <;> omega

theorem countLinesMatching_eq (text : Txt) (pattern : LinePattern) :
    countLinesMatching alnum text pattern =
      (splitlines text).countP (lineMatches alnum pattern) := by
  unfold countLinesMatching
  rw [foldl_count, Nat.zero_add]

/-- Two counts over one list agree exactly when the wider test adds nothing. -/
theorem countP_eq_iff {α : Type} {p q : α → Bool} (hpq : ∀ x, p x = true → q x = true)
    (xs : List α) : xs.countP q = xs.countP p ↔ ∀ x ∈ xs, q x = true → p x = true := by
  induction xs with
  | nil => simp
  | cons x xs ih =>
    have hle : xs.countP p ≤ xs.countP q := List.countP_mono_left fun y _ => hpq y
    rw [List.countP_cons, List.countP_cons, List.forall_mem_cons, ← ih]
    by_cases hp : p x = true
    · simp [hp, hpq x hp]
    · by_cases hq : q x = true
      · simp only [hp, hq, if_true]
        simp
        omega
      · simp [hp, hq]

theorem lineMatches_critical (line : Txt) :
    lineMatches alnum .critical line =
      (rasDowngrade alnum line).any (found alnum dmesgCritical) := rfl

theorem hasCategory_of_critical {line : Txt} (h : lineMatches alnum .critical line = true) :
    hasCategory alnum line = true := by
  rw [lineMatches_critical] at h
  unfold hasCategory
  cases hras : rasDowngrade alnum line with
  | none => simp [hras] at h
  | some candidate =>
    rw [hras] at h
    exact (firstCategory_isSome_iff candidate).mpr (.inl h)

/-- No line is found by the surplus alone. -/
def NoSurplus (alnum : Char → Bool) (text : Txt) : Prop :=
  ∀ line ∈ splitlines text, ∀ candidate, rasDowngrade alnum line = some candidate →
    found alnum uncorrectedThenBareError candidate = true →
    found alnum dmesgCritical candidate = true

theorem critical_of_hasCategory_iff (line : Txt) :
    (hasCategory alnum line = true → lineMatches alnum .critical line = true) ↔
      ∀ candidate, rasDowngrade alnum line = some candidate →
        found alnum uncorrectedThenBareError candidate = true →
          found alnum dmesgCritical candidate = true := by
  rw [lineMatches_critical]
  unfold hasCategory
  cases hras : rasDowngrade alnum line with
  | none => simp
  | some candidate =>
    simp only [Option.bind_some, Option.any_some, Option.some.injEq, forall_eq',
      firstCategory_isSome_iff]
    constructor
    · intro h hsurplus
      exact h (.inr hsurplus)
    · intro h hfound
      rcases hfound with hfound | hfound
      · exact hfound
      · exact h hfound

theorem total_eq_count_iff (text : Txt) :
    total (categorizeDmesgCritical alnum text) = countLinesMatching alnum text .critical ↔
      NoSurplus alnum text := by
  rw [total_categorize, countLinesMatching_eq,
    countP_eq_iff fun _ h => hasCategory_of_critical h]
  unfold NoSurplus
  simp only [critical_of_hasCategory_iff]

/-- The gate and the breakdown agree on a text, and so does every probe that looks
at it. -/
structure Agree (alnum : Char → Bool) (text : Txt) : Prop where
  counts : total (categorizeDmesgCritical alnum text) = countLinesMatching alnum text .critical
  probe : ∀ isRecent capture, lookbackText isRecent capture = text →
    ((pretestHealthProbe alnum isRecent capture).1 = true ↔
      countLinesMatching alnum text .critical = 0)

theorem probe_clean_iff (isRecent : Txt → Bool) (capture : Bool × Txt) :
    (pretestHealthProbe alnum isRecent capture).1 = true ↔
      total (categorizeDmesgCritical alnum (lookbackText isRecent capture)) = 0 := by
  unfold pretestHealthProbe lookbackText
  by_cases h : (capture.1 && !capture.2.isEmpty) = true
  · rw [if_pos h, if_pos h]
    exact beq_iff_eq
  · rw [if_neg h, if_neg h]
    exact iff_of_true rfl rfl

/-- The breakdown counts the lines of the gate exactly when no line is found by
the wider category rule alone. -/
theorem categories_agree_iff (alnum : Char → Bool) (text : Txt) :
    Agree alnum text ↔ NoSurplus alnum text := by
  constructor
  · intro h
    exact (total_eq_count_iff text).mp h.counts
  · intro h
    have hcounts := (total_eq_count_iff text).mpr h
    refine ⟨hcounts, fun isRecent capture htext => ?_⟩
    rw [probe_clean_iff, htext, hcounts]

end

/-- A driver message that the gate ignores and the probe counts. -/
theorem categories_disagree :
    ¬ Agree (fun _ => false) "fatal error in shader".toList := by
  intro h
  have hcounts := h.counts
  revert hcounts
  decide

end DmesgCategories
end Monitored
end RocmTests

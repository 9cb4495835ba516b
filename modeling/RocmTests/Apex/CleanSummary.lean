import RocmTests.Apex.ParserRecovers

/-!
# When a summary is clean

A failed module leaves counts in its `FAILED (...)` line, a sub-test whose first line
that looks like an outcome is a failure, or both.  A summary is not clean exactly if one
of the two is there or nothing ran.
-/

namespace RocmTests
namespace Apex

open Text Text.Re
open Markers (isSpace strip digitValue intOfText parseDigits)
open Monitored.Cudamemtest (isDecimal)
open Monitored.Validation (contains_eq_true_iff)

/-- The property `total`. -/
def ApexRunSummary.total (x : ApexRunSummary) : Int :=
  x.passed + x.skipped + x.failed + x.errored + x.expectedFailures

/-- The property `is_clean`. -/
def ApexRunSummary.isClean (x : ApexRunSummary) : Bool :=
  (0 < x.total || 0 < x.ranTotal) && x.failed = 0 && x.errored = 0

/-! ## What a text says -/

/-- What the loop takes a line for. -/
inductive Kind where
  | header (m : Found)
  | ran (m : Found)
  | failed (m : Found)
  | started (m : Found)
  | other

def kindOf (raw : Txt) : Kind :=
  match headerLine (strip raw) with
  | some m => .header m
  | none =>
    match ranLine (strip raw) with
    | some m => .ran m
    | none =>
      match failedLine (strip raw) with
      | some m => .failed m
      | none =>
        match startLine (strip raw) with
        | some m => .started m
        | none => .other

/-- The numbers of a line, as they are given to `int`. -/
def numerals (raw : Txt) : List Txt :=
  match kindOf raw with
  | .ran m => [m.group 1]
  | .failed m => (findAll noWord countPattern (m.group 1)).map fun c => c.group 2
  | _ => []

/-- The first outcome on the lines up to the next one that the parser knows by its
form. -/
def continued : List Txt → Option Bucket
  | [] => none
  | l :: ls =>
    match kindOf l with
    | .other => (classifyContinuation (strip l)).or (continued ls)
    | _ => none

/-- What is read of a sub-test, from its last header line on; the outer `none` is that it
has none. -/
def lastRead (name : Txt) : List Txt → Option (Option Bucket)
  | [] => none
  | l :: ls =>
    (lastRead name ls).or
      (match kindOf l with
      | .started m =>
        if strip (m.group 1) = name then some ((classifyRest (m.group 2)).or (continued ls))
        else none
      | _ => none)

/-- A failure, an error or no outcome. -/
def bad (o : Option Bucket) : Bool := o = some .fail || o = some .error || o = none

/-- The text has a `FAILED (...)` line or the header of a report. -/
def ReportsFailure (text : Txt) : Prop :=
  ∃ l ∈ splitlines text, (failedLine (strip l)).isSome ∨ (headerLine (strip l)).isSome

def NeverClean (text : Txt) : Prop :=
  ReportsFailure text → ∃ x, parseUnittestOutput text = some x ∧ x.isClean = false

/-! ### Failures in the text -/

/-- What begins, in any case, with a word of a failure. -/
def BeginsFailed (rest : Txt) : Prop :=
  ∃ w ∈ ["unexpected success".toList, "error".toList, "fail".toList], w <+: lower (strip rest)

/-- A line that looks like a failure.  A line that says `ok` or `skipped` as well looks like
that. -/
def LooksFailed (line : Txt) : Prop := SaysFailed line ∧ ¬ SaysOk line ∧ ¬ SaysSkipped line

/-- Up to the next line with a form the first line that looks like an outcome looks like a
failure, or none looks like an outcome. -/
def FailsLater : List Txt → Prop
  | [] => True
  | l :: ls =>
    match kindOf l with
    | .other => LooksFailed l ∨ ¬ LooksOutcome l ∧ FailsLater ls
    | _ => True

/-- A sub-test fails behind its last header line, or on a line after it. -/
def ShowsFailure (lines : List Txt) : Prop :=
  ∃ before l after m, lines = before ++ l :: after ∧ kindOf l = .started m ∧
    (∀ l' ∈ after, ∀ m', kindOf l' = .started m' → strip (m'.group 1) ≠ strip (m.group 1)) ∧
      (BeginsFailed (m.group 2) ∨ ¬ BeginsOutcome (m.group 2) ∧ FailsLater after)

/-- A count of failures or errors on a `FAILED` line is not zero. -/
def CountsFailure (lines : List Txt) : Prop :=
  ∃ l ∈ lines, ∃ m, kindOf l = .failed m ∧ ∃ t ∈ numerals l, parseInt t ≠ some 0

/-- There is no sub-test, and no `Ran` line with a number that is not zero. -/
def NothingRan (lines : List Txt) : Prop :=
  (∀ l ∈ lines, ∀ m, kindOf l ≠ .started m) ∧
    ∀ l ∈ lines, ∀ m, kindOf l = .ran m → parseInt (m.group 1) = some 0

/-- All numbers can be read, and there is a count on a `FAILED` line that is not zero, a
sub-test that failed, or nothing that ran. -/
structure Detected (text : Txt) : Prop where
  readable : ∀ l ∈ splitlines text, ∀ t ∈ numerals l, (parseInt t).isSome
  shown : CountsFailure (splitlines text) ∨ ShowsFailure (splitlines text) ∨
    NothingRan (splitlines text)

/-! ## Failures that are read -/

/-- Of two words, neither of which begins with the other, a text begins with one at most. -/
theorem not_begins_of_begins {t w v : Txt} (hw : w <+: t) (hwv : ¬ w <+: v) (hvw : ¬ v <+: w) :
    ¬ v <+: t := by
  intro hv
  rcases List.prefix_or_prefix_of_prefix hw hv with h | h
  · exact hwv h
  · exact hvw h

theorem bad_values : bad (some .fail) = true ∧ bad (some .error) = true ∧
    ¬ bad (some .pass) = true ∧ ¬ bad (some .skip) = true ∧ ¬ bad (some .xfail) = true := by
  decide

section Chains
variable {E U O S R F : Prop} [Decidable E] [Decidable U] [Decidable O] [Decidable S]
  [Decidable R] [Decidable F]

theorem bad_rest_chain (o : Option Bucket) (hE : E → ¬ U ∧ ¬ R ∧ ¬ F) (hO : O → ¬ R ∧ ¬ F)
    (hS : S → ¬ R ∧ ¬ F) :
    bad ((if E then some .xfail else if U then some .fail else if O then some .pass
      else if S then some .skip else if R then some .error else if F then some .fail
      else none).or o) = true ↔
        (U ∨ R ∨ F) ∨ ¬ (E ∨ U ∨ O ∨ S ∨ R ∨ F) ∧ bad o = true := by
  obtain ⟨hfail, herror, hpass, hskip, hxfail⟩ := bad_values
  split_ifs <;> simp only [Option.some_or, Option.none_or] <;> tauto

theorem bad_continuation_chain (o : Option Bucket) (hE : E → ¬ U) :
    bad ((if O then some .pass else if S then some .skip else if F then some .fail
      else if R then some .error else if E then some .xfail else if U then some .fail
      else none).or o) = true ↔
        (F ∨ R ∨ U) ∧ ¬ O ∧ ¬ S ∨ ¬ (O ∨ S ∨ (F ∨ R ∨ U) ∨ E) ∧ bad o = true := by
  obtain ⟨hfail, herror, hpass, hskip, hxfail⟩ := bad_values
  split_ifs <;> simp only [Option.some_or, Option.none_or] <;> tauto

end Chains

theorem bad_classifyRest_iff {rest : Txt} (o : Option Bucket) :
    bad ((classifyRest rest).or o) = true ↔
      BeginsFailed rest ∨ ¬ BeginsOutcome rest ∧ bad o = true := by
  unfold classifyRest BeginsFailed BeginsOutcome
  simp only [List.mem_cons, List.not_mem_nil, or_false, exists_eq_or_imp, exists_eq_left,
    startsWith_iff]
  generalize lower (strip rest) = low
  by_cases hempty : low = []
  · have hnone : ∀ w ∈ ["expected failure".toList, "unexpected success".toList, "ok".toList,
        "skipped".toList, "error".toList, "fail".toList], ¬ w <+: ([] : Txt) := by decide
    simp only [List.forall_mem_cons] at hnone
    obtain ⟨h₁, h₂, h₃, h₄, h₅, h₆, -⟩ := hnone
    rw [if_pos hempty, hempty, Option.none_or]
    simp only [h₁, h₂, h₃, h₄, h₅, h₆, or_self, false_or, not_false_iff, true_and]
  rw [if_neg hempty]
  exact bad_rest_chain o
    (fun h => ⟨not_begins_of_begins h (by decide) (by decide),
      not_begins_of_begins h (by decide) (by decide),
      not_begins_of_begins h (by decide) (by decide)⟩)
    (fun h => ⟨not_begins_of_begins h (by decide) (by decide),
      not_begins_of_begins h (by decide) (by decide)⟩)
    (fun h => ⟨not_begins_of_begins h (by decide) (by decide),
      not_begins_of_begins h (by decide) (by decide)⟩)

theorem bad_classifyContinuation_iff {line : Txt} (o : Option Bucket) :
    bad ((classifyContinuation line).or o) = true ↔
      LooksFailed line ∨ ¬ LooksOutcome line ∧ bad o = true := by
  have hok : SaysOk line ↔ strip line = "ok".toList ∨ "... ok".toList <:+ strip line ∨
      "... ok".toList <:+: strip line := by
    rw [or_iff_right_of_imp List.IsSuffix.isInfix]
    rfl
  unfold classifyContinuation LooksFailed LooksOutcome
  rw [hok]
  simp only [startsWith_iff, endsWith_iff, contains_eq_true_iff]
  exact bad_continuation_chain o fun h => not_begins_of_begins h (by decide) (by decide)

theorem bad_continued_iff (ls : List Txt) : bad (continued ls) = true ↔ FailsLater ls := by
  induction ls with
  | nil => exact iff_of_true rfl trivial
  | cons l ls ih =>
    unfold continued FailsLater
    cases kindOf l with
    | other =>
      have hclassify : classifyContinuation (strip l) = classifyContinuation l := by
        unfold classifyContinuation
        rw [strip_strip]
      simp only
      rw [hclassify, bad_classifyContinuation_iff, ih]
    | header m => exact iff_of_true rfl trivial
    | ran m => exact iff_of_true rfl trivial
    | failed m => exact iff_of_true rfl trivial
    | started m => exact iff_of_true rfl trivial

theorem lastRead_eq_none_iff {name : Txt} {ls : List Txt} : lastRead name ls = none ↔
    ∀ l ∈ ls, ∀ m, kindOf l = .started m → strip (m.group 1) ≠ name := by
  induction ls with
  | nil => simp [lastRead]
  | cons l ls ih =>
    rw [lastRead, Option.or_eq_none_iff, ih, List.forall_mem_cons, and_comm]
    refine and_congr_left fun _ => ?_
    cases kindOf l with
    | started m =>
      constructor
      · rintro h m' hm' rfl
        cases hm'
        simp at h
      · intro h
        exact if_neg (h m rfl)
    | _ => simp

/-- What is read of a sub-test, by the place of its last header line. -/
theorem lastRead_eq_some_iff {name : Txt} {ls : List Txt} {o : Option Bucket} :
    lastRead name ls = some o ↔ ∃ before l after m, ls = before ++ l :: after ∧
      kindOf l = .started m ∧ strip (m.group 1) = name ∧ lastRead name after = none ∧
        (classifyRest (m.group 2)).or (continued after) = o := by
  induction ls with
  | nil => simp [lastRead]
  | cons l ls ih =>
    rw [lastRead]
    cases hrest : lastRead name ls with
    | some o' =>
      rw [Option.some_or, ← hrest, ih]
      constructor
      · rintro ⟨before, l', after, m, rfl, h⟩
        exact ⟨l :: before, l', after, m, rfl, h⟩
      · rintro ⟨before, l', after, m, heq, hkind, hname, hnone, ho⟩
        cases before with
        | nil =>
          cases heq
          rw [hrest] at hnone
          cases hnone
        | cons _ before =>
          cases heq
          exact ⟨before, l', after, m, rfl, hkind, hname, hnone, ho⟩
    | none =>
      rw [Option.none_or]
      constructor
      · intro h
        cases hkind : kindOf l with
        | started m =>
          rw [hkind] at h
          simp only at h
          split_ifs at h with hname
          exact ⟨[], l, ls, m, rfl, hkind, hname, hrest, Option.some.inj h⟩
        | _ => simp [hkind] at h
      · rintro ⟨before, l', after, m, heq, hkind, hname, hnone, ho⟩
        cases before with
        | nil =>
          cases heq
          simp only [hkind, if_pos hname, ho]
        | cons _ before =>
          cases heq
          have hsome := ih.mpr ⟨before, l', after, m, rfl, hkind, hname, hnone, ho⟩
          rw [hrest] at hsome
          cases hsome

theorem exists_lastRead_iff (ls : List Txt) :
    (∃ name o, lastRead name ls = some o ∧ bad o) ↔ ShowsFailure ls := by
  unfold ShowsFailure
  constructor
  · rintro ⟨name, o, hread, hbad⟩
    obtain ⟨before, l, after, m, heq, hkind, rfl, hnone, rfl⟩ := lastRead_eq_some_iff.mp hread
    refine ⟨before, l, after, m, heq, hkind, lastRead_eq_none_iff.mp hnone, ?_⟩
    rw [← bad_continued_iff]
    exact (bad_classifyRest_iff _).mp hbad
  · rintro ⟨before, l, after, m, heq, hkind, hlast, hfails⟩
    refine ⟨strip (m.group 1), _, lastRead_eq_some_iff.mpr
      ⟨before, l, after, m, heq, hkind, rfl, lastRead_eq_none_iff.mpr hlast, rfl⟩, ?_⟩
    rw [← bad_continued_iff] at hfails
    exact (bad_classifyRest_iff _).mpr hfails

theorem forall_lastRead_iff (ls : List Txt) :
    (∀ name, lastRead name ls = none) ↔ ∀ l ∈ ls, ∀ m, kindOf l ≠ .started m := by
  constructor
  · intro h l hl m hm
    exact lastRead_eq_none_iff.mp (h (strip (m.group 1))) l hl m hm rfl
  · intro h name
    exact lastRead_eq_none_iff.mpr fun l hl m hm => absurd hm (h l hl m)

/-! ## Numbers -/

theorem isDecimal_strip {t : Txt} (h : ∀ c ∈ t, isDecimal c = true) :
    ∀ c ∈ strip t, isDecimal c = true := by
  intro c hc
  rw [strip_eq] at hc
  exact h c ((List.dropWhile_sublist _).subset ((List.rdropWhile_prefix _ _).subset hc))

theorem parseInt_nonneg {t : Txt} (h : ∀ c ∈ t, isDecimal c = true) {n : Int}
    (hn : parseInt t = some n) : 0 ≤ n := by
  unfold parseInt at hn
  split_ifs at hn
  unfold intOfText at hn
  have hminus : ∀ ds, strip t ≠ '-' :: ds := by
    intro ds hds
    have hc := isDecimal_strip h '-' (by rw [hds]; exact .head _)
    exact absurd hc (by decide)
  split at hn
  · obtain ⟨k, hk, rfl⟩ := Option.map_eq_some_iff.mp hn
    obtain ⟨a, -, ha⟩ := Option.bind_eq_some_iff.mp hk
    cases ha
    exact Int.natCast_nonneg a
  · exact absurd ‹_› (hminus _)
  · obtain ⟨k, hk, rfl⟩ := Option.map_eq_some_iff.mp hn
    obtain ⟨a, -, ha⟩ := Option.bind_eq_some_iff.mp hk
    cases ha
    exact Int.natCast_nonneg a

theorem isDecimal_group {r : Re} {p : Pos} {f : Found} {n : Nat} (hf : f ∈ run noWord r p)
    (hbody : ∀ body, (n, body) ∈ groupBodies r → body = plus isDecimal) :
    ∀ c ∈ f.group n, isDecimal c = true := by
  rcases group_matches hf n with hnil | ⟨body, hmem, b, v, hmatch⟩
  · rw [hnil]
    intro c hc
    cases hc
  · rw [hbody body hmem] at hmatch
    exact (matches_plus.mp hmatch).2

theorem isDecimal_numerals {l t : Txt} (ht : t ∈ numerals l) : ∀ c ∈ t, isDecimal c = true := by
  unfold numerals at ht
  split at ht
  · next m hkind =>
    rw [List.mem_singleton.mp ht]
    have hran : ranLine (strip l) = some m := by
      unfold kindOf at hkind
      split at hkind
      · cases hkind
      · split at hkind
        · cases hkind
          assumption
        · split at hkind
          · cases hkind
          · split at hkind <;> cases hkind
    refine isDecimal_group (List.mem_of_mem_head? hran) fun body hbody => ?_
    simpa [groupBodies, ranPattern, cat, plus, opt, lit] using hbody
  · next m hkind =>
    obtain ⟨c, hc, rfl⟩ := List.mem_map.mp ht
    obtain ⟨p, hp⟩ := mem_findAllFrom hc
    refine isDecimal_group hp fun body hbody => ?_
    simpa [groupBodies, countPattern, cat, alts, plus, lit] using hbody
  · cases ht

/-! ## One line -/

def Readable (l : Txt) : Prop := ∀ t ∈ numerals l, (parseInt t).isSome

/-- The line has no count of a failure or an error. -/
def Silent (l : Txt) : Prop := ∀ m, kindOf l = .failed m → ∀ t ∈ numerals l, parseInt t = some 0

def RanNothing (l : Txt) : Prop := ∀ m, kindOf l = .ran m → parseInt (m.group 1) = some 0

theorem addCounts_cons (m : Found) (ms : List Found) (total : Int × Int) :
    addCounts (m :: ms) total = (parseInt (m.group 2)).bind fun n => addCounts ms
      (if m.group 1 = "failures".toList then (total.1 + n, total.2) else (total.1, total.2 + n)) :=
  rfl

theorem addCounts_isSome_iff (ms : List Found) : ∀ total : Int × Int,
    (addCounts ms total).isSome ↔ ∀ m ∈ ms, (parseInt (m.group 2)).isSome := by
  induction ms with
  | nil => simp [addCounts]
  | cons m ms ih =>
    intro total
    rw [addCounts_cons, List.forall_mem_cons]
    cases parseInt (m.group 2) with
    | none =>
      rw [Option.bind_none]
      simp
    | some n =>
      rw [Option.bind_some, ih]
      simp

theorem addCounts_zero_iff {ms : List Found} (hms : ∀ m ∈ ms, ∀ c ∈ m.group 2, isDecimal c = true) :
    ∀ {f e f' e' : Int}, 0 ≤ f → 0 ≤ e → addCounts ms (f, e) = some (f', e') →
      0 ≤ f' ∧ 0 ≤ e' ∧ (f' = 0 ∧ e' = 0 ↔
        (f = 0 ∧ e = 0) ∧ ∀ m ∈ ms, parseInt (m.group 2) = some 0) := by
  induction ms with
  | nil =>
    intro f e f' e' hf he h
    cases h
    exact ⟨hf, he, by simp⟩
  | cons m ms ih =>
    intro f e f' e' hf he h
    obtain ⟨hm, hrest⟩ := List.forall_mem_cons.mp hms
    rw [addCounts_cons] at h
    cases hn : parseInt (m.group 2) with
    | none =>
      rw [hn, Option.bind_none] at h
      cases h
    | some n =>
      have hpos := parseInt_nonneg hm hn
      rw [hn, Option.bind_some] at h
      rw [List.forall_mem_cons, hn, Option.some_inj]
      by_cases hkind : m.group 1 = "failures".toList
      · rw [if_pos hkind] at h
        obtain ⟨hf', he', hiff⟩ := ih hrest (Int.add_nonneg hf hpos) he h
        refine ⟨hf', he', ?_⟩
        rw [hiff]
        constructor
        · rintro ⟨⟨h₁, h₂⟩, h₃⟩
          exact ⟨⟨by omega, h₂⟩, by omega, h₃⟩
        · rintro ⟨⟨h₁, h₂⟩, h₃, h₄⟩
          exact ⟨⟨by omega, h₂⟩, h₄⟩
      · rw [if_neg hkind] at h
        obtain ⟨hf', he', hiff⟩ := ih hrest hf (Int.add_nonneg he hpos) h
        refine ⟨hf', he', ?_⟩
        rw [hiff]
        constructor
        · rintro ⟨⟨h₁, h₂⟩, h₃⟩
          exact ⟨⟨h₁, by omega⟩, by omega, h₃⟩
        · rintro ⟨⟨h₁, h₂⟩, h₃, h₄⟩
          exact ⟨⟨h₁, by omega⟩, h₄⟩

/-- What each kind of line does. -/
theorem step_kind (s : State) (raw : Txt) : step s raw =
    match kindOf raw with
    | .header m =>
      if m.group 1 = "FAIL".toList then
        some { s with failNames := s.failNames ++ [strip (m.group 2)], pending := none }
      else some { s with errorNames := s.errorNames ++ [strip (m.group 2)], pending := none }
    | .ran m =>
      (parseInt (m.group 1)).map fun n => { s with ranTotal := s.ranTotal + n, pending := none }
    | .failed m =>
      (addCounts (findAll noWord countPattern (m.group 1)) (s.summaryFailures, s.summaryErrors)).map
        fun c => { s with summaryFailures := c.1, summaryErrors := c.2, pending := none }
    | .started m => some (s.began (strip (m.group 1)) (classifyRest (m.group 2)))
    | .other =>
      match s.pending with
      | some name =>
        match classifyContinuation (strip raw) with
        | some outcome =>
          some { s with parsed := assign name (some outcome) s.parsed, pending := none }
        | none => some s
      | none => some s := by
  unfold step kindOf
  cases hheader : headerLine (strip raw) with
  | some m => simp only [hheader]
  | none =>
    cases hran : ranLine (strip raw) with
    | some m =>
      simp only [hheader, hran]
      cases parseInt (m.group 1) with
      | none => rfl
      | some n => rfl
    | none =>
      cases hfailed : failedLine (strip raw) with
      | some m =>
        simp only [hheader, hran, hfailed]
        cases addCounts (findAll noWord countPattern (m.group 1))
          (s.summaryFailures, s.summaryErrors) with
        | none => rfl
        | some c => rfl
      | none =>
        cases hstart : startLine (strip raw) with
        | some m =>
          simp only [hheader, hran, hfailed, hstart]
          rfl
        | none =>
          cases s.pending with
          | none => simp only [hheader, hran, hfailed, hstart]
          | some name =>
            cases hcont : classifyContinuation (strip raw) with
            | none => simp only [hheader, hran, hfailed, hstart, hcont]
            | some outcome => simp only [hheader, hran, hfailed, hstart, hcont]

theorem step_isSome_iff (s : State) (raw : Txt) : (step s raw).isSome ↔ Readable raw := by
  rw [step_kind]
  unfold Readable numerals
  cases kindOf raw with
  | header m =>
    simp only
    split_ifs <;> simp
  | ran m => simp
  | failed m => simp [addCounts_isSome_iff]
  | started m => simp
  | other =>
    simp only
    split
    · split <;> simp
    · simp

/-! ## The dictionary -/

theorem lookup_cons_ite (p : Txt × Option Bucket) (ps : Parsed) (name : Txt) :
    List.lookup name (p :: ps) = if name = p.1 then some p.2 else ps.lookup name := by
  rw [List.lookup_cons]
  by_cases h : name = p.1
  · rw [if_pos h, beq_iff_eq.mpr h]
  · rw [if_neg h, beq_eq_false_iff_ne.mpr h]

theorem lookup_assign (name other : Txt) (o : Option Bucket) (ps : Parsed) :
    (assign name o ps).lookup other = if other = name then some o else ps.lookup other := by
  induction ps with
  | nil => exact lookup_cons_ite (name, o) [] other
  | cons p ps ih =>
    rw [assign]
    by_cases hp : p.1 = name
    · rw [if_pos hp, lookup_cons_ite, lookup_cons_ite, hp]
      split_ifs <;> rfl
    · rw [if_neg hp, lookup_cons_ite, lookup_cons_ite, ih]
      by_cases h : other = p.1
      · rw [if_pos h, if_neg (by rw [h]; exact hp), if_pos h]
      · rw [if_neg h, if_neg h]

/-- What becomes of the dictionary. -/
theorem foldlM_lookup (ls : List Txt) (name : Txt) : ∀ {s s' : State}, ls.foldlM step s = some s' →
    s'.parsed.lookup name =
      ((lastRead name ls).or
        (if s.pending = some name then (continued ls).map some else none)).or
          (s.parsed.lookup name) := by
  induction ls with
  | nil =>
    intro s s' h
    cases h
    simp [lastRead, continued]
  | cons l ls ih =>
    intro s s' h
    rw [List.foldlM_cons] at h
    obtain ⟨s₁, hstep, hrun⟩ := Option.bind_eq_some_iff.mp h
    rw [ih hrun, lastRead, continued]
    rw [step_kind] at hstep
    cases hkind : kindOf l with
    | header m =>
      simp only [hkind] at hstep
      split_ifs at hstep <;> cases hstep <;> simp
    | ran m =>
      simp only [hkind] at hstep
      obtain ⟨n, -, rfl⟩ := Option.map_eq_some_iff.mp hstep
      simp
    | failed m =>
      simp only [hkind] at hstep
      obtain ⟨c, -, rfl⟩ := Option.map_eq_some_iff.mp hstep
      simp
    | started m =>
      simp only [hkind, Option.some.injEq] at hstep
      subst hstep
      simp only [State.began, lookup_assign]
      by_cases hname : name = strip (m.group 1)
      · subst hname
        cases lastRead (strip (m.group 1)) ls with
        | some o => simp
        | none =>
          cases classifyRest (m.group 2) with
          | some o => simp
          | none =>
            cases continued ls with
            | some o => simp
            | none => simp
      · have hother : ¬ strip (m.group 1) = name := fun h => hname h.symm
        simp only [if_neg hname, if_neg hother]
        by_cases hnone : (classifyRest (m.group 2)).isNone = true
        · simp [hnone, hother]
        · simp [hnone]
    | other =>
      simp only [hkind] at hstep
      cases hpending : s.pending with
      | none =>
        rw [hpending] at hstep
        cases hstep
        simp [hpending]
      | some other =>
        rw [hpending] at hstep
        cases hclassify : classifyContinuation (strip l) with
        | none =>
          simp only [hclassify] at hstep
          cases hstep
          simp [hpending]
        | some outcome =>
          simp only [hclassify, Option.some.injEq] at hstep
          subst hstep
          simp only [lookup_assign]
          by_cases hname : name = other
          · subst hname
            simp
          · have hother : ¬ other = name := fun h => hname h.symm
            simp [hname, hother]

theorem keys_assign (name : Txt) (o : Option Bucket) (ps : Parsed) :
    (assign name o ps).map Prod.fst = ps.map Prod.fst ∨
      name ∉ ps.map Prod.fst ∧ (assign name o ps).map Prod.fst = ps.map Prod.fst ++ [name] := by
  by_cases h : name ∈ ps.map Prod.fst
  · left
    induction ps with
    | nil => cases h
    | cons p ps ih =>
      rw [assign]
      by_cases hp : p.1 = name
      · rw [if_pos hp, List.map_cons, List.map_cons, hp]
      · rw [if_neg hp, List.map_cons, List.map_cons, ih]
        rcases List.mem_cons.mp h with rfl | h
        · exact absurd rfl hp
        · exact h
  · right
    rw [assign_fresh h, List.map_append]
    exact ⟨h, rfl⟩

theorem nodup_assign {name : Txt} {o : Option Bucket} {ps : Parsed}
    (h : (ps.map Prod.fst).Nodup) : ((assign name o ps).map Prod.fst).Nodup := by
  rcases keys_assign name o ps with hkeys | ⟨hfresh, hkeys⟩
  · rw [hkeys]
    exact h
  · rw [hkeys, List.nodup_append]
    refine ⟨h, List.nodup_singleton _, ?_⟩
    intro a ha b hb
    rw [List.mem_singleton.mp hb]
    rintro rfl
    exact hfresh ha

theorem mem_iff_lookup {ps : Parsed} (h : (ps.map Prod.fst).Nodup) {name : Txt}
    {o : Option Bucket} : (name, o) ∈ ps ↔ ps.lookup name = some o := by
  induction ps with
  | nil => simp
  | cons p ps ih =>
    rw [List.map_cons, List.nodup_cons] at h
    rw [lookup_cons_ite, List.mem_cons, ih h.2]
    by_cases hname : name = p.1
    · rw [if_pos hname, Option.some_inj]
      constructor
      · rintro (hp | hlookup)
        · rw [← hp]
        · have hmem := List.mem_map_of_mem (f := Prod.fst) ((ih h.2).mpr hlookup)
          exact absurd (hname ▸ hmem) h.1
      · intro ho
        exact .inl (by rw [hname, ← ho])
    · rw [if_neg hname]
      constructor
      · rintro (hp | hlookup)
        · exact absurd (congrArg Prod.fst hp) hname
        · exact hlookup
      · exact .inr

/-! ## The counters -/

/-- What holds of the variables after the lines `ls`. -/
structure Counted (ls : List Txt) (s : State) : Prop where
  nodup : (s.parsed.map Prod.fst).Nodup
  failures_nonneg : 0 ≤ s.summaryFailures
  errors_nonneg : 0 ≤ s.summaryErrors
  ran_nonneg : 0 ≤ s.ranTotal
  counts_iff : (s.summaryFailures = 0 ∧ s.summaryErrors = 0) ↔ ∀ l ∈ ls, Silent l
  ran_iff : s.ranTotal = 0 ↔ ∀ l ∈ ls, RanNothing l

theorem counted_start : Counted [] start :=
  ⟨List.nodup_nil, le_refl _, le_refl _, le_refl _, by simp [start], by simp [start]⟩

/-- A line without counts. -/
theorem Counted.quiet {ls : List Txt} {s s' : State} {l : Txt} (h : Counted ls s)
    (hfailed : ∀ m, kindOf l ≠ .failed m) (hran : ∀ m, kindOf l ≠ .ran m)
    (hparsed : (s'.parsed.map Prod.fst).Nodup) (hf : s'.summaryFailures = s.summaryFailures)
    (he : s'.summaryErrors = s.summaryErrors) (hr : s'.ranTotal = s.ranTotal) :
    Counted (ls ++ [l]) s' := by
  have hsilent : Silent l := fun m hm => absurd hm (hfailed m)
  have hnothing : RanNothing l := fun m hm => absurd hm (hran m)
  refine ⟨hparsed, hf ▸ h.failures_nonneg, he ▸ h.errors_nonneg, hr ▸ h.ran_nonneg, ?_, ?_⟩
  · rw [hf, he, h.counts_iff, List.forall_mem_append, List.forall_mem_singleton]
    exact (and_iff_left hsilent).symm
  · rw [hr, h.ran_iff, List.forall_mem_append, List.forall_mem_singleton]
    exact (and_iff_left hnothing).symm

/-- `Ran n tests`. -/
theorem Counted.ran {ls : List Txt} {s : State} {l : Txt} {m : Found} (h : Counted ls s)
    (hkind : kindOf l = .ran m) {n : Int} (hn : parseInt (m.group 1) = some n) :
    Counted (ls ++ [l]) { s with ranTotal := s.ranTotal + n, pending := none } := by
  have hmem : m.group 1 ∈ numerals l := by
    unfold numerals
    rw [hkind]
    exact .head _
  have hpos := parseInt_nonneg (isDecimal_numerals hmem) hn
  have hran := h.ran_nonneg
  have hsilent : Silent l := fun m' hm' => by cases hkind.symm.trans hm'
  have hnothing : RanNothing l ↔ n = 0 := by
    unfold RanNothing
    rw [hkind]
    constructor
    · intro hall
      exact Option.some.inj (hn.symm.trans (hall m rfl))
    · rintro rfl m' hm'
      cases hm'
      exact hn
  refine ⟨h.nodup, h.failures_nonneg, h.errors_nonneg, Int.add_nonneg hran hpos, ?_, ?_⟩
  · rw [List.forall_mem_append, List.forall_mem_singleton, ← h.counts_iff]
    exact (and_iff_left hsilent).symm
  · rw [List.forall_mem_append, List.forall_mem_singleton, ← h.ran_iff, hnothing]
    constructor
    · intro hsum
      have hsum : s.ranTotal + n = 0 := hsum
      exact ⟨by omega, by omega⟩
    · rintro ⟨hzero, rfl⟩
      simpa using hzero

/-- `FAILED` with its counts. -/
theorem Counted.failed {ls : List Txt} {s : State} {l : Txt} {m : Found} (h : Counted ls s)
    (hkind : kindOf l = .failed m) {c : Int × Int}
    (hcounts : addCounts (findAll noWord countPattern (m.group 1))
      (s.summaryFailures, s.summaryErrors) = some c) :
    Counted (ls ++ [l])
      { s with summaryFailures := c.1, summaryErrors := c.2, pending := none } := by
  have hnumerals : numerals l =
      (findAll noWord countPattern (m.group 1)).map fun c => c.group 2 := by
    unfold numerals
    rw [hkind]
  have hdecimal : ∀ c ∈ findAll noWord countPattern (m.group 1), ∀ x ∈ c.group 2,
      isDecimal x = true := by
    intro c hc
    apply isDecimal_numerals (l := l)
    rw [hnumerals]
    exact List.mem_map_of_mem hc
  obtain ⟨hf, he, hiff⟩ :=
    addCounts_zero_iff hdecimal h.failures_nonneg h.errors_nonneg hcounts
  have hnothing : RanNothing l := fun m' hm' => by cases hkind.symm.trans hm'
  refine ⟨h.nodup, hf, he, h.ran_nonneg, ?_, ?_⟩
  · rw [hiff, h.counts_iff, List.forall_mem_append, List.forall_mem_singleton]
    refine and_congr_right fun _ => ?_
    unfold Silent
    rw [hnumerals, hkind]
    constructor
    · intro hall m' _ t ht
      obtain ⟨c, hc, rfl⟩ := List.mem_map.mp ht
      exact hall c hc
    · intro hall c hc
      exact hall m rfl _ (List.mem_map_of_mem hc)
  · rw [List.forall_mem_append, List.forall_mem_singleton, ← h.ran_iff]
    exact (and_iff_left hnothing).symm

theorem Counted.step {ls : List Txt} {s s' : State} {l : Txt} (h : Counted ls s)
    (hstep : step s l = some s') : Counted (ls ++ [l]) s' := by
  rw [step_kind] at hstep
  cases hkind : kindOf l with
  | header m =>
    simp only [hkind] at hstep
    split_ifs at hstep
    · cases hstep
      exact h.quiet (by simp [hkind]) (by simp [hkind]) h.nodup rfl rfl rfl
    · cases hstep
      exact h.quiet (by simp [hkind]) (by simp [hkind]) h.nodup rfl rfl rfl
  | ran m =>
    simp only [hkind] at hstep
    obtain ⟨n, hn, rfl⟩ := Option.map_eq_some_iff.mp hstep
    exact h.ran hkind hn
  | failed m =>
    simp only [hkind] at hstep
    obtain ⟨c, hcounts, rfl⟩ := Option.map_eq_some_iff.mp hstep
    exact h.failed hkind hcounts
  | started m =>
    simp only [hkind, Option.some.injEq] at hstep
    subst hstep
    exact h.quiet (by simp [hkind]) (by simp [hkind]) (nodup_assign h.nodup) rfl rfl rfl
  | other =>
    simp only [hkind] at hstep
    split at hstep
    · split at hstep
      · cases hstep
        exact h.quiet (by simp [hkind]) (by simp [hkind]) (nodup_assign h.nodup) rfl rfl rfl
      · cases hstep
        exact h.quiet (by simp [hkind]) (by simp [hkind]) h.nodup rfl rfl rfl
    · cases hstep
      exact h.quiet (by simp [hkind]) (by simp [hkind]) h.nodup rfl rfl rfl

theorem Counted.run {ls' : List Txt} : ∀ {ls : List Txt} {s s' : State}, Counted ls s →
    ls'.foldlM Apex.step s = some s' → Counted (ls ++ ls') s' := by
  induction ls' with
  | nil =>
    intro ls s s' h hrun
    cases hrun
    rw [List.append_nil]
    exact h
  | cons l ls' ih =>
    intro ls s s' h hrun
    rw [List.foldlM_cons] at hrun
    obtain ⟨s₁, hstep, hrun⟩ := Option.bind_eq_some_iff.mp hrun
    rw [List.append_cons]
    exact ih (h.step hstep) hrun

theorem foldlM_isSome_iff (ls : List Txt) : ∀ s : State,
    (ls.foldlM step s).isSome ↔ ∀ l ∈ ls, Readable l := by
  induction ls with
  | nil =>
    intro s
    simp
  | cons l ls ih =>
    intro s
    rw [List.foldlM_cons, List.forall_mem_cons, ← step_isSome_iff s l]
    cases step s l with
    | none => simp
    | some s' => simpa using ih s'

/-! ## The summary -/

theorem aggregate_ranTotal (s : State) : (aggregate s).ranTotal = s.ranTotal := by
  have htally (ps : Parsed) : ∀ x : ApexRunSummary, (ps.foldl tally x).ranTotal = x.ranTotal := by
    induction ps with
    | nil => exact fun x => rfl
    | cons p ps ih =>
      intro x
      rw [List.foldl_cons, ih]
      obtain ⟨name, o⟩ := p
      rcases o with _ | (_ | _ | _ | _ | _) <;> rfl
  unfold aggregate
  simp only
  split_ifs <;> exact htally s.parsed _

theorem entries_eq_zero_iff {o : Option Bucket} {ps : Parsed} :
    entries o ps = 0 ↔ ∀ p ∈ ps, p.2 ≠ o := by
  unfold entries
  rw [List.countP_eq_zero]
  simp only [decide_eq_true_eq]

theorem not_bad_iff {ps : Parsed} : (∀ p ∈ ps, bad p.2 = false) ↔
    entries (some .fail) ps = 0 ∧ entries (some .error) ps + entries none ps = 0 := by
  rw [Nat.add_eq_zero_iff, entries_eq_zero_iff, entries_eq_zero_iff, entries_eq_zero_iff]
  constructor
  · intro h
    refine ⟨fun p hp ho => ?_, fun p hp ho => ?_, fun p hp ho => ?_⟩
    all_goals
      have hbad := h p hp
      rw [ho] at hbad
      cases hbad
  · rintro ⟨hfail, herror, hnone⟩ p hp
    unfold bad
    simp [hfail p hp, herror p hp, hnone p hp]

theorem isClean_iff {ls : List Txt} {s : State} (h : Counted ls s) :
    (aggregate s).isClean = true ↔ (∀ p ∈ s.parsed, bad p.2 = false) ∧
      (s.summaryFailures = 0 ∧ s.summaryErrors = 0) ∧ (s.parsed ≠ [] ∨ s.ranTotal ≠ 0) := by
  obtain ⟨hpass, hskip, hxfail, -, hcounts⟩ := aggregate_eq s
  have htotal := entries_total s.parsed
  have hran := h.ran_nonneg
  have hlen : s.parsed ≠ [] ↔ 0 < s.parsed.length := List.length_pos_iff.symm
  unfold ApexRunSummary.isClean ApexRunSummary.total
  rw [aggregate_ranTotal, not_bad_iff, hlen]
  simp only [Bool.and_eq_true, Bool.or_eq_true, decide_eq_true_eq]
  split_ifs at hcounts with hgood
  · omega
  · omega

/-- A module that reports a failure is never clean exactly if its text can be read and the
failure is counted or seen, or nothing ran. -/
theorem neverClean_iff (text : Txt) :
    NeverClean text ↔ (ReportsFailure text → Detected text) := by
  unfold NeverClean parseUnittestOutput
  refine forall_congr' fun _ => ?_
  have hsome := foldlM_isSome_iff (splitlines text) start
  constructor
  · rintro ⟨x, hx, hclean⟩
    obtain ⟨s, hrun, rfl⟩ := Option.map_eq_some_iff.mp hx
    have hcounted := counted_start.run hrun
    rw [List.nil_append] at hcounted
    refine ⟨hsome.mp (by rw [hrun]; rfl), ?_⟩
    by_contra hshown
    rw [← exists_lastRead_iff, NothingRan, ← forall_lastRead_iff, CountsFailure] at hshown
    simp only [not_or, not_and, not_exists] at hshown
    obtain ⟨hsilent, hgood, hran⟩ := hshown
    have hlookup (name : Txt) : s.parsed.lookup name = lastRead name (splitlines text) := by
      rw [foldlM_lookup _ name hrun]
      simp [start]
    apply Bool.eq_false_iff.mp hclean
    rw [isClean_iff hcounted, hcounted.counts_iff, Ne, Ne, hcounted.ran_iff]
    refine ⟨?_, ?_, ?_⟩
    · rintro ⟨name, o⟩ hp
      rw [mem_iff_lookup hcounted.nodup, hlookup] at hp
      exact Bool.eq_false_iff.mpr (hgood name o hp)
    · intro l hl m hm t ht
      by_contra hne
      exact hsilent l hl m hm t ht hne
    · by_contra hnothing
      simp only [not_or, not_not] at hnothing
      refine hran (fun name => ?_) fun l hl m hm => hnothing.2 l hl m hm
      rw [← hlookup, hnothing.1]
      rfl
  · intro h
    obtain ⟨s, hrun⟩ := Option.isSome_iff_exists.mp (hsome.mpr h.readable)
    have hcounted := counted_start.run hrun
    rw [List.nil_append] at hcounted
    have hlookup (name : Txt) : s.parsed.lookup name = lastRead name (splitlines text) := by
      rw [foldlM_lookup _ name hrun]
      simp [start]
    refine ⟨aggregate s, by rw [hrun]; rfl, ?_⟩
    rw [Bool.eq_false_iff, Ne, isClean_iff hcounted, hcounted.counts_iff, Ne, Ne, hcounted.ran_iff]
    rintro ⟨hgood, hsilent, hran⟩
    have hshown := h.shown
    rw [← exists_lastRead_iff, NothingRan, ← forall_lastRead_iff] at hshown
    rcases hshown with ⟨l, hl, m, hm, t, ht, hne⟩ | ⟨name, o, hread, hbad⟩ | ⟨hnone, hnothing⟩
    · exact hne (hsilent l hl m hm t ht)
    · rw [← hlookup, ← mem_iff_lookup hcounted.nodup] at hread
      have hfalse := hgood _ hread
      rw [hbad] at hfalse
      cases hfalse
    · rcases hran with hran | hran
      · obtain ⟨⟨name, o⟩, ps, hps⟩ := List.exists_cons_of_ne_nil hran
        have hread := (@mem_iff_lookup _ hcounted.nodup name o).mp (by rw [hps]; exact .head _)
        rw [hlookup, hnone] at hread
        cases hread
      · exact hran fun l hl m hm => hnothing l hl m hm

/-- A run that is not verbose and whose only failure is an unexpected success. -/
theorem unexpected_success_clean :
    ¬ NeverClean "Ran 2 tests in 0.1s\nFAILED (unexpected successes=1)".toList := by
  intro h
  obtain ⟨x, hx, hclean⟩ :=
    h ⟨"FAILED (unexpected successes=1)".toList, by decide, .inl (by decide)⟩
  have hparse : (parseUnittestOutput
      "Ran 2 tests in 0.1s\nFAILED (unexpected successes=1)".toList).map
      ApexRunSummary.isClean = some true := by decide
  rw [hx, Option.map_some, hclean] at hparse
  cases hparse

end Apex
end RocmTests

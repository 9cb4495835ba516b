import Mathlib.Data.Prod.Lex
import RocmTests.Collections.Partial
import RocmTests.Text.Numeral
import RocmTests.Text.RegexCapture
import RocmTests.Text.Strptime

/-!
# The order in which wheels are tried

`_rank_torch_versions` puts the versions of `torch` that an index offers in the order in which they
are tried.  The ROCm version of the node is the hint: a wheel built for it comes first, then the
wheels of its family, then those of others, then those without ROCm.

A hint that is a build number is replaced by the latest dated ROCm version of its family that the
index offers.  These versions are a set; a list of them stands for the order in which it is walked.
-/

namespace RocmTests
namespace Provisioning
namespace Wheels

open Collections Text Text.Re
open Markers (digitValue)
open Text.Calendar (isDigit)

/-- No pattern asks for a word boundary. -/
def noWord (_ : Char) : Bool := false

def isAsciiDigit (c : Char) : Bool := c.isDigit

/-- `[A-Za-z0-9.]`. -/
def isTagChar (c : Char) : Bool := c.isAlphanum || c = '.'

/-- The first group of the first match. -/
def captured (r : Re) (t : Txt) : Option Txt :=
  (searchFrom noWord r [] t).map fun m => m.2.group 1

/-- `\+rocm([0-9][A-Za-z0-9.]*)`. -/
def rocmTag : Re := cat [lit "+rocm", group 1 (seq (cls isAsciiDigit) (star isTagChar))]

/-- `(?:a|b|rc)\d*`. -/
def prerelease : Re := cat [alts [lit "a", lit "b", lit "rc"], star isDigit]

/-- `(?:a|~)(\d{8})`. -/
def buildDate : Re :=
  cat [alts [lit "a", lit "~"], group 1 (cat ((List.replicate 8 isDigit).map cls))]

/-- `\d+`. -/
def numeral : Re := group 1 (plus isDigit)

/-- `_BUILD_NUM_VERSION_RE`. -/
def buildNumVersion : Re :=
  cat [plus isDigit, lit ".", plus isDigit, lit ".",
    cat ((List.replicate 5 isDigit).map cls), star isDigit]

/-- `_torch_rocm_version`. -/
def torchRocmVersion (version : Txt) : Txt := (captured rocmTag version).getD []

/-- `_torch_core_is_prerelease`. -/
def torchCoreIsPrerelease (version : Txt) : Bool :=
  search noWord prerelease (version.takeWhile (· ≠ '+'))

def numerals (version : Txt) : List Txt := (findAll noWord numeral version).map (·.group 1)

/-- `_numeric_parts`; `none` is a `ValueError` of `int`. -/
def numericParts (version : Txt) : Option (List Int) := (numerals version).mapM parseInt

/-- `_rocm_family`. -/
def rocmFamily (version : Txt) : Option (Option (Int × Int)) :=
  (numericParts version).map fun
    | a :: b :: _ => some (a, b)
    | _ => none

/-- `_rocm_build_date`. -/
def rocmBuildDate (version : Txt) : Int := ((captured buildDate version).bind parseInt).getD 0

/-- `_pad_parts`. -/
def padParts (parts : List Int) : List Int := parts ++ List.replicate (5 - parts.length) 0

/-- Compared from the left. -/
abbrev Score := ℤ ×ₗ ℤ ×ₗ ℤ ×ₗ ℤ ×ₗ ℤ

def score (a b c d : Int) (index : Nat) : Score :=
  toLex (a, toLex (b, toLex (c, toLex (d, (index : Int)))))

def flag (b : Bool) : Int := if b then 1 else 0

/-- `_torch_version_score`. -/
def torchVersionScore (version rocmHint : Txt) (index : Nat) : Option Score :=
  let torchRocm := torchRocmVersion version
  let prereleasePenalty := flag (torchCoreIsPrerelease version)
  if rocmHint = [] then some (score 0 prereleasePenalty 0 0 index)
  else if torchRocm = rocmHint then some (score 0 prereleasePenalty 0 0 index)
  else if torchRocm = [] then some (score 4 1 prereleasePenalty 0 index)
  else do
    let hintFamily ← rocmFamily rocmHint
    let torchFamily ← rocmFamily torchRocm
    if hintFamily ≠ none ∧ torchFamily = hintFamily then
      let hintDate := rocmBuildDate rocmHint
      let torchDate := rocmBuildDate torchRocm
      if hintDate ≠ 0 ∧ torchDate ≠ 0 then
        some (score 1 (flag (hintDate < torchDate)) prereleasePenalty |torchDate - hintDate| index)
      else some (score 1 prereleasePenalty 0 0 index)
    else do
      let torchParts ← numericParts torchRocm
      let hintParts ← numericParts rocmHint
      let distance :=
        (List.zipWith (fun l r => |l - r|) (padParts torchParts) (padParts hintParts)).sum
      some (score 3 prereleasePenalty 0 distance index)

/-- Whether the hint is an undated build number. -/
def isBuildNumber (rocmHint : Txt) : Bool :=
  rocmHint ≠ [] && rocmBuildDate rocmHint = 0 && (matchToEnd noWord buildNumVersion rocmHint).isSome

/-- `max` with a key: the first of the largest. -/
def maxBy (key : Txt → Int) : List Txt → Option Txt
  | [] => none
  | v :: vs => some (vs.foldl (fun m w => if key m < key w then w else m) v)

/-- The first part of `_rank_torch_versions`: the effective hint. -/
def effectiveHint (rocmHint : Txt) (rocmVersions : List Txt) : Option Txt :=
  if isBuildNumber rocmHint then do
    match ← rocmFamily rocmHint with
    | none => some rocmHint
    | some hintFamily => do
      let families ← rocmVersions.mapM rocmFamily
      let familyCandidates := ((rocmVersions.zip families).filter fun v =>
        v.2 = some hintFamily && rocmBuildDate v.1 ≠ 0).map (·.1)
      some ((maxBy rocmBuildDate familyCandidates).getD rocmHint)
  else some rocmHint

def usable (rocmVersions : List Txt) (version : Txt) : Bool :=
  torchRocmVersion version = [] || rocmVersions.isEmpty ||
    rocmVersions.contains (torchRocmVersion version)

/-- `_rank_torch_versions`.  All keys are computed before any two are compared. -/
def rankTorchVersions (versions : List Txt) (rocmHint : Txt) (rocmVersions : List Txt) :
    Option (List Txt) := do
  let hint ← effectiveHint rocmHint rocmVersions
  let keyed ← (versions.filter (usable rocmVersions)).mapM fun version =>
    (torchVersionScore version hint (versions.idxOf version)).map fun key => (key, version)
  some ((keyed.mergeSort fun a b => a.1 ≤ b.1).map (·.2))

/-! ## Numbers in a version -/

/-- No number is too long for `int`. -/
def Short (version : Txt) : Prop := ∀ t ∈ numerals version, t.length ≤ intMaxStrDigits

theorem digits_of_numerals {version t : Txt} (h : t ∈ numerals version) :
    t ≠ [] ∧ ∀ c ∈ t, (digitValue c).isSome := by
  obtain ⟨f, hf, rfl⟩ := List.mem_map.mp h
  obtain ⟨b, m, v, hat⟩ := foundAt_of_mem_findAll hf
  obtain ⟨g, hg, hm⟩ := captures_group hat.captures
  have hgroup : f.group 1 = m := by
    rw [Found.group, hg]
    rfl
  rw [hgroup]
  exact matches_plus.mp hm.matches

theorem numericParts_eq_none_iff {version : Txt} :
    numericParts version = none ↔ ¬ Short version := by
  unfold numericParts Short
  rw [mapM_eq_none_iff]
  simp only [not_forall, exists_prop]
  refine exists_congr fun t => and_congr_right fun ht => ?_
  obtain ⟨hne, hdigits⟩ := digits_of_numerals ht
  rw [← parseInt_isSome_iff hne hdigits, Option.not_isSome_iff_eq_none]

theorem rocmFamily_eq_none_iff {version : Txt} : rocmFamily version = none ↔ ¬ Short version := by
  rw [rocmFamily, Option.map_eq_none_iff, numericParts_eq_none_iff]

/-- The family as it is where `int` does not fail. -/
def familyOf (version : Txt) : Option (Int × Int) := (rocmFamily version).getD none

theorem rocmFamily_of_short {version : Txt} (h : Short version) :
    rocmFamily version = some (familyOf version) := by
  unfold familyOf
  cases hfamily : rocmFamily version with
  | none => exact absurd h (rocmFamily_eq_none_iff.mp hfamily)
  | some f => rfl

theorem exists_parts_of_short {version : Txt} (h : Short version) :
    ∃ parts, numericParts version = some parts := by
  cases hparts : numericParts version with
  | none => exact absurd h (numericParts_eq_none_iff.mp hparts)
  | some parts => exact ⟨parts, rfl⟩

/-! ## Scores -/

theorem score_le_iff {a b c d a' b' c' d' : Int} {i i' : Nat} :
    score a b c d i ≤ score a' b' c' d' i' ↔ a < a' ∨ a = a' ∧ (b < b' ∨ b = b' ∧ (c < c' ∨
      c = c' ∧ (d < d' ∨ d = d' ∧ i ≤ i'))) := by
  unfold score
  simp only [Prod.Lex.toLex_le_toLex, Int.ofNat_le]

theorem score_lt_iff {a b c d a' b' c' d' : Int} {i i' : Nat} :
    score a b c d i < score a' b' c' d' i' ↔ a < a' ∨ a = a' ∧ (b < b' ∨ b = b' ∧ (c < c' ∨
      c = c' ∧ (d < d' ∨ d = d' ∧ i < i'))) := by
  unfold score
  simp only [Prod.Lex.toLex_lt_toLex, Int.ofNat_lt]

/-- A wheel of the family of the hint. -/
def SameFamily (hint version : Txt) : Prop :=
  ∃ f, rocmFamily hint = some (some f) ∧ rocmFamily (torchRocmVersion version) = some (some f)

def preOf (version : Txt) : Int := flag (torchCoreIsPrerelease version)

def dateOf (version : Txt) : Int := rocmBuildDate (torchRocmVersion version)

/-- How far the numbers of a wheel's ROCm version are from those of the hint. -/
def distanceOf (hint version : Txt) : Int :=
  (List.zipWith (fun l r => |l - r|) (padParts ((numericParts (torchRocmVersion version)).getD []))
    (padParts ((numericParts hint).getD []))).sum

/-- What a score can be. -/
theorem score_cases {v hint : Txt} {i : Nat} {k : Score} (hne : hint ≠ [])
    (h : torchVersionScore v hint i = some k) :
    torchRocmVersion v = hint ∧ k = score 0 (preOf v) 0 0 i ∨
      torchRocmVersion v ≠ hint ∧
        ((SameFamily hint v ∧
            (rocmBuildDate hint ≠ 0 ∧ dateOf v ≠ 0 ∧
                k = score 1 (flag (rocmBuildDate hint < dateOf v)) (preOf v)
                  |dateOf v - rocmBuildDate hint| i ∨
              (rocmBuildDate hint = 0 ∨ dateOf v = 0) ∧ k = score 1 (preOf v) 0 0 i)) ∨
          ¬ SameFamily hint v ∧
            (torchRocmVersion v = [] ∧ k = score 4 1 (preOf v) 0 i ∨
              torchRocmVersion v ≠ [] ∧ k = score 3 (preOf v) 0 (distanceOf hint v) i)) := by
  unfold torchVersionScore at h
  simp only [if_neg hne] at h
  by_cases hexact : torchRocmVersion v = hint
  · rw [if_pos hexact] at h
    exact Or.inl ⟨hexact, (Option.some.inj h).symm⟩
  · right
    refine ⟨hexact, ?_⟩
    rw [if_neg hexact] at h
    by_cases hnone : torchRocmVersion v = []
    · rw [if_pos hnone] at h
      refine Or.inr ⟨fun ⟨f, _, hf⟩ => ?_, Or.inl ⟨hnone, (Option.some.inj h).symm⟩⟩
      have hnil : rocmFamily [] = some none := rfl
      rw [hnone, hnil] at hf
      cases hf
    · rw [if_neg hnone] at h
      obtain ⟨hintFamily, hhint, h₁⟩ := Option.bind_eq_some_iff.mp h
      obtain ⟨torchFamily, htorch, h₂⟩ := Option.bind_eq_some_iff.mp h₁
      clear h h₁
      by_cases hfamily : hintFamily ≠ none ∧ torchFamily = hintFamily
      · rw [if_pos hfamily] at h₂
        obtain ⟨f, rfl⟩ := Option.ne_none_iff_exists'.mp hfamily.1
        rw [hfamily.2] at htorch
        refine Or.inl ⟨⟨f, hhint, htorch⟩, ?_⟩
        by_cases hdates : rocmBuildDate hint ≠ 0 ∧ rocmBuildDate (torchRocmVersion v) ≠ 0
        · rw [if_pos hdates] at h₂
          exact Or.inl ⟨hdates.1, hdates.2, (Option.some.inj h₂).symm⟩
        · rw [if_neg hdates] at h₂
          refine Or.inr ⟨?_, (Option.some.inj h₂).symm⟩
          rw [not_and_or, not_not, not_not] at hdates
          exact hdates
      · rw [if_neg hfamily] at h₂
        obtain ⟨torchParts, htorchParts, h₃⟩ := Option.bind_eq_some_iff.mp h₂
        obtain ⟨hintParts, hhintParts, h₄⟩ := Option.bind_eq_some_iff.mp h₃
        have hdistance : k = score 3 (preOf v) 0 (distanceOf hint v) i := by
          rw [distanceOf, htorchParts, hhintParts]
          exact (Option.some.inj h₄).symm
        refine Or.inr ⟨fun ⟨f, hf, hf'⟩ => hfamily ?_, Or.inr ⟨hnone, hdistance⟩⟩
        obtain rfl := Option.some.inj (hhint.symm.trans hf)
        obtain rfl := Option.some.inj (htorch.symm.trans hf')
        exact ⟨Option.some_ne_none f, rfl⟩

theorem torchVersionScore_eq_none_iff {v hint : Txt} {i : Nat} (hne : hint ≠ []) :
    torchVersionScore v hint i = none ↔ torchRocmVersion v ≠ [] ∧ torchRocmVersion v ≠ hint ∧
      ¬ (Short hint ∧ Short (torchRocmVersion v)) := by
  unfold torchVersionScore
  simp only [if_neg hne]
  by_cases hexact : torchRocmVersion v = hint
  · rw [if_pos hexact]
    exact iff_of_false (fun h => nomatch h) fun h => h.2.1 hexact
  rw [if_neg hexact]
  by_cases hnone : torchRocmVersion v = []
  · rw [if_pos hnone]
    exact iff_of_false (fun h => nomatch h) fun h => h.1 hnone
  rw [if_neg hnone, and_iff_right hnone, and_iff_right hexact]
  by_cases hhint : Short hint
  · by_cases htorch : Short (torchRocmVersion v)
    · obtain ⟨hintParts, hhintParts⟩ := exists_parts_of_short hhint
      obtain ⟨torchParts, htorchParts⟩ := exists_parts_of_short htorch
      refine iff_of_false (fun h => ?_) fun h => h ⟨hhint, htorch⟩
      rw [rocmFamily_of_short hhint, rocmFamily_of_short htorch, hhintParts, htorchParts] at h
      simp only [Option.bind_eq_bind, Option.bind_some] at h
      split at h
      · split at h <;> cases h
      · cases h
    · rw [rocmFamily_of_short hhint, rocmFamily_eq_none_iff.mpr htorch]
      exact iff_of_true rfl fun h => htorch h.2
  · rw [rocmFamily_eq_none_iff.mpr hhint]
    exact iff_of_true rfl fun h => hhint h.1

/-! ## The effective hint -/

theorem maxBy_spec {key : Txt → Int} {l : List Txt} {m : Txt} (h : maxBy key l = some m) :
    m ∈ l ∧ ∀ v ∈ l, key v ≤ key m := by
  cases l with
  | nil => cases h
  | cons a l =>
    obtain rfl := Option.some.inj h
    have hfold : ∀ (l : List Txt) (a : Txt),
        let m := l.foldl (fun m w => if key m < key w then w else m) a
        (m = a ∨ m ∈ l) ∧ key a ≤ key m ∧ ∀ v ∈ l, key v ≤ key m := by
      intro l
      induction l with
      | nil => exact fun a => ⟨Or.inl rfl, Int.le_refl _, fun v hv => nomatch hv⟩
      | cons w l ih =>
        intro a
        obtain ⟨hmem, hle, hall⟩ := ih (if key a < key w then w else a)
        simp only [List.foldl_cons]
        generalize l.foldl _ (if key a < key w then w else a) = m at hmem hle hall ⊢
        have hboth : key a ≤ key m ∧ key w ≤ key m := by
          split at hle <;> omega
        refine ⟨?_, hboth.1, fun v hv => ?_⟩
        · rcases hmem with hm | hm
          · rw [hm]
            split
            · exact Or.inr List.mem_cons_self
            · exact Or.inl rfl
          · exact Or.inr (List.mem_cons_of_mem w hm)
        · rcases List.mem_cons.mp hv with rfl | hv
          · exact hboth.2
          · exact hall v hv
    obtain ⟨hmem, hle, hall⟩ := hfold l a
    refine ⟨List.mem_cons.mpr hmem, fun v hv => ?_⟩
    rcases List.mem_cons.mp hv with rfl | hv
    · exact hle
    · exact hall v hv

/-- The first of the largest is the first of all if it is large enough. -/
theorem maxBy_cons {key : Txt → Int} {a : Txt} (l : List Txt) (h : ∀ v ∈ l, key v ≤ key a) :
    maxBy key (a :: l) = some a := by
  have hfold : l.foldl (fun m w => if key m < key w then w else m) a = a := by
    induction l with
    | nil => rfl
    | cons w l ih =>
      have hw := h w List.mem_cons_self
      rw [List.foldl_cons, if_neg (by omega)]
      exact ih fun v hv => h v (List.mem_cons_of_mem w hv)
  rw [maxBy, hfold]

theorem takes_numeral {x v : Txt} {b : Txt} (hne : x ≠ []) (hx : ∀ c ∈ x, isDigit c = true)
    (hv : ∀ c, v.head? = some c → isDigit c = false) : Takes noWord numeral b x v [(1, x)] :=
  (takes_plus hne hx hv).group 1

theorem numerals_cons {x v : Txt} (hne : x ≠ []) (hx : ∀ c ∈ x, isDigit c = true) (b : Txt) :
    (findAllFrom noWord numeral 0 b (x ++ '.' :: v)).map (·.group 1) =
      x :: (findAllFrom noWord numeral 0 ('.' :: (x.reverse ++ b)) v).map (·.group 1) := by
  have hdot : ∀ c, ('.' :: v).head? = some c → isDigit c = false := by
    intro c hc
    obtain rfl := Option.some.inj hc
    decide
  have hquiet : Quiet noWord numeral (x.reverse ++ b) ['.'] v := by
    intro u w hu hw
    rw [matchAt_eq_none_iff]
    intro m z hm hmatch
    obtain ⟨hmne, hdigits⟩ := matches_plus.mp (matches_group.mp hmatch)
    cases w with
    | nil => exact hw rfl
    | cons d w =>
      cases m with
      | nil => exact hmne rfl
      | cons c m =>
        have hd : d = '.' := List.mem_singleton.mp (hu ▸ List.mem_append_right u List.mem_cons_self)
        rw [List.cons_append, List.cons_append, List.cons.injEq, hd] at hm
        have hc := hdigits c List.mem_cons_self
        rw [← hm.1] at hc
        exact absurd hc (by decide)
  rw [findAllFrom_takes hne (takes_numeral hne hx hdot), List.map_cons,
    show '.' :: v = ['.'] ++ v from rfl, findAllFrom_quiet hquiet]
  rfl

/-- A build number has a family. -/
theorem familyOf_of_build {hint : Txt} (h : isBuildNumber hint = true) (hshort : Short hint) :
    ∃ f, familyOf hint = some f := by
  unfold isBuildNumber at h
  rw [Bool.and_eq_true] at h
  obtain ⟨k, hk⟩ := Option.isSome_iff_exists.mp h.2
  have hend := List.isEmpty_iff.mp (List.find?_some (p := fun m : Found => m.pos.after.isEmpty) hk)
  have hspans : Spans noWord buildNumVersion ⟨[], hint⟩ k.pos :=
    ⟨k, List.mem_of_find?_eq_some hk, rfl⟩
  obtain ⟨m, hm, hmatch⟩ := hspans.exists_matches
  rw [hend, List.append_nil] at hm
  obtain ⟨x, r, hxr, hx, hr⟩ := matches_cat_cons.mp hmatch
  obtain ⟨d, r', hdr, hd, hr'⟩ := matches_cat_cons.mp hr
  obtain ⟨y, r'', hyr, hy, hr''⟩ := matches_cat_cons.mp hr'
  obtain ⟨d', z, hdz, hd', -⟩ := matches_cat_cons.mp hr''
  obtain ⟨hxne, hxdigits⟩ := matches_plus.mp hx
  obtain ⟨hyne, hydigits⟩ := matches_plus.mp hy
  obtain rfl := matches_lit.mp hd
  obtain rfl := matches_lit.mp hd'
  have htext : hint = x ++ '.' :: (y ++ '.' :: z) := by rw [hm, hxr, hdr, hyr, hdz]; rfl
  have hnumerals : ∃ ts, numerals hint = x :: y :: ts := by
    unfold numerals findAll
    rw [htext, numerals_cons hxne hxdigits, numerals_cons hyne hydigits]
    exact ⟨_, rfl⟩
  obtain ⟨ts, hts⟩ := hnumerals
  obtain ⟨parts, hparts⟩ := exists_parts_of_short hshort
  obtain ⟨g, -, hg⟩ := exists_map_of_mapM hparts
  rw [hts, List.map_cons, List.map_cons] at hg
  refine ⟨(g x, g y), ?_⟩
  unfold familyOf rocmFamily
  rw [hparts, hg]
  rfl

/-- The ROCm versions that the hint is replaced from. -/
def candidates (rocmHint : Txt) (rocmVersions : List Txt) : List Txt :=
  rocmVersions.filter fun v => familyOf v = familyOf rocmHint && rocmBuildDate v ≠ 0

theorem effectiveHint_of_build {hint : Txt} {rocmVersions : List Txt}
    (h : isBuildNumber hint = true) (hshort : Short hint) (hall : ∀ v ∈ rocmVersions, Short v) :
    effectiveHint hint rocmVersions =
      some ((maxBy rocmBuildDate (candidates hint rocmVersions)).getD hint) := by
  obtain ⟨f, hf⟩ := familyOf_of_build h hshort
  have hmap := mapM_eq_map fun v hv => rocmFamily_of_short (hall v hv)
  unfold effectiveHint
  rw [if_pos h, rocmFamily_of_short hshort, hf]
  simp only [Option.bind_eq_bind, Option.bind_some, hmap]
  rw [filter_zip_map, candidates, hf]

theorem effectiveHint_eq_none_iff {hint : Txt} {rocmVersions : List Txt} :
    effectiveHint hint rocmVersions = none ↔
      isBuildNumber hint = true ∧ ¬ (Short hint ∧ ∀ v ∈ rocmVersions, Short v) := by
  by_cases h : isBuildNumber hint = true
  · rw [and_iff_right h]
    by_cases hshort : Short hint
    · by_cases hall : ∀ v ∈ rocmVersions, Short v
      · rw [effectiveHint_of_build h hshort hall]
        exact iff_of_false (fun h => nomatch h) fun h => h ⟨hshort, hall⟩
      · obtain ⟨f, hf⟩ := familyOf_of_build h hshort
        obtain ⟨v, hv, hlong⟩ : ∃ v ∈ rocmVersions, ¬ Short v := by
          simpa only [not_forall, exists_prop] using hall
        have hnone : rocmVersions.mapM rocmFamily = none :=
          mapM_eq_none_iff.mpr ⟨v, hv, rocmFamily_eq_none_iff.mpr hlong⟩
        unfold effectiveHint
        rw [if_pos h, rocmFamily_of_short hshort, hf, hnone]
        exact iff_of_true rfl fun h => hall h.2
    · unfold effectiveHint
      rw [if_pos h, rocmFamily_eq_none_iff.mpr hshort]
      exact iff_of_true rfl fun h => hshort h.1
  · unfold effectiveHint
    rw [if_neg h]
    exact iff_of_false (fun h => nomatch h) fun hb => h hb.1

/-! ## The ranking -/

section

variable {versions rocmVersions ranked : List Txt} {rocmHint hint : Txt}

/-- A ranking is sorted by the scores. -/
theorem rank_spec (h : rankTorchVersions versions rocmHint rocmVersions = some ranked) :
    ∃ (hint : Txt) (key : Txt → Score), effectiveHint rocmHint rocmVersions = some hint ∧
      (∀ v ∈ versions.filter (usable rocmVersions),
        torchVersionScore v hint (versions.idxOf v) = some (key v)) ∧
        ranked.Perm (versions.filter (usable rocmVersions)) ∧
          ranked.Pairwise fun a b => key a ≤ key b := by
  unfold rankTorchVersions at h
  obtain ⟨hint, hhint, h₁⟩ := Option.bind_eq_some_iff.mp h
  obtain ⟨keyed, hkeyed, h₂⟩ := Option.bind_eq_some_iff.mp h₁
  obtain rfl := Option.some.inj h₂
  have : Inhabited (Score × Txt) := ⟨(score 0 0 0 0 0, [])⟩
  obtain ⟨g, hg, rfl⟩ := exists_map_of_mapM hkeyed
  generalize versions.filter (usable rocmVersions) = l at hg ⊢
  have hsecond : ∀ v ∈ l, torchVersionScore v hint (versions.idxOf v) = some (g v).1 ∧
      (g v).2 = v := by
    intro v hv
    obtain ⟨k, hk, heq⟩ := Option.map_eq_some_iff.mp (hg v hv)
    rw [← heq]
    exact ⟨hk, rfl⟩
  have hmap : (l.map g).map (·.2) = l := by
    rw [List.map_map]
    exact (List.map_congr_left fun v hv => (hsecond v hv).2).trans (List.map_id l)
  refine ⟨hint, fun v => (g v).1, hhint, fun v hv => (hsecond v hv).1, ?_, ?_⟩
  · have hperm := (List.mergeSort_perm (l.map g) fun a b => decide (a.1 ≤ b.1)).map (·.2)
    rwa [hmap] at hperm
  · rw [List.pairwise_map]
    have hsorted : ((l.map g).mergeSort fun a b => decide (a.1 ≤ b.1)).Pairwise fun a b =>
        decide (a.1 ≤ b.1) = true := by
      refine List.pairwise_mergeSort (fun a b c hab hbc => ?_) (fun a b => ?_) (l.map g)
      · exact decide_eq_true ((of_decide_eq_true hab).trans (of_decide_eq_true hbc))
      · rw [Bool.or_eq_true, decide_eq_true_eq, decide_eq_true_eq]
        exact le_total _ _
    refine hsorted.imp_of_mem fun {a b} ha hb hab => ?_
    obtain ⟨v, hv, rfl⟩ := List.mem_map.mp (List.mem_mergeSort.mp ha)
    obtain ⟨w, hw, rfl⟩ := List.mem_map.mp (List.mem_mergeSort.mp hb)
    rw [(hsecond v hv).2, (hsecond w hw).2]
    exact of_decide_eq_true hab

theorem exists_rank (hhint : effectiveHint rocmHint rocmVersions = some hint)
    (hkeys : ∀ v ∈ versions.filter (usable rocmVersions),
      torchVersionScore v hint (versions.idxOf v) ≠ none) :
    ∃ ranked, rankTorchVersions versions rocmHint rocmVersions = some ranked := by
  unfold rankTorchVersions
  rw [hhint]
  simp only [Option.bind_eq_bind, Option.bind_some]
  generalize hkeyed : (versions.filter (usable rocmVersions)).mapM (m := Option) _ = keyed
  cases keyed with
  | some keyed => exact ⟨_, rfl⟩
  | none =>
    obtain ⟨v, hv, hnone⟩ := mapM_eq_none_iff.mp hkeyed
    exact absurd (Option.map_eq_none_iff.mp hnone) (hkeys v hv)

end

end Wheels
end Provisioning
end RocmTests

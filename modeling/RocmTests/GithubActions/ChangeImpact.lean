import RocmTests.GithubActions.ChangedTests

/-!
# What a set of changed files asks for

Each file asks for something on its own, and the loop collects it in whatever order.
From this the result is a function of the set of the files.
-/

namespace RocmTests
namespace GithubActions

open Text Text.Re
open Markers (isSpace strip)

/-! ## What one file asks for -/

inductive Impact where
  | nothing
  | fullSuite
  | criticalFw
  | otherFw (file : Txt)
  | paths (ps : List Txt)

/-- What a file asks for. -/
def impactOf (raw : Txt) : Impact :=
  let path := PurePath.of (strip raw)
  match path.parts with
  | [] => .nothing
  | first :: rest =>
    if first = "framework".toList then
      let fwSubdir :=
        match rest with
        | [] => "framework".toList
        | second :: _ => "framework/".toList ++ second
      if fwSubdir ∈ criticalFwDirs then .criticalFw else .otherFw (strip raw)
    else if isGlobalConftest path then .fullSuite
    else if first = "tests".toList ∧ rest.head? = some "common".toList then
      if path.name = "_cmake_build.py".toList then .paths cmakeDirs else .fullSuite
    else if first ≠ "tests".toList ∨ (rest ≠ [] ∧ rest.head? ≠ some "e2e".toList) then .nothing
    else
      match classifyE2ePath path raw with
      | some result => .paths [result]
      | none => .nothing

/-- How the loop takes it up. -/
def Impact.apply (s : State) : Impact → Bool × State
  | .nothing => (false, s)
  | .fullSuite => (true, s)
  | .criticalFw => (false, { s with criticalFwHit := true })
  | .otherFw file => (false, { s with otherFwFiles := file :: s.otherFwFiles })
  | .paths ps => (false, { s with impacted := ps ++ s.impacted })

theorem classifySingleFile_eq (raw : Txt) (s : State) :
    classifySingleFile raw s = (impactOf raw).apply s := by
  unfold classifySingleFile impactOf
  simp only
  cases (PurePath.of (strip raw)).parts with
  | nil => rfl
  | cons first rest =>
    simp only
    by_cases hfw : first = "framework".toList
    · rw [if_pos hfw, if_pos hfw]
      cases rest <;> simp only <;> split_ifs <;> rfl
    rw [if_neg hfw, if_neg hfw]
    by_cases hconftest : isGlobalConftest (PurePath.of (strip raw)) = true
    · rw [if_pos hconftest, if_pos hconftest]
      rfl
    rw [if_neg hconftest, if_neg hconftest]
    by_cases hcommon : first = "tests".toList ∧ rest.head? = some "common".toList
    · rw [if_pos hcommon, if_pos hcommon]
      split <;> rfl
    rw [if_neg hcommon, if_neg hcommon]
    by_cases hother : first ≠ "tests".toList ∨ (rest ≠ [] ∧ rest.head? ≠ some "e2e".toList)
    · rw [if_pos hother, if_pos hother]
      rfl
    rw [if_neg hother, if_neg hother]
    cases classifyE2ePath (PurePath.of (strip raw)) raw <;> rfl

/-- A file that brings the full suite about. -/
def Triggers (raw : Txt) : Prop := impactOf raw = .fullSuite ∨ impactOf raw = .criticalFw

def FullSuite (files : List Txt) : Prop := ∃ raw ∈ files, Triggers raw

/-- The paths that a file asks for. -/
def requests (raw : Txt) : List Txt :=
  match impactOf raw with
  | .paths ps => ps
  | _ => []

/-- The file as one of `other_fw_files`. -/
def otherFwFile (raw : Txt) : Option Txt :=
  match impactOf raw with
  | .otherFw file => some file
  | _ => none

/-! ## What the loop collects -/

theorem loop_eq (files : List Txt) : ∀ s : State,
    (∃ raw ∈ files, impactOf raw = .fullSuite) ∧ (loop s files).1 = true ∨
    (¬ ∃ raw ∈ files, impactOf raw = .fullSuite) ∧ (loop s files).1 = false ∧
      ((loop s files).2.criticalFwHit = true ↔
        s.criticalFwHit = true ∨ ∃ raw ∈ files, impactOf raw = .criticalFw) ∧
      (∀ r, r ∈ (loop s files).2.impacted ↔ r ∈ s.impacted ∨ ∃ raw ∈ files, r ∈ requests raw) ∧
      ∀ f, f ∈ (loop s files).2.otherFwFiles ↔
        f ∈ s.otherFwFiles ∨ ∃ raw ∈ files, otherFwFile raw = some f := by
  induction files with
  | nil =>
    intro s
    right
    simp [loop]
  | cons raw files ih =>
    intro s
    rw [loop, classifySingleFile_eq]
    cases himpact : impactOf raw with
    | fullSuite => exact Or.inl ⟨⟨raw, List.mem_cons_self, himpact⟩, rfl⟩
    | nothing =>
      have h := ih s
      simpa [himpact, requests, otherFwFile, Impact.apply] using h
    | criticalFw =>
      have h := ih { s with criticalFwHit := true }
      simpa [himpact, requests, otherFwFile, Impact.apply] using h
    | otherFw file =>
      have h := ih { s with otherFwFiles := file :: s.otherFwFiles }
      have hreq : requests raw = [] := by simp [requests, himpact]
      have hfile : otherFwFile raw = some file := by simp [otherFwFile, himpact]
      simp only [Impact.apply, List.exists_mem_cons_iff, himpact, hreq, hfile, reduceCtorEq,
        false_or, List.not_mem_nil, Option.some.injEq]
      rcases h with h | ⟨hfull, hfst, hcrit, himp, hfw⟩
      · exact Or.inl h
      · refine Or.inr ⟨hfull, hfst, hcrit, himp, fun f => ?_⟩
        rw [hfw f, List.mem_cons, eq_comm (a := file)]
        tauto
    | paths ps =>
      have h := ih { s with impacted := ps ++ s.impacted }
      simpa [himpact, requests, otherFwFile, Impact.apply, or_assoc, or_left_comm] using h

/-- `framework/` files that are not critical. -/
def OtherFw (files : List Txt) (f : Txt) : Prop := ∃ raw ∈ files, otherFwFile raw = some f

/-- The directories of the keys that the diff adds. -/
def newDirs : Option Txt → List Txt
  | some diff => parseTaxonomyDiff diff
  | none => []

theorem resolveFrameworkImpacted_eq (otherFwFiles : List Txt) (taxonomyDiff : Option Txt)
    (tree : Tree) :
    resolveFrameworkImpacted otherFwFiles taxonomyDiff tree =
      let found := if taxonomyPath ∈ otherFwFiles then newDirs taxonomyDiff else []
      found ++ if (if found = [] then otherFwFiles
        else otherFwFiles.filter fun f => f ≠ taxonomyPath) = [] then [] else smokePaths tree := by
  cases taxonomyDiff with
  | none => simp [resolveFrameworkImpacted, newDirs]
  | some diff => rfl

theorem mem_resolveFrameworkImpacted (otherFwFiles : List Txt) (taxonomyDiff : Option Txt)
    (tree : Tree) (r : Txt) :
    r ∈ resolveFrameworkImpacted otherFwFiles taxonomyDiff tree ↔
      taxonomyPath ∈ otherFwFiles ∧ r ∈ newDirs taxonomyDiff ∨
      (∃ f ∈ otherFwFiles, f = taxonomyPath → newDirs taxonomyDiff = []) ∧
        r ∈ smokePaths tree := by
  rw [resolveFrameworkImpacted_eq]
  simp only [List.mem_append]
  by_cases htax : taxonomyPath ∈ otherFwFiles
  · rw [if_pos htax]
    by_cases hnew : newDirs taxonomyDiff = []
    · rw [if_pos hnew, if_neg (List.ne_nil_of_mem htax), hnew]
      exact ⟨fun h => Or.inr ⟨⟨_, htax, fun _ => rfl⟩, h.resolve_left (List.not_mem_nil)⟩,
        fun h => Or.inr (h.resolve_left fun h => List.not_mem_nil h.2).2⟩
    · rw [if_neg hnew]
      have hrest : otherFwFiles.filter (fun f => decide (f ≠ taxonomyPath)) = [] ↔
          ¬ ∃ f ∈ otherFwFiles, f = taxonomyPath → newDirs taxonomyDiff = [] := by
        simp [List.filter_eq_nil_iff, hnew]
      by_cases hsmoke : ∃ f ∈ otherFwFiles, f = taxonomyPath → newDirs taxonomyDiff = []
      · rw [if_neg fun h => hrest.1 h hsmoke]
        exact or_congr (and_iff_right htax).symm (and_iff_right hsmoke).symm
      · rw [if_pos (hrest.2 hsmoke)]
        exact or_congr (and_iff_right htax).symm
          ⟨fun h => absurd h List.not_mem_nil, fun h => absurd h.1 hsmoke⟩
  · rw [if_neg htax, if_pos rfl]
    cases otherFwFiles with
    | nil => simp
    | cons f fs =>
      have hsmoke : ∃ g ∈ f :: fs, g = taxonomyPath → newDirs taxonomyDiff = [] :=
        ⟨f, List.mem_cons_self, fun h => absurd (h ▸ List.mem_cons_self) htax⟩
      rw [if_neg (List.cons_ne_nil f fs)]
      exact ⟨fun h => Or.inr ⟨hsmoke, h.resolve_left List.not_mem_nil⟩,
        fun h => Or.inr (h.resolve_left fun h => htax h.1).2⟩

/-- What the files ask for when none of them triggers the full suite. -/
def Requested (files : List Txt) (taxonomyDiff : Option Txt) (tree : Tree) (r : Txt) : Prop :=
  (∃ raw ∈ files, r ∈ requests raw) ∨
  OtherFw files taxonomyPath ∧ r ∈ newDirs taxonomyDiff ∨
  (∃ f, OtherFw files f ∧ (f = taxonomyPath → newDirs taxonomyDiff = [])) ∧ r ∈ smokePaths tree

section Collected
variable (files : List Txt) (taxonomyDiff : Option Txt) (tree : Tree)

theorem collected_spec :
    FullSuite files ∧ collected files taxonomyDiff tree = none ∨
    ¬ FullSuite files ∧ ∃ impacted, collected files taxonomyDiff tree = some impacted ∧
      ∀ r, r ∈ impacted ↔ Requested files taxonomyDiff tree r := by
  unfold collected
  rcases loop_eq files start with ⟨⟨raw, hraw, hfull⟩, hfst⟩ | ⟨hfull, hfst, hcrit, himp, hfw⟩
  · exact Or.inl ⟨⟨raw, hraw, Or.inl hfull⟩, by simp [hfst]⟩
  generalize loop start files = out at *
  obtain ⟨triggered, s⟩ := out
  subst hfst
  simp only [start, Bool.false_eq_true, false_or, List.not_mem_nil] at hcrit himp hfw
  by_cases hcritical : s.criticalFwHit = true
  · obtain ⟨raw, hraw, himpact⟩ := hcrit.1 hcritical
    exact Or.inl ⟨⟨raw, hraw, Or.inr himpact⟩, by simp [hcritical]⟩
  refine Or.inr ⟨?_, ?_⟩
  · rintro ⟨raw, hraw, himpact | himpact⟩
    · exact hfull ⟨raw, hraw, himpact⟩
    · exact hcritical (hcrit.2 ⟨raw, hraw, himpact⟩)
  · simp only [Bool.false_or, hcritical, Bool.false_eq_true, if_false]
    have hresolve (r : Txt) : (r ∈ resolveFrameworkImpacted s.otherFwFiles taxonomyDiff tree ∨
        r ∈ s.impacted) ↔ Requested files taxonomyDiff tree r := by
      rw [mem_resolveFrameworkImpacted, himp, or_comm]
      simp only [Requested, OtherFw, hfw]
    by_cases hnone : s.otherFwFiles = []
    · refine ⟨s.impacted, by rw [if_pos hnone], fun r => ?_⟩
      rw [← hresolve, hnone, mem_resolveFrameworkImpacted]
      simp
    · refine ⟨_, by rw [if_neg hnone], fun r => ?_⟩
      rw [List.mem_append, hresolve]

theorem collected_eq_none : collected files taxonomyDiff tree = none ↔ FullSuite files := by
  rcases collected_spec files taxonomyDiff tree with ⟨hfull, h⟩ | ⟨hfull, _, h, -⟩ <;>
    simp [h, hfull]

end Collected

/-! ## More files -/

section Subset
variable {files files' : List Txt} (h : files ⊆ files')
include h

theorem FullSuite.mono (hfull : FullSuite files) : FullSuite files' := by
  obtain ⟨raw, hraw, htriggers⟩ := hfull
  exact ⟨raw, h hraw, htriggers⟩

theorem OtherFw.mono {f : Txt} (hf : OtherFw files f) : OtherFw files' f := by
  obtain ⟨raw, hraw, hother⟩ := hf
  exact ⟨raw, h hraw, hother⟩

theorem Requested.mono {taxonomyDiff : Option Txt} {tree : Tree} {r : Txt}
    (hr : Requested files taxonomyDiff tree r) : Requested files' taxonomyDiff tree r := by
  rcases hr with ⟨raw, hraw, hr⟩ | ⟨htax, hr⟩ | ⟨⟨f, hf, hnew⟩, hr⟩
  · exact Or.inl ⟨raw, h hraw, hr⟩
  · exact Or.inr (Or.inl ⟨htax.mono h, hr⟩)
  · exact Or.inr (Or.inr ⟨⟨f, hf.mono h, hnew⟩, hr⟩)

end Subset

/-!
## What the returned paths cover

pytest runs a test file when its path is given or when it lies under a directory that is.
-/

/-- The file is returned itself, or lies under a returned directory. -/
def Covered (t : Txt) (paths : List Txt) : Prop :=
  t ∈ paths ∨ ∃ d ∈ paths, endsWith d ['/'] = true ∧ d <+: t

/-- Under a directory of `CATEGORY_PROFILES`. -/
def Profiled (r : Txt) : Prop := ∃ k ∈ categoryProfiles, k ++ ['/'] <+: r

theorem endsWith_slash_iff (d : Txt) : endsWith d ['/'] = true ↔ ['/'] <:+ d :=
  List.isSuffixOf_iff_suffix

theorem Covered.mono {t : Txt} {paths paths' : List Txt} (h : ∀ r ∈ paths, r ∈ paths')
    (ht : Covered t paths) : Covered t paths' := by
  rcases ht with ht | ⟨d, hd, hslash, hprefix⟩
  · exact Or.inl (h t ht)
  · exact Or.inr ⟨d, h d hd, hslash, hprefix⟩

theorem covered_congr {t : Txt} {paths paths' : List Txt} (h : ∀ r, r ∈ paths ↔ r ∈ paths') :
    Covered t paths ↔ Covered t paths' :=
  ⟨Covered.mono fun r => (h r).1, Covered.mono fun r => (h r).2⟩

theorem Profiled.append {r t : Txt} (hr : Profiled r) (h : r <+: t) : Profiled t := by
  obtain ⟨k, hk, hprefix⟩ := hr
  exact ⟨k, hk, hprefix.trans h⟩

/-! ### Sorted sets -/

theorem mem_sortSet {s : List Txt} {r : Txt} : r ∈ sortSet s ↔ r ∈ s := by
  rw [sortSet, List.mem_insertionSort, List.mem_dedup]

theorem pairwise_sortSet (s : List Txt) : (sortSet s).Pairwise (· ≤ ·) :=
  List.pairwise_insertionSort _ _

theorem nodup_sortSet (s : List Txt) : (sortSet s).Nodup :=
  (List.perm_insertionSort _ _).nodup_iff.2 (List.nodup_dedup s)

theorem sortSet_congr {s s' : List Txt} (h : ∀ r, r ∈ s ↔ r ∈ s') : sortSet s = sortSet s' := by
  have hperm : (sortSet s).Perm (sortSet s') :=
    (List.perm_ext_iff_of_nodup (nodup_sortSet s) (nodup_sortSet s')).2 fun r => by
      rw [mem_sortSet, mem_sortSet, h]
  exact hperm.eq_of_pairwise' (pairwise_sortSet s) (pairwise_sortSet s')

/-! ### `_deduplicate` -/

theorem mem_deduplicate {impacted : List Txt} {r : Txt} :
    r ∈ deduplicate impacted ↔ r ∈ impacted ∧ (endsWith r ['/'] = true ∨
      ∀ d ∈ impacted, endsWith d ['/'] = true → ¬ d <+: r) := by
  simp only [deduplicate, mem_sortSet, List.mem_append, List.mem_filter, startsWith,
    Bool.not_eq_true', List.any_eq_false, List.isPrefixOf_iff_prefix]
  constructor
  · rintro (⟨hr, hslash⟩ | ⟨⟨hr, -⟩, hunder⟩)
    · exact ⟨hr, Or.inl hslash⟩
    · exact ⟨hr, Or.inr fun d hd hslash => hunder d ⟨hd, hslash⟩⟩
  · rintro ⟨hr, hkeep⟩
    by_cases hslash : endsWith r ['/'] = true
    · exact Or.inl ⟨hr, hslash⟩
    · exact Or.inr ⟨⟨hr, Bool.eq_false_iff.2 hslash⟩,
        fun d hd => hkeep.resolve_left hslash d hd.1 hd.2⟩

theorem deduplicate_congr {impacted impacted' : List Txt}
    (h : ∀ r, r ∈ impacted ↔ r ∈ impacted') : deduplicate impacted = deduplicate impacted' := by
  have hmem (r : Txt) : r ∈ deduplicate impacted ↔ r ∈ deduplicate impacted' := by
    simp only [mem_deduplicate, h]
  simp only [deduplicate, mem_sortSet] at hmem ⊢
  exact sortSet_congr hmem

/-- Nothing that is dropped is missed. -/
theorem covered_deduplicate {t : Txt} {impacted : List Txt} :
    Covered t (deduplicate impacted) ↔ Covered t impacted := by
  constructor
  · exact Covered.mono fun r hr => (mem_deduplicate.1 hr).1
  · have hdir {d : Txt} (hd : d ∈ impacted) (hslash : endsWith d ['/'] = true) :
        d ∈ deduplicate impacted := mem_deduplicate.2 ⟨hd, Or.inl hslash⟩
    rintro (ht | ⟨d, hd, hslash, hprefix⟩)
    · by_cases hunder : ∃ d ∈ impacted, endsWith d ['/'] = true ∧ d <+: t
      · obtain ⟨d, hd, hslash, hprefix⟩ := hunder
        exact Or.inr ⟨d, hdir hd hslash, hslash, hprefix⟩
      · refine Or.inl (mem_deduplicate.2 ⟨ht, Or.inr fun d hd hslash hprefix => ?_⟩)
        exact hunder ⟨d, hd, hslash, hprefix⟩
    · exact Or.inr ⟨d, hdir hd hslash, hslash, hprefix⟩

/-! ### The full suite -/

theorem mem_allE2eDirs {r : Txt} : r ∈ allE2eDirs ↔ ∃ k ∈ categoryProfiles, k ++ ['/'] = r := by
  rw [allE2eDirs, mem_sortSet, List.mem_map]

theorem covered_allE2eDirs {t : Txt} : Covered t allE2eDirs ↔ Profiled t := by
  constructor
  · rintro (ht | ⟨d, hd, -, hprefix⟩)
    · obtain ⟨k, hk, rfl⟩ := mem_allE2eDirs.1 ht
      exact ⟨k, hk, List.prefix_rfl⟩
    · obtain ⟨k, hk, rfl⟩ := mem_allE2eDirs.1 hd
      exact ⟨k, hk, hprefix⟩
  · rintro ⟨k, hk, hprefix⟩
    exact Or.inr ⟨k ++ ['/'], mem_allE2eDirs.2 ⟨k, hk, rfl⟩,
      (endsWith_slash_iff _).2 (List.suffix_append k ['/']), hprefix⟩

/-! ### The result -/

section Result
variable (files : List Txt) (taxonomyDiff : Option Txt) (tree : Tree)

/-- The set of paths that the result stands for. -/
def impactSet : List Txt := (collected files taxonomyDiff tree).getD allE2eDirs

theorem detectImpactedPaths_of_fullSuite (h : FullSuite files) :
    detectImpactedPaths files taxonomyDiff tree = sortSet allE2eDirs := by
  rw [detectImpactedPaths, (collected_eq_none files taxonomyDiff tree).2 h]

theorem covered_impactSet {t : Txt} :
    Covered t (detectImpactedPaths files taxonomyDiff tree) ↔
      Covered t (impactSet files taxonomyDiff tree) := by
  unfold detectImpactedPaths impactSet
  cases collected files taxonomyDiff tree with
  | none =>
    rw [Option.getD_none]
    exact covered_congr fun r => mem_sortSet
  | some impacted => exact covered_deduplicate

theorem covered_of_fullSuite (h : FullSuite files) {t : Txt} :
    Covered t (detectImpactedPaths files taxonomyDiff tree) ↔ Profiled t := by
  rw [detectImpactedPaths_of_fullSuite files taxonomyDiff tree h,
    covered_congr fun r => mem_sortSet, covered_allE2eDirs]

theorem covered_of_not_fullSuite (h : ¬ FullSuite files) {t : Txt} :
    Covered t (detectImpactedPaths files taxonomyDiff tree) ↔
      Requested files taxonomyDiff tree t ∨
        ∃ d, Requested files taxonomyDiff tree d ∧ endsWith d ['/'] = true ∧ d <+: t := by
  rcases collected_spec files taxonomyDiff tree with ⟨hfull, -⟩ | ⟨-, impacted, hsome, hmem⟩
  · exact absurd hfull h
  · rw [covered_impactSet, impactSet, hsome, Option.getD_some]
    simp only [Covered, hmem]

end Result

/-- The result is a function of the set of the files. -/
theorem detectImpactedPaths_congr {files files' : List Txt} (taxonomyDiff : Option Txt)
    (tree : Tree) (h : ∀ raw, raw ∈ files' ↔ raw ∈ files) :
    detectImpactedPaths files' taxonomyDiff tree = detectImpactedPaths files taxonomyDiff tree := by
  have hsub : files' ⊆ files := fun raw => (h raw).1
  have hsup : files ⊆ files' := fun raw => (h raw).2
  by_cases hfull : FullSuite files
  · rw [detectImpactedPaths_of_fullSuite _ _ _ hfull,
      detectImpactedPaths_of_fullSuite _ _ _ (hfull.mono hsup)]
  · rcases collected_spec files taxonomyDiff tree with ⟨hf, -⟩ | ⟨-, impacted, hsome, hmem⟩
    · exact absurd hf hfull
    rcases collected_spec files' taxonomyDiff tree with ⟨hf, -⟩ | ⟨-, impacted', hsome', hmem'⟩
    · exact absurd (hf.mono hsub) hfull
    rw [detectImpactedPaths, detectImpactedPaths, hsome, hsome']
    exact deduplicate_congr fun r => by
      rw [hmem, hmem']
      exact ⟨Requested.mono hsub, Requested.mono hsup⟩

theorem pairwise_detectImpactedPaths (files : List Txt) (taxonomyDiff : Option Txt) (tree : Tree) :
    (detectImpactedPaths files taxonomyDiff tree).Pairwise (· ≤ ·) ∧
      (detectImpactedPaths files taxonomyDiff tree).Nodup := by
  unfold detectImpactedPaths
  cases collected files taxonomyDiff tree with
  | none => exact ⟨pairwise_sortSet _, nodup_sortSet _⟩
  | some impacted => exact ⟨pairwise_sortSet _, nodup_sortSet _⟩

theorem not_under_detectImpactedPaths {files : List Txt} {taxonomyDiff : Option Txt} {tree : Tree}
    {f d : Txt} (hf : f ∈ detectImpactedPaths files taxonomyDiff tree)
    (hfile : endsWith f ['/'] = false) (hd : d ∈ detectImpactedPaths files taxonomyDiff tree)
    (hslash : endsWith d ['/'] = true) : ¬ d <+: f := by
  unfold detectImpactedPaths at hf hd
  cases hcollected : collected files taxonomyDiff tree with
  | none =>
    rw [hcollected] at hf
    obtain ⟨k, -, rfl⟩ := mem_allE2eDirs.1 (mem_sortSet.1 hf)
    rw [(endsWith_slash_iff _).2 (List.suffix_append k ['/'])] at hfile
    cases hfile
  | some impacted =>
    rw [hcollected] at hf hd
    have hkeep := (mem_deduplicate.1 hf).2.resolve_left (Bool.eq_false_iff.1 hfile)
    exact hkeep d (mem_deduplicate.1 hd).1 hslash

/-- Order and repetition of the changed files are not observable, and the result stands for
the collected set without a path too many. -/
theorem detectImpactedPaths_set (files : List Txt) (taxonomyDiff : Option Txt) (tree : Tree) :
    (∀ files' : List Txt, (∀ raw, raw ∈ files' ↔ raw ∈ files) →
      detectImpactedPaths files' taxonomyDiff tree = detectImpactedPaths files taxonomyDiff tree) ∧
    (detectImpactedPaths files taxonomyDiff tree).Pairwise (· ≤ ·) ∧
    (detectImpactedPaths files taxonomyDiff tree).Nodup ∧
    (∀ t, Covered t (detectImpactedPaths files taxonomyDiff tree) ↔
      Covered t (impactSet files taxonomyDiff tree)) ∧
    ∀ f ∈ detectImpactedPaths files taxonomyDiff tree, endsWith f ['/'] = false →
      ∀ d ∈ detectImpactedPaths files taxonomyDiff tree, endsWith d ['/'] = true → ¬ d <+: f := by
  obtain ⟨hsorted, hnodup⟩ := pairwise_detectImpactedPaths files taxonomyDiff tree
  refine ⟨fun files' h => detectImpactedPaths_congr taxonomyDiff tree h, hsorted, hnodup,
    fun t => covered_impactSet files taxonomyDiff tree, ?_⟩
  exact fun f hf hfile d hd hslash => not_under_detectImpactedPaths hf hfile hd hslash

theorem detectImpactedPaths_set_conftest :
    detectImpactedPaths
        ["conftest.py".toList, "tests/e2e/ck/test_ck.py".toList, "conftest.py".toList] none [] =
      detectImpactedPaths ["tests/e2e/ck/test_ck.py".toList, "conftest.py".toList] none [] :=
  (detectImpactedPaths_set ["tests/e2e/ck/test_ck.py".toList, "conftest.py".toList] none []).1 _
    fun raw => by simp only [List.mem_cons, List.not_mem_nil]; tauto

end GithubActions
end RocmTests

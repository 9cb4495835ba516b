import RocmTests.GithubActions.ChangeImpact
import RocmTests.Text.PathPrefix

/-!
# Which areas a change covers

The full suite is a fixed list of directories, and the area of a helper is the directory
that the helper is in.
-/

namespace RocmTests
namespace GithubActions

open Text
open Markers (strip)

def isTestPath (t : Txt) : Bool := isTestFile (PurePath.of t)

/-! ## What is asked for -/

theorem endsWith_slash_append (t : Txt) : endsWith (t ++ ['/']) ['/'] = true :=
  (endsWith_slash_iff _).2 (List.suffix_append t ['/'])

theorem classifyE2ePath_eq_some {raw r : Txt}
    (h : classifyE2ePath (PurePath.of (strip raw)) raw = some r) :
    endsWith r ['/'] = true ∨ isTestPath r = true := by
  unfold classifyE2ePath at h
  split at h
  · cases h
  · split_ifs at h with htest
    · cases h
      exact Or.inr htest
    · cases h
      exact Or.inl (endsWith_slash_append _)

theorem impactOf_eq_paths {raw : Txt} {rs : List Txt} (h : impactOf raw = .paths rs) :
    rs = cmakeDirs ∨
      ∃ r, classifyE2ePath (PurePath.of (strip raw)) raw = some r ∧ rs = [r] := by
  unfold impactOf at h
  simp only at h
  split at h
  · cases h
  · split_ifs at h
    · cases h
      exact Or.inl rfl
    · split at h
      · cases h
        exact Or.inr ⟨_, by assumption, rfl⟩
      · cases h

/-- A request is a directory or a test file. -/
theorem mem_requests {raw r : Txt} (hr : r ∈ requests raw) :
    r ∈ cmakeDirs ∨ endsWith r ['/'] = true ∨ isTestPath r = true := by
  unfold requests at hr
  split at hr
  · next rs hpaths =>
    rcases impactOf_eq_paths hpaths with rfl | ⟨r', hr', rfl⟩
    · exact Or.inl hr
    · cases List.mem_singleton.1 hr
      exact Or.inr (classifyE2ePath_eq_some hr')
  · exact absurd hr List.not_mem_nil

theorem newDirs_endsWith {taxonomyDiff : Option Txt} {r : Txt} (hr : r ∈ newDirs taxonomyDiff) :
    endsWith r ['/'] = true := by
  cases taxonomyDiff with
  | none => exact absurd hr List.not_mem_nil
  | some diff =>
    obtain ⟨line, -, hline⟩ := List.mem_filterMap.1 hr
    obtain ⟨m, -, rfl⟩ := Option.map_eq_some_iff.1 hline
    exact endsWith_slash_append _

theorem profiled_cmakeDirs {r : Txt} (hr : r ∈ cmakeDirs) : Profiled r := by
  have hall : ∀ d ∈ cmakeDirs, d ∈ categoryProfiles.map (· ++ ['/']) := by decide +kernel
  obtain ⟨k, hk, rfl⟩ := List.mem_map.1 (hall r hr)
  exact ⟨k, hk, List.prefix_rfl⟩

theorem profiled_smokePaths {tree : Tree} {r : Txt} (hr : r ∈ smokePaths tree) : Profiled r := by
  obtain ⟨k, hk, hname⟩ := List.mem_filterMap.1 hr
  obtain ⟨name, -, rfl⟩ := Option.map_eq_some_iff.1 hname
  exact ⟨k, mem_sortSet.1 hk, by simp⟩

/-! ## A test file in a directory -/

def someTest : Txt := "test_x.py".toList

theorem isTestPath_append {d : Txt} (hslash : endsWith d ['/'] = true) :
    isTestPath (d ++ someTest) = true := by
  obtain ⟨t, rfl⟩ := (endsWith_slash_iff d).1 hslash
  have hname : (PurePath.of (t ++ ['/'] ++ someTest)).name = someTest := by
    rw [List.append_assoc, List.singleton_append]
    exact PurePath.name_append_slash t (by decide) (by decide)
  unfold isTestPath isTestFile PurePath.suffix
  rw [hname]
  decide

theorem profiled_append_someTest {d : Txt} (h : Profiled (d ++ someTest)) : Profiled d := by
  obtain ⟨k, hk, hprefix⟩ := h
  refine ⟨k, hk, ?_⟩
  rcases List.prefix_or_prefix_of_prefix hprefix (List.prefix_append d someTest) with h | h
  · exact h
  · -- the directory would end inside the name, where there is no slash
    obtain ⟨u, hu⟩ := h
    rw [← hu] at hprefix ⊢
    have huname : u <+: someTest := (List.prefix_append_right_inj d).1 hprefix
    cases u using List.reverseRecOn with
    | nil => rw [List.append_nil]
    | append_singleton u c =>
      rw [← List.append_assoc] at hu
      have hc : c = '/' := (List.append_inj' hu rfl).2 |> List.singleton_inj.1
      have hmem : '/' ∈ someTest := huname.subset (by simp [hc])
      exact absurd hmem (by decide)

/-! ## More files cover more -/

theorem requested_profiled_iff (files : List Txt) (taxonomyDiff : Option Txt) (tree : Tree) :
    (∀ r, Requested files taxonomyDiff tree r → Profiled r) ↔
      (∀ raw ∈ files, ∀ r ∈ requests raw, Profiled r) ∧
        (OtherFw files taxonomyPath → ∀ r ∈ newDirs taxonomyDiff, Profiled r) := by
  constructor
  · intro h
    exact ⟨fun raw hraw r hr => h r (Or.inl ⟨raw, hraw, hr⟩),
      fun htax r hr => h r (Or.inr (Or.inl ⟨htax, hr⟩))⟩
  · rintro ⟨hraw, htax⟩ r (⟨raw, hmem, hr⟩ | ⟨hother, hr⟩ | ⟨-, hr⟩)
    · exact hraw raw hmem r hr
    · exact htax hother r hr
    · exact profiled_smokePaths hr

theorem requested_dir_or_test {files : List Txt} {taxonomyDiff : Option Txt} {tree : Tree} {r : Txt}
    (hr : Requested files taxonomyDiff tree r) (hnot : ¬ Profiled r) :
    endsWith r ['/'] = true ∨ isTestPath r = true := by
  rcases hr with ⟨raw, -, hr⟩ | ⟨-, hr⟩ | ⟨-, hr⟩
  · exact (mem_requests hr).resolve_left fun h => hnot (profiled_cmakeDirs h)
  · exact Or.inl (newDirs_endsWith hr)
  · exact absurd (profiled_smokePaths hr) hnot

/-- A file that triggers the full suite takes coverage away exactly when something else
asked for a path outside the profiled areas. -/
theorem covered_append_iff (A B : List Txt) (taxonomyDiff : Option Txt) (tree : Tree) :
    (∀ t, isTestPath t = true → Covered t (detectImpactedPaths A taxonomyDiff tree) →
      Covered t (detectImpactedPaths (A ++ B) taxonomyDiff tree)) ↔
    (FullSuite B → FullSuite A ∨
      (∀ raw ∈ A, ∀ r ∈ requests raw, Profiled r) ∧
        (OtherFw A taxonomyPath → ∀ r ∈ newDirs taxonomyDiff, Profiled r)) := by
  rw [← requested_profiled_iff A taxonomyDiff tree]
  have hA : A ⊆ A ++ B := List.subset_append_left A B
  by_cases hfullA : FullSuite A
  · refine iff_of_true (fun t _ ht => ?_) fun _ => Or.inl hfullA
    rw [covered_of_fullSuite _ _ _ hfullA] at ht
    rwa [covered_of_fullSuite _ _ _ (hfullA.mono hA)]
  by_cases hfullB : FullSuite B
  · have hfull : FullSuite (A ++ B) := hfullB.mono (List.subset_append_right A B)
    simp only [covered_of_not_fullSuite A _ _ hfullA, covered_of_fullSuite (A ++ B) _ _ hfull]
    constructor
    · refine fun h _ => Or.inr fun r hr => ?_
      by_contra hnot
      rcases requested_dir_or_test hr hnot with hslash | htest
      · exact hnot (profiled_append_someTest (h _ (isTestPath_append hslash)
          (Or.inr ⟨r, hr, hslash, List.prefix_append r someTest⟩)))
      · exact hnot (h r htest (Or.inl hr))
    · intro h t _ ht
      have hprofiled := (h hfullB).resolve_left hfullA
      rcases ht with ht | ⟨d, hd, -, hprefix⟩
      · exact hprofiled t ht
      · exact (hprofiled d hd).append hprefix
  · refine iff_of_true (fun t _ ht => ?_) fun h => absurd h hfullB
    have hfull : ¬ FullSuite (A ++ B) := by
      rintro ⟨raw, hraw, htriggers⟩
      rcases List.mem_append.1 hraw with hraw | hraw
      · exact hfullA ⟨raw, hraw, htriggers⟩
      · exact hfullB ⟨raw, hraw, htriggers⟩
    rw [covered_of_not_fullSuite A _ _ hfullA] at ht
    rw [covered_of_not_fullSuite _ _ _ hfull]
    rcases ht with ht | ⟨d, hd, hslash, hprefix⟩
    · exact Or.inl (ht.mono hA)
    · exact Or.inr ⟨d, hd.mono hA, hslash, hprefix⟩

/-- A new test of an area without a profile is dropped when the root `conftest.py` changes
as well. -/
theorem conftest_removes_test : ¬ ∀ (A B : List Txt) (taxonomyDiff : Option Txt) (tree : Tree),
    ∀ t, isTestPath t = true → Covered t (detectImpactedPaths A taxonomyDiff tree) →
      Covered t (detectImpactedPaths (A ++ B) taxonomyDiff tree) := by
  intro h
  have hA : detectImpactedPaths ["tests/e2e/newarea/test_new.py".toList] none [] =
      ["tests/e2e/newarea/test_new.py".toList] := by decide +kernel
  have hfull : FullSuite (["tests/e2e/newarea/test_new.py".toList] ++ ["conftest.py".toList]) := by
    refine ⟨"conftest.py".toList, by simp, Or.inl ?_⟩
    rfl
  have hcovered := h ["tests/e2e/newarea/test_new.py".toList] ["conftest.py".toList] none []
    "tests/e2e/newarea/test_new.py".toList (by decide) (by rw [hA]; exact Or.inl (by simp))
  rw [covered_of_fullSuite _ _ _ hfull] at hcovered
  exact absurd hcovered (by unfold Profiled; decide)

/-! ## The area of a file -/

/-- The longest key of `CATEGORY_PROFILES` that is a path prefix of the file. -/
def AreaOf (k file : Txt) : Prop :=
  k ∈ categoryProfiles ∧ k ++ ['/'] <+: file ∧
    ∀ k' ∈ categoryProfiles, k' ++ ['/'] <+: file → k'.length ≤ k.length

/-- The directory that the file is in. -/
def ownDir (raw : Txt) : Txt :=
  joinSlash (PurePath.of (strip raw)).parts.dropLast ++ ['/']

theorem e2eArea_of_parts {path : PurePath} {l : List Txt}
    (hparts : path.parts = "tests".toList :: "e2e".toList :: l) (hl : l.dropLast ≠ []) :
    e2eArea path = some (joinSlash path.parts.dropLast) := by
  have hne : l ≠ [] := fun e => hl (by rw [e, List.dropLast_nil])
  have hdrop : (path.parts.take (path.parts.length - 1)).drop 2 = l.dropLast := by
    rw [← List.dropLast_eq_take, hparts, List.dropLast_cons_of_ne_nil (List.cons_ne_nil _ _),
      List.dropLast_cons_of_ne_nil hne]
    rfl
  unfold e2eArea
  simp only [hdrop]
  have hlen : ¬ path.parts.length < 3 := by
    have := List.length_pos_of_ne_nil hne
    rw [hparts, List.length_cons, List.length_cons]
    omega
  have hguard : ¬ (path.parts.length < 3 ∨ path.parts[0]? ≠ some "tests".toList ∨
      path.parts[1]? ≠ some "e2e".toList) := by
    rintro (h | h | h)
    · exact hlen h
    · exact h (by rw [hparts]; rfl)
    · exact h (by rw [hparts]; rfl)
  rw [if_neg hguard, if_neg hl, hparts,
    List.dropLast_cons_of_ne_nil (List.cons_ne_nil _ _), List.dropLast_cons_of_ne_nil hne,
    joinSlash_cons _ (List.cons_ne_nil _ _), joinSlash_cons _ hl]
  rfl

theorem key_shape : ∀ k ∈ categoryProfiles, k.head? = some 't' ∧
    (PurePath.of k).tail.take 2 = ["tests".toList, "e2e".toList] ∧
    (PurePath.of k).tail.drop 2 ≠ [] ∧ affectsArea (PurePath.of k) = false := by
  decide +kernel

/-- Below a profiled area, what rule 2 asks for is the directory of the file. -/
theorem impactOf_of_area {k raw : Txt} (harea : AreaOf k (strip raw))
    (htest : isTestFile (PurePath.of (strip raw)) = false)
    (haffects : affectsArea (PurePath.of (strip raw)) = true) :
    impactOf raw = .paths [ownDir raw] := by
  obtain ⟨hk, ⟨u, hu⟩, -⟩ := harea
  obtain ⟨hhead, htake, hdrop, hkey⟩ := key_shape k hk
  have hkne : k ≠ [] := by
    rintro rfl
    cases hhead
  have hslash : k.head? ≠ some '/' := by
    rw [hhead]
    decide
  rw [List.append_assoc, List.singleton_append] at hu
  have hroot : (PurePath.of (strip raw)).root = [] := hu ▸ PurePath.root_append hkne hslash _
  have htail := PurePath.tail_append_slash k u
  rw [hu] at htail
  have hrest : (u.splitOn '/').filter PurePath.isComponent ≠ [] := by
    intro e
    rw [e, List.append_nil] at htail
    have hsame : PurePath.of (strip raw) = PurePath.of k :=
      PurePath.ext (hroot.trans (PurePath.root_of_head hslash).symm) htail
    rw [hsame, hkey] at haffects
    cases haffects
  obtain ⟨m, hm⟩ : ∃ m, (PurePath.of k).tail = "tests".toList :: "e2e".toList :: m :=
    ⟨_, by rw [← List.take_append_drop 2 (PurePath.of k).tail, htake]; rfl⟩
  have hmne : m ≠ [] := by
    rw [hm] at hdrop
    exact hdrop
  generalize (u.splitOn '/').filter PurePath.isComponent = rest at htail hrest
  have hparts : (PurePath.of (strip raw)).parts = "tests".toList :: "e2e".toList ::
      (m ++ rest) := by
    rw [PurePath.parts, hroot, if_pos rfl, htail, hm]
    rfl
  have harea := e2eArea_of_parts hparts (by
    rw [List.dropLast_append_of_ne_nil hrest]
    exact List.append_ne_nil_of_left_ne_nil hmne _)
  have hconftest : isGlobalConftest (PurePath.of (strip raw)) = false := by
    have hlen : 4 ≤ (PurePath.of (strip raw)).parts.length := by
      have := List.length_pos_of_ne_nil hmne
      have := List.length_pos_of_ne_nil hrest
      rw [hparts, List.length_cons, List.length_cons, List.length_append]
      omega
    unfold isGlobalConftest
    simp [show ¬ (PurePath.of (strip raw)).parts.length = 1 by omega,
      show ¬ (PurePath.of (strip raw)).parts.length = 2 by omega,
      show ¬ (PurePath.of (strip raw)).parts.length = 3 by omega]
  have hclassify : classifyE2ePath (PurePath.of (strip raw)) raw = some (ownDir raw) := by
    rw [classifyE2ePath, harea]
    simp only [htest, haffects, if_true, Bool.false_eq_true, if_false, ownDir]
  unfold impactOf
  simp only [hparts, hconftest, hclassify]
  rw [if_neg (by decide), if_neg (by decide), if_neg (by simp), if_neg (by simp)]

section Area
variable {k raw : Txt} (harea : AreaOf k (strip raw))
  (htest : isTestFile (PurePath.of (strip raw)) = false)
  (haffects : affectsArea (PurePath.of (strip raw)) = true)
include harea htest haffects

theorem requested_ownDir {files : List Txt} (hraw : raw ∈ files) (taxonomyDiff : Option Txt)
    (tree : Tree) : Requested files taxonomyDiff tree (ownDir raw) := by
  refine Or.inl ⟨raw, hraw, ?_⟩
  rw [requests, impactOf_of_area harea htest haffects]
  exact List.mem_singleton_self _

theorem not_fullSuite_of_area : ¬ FullSuite [raw] := by
  rintro ⟨raw', hraw, htriggers⟩
  cases List.mem_singleton.1 hraw
  rw [Triggers, impactOf_of_area harea htest haffects] at htriggers
  rcases htriggers with h | h <;> cases h

theorem requested_singleton (tree : Tree) (r : Txt) :
    Requested [raw] none tree r ↔ r = ownDir raw := by
  have himpact := impactOf_of_area harea htest haffects
  have hother (f : Txt) : ¬ OtherFw [raw] f := by
    rintro ⟨raw', hraw, hfile⟩
    cases List.mem_singleton.1 hraw
    rw [otherFwFile, himpact] at hfile
    cases hfile
  constructor
  · rintro (⟨raw', hraw, hr⟩ | ⟨hfw, -⟩ | ⟨⟨f, hfw, -⟩, -⟩)
    · cases List.mem_singleton.1 hraw
      rw [requests, himpact] at hr
      exact List.mem_singleton.1 hr
    · exact absurd hfw (hother _)
    · exact absurd hfw (hother f)
  · rintro rfl
    exact requested_ownDir harea htest haffects (List.mem_singleton_self raw) none tree

/-- A helper brings the tests of its area about exactly when they all lie below its own
directory, whatever else has changed. -/
theorem covers_area_iff (tree : Tree) :
    (∀ (files : List Txt) (taxonomyDiff : Option Txt), raw ∈ files →
      ∀ t ∈ tree, isTestPath t = true → AreaOf k t →
        Covered t (detectImpactedPaths files taxonomyDiff tree)) ↔
    ∀ t ∈ tree, isTestPath t = true → AreaOf k t → ownDir raw <+: t := by
  constructor
  · intro h t ht htpath htarea
    have hcovered := h [raw] none (List.mem_singleton_self raw) t ht htpath htarea
    rw [covered_of_not_fullSuite _ _ _ (not_fullSuite_of_area harea htest haffects)] at hcovered
    simp only [requested_singleton harea htest haffects] at hcovered
    rcases hcovered with rfl | ⟨d, rfl, -, hprefix⟩
    · exact List.prefix_rfl
    · exact hprefix
  · intro h files taxonomyDiff hraw t ht htpath htarea
    by_cases hfull : FullSuite files
    · rw [covered_of_fullSuite _ _ _ hfull]
      exact ⟨k, htarea.1, htarea.2.1⟩
    · rw [covered_of_not_fullSuite _ _ _ hfull]
      exact Or.inr ⟨ownDir raw, requested_ownDir harea htest haffects hraw taxonomyDiff tree,
        endsWith_slash_append _, h t ht htpath htarea⟩

end Area

def rcclTest : Txt := "tests/e2e/rccl/test_rccl_hip_graph.py".toList

def rcclSource : Txt :=
  "tests/e2e/rccl/src/concurrent_collectives/concurrent_collectives.cpp".toList

instance (k file : Txt) : Decidable (AreaOf k file) := by
  unfold AreaOf
  infer_instance

theorem covers_area_iff_conftest :
    (∀ (files : List Txt) (taxonomyDiff : Option Txt),
      "tests/e2e/rccl/conftest.py".toList ∈ files →
      ∀ t ∈ [rcclTest], isTestPath t = true → AreaOf "tests/e2e/rccl".toList t →
        Covered t (detectImpactedPaths files taxonomyDiff [rcclTest])) ↔
    ∀ t ∈ [rcclTest], isTestPath t = true → AreaOf "tests/e2e/rccl".toList t →
      ownDir "tests/e2e/rccl/conftest.py".toList <+: t :=
  covers_area_iff (by decide +kernel) (by decide) (by decide) [rcclTest]

/-- A source two levels down does not bring about the tests of its area. -/
theorem source_misses_area : ¬ ∀ (k raw : Txt) (tree : Tree) (files : List Txt)
    (taxonomyDiff : Option Txt), AreaOf k (strip raw) →
    isTestFile (PurePath.of (strip raw)) = false → affectsArea (PurePath.of (strip raw)) = true →
    raw ∈ files → ∀ t ∈ tree, isTestPath t = true → AreaOf k t →
      Covered t (detectImpactedPaths files taxonomyDiff tree) := by
  intro h
  have harea : AreaOf "tests/e2e/rccl".toList (strip rcclSource) := by decide +kernel
  have htest : isTestFile (PurePath.of (strip rcclSource)) = false := by decide
  have haffects : affectsArea (PurePath.of (strip rcclSource)) = true := by decide
  have hcovered := h _ _ [rcclTest] [rcclSource] none harea htest haffects
    (List.mem_singleton_self _) rcclTest (List.mem_singleton_self _) (by decide)
    (by decide +kernel)
  rw [covered_of_not_fullSuite _ _ _ (not_fullSuite_of_area harea htest haffects)] at hcovered
  simp only [requested_singleton harea htest haffects] at hcovered
  rcases hcovered with heq | ⟨d, rfl, -, hprefix⟩
  · exact absurd heq (by decide)
  · exact absurd hprefix (by decide)

end GithubActions
end RocmTests

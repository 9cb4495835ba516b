import RocmTests.Common.WorkspaceLayout
import RocmTests.Text.PathPrefix

/-!
# What is on the remote node already

Before it uploads a source file, an include directory, a build directory or a checkout, the
builder looks at the path: one in the workspace of the remote node is there already.  It looks at
the text that the path begins with.  The executor normalises the path and wants a slash where the
workspace ends.
-/

namespace RocmTests
namespace Builder
namespace OnRemote

open Text
open Common.WorkspaceLayout

/-- `remote_workspace_root()` where the home directory is `home`. -/
def remoteWorkspaceRoot (home : Txt) : Txt := join home "run-rocm-tests".toList

section

variable (root : Txt)

/-- `_compile_remote`: the source. -/
def sourceOnRemote (src : Txt) : Bool := root.isPrefixOf src

/-- `_compile_remote`: a directory of the ROCm installation, which is on every node. -/
def inRocm (rocmDir : Option Txt) (inc : Txt) : Bool :=
  match rocmDir with
  | none | some [] => false
  | some dir =>
    let remoteRocmDir := normpath dir
    normpath inc = remoteRocmDir || (rstripSlash remoteRocmDir ++ ['/']).isPrefixOf (normpath inc)

/-- `_compile_remote`: an include directory. -/
def includeOnRemote (rocmDir : Option Txt) (inc : Txt) : Bool :=
  root.isPrefixOf inc || inRocm rocmDir inc

/-- `cmake_build`, with directories to synchronise. -/
def buildDirOnRemote (buildDir : Txt) : Bool := root.isPrefixOf buildDir

/-- `clone_repo`. -/
def cloneOnRemote (dest : Txt) : Bool :=
  let repoDir := PurePath.of dest
  repoDir.root ≠ [] && root.isPrefixOf repoDir.asPosix

/-- The test of `_remote_abspath`. -/
def abspathOnRemote (relPath : Txt) : Bool := root.isPrefixOf (PurePath.of relPath).asPosix

/-- `_remote_abspath` with an executor that has a workspace. -/
def remoteAbspath (relPath : Txt) (category : String) : Txt :=
  let pathStr := (PurePath.of relPath).asPosix
  if abspathOnRemote root relPath then pathStr else remoteWorkspacePath root pathStr category

/-- The builder and the executor say the same of a path. -/
structure Agree (path : Txt) : Prop where
  source : sourceOnRemote root path = isManagedRemotePath path root
  includeDir : ∀ rocmDir, inRocm rocmDir path = false →
    includeOnRemote root rocmDir path = isManagedRemotePath path root
  buildDir : buildDirOnRemote root path = isManagedRemotePath path root
  clone : cloneOnRemote root path = isManagedRemotePath path root
  abspath : abspathOnRemote root path = isManagedRemotePath path root
  under : ∀ category ∈ categoryRoots.map (·.1), Under root (remoteAbspath root path category)

/-- The text of a path begins with the workspace only where it leads there, and always there.
The home directory is absolute and mentions no `..`. -/
structure Spelled (path : Txt) : Prop where
  absolute : root.head? = some '/'
  plain : ∀ c ∈ components root, c ≠ dots
  stays : root <+: path ∨ root <+: (PurePath.of path).asPosix →
    normpath root = root ∧ LeadsInto root path
  begins : normpath root = root → LeadsInto root path →
    root <+: path ∧ root <+: (PurePath.of path).asPosix

end

/-! ## The two together -/

section

variable {home : Txt}

theorem getLast_root : (remoteWorkspaceRoot home).getLast? ≠ some '/' := by
  have hlast : (remoteWorkspaceRoot home).getLast? = some 's' := by
    unfold remoteWorkspaceRoot join
    rw [if_neg (by decide)]
    split
    · rw [List.getLast?_append]
      rfl
    · rw [List.getLast?_append]
      rfl
  rw [hlast]
  decide

theorem root_ne_nil : remoteWorkspaceRoot home ≠ [] := by
  unfold remoteWorkspaceRoot join
  rw [if_neg (by decide)]
  split
  · exact List.append_ne_nil_of_right_ne_nil _ (by decide)
  · exact List.append_ne_nil_of_right_ne_nil _ (List.cons_ne_nil _ _)

/-- What begins with an absolute path is absolute. -/
theorem head_of_front {w t : Txt} (habs : w.head? = some '/') (h : w <+: t) :
    t.head? = some '/' := by
  obtain ⟨u, rfl⟩ := h
  have hne : w ≠ [] := fun h => by rw [h] at habs; cases habs
  rw [List.head?_append_of_ne_nil _ hne, habs]

theorem absolute_of_head {t : Txt} (h : (PurePath.of t).asPosix.head? = some '/') :
    (PurePath.of t).root ≠ [] := by
  rw [← head_normpath, normpath_asPosix, head_normpath] at h
  rw [root_eq]
  exact fun hnil => leadingSlashes_ne_zero.mpr h ((List.replicate_eq_nil_iff '/').mp hnil)

theorem head_join_relative {a b : Txt} (ha : a ≠ []) (hb : b.head? ≠ some '/') :
    (join a b).head? = a.head? := by
  unfold join
  rw [if_neg hb]
  split
  · exact List.head?_append_of_ne_nil _ ha
  · exact List.head?_append_of_ne_nil _ ha

theorem head_of_prefix_absolute {w t : Txt} (hne : w ≠ []) (h : w <+: t)
    (ht : t.head? = some '/') : w.head? = some '/' := by
  obtain ⟨u, rfl⟩ := h
  rwa [List.head?_append_of_ne_nil _ hne] at ht

theorem head_of_remoteWorkspacePath {w path : Txt} {category : String} (hne : w ≠ [])
    (hlast : w.getLast? ≠ some '/') (hcategory : category ∈ categoryRoots.map (·.1))
    (h : (remoteWorkspacePath w path category).head? = some '/') : w.head? = some '/' := by
  unfold remoteWorkspacePath at h
  simp only [] at h
  split at h
  · rename_i hmanaged
    unfold isManagedRemotePath at hmanaged
    simp only [rstripSlash_eq hlast, normpath_asPosix, Bool.or_eq_true, decide_eq_true_eq,
      List.isPrefixOf_iff_prefix] at hmanaged h
    rcases hmanaged with heq | hpre
    · rwa [heq] at h
    · exact head_of_prefix_absolute hne ((List.prefix_append _ _).trans hpre) h
  · have hroot := (categoryRoot_plain hcategory).1
    have hjoin : join w (categoryRoot category) ≠ [] := fun hnil => by
      have hhead := head_join_relative hne hroot
      rw [hnil, List.head?_nil] at hhead
      exact hne (List.head?_eq_none_iff.mp hhead.symm)
    rwa [head_join_relative hjoin (plain_trimCategoryPrefix _ _).head,
      head_join_relative hne hroot] at h

/-- Only in an absolute workspace without `..` is there anything under it. -/
theorem absolute_of_under {path : Txt}
    (h : Under (remoteWorkspaceRoot home) (remoteAbspath (remoteWorkspaceRoot home) path "work")) :
    (remoteWorkspaceRoot home).head? = some '/' ∧
      ∀ c ∈ components (remoteWorkspaceRoot home), c ≠ dots := by
  obtain ⟨hhead, hcomps⟩ := h
  rw [head_normpath] at hhead
  constructor
  · unfold remoteAbspath abspathOnRemote at hhead
    simp only [] at hhead
    split at hhead
    · rename_i hpre
      exact head_of_prefix_absolute root_ne_nil (List.isPrefixOf_iff_prefix.mp hpre) hhead
    · exact head_of_remoteWorkspacePath root_ne_nil getLast_root (by decide) hhead
  · rw [components_normpath] at hcomps
    exact fun c hc => normComps_no_dots (leadingSlashes_ne_zero.mpr hhead) c (hcomps.subset hc)

/-- The builder and the executor agree on a path exactly when its text is spelled so. -/
theorem agree_iff (home path : Txt) :
    Agree (remoteWorkspaceRoot home) path ↔ Spelled (remoteWorkspaceRoot home) path := by
  constructor
  · intro h
    obtain ⟨habs, hplain⟩ := absolute_of_under (h.under "work" (by decide))
    have hmanaged := managed_iff (t := path) habs getLast_root
    have hsource := h.source
    have habspath := h.abspath
    rw [Bool.eq_iff_iff, hmanaged, sourceOnRemote, List.isPrefixOf_iff_prefix] at hsource
    rw [Bool.eq_iff_iff, hmanaged, abspathOnRemote, List.isPrefixOf_iff_prefix] at habspath
    refine ⟨habs, hplain, ?_, fun hnormal hleads =>
      ⟨hsource.mpr ⟨hnormal, hleads⟩, habspath.mpr ⟨hnormal, hleads⟩⟩⟩
    rintro (hpre | hpre)
    · exact hsource.mp hpre
    · exact habspath.mp hpre
  · intro ⟨habs, hplain, hstays, hbegins⟩
    have hmanaged := managed_iff (t := path) habs getLast_root
    have htext : (remoteWorkspaceRoot home).isPrefixOf path =
        isManagedRemotePath path (remoteWorkspaceRoot home) := by
      rw [Bool.eq_iff_iff, hmanaged, List.isPrefixOf_iff_prefix]
      exact ⟨fun h => hstays (Or.inl h), fun h => (hbegins h.1 h.2).1⟩
    have hposix : (remoteWorkspaceRoot home).isPrefixOf (PurePath.of path).asPosix =
        isManagedRemotePath path (remoteWorkspaceRoot home) := by
      rw [Bool.eq_iff_iff, hmanaged, List.isPrefixOf_iff_prefix]
      exact ⟨fun h => hstays (Or.inr h), fun h => (hbegins h.1 h.2).2⟩
    refine ⟨htext, ?_, htext, ?_, hposix, ?_⟩
    · intro rocmDir hrocm
      rw [includeOnRemote, hrocm, Bool.or_false, htext]
    · unfold cloneOnRemote
      simp only []
      rw [hposix]
      by_cases hyes : isManagedRemotePath path (remoteWorkspaceRoot home) = true
      · rw [hyes, Bool.and_true, decide_eq_true_eq]
        rw [hyes] at hposix
        exact absolute_of_head (head_of_front habs (List.isPrefixOf_iff_prefix.mp hposix))
      · rw [Bool.eq_false_iff.mpr hyes, Bool.and_false]
    · intro category hcategory
      unfold remoteAbspath abspathOnRemote
      simp only [hposix]
      by_cases hyes : isManagedRemotePath path (remoteWorkspaceRoot home) = true
      · have hleads := (hmanaged.mp hyes).2
        have hhead := head_of_managed habs hyes
        rw [if_pos hyes, Under, normpath_asPosix, head_normpath, components_normpath]
        exact ⟨hhead, hleads.2⟩
      · rw [if_neg hyes]
        exact (mapped_under hplain habs _ hcategory).1

end

/-- A directory whose name begins like the workspace, and one that `..` leads out of it to. -/
theorem not_agree_sibling :
    let root := remoteWorkspaceRoot "/home/u".toList
    let sibling := "/home/u/run-rocm-tests-old/x.cpp".toList
    let parent := "/home/u/run-rocm-tests/../x.cpp".toList
    (sourceOnRemote root sibling = true ∧ isManagedRemotePath sibling root = false ∧
        remoteAbspath root sibling "work" = sibling ∧ ¬ Agree root sibling) ∧
      sourceOnRemote root parent = true ∧ isManagedRemotePath parent root = false ∧
        remoteAbspath root parent "work" = parent ∧ ¬ Agree root parent :=
  ⟨⟨by decide, by decide, by decide, fun h => absurd h.source (by decide)⟩,
    by decide, by decide, by decide, fun h => absurd h.source (by decide)⟩

end OnRemote
end Builder
end RocmTests

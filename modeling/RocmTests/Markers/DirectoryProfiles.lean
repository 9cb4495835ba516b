import RocmTests.Collections.LongestPrefix
import RocmTests.GithubActions.ChangeImpact
import RocmTests.Markers.LintSound
import RocmTests.Text.PathPrefix

/-!
# Profiles by directory

A profile is meant for the tests below a directory.  The plugin and the linter take the longest
key that the text of the relative path begins with, and the linter resolves the path first.  The
change detector puts a slash behind each key.  All three are here for any table.
-/

namespace RocmTests
namespace Markers

open Text Collections
open GithubActions (sortSet startsWith)

/-- A table such as `CATEGORY_PROFILES`. -/
abbrev Profiles := List (Txt × List Txt)

namespace Profiles

section

variable (table : Profiles)

def keys : List Txt := table.map Prod.fst

/-- `match` after the loop, if the table has it. -/
def selected (rel : Txt) : Option Txt :=
  if longestIn table.keys rel ∈ table.keys then some (longestIn table.keys rel) else none

/-- `table.get(match, [])`. -/
def profileOf (rel : Txt) : List Txt := (table.lookup (longestIn table.keys rel)).getD []

/-- `_matching_profile`. -/
def matchingProfile (cwd fspath : Txt) : List Txt :=
  match (PurePath.of fspath).relativeTo (PurePath.of cwd) with
  | some rel => table.profileOf rel.asPosix
  | none => []

/-- The path that `_inherited_markers` looks up. -/
def seenByLinter (fs : Filesystem) (path : Txt) : PurePath :=
  ((PurePath.of (fs.resolve path)).relativeTo (PurePath.of (fs.resolve fs.cwd))).getD
    (PurePath.of path)

/-- `_inherited_markers`. -/
def inheritedMarkers (fs : Filesystem) (path : Txt) : List Txt :=
  table.profileOf (seenByLinter fs path).asPosix

/-- The key whose profile the plugin takes. -/
def pluginKey (cwd fspath : Txt) : Option Txt :=
  ((PurePath.of fspath).relativeTo (PurePath.of cwd)).bind fun rel => table.selected rel.asPosix

/-- The key whose profile the linter takes. -/
def linterKey (fs : Filesystem) (path : Txt) : Option Txt :=
  table.selected (seenByLinter fs path).asPosix

/-- `_ALL_E2E_DIRS`. -/
def allDirs : List Txt := sortSet (table.keys.map (· ++ ['/']))

end

/-! ### By directory -/

/-- The directory of the key is above the path, component by component. -/
def Above (k : Txt) (rel : PurePath) : Prop :=
  (PurePath.of k).root = rel.root ∧ components k <+: rel.tail

instance (k : Txt) (rel : PurePath) : Decidable (Above k rel) := by
  unfold Above
  infer_instance

/-- No key above the path is deeper, and where there is none, none is above it. -/
def IsLongest (table : Profiles) (rel : PurePath) : Option Txt → Prop
  | none => ∀ k ∈ table.keys, ¬ Above k rel
  | some m => m ∈ table.keys ∧ Above m rel ∧
      ∀ k ∈ table.keys, Above k rel → (components k).length ≤ (components m).length

/-- The three readers of a table at one test file, whose path below the working directory is
`rel`. -/
structure ByDirectory (table : Profiles) (fs : Filesystem) (path : Txt) (rel : PurePath) :
    Prop where
  plugin : IsLongest table rel (table.pluginKey fs.cwd path)
  linter : IsLongest table rel (table.linterKey fs path)
  agree : table.pluginKey fs.cwd path = table.linterKey fs path
  detector : (table.pluginKey fs.cwd path).isSome ↔
    ∃ dir ∈ table.allDirs, startsWith rel.asPosix dir = true

/-- A key that the text begins with and that is no directory above the path is a shorter text
than such a directory. -/
def NoStray (table : Profiles) (rel : PurePath) (text : Txt) : Prop :=
  ∀ k ∈ table.keys, k <+: text → ¬ Above k rel →
    ∃ m ∈ table.keys, m <+: text ∧ Above m rel ∧ k.length < m.length

/-- What has to hold of the keys and of the two texts of the path. -/
structure Fits (table : Profiles) (rel : PurePath) (seen : Txt) : Prop where
  plugin : NoStray table rel rel.asPosix
  linter : NoStray table rel seen
  /-- No directory above the path goes by a spelling that one of the texts does not have. -/
  spelled : ∀ k ∈ table.keys, Above k rel → ∃ m ∈ table.keys, Above m rel ∧
    m <+: rel.asPosix ∧ m <+: seen ∧ (components k).length ≤ (components m).length ∧
      (k <+: rel.asPosix ∨ k <+: seen → k.length ≤ m.length)
  /-- One of the directories is in the spelling that a slash can follow, and not the file. -/
  below : ∀ k ∈ table.keys, Above k rel → ∃ m ∈ table.keys, Above m rel ∧
    joinSlash (components m) = m ∧ components m ≠ [] ∧ (components m).length < rel.tail.length

section

variable {table : Profiles} {rel : PurePath} {text : Txt}

theorem selected_eq_some {m : Txt} (h : table.selected text = some m) :
    m ∈ table.keys ∧ m <+: text ∧ ∀ k ∈ table.keys, k <+: text → k <+: m := by
  unfold selected at h
  split at h
  · rename_i hmem
    obtain rfl := Option.some.inj h
    exact ⟨hmem, longestIn_isPrefix _, fun k hk hpre => prefix_longestIn hk hpre⟩
  · cases h

theorem selected_eq_none (h : table.selected text = none) : ∀ k ∈ table.keys, ¬ k <+: text := by
  unfold selected at h
  split at h
  · cases h
  · rename_i hmem
    exact fun k hk hpre => hmem (longestIn_mem_iff.mpr ⟨k, hk, hpre⟩)

theorem length_components_of_front {k m : Txt} (h : k <+: m) :
    (components k).length ≤ (components m).length := by
  obtain ⟨u, rfl⟩ := h
  exact length_components_le k u

theorem IsLongest.isSome_iff {o : Option Txt} (h : IsLongest table rel o) :
    o.isSome ↔ ∃ k ∈ table.keys, Above k rel := by
  cases o with
  | none => exact iff_of_false (fun h => nomatch h) fun ⟨k, hk, habove⟩ => h k hk habove
  | some m => exact iff_of_true rfl ⟨m, h.1, h.2.1⟩

/-- The longest text is the deepest directory when the keys that are none are outdone and the
directories begin the text. -/
theorem isLongest_selected (hstray : NoStray table rel text)
    (hspelled : ∀ k ∈ table.keys, Above k rel → ∃ m ∈ table.keys, Above m rel ∧ m <+: text ∧
      (components k).length ≤ (components m).length) :
    IsLongest table rel (table.selected text) := by
  cases hsel : table.selected text with
  | none =>
    intro k hk habove
    obtain ⟨m, hm, -, hpre, -⟩ := hspelled k hk habove
    exact selected_eq_none hsel m hm hpre
  | some m =>
    obtain ⟨hm, hpre, hall⟩ := selected_eq_some hsel
    have habove : Above m rel := by
      by_contra hnot
      obtain ⟨m', hm', hpre', -, hlen⟩ := hstray m hm hpre hnot
      exact absurd (hall m' hm' hpre').length_le (Nat.not_le_of_lt hlen)
    refine ⟨hm, habove, fun k hk hk_above => ?_⟩
    obtain ⟨m', hm', -, hpre', hlen⟩ := hspelled k hk hk_above
    exact Nat.le_trans hlen (length_components_of_front (hall m' hm' hpre'))

/-- Of two texts the one selects what begins the other as well. -/
theorem prefix_of_selected {text' m m' : Txt} (hm : table.selected text = some m)
    (hm' : table.selected text' = some m')
    (hboth : ∃ k ∈ table.keys, k <+: text ∧ k <+: text' ∧ m.length ≤ k.length) : m <+: m' := by
  obtain ⟨k, hk, hpre, hpre', hlen⟩ := hboth
  have hkm : k <+: m := (selected_eq_some hm).2.2 k hk hpre
  have heq : k = m := hkm.eq_of_length_le hlen
  exact heq ▸ (selected_eq_some hm').2.2 k hk hpre'

theorem noStray_of_isLongest (h : IsLongest table rel (table.selected text)) :
    NoStray table rel text := by
  intro k hk hpre hnot
  cases hsel : table.selected text with
  | none => exact absurd hpre (selected_eq_none hsel k hk)
  | some m =>
    rw [hsel] at h
    obtain ⟨hm, hm_pre, hall⟩ := selected_eq_some hsel
    refine ⟨m, hm, hm_pre, h.2.1, ?_⟩
    refine Nat.lt_of_le_of_ne (hall k hk hpre).length_le fun hlen => hnot ?_
    rw [(hall k hk hpre).eq_of_length hlen]
    exact h.2.1

/-- A key that is not there has no profile. -/
theorem profileOf_eq (table : Profiles) (text : Txt) :
    table.profileOf text = ((table.selected text).bind fun k => table.lookup k).getD [] := by
  unfold profileOf selected
  by_cases hmem : longestIn table.keys text ∈ table.keys
  · rw [if_pos hmem, Option.bind_some]
  · have hnone : table.lookup (longestIn table.keys text) = none := by
      rw [List.lookup_eq_none_iff]
      intro p hp
      rw [bne_iff_ne]
      rintro heq
      exact hmem (heq ▸ List.mem_map_of_mem hp)
    rw [if_neg hmem, hnone, Option.bind_none]

theorem matchingProfile_eq (table : Profiles) (cwd fspath : Txt) :
    table.matchingProfile cwd fspath =
      ((table.pluginKey cwd fspath).bind fun k => table.lookup k).getD [] := by
  unfold matchingProfile pluginKey
  cases (PurePath.of fspath).relativeTo (PurePath.of cwd) with
  | none => rfl
  | some rel => exact profileOf_eq table rel.asPosix

theorem inheritedMarkers_eq (table : Profiles) (fs : Filesystem) (path : Txt) :
    table.inheritedMarkers fs path =
      ((table.linterKey fs path).bind fun k => table.lookup k).getD [] :=
  profileOf_eq table _

/-- A path below another one is relative and has no slash in a component. -/
theorem relative_of_relativeTo {path cwd : Txt}
    (h : (PurePath.of path).relativeTo (PurePath.of cwd) = some rel) :
    rel.root = [] ∧ ∀ c ∈ rel.tail, Proper c := by
  unfold PurePath.relativeTo at h
  split at h
  · obtain rfl := Option.some.inj h
    exact ⟨rfl, fun c hc => components_proper path c (List.mem_of_mem_drop hc)⟩
  · cases h

/-- The change detector has the directories that a slash can follow. -/
theorem startsWith_allDirs_iff (hroot : rel.root = []) (hproper : ∀ c ∈ rel.tail, Proper c) :
    (∃ dir ∈ table.allDirs, startsWith rel.asPosix dir = true) ↔
      ∃ m ∈ table.keys, Above m rel ∧ joinSlash (components m) = m ∧ components m ≠ [] ∧
        (components m).length < rel.tail.length := by
  have htext (k : Txt) : k ++ ['/'] <+: rel.asPosix ↔ k ++ ['/'] <+: joinSlash rel.tail := by
    unfold PurePath.asPosix
    rw [hroot, List.nil_append]
    by_cases hnil : joinSlash rel.tail = []
    · rw [if_pos hnil, hnil]
      refine iff_of_false (fun h => ?_) fun h => ?_
      · have hslash : '/' ∈ ['.'] := h.subset (List.mem_append_right k List.mem_cons_self)
        exact absurd hslash (by decide)
      · exact absurd (List.prefix_nil.mp h) (by simp)
    · rw [if_neg hnil]
  constructor
  · intro ⟨dir, hdir, hstarts⟩
    obtain ⟨k, hk, rfl⟩ := List.mem_map.mp (GithubActions.mem_sortSet.mp hdir)
    have hpre := (htext k).mp (List.isPrefixOf_iff_prefix.mp hstarts)
    obtain ⟨hspelled, habove, hne, hlen⟩ := (slash_prefix_joinSlash hproper).mp hpre
    have hhead : k.head? ≠ some '/' := hspelled ▸ head_joinSlash (components_proper k)
    exact ⟨k, hk, ⟨(PurePath.root_of_head hhead).trans hroot.symm, habove⟩, hspelled, hne, hlen⟩
  · intro ⟨m, hm, habove, hspelled, hne, hlen⟩
    refine ⟨m ++ ['/'], GithubActions.mem_sortSet.mpr (List.mem_map_of_mem hm), ?_⟩
    exact List.isPrefixOf_iff_prefix.mpr
      ((htext m).mpr ((slash_prefix_joinSlash hproper).mpr ⟨hspelled, habove.2, hne, hlen⟩))

end

/-- The three readers go by directory exactly when the texts of the keys and of the paths fit. -/
theorem byDirectory_iff {table : Profiles} {fs : Filesystem} {path : Txt} {rel : PurePath}
    (hrel : (PurePath.of path).relativeTo (PurePath.of fs.cwd) = some rel) :
    ByDirectory table fs path rel ↔ Fits table rel (seenByLinter fs path).asPosix := by
  obtain ⟨hroot, hproper⟩ := relative_of_relativeTo hrel
  have hkey : table.pluginKey fs.cwd path = table.selected rel.asPosix := by
    rw [pluginKey, hrel, Option.bind_some]
  constructor
  · intro ⟨hplugin, hlinter, hagree, hdetector⟩
    have hsome := hplugin.isSome_iff
    rw [startsWith_allDirs_iff hroot hproper] at hdetector
    refine ⟨noStray_of_isLongest (hkey ▸ hplugin), noStray_of_isLongest hlinter, ?_, ?_⟩
    · intro k hk habove
      cases hsel : table.pluginKey fs.cwd path with
      | none =>
        rw [hsel] at hplugin
        exact absurd habove (hplugin k hk)
      | some m =>
        rw [hsel] at hplugin
        obtain ⟨hm, hpre, hall⟩ := selected_eq_some (hkey ▸ hsel)
        obtain ⟨-, hpre', hall'⟩ := selected_eq_some (hagree ▸ hsel)
        refine ⟨m, hm, hplugin.2.1, hpre, hpre', hplugin.2.2 k hk habove, ?_⟩
        rintro (h | h)
        · exact (hall k hk h).length_le
        · exact (hall' k hk h).length_le
    · exact fun k hk habove => hdetector.mp (hsome.mpr ⟨k, hk, habove⟩)
  · intro ⟨hplugin, hlinter, hspelled, hbelow⟩
    have hlongest : IsLongest table rel (table.pluginKey fs.cwd path) := by
      rw [hkey]
      refine isLongest_selected hplugin fun k hk habove => ?_
      obtain ⟨m, hm, hm_above, hpre, -, hlen, -⟩ := hspelled k hk habove
      exact ⟨m, hm, hm_above, hpre, hlen⟩
    have hlongest' : IsLongest table rel (table.linterKey fs path) := by
      refine isLongest_selected hlinter fun k hk habove => ?_
      obtain ⟨m, hm, hm_above, -, hpre, hlen, -⟩ := hspelled k hk habove
      exact ⟨m, hm, hm_above, hpre, hlen⟩
    refine ⟨hlongest, hlongest', ?_, ?_⟩
    · cases hsel : table.pluginKey fs.cwd path with
      | none =>
        rw [hsel] at hlongest
        have hnone := mt hlongest'.isSome_iff.mp fun ⟨k, hk, habove⟩ => hlongest k hk habove
        exact (Option.not_isSome_iff_eq_none.mp hnone).symm
      | some m =>
        rw [hsel] at hlongest
        have hsome := hlongest'.isSome_iff.mpr ⟨m, hlongest.1, hlongest.2.1⟩
        obtain ⟨m', hsel'⟩ := Option.isSome_iff_exists.mp hsome
        rw [hsel'] at hlongest'
        have hm : table.selected rel.asPosix = some m := hkey ▸ hsel
        have hle : m <+: m' := by
          obtain ⟨k, hk, -, hpre, hpre', -, hlen⟩ := hspelled m hlongest.1 hlongest.2.1
          exact prefix_of_selected hm hsel'
            ⟨k, hk, hpre, hpre', hlen (Or.inl (selected_eq_some hm).2.1)⟩
        have hge : m' <+: m := by
          obtain ⟨k, hk, -, hpre, hpre', -, hlen⟩ := hspelled m' hlongest'.1 hlongest'.2.1
          exact prefix_of_selected hsel' hm
            ⟨k, hk, hpre', hpre, hlen (Or.inr (selected_eq_some hsel').2.1)⟩
        rw [hsel', hle.eq_of_length_le hge.length_le]
    · rw [hlongest.isSome_iff, startsWith_allDirs_iff hroot hproper]
      constructor
      · exact fun ⟨k, hk, habove⟩ => hbelow k hk habove
      · exact fun ⟨m, hm, habove, _⟩ => ⟨m, hm, habove⟩

instance (table : Profiles) (rel : PurePath) (text : Txt) : Decidable (NoStray table rel text) := by
  unfold NoStray
  infer_instance

/-- The test files of RCCL, in a checkout without links. -/
theorem byDirectory_rccl :
    ByDirectory categoryProfiles ⟨"/repo".toList, id⟩ "/repo/tests/e2e/rccl/test_a.py".toList
      (PurePath.of "tests/e2e/rccl/test_a.py".toList) :=
  (byDirectory_iff (by decide)).mpr ⟨by decide, by decide, by decide, by decide⟩

/-- The directory beside it gets the same profile from both, and the detector does not know it. -/
theorem not_byDirectory_rccl_x :
    let path := "/repo/tests/e2e/rccl_x/test_a.py".toList
    let rel := PurePath.of "tests/e2e/rccl_x/test_a.py".toList
    (PurePath.of path).relativeTo (PurePath.of "/repo".toList) = some rel ∧
      pluginKey categoryProfiles "/repo".toList path = some "tests/e2e/rccl".toList ∧
      linterKey categoryProfiles ⟨"/repo".toList, id⟩ path = some "tests/e2e/rccl".toList ∧
      ¬ Above "tests/e2e/rccl".toList rel ∧
      ¬ ByDirectory categoryProfiles ⟨"/repo".toList, id⟩ path rel := by
  intro path rel
  have hkey : pluginKey categoryProfiles "/repo".toList path = some "tests/e2e/rccl".toList := by
    decide
  have hnot : ¬ Above "tests/e2e/rccl".toList rel := by decide
  refine ⟨by decide, hkey, by decide, hnot, fun h => ?_⟩
  have hplugin := h.plugin
  rw [hkey] at hplugin
  exact hnot hplugin.2.1

/-! ### The table of the repository -/

theorem longestIn_categoryProfiles (rel : Txt) :
    longestIn (keys categoryProfiles) rel = Markers.longestPrefix rel :=
  List.foldl_map

theorem profileOf_categoryProfiles (rel : Txt) :
    profileOf categoryProfiles rel = Markers.profileOf rel := by
  unfold profileOf Markers.profileOf
  rw [longestIn_categoryProfiles]

theorem matchingProfile_categoryProfiles (cwd fspath : Txt) :
    matchingProfile categoryProfiles cwd fspath = Markers.matchingProfile cwd fspath := by
  unfold matchingProfile Markers.matchingProfile
  cases (PurePath.of fspath).relativeTo (PurePath.of cwd) with
  | none => rfl
  | some rel => exact profileOf_categoryProfiles rel.asPosix

theorem inheritedMarkers_categoryProfiles (fs : Filesystem) (path : Txt) :
    inheritedMarkers categoryProfiles fs path = MarkerLinter.inheritedMarkers fs path :=
  profileOf_categoryProfiles _

theorem keys_categoryProfiles : keys categoryProfiles = GithubActions.categoryProfiles := by
  decide +kernel

theorem allDirs_categoryProfiles : allDirs categoryProfiles = GithubActions.allE2eDirs := by
  unfold allDirs GithubActions.allE2eDirs
  rw [keys_categoryProfiles]

end Profiles
end Markers
end RocmTests

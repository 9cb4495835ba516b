import RocmTests.Text.Find
import RocmTests.Text.PathPrefix

/-!
# Where a remote path may lead

`remote_workspace_path` maps any path into the workspace of a remote node.  A path
that is in the workspace already is only normalised.  Every other path is made
relative, rid of the dots and slashes at its front and joined below the directory of
its category.

The coordinator's paths are POSIX paths.
-/

namespace RocmTests
namespace Common
namespace WorkspaceLayout

open Text

/-- `_CATEGORY_ROOTS`. -/
def categoryRoots : List (String × String) :=
  [("work", "output"), ("output", "output"), ("logs", "output/logs"),
    ("generated", "output/generated"), ("external", "external"), ("sftp", "sftp")]

def categoryRoot (category : String) : Txt := ((categoryRoots.lookup category).getD category).toList

def rstripSlash (t : Txt) : Txt := (t.reverse.dropWhile (· = '/')).reverse

def isManagedRemotePath (path workspaceRoot : Txt) : Bool :=
  let normalized := normpath (PurePath.of path).asPosix
  let workspace := rstripSlash workspaceRoot
  normalized = workspace || (workspace ++ ['/']).isPrefixOf normalized

/-- What stands behind the marker, if it occurs. -/
def behind (marker t : Txt) : Option Txt :=
  (indexOf marker t).map fun i => t.drop (i + marker.length)

/-- What a category below `output/` is called there. -/
def outputSuffix (category : Txt) : Option Txt :=
  if "output/".toList.isPrefixOf category then some (category.drop 7) else none

/-- `_relative_part`. -/
def relativePart (path category : Txt) : Txt :=
  let normalized := (normpath path).map fun c => if c = ':' then '_' else c
  let markers := if category = "external".toList then
    ["/output/test-binaries/".toList, "/output/external/".toList, "/external/".toList] else []
  match markers.findSome? fun marker => behind marker normalized with
  | some rest => rest
  | none =>
    match (if category = "output".toList then behind "/output/".toList normalized else none) with
    | some rest => "output/".toList ++ rest
    | none =>
      match (outputSuffix category).bind fun suffix =>
          (behind ("/output/".toList ++ suffix ++ ['/']) normalized).map
            fun rest => suffix ++ ['/'] ++ rest with
      | some rest => rest
      | none => normalized.dropWhile (· = '/')

/-- The prefixes a path may repeat, tried in this order. -/
def redundant (category : Txt) : List Txt :=
  match outputSuffix category with
  | some suffix => ["output/".toList ++ suffix ++ ['/'], suffix ++ ['/']]
  | none =>
    if category = "output".toList then ["output/".toList]
    else if category = "external".toList then
      ["output/test-binaries/".toList, "output/external/".toList, "external/".toList]
    else []

/-- `path.lstrip("./")`. -/
def lstripDots (t : Txt) : Txt := t.dropWhile fun c => c = '.' || c = '/'

def trimCategoryPrefix (path category : Txt) : Txt :=
  let rel := lstripDots (normpath path)
  if rel = ['.'] then []
  else
    match (redundant category).find? fun pre => pre.isPrefixOf rel with
    | some pre => rel.drop pre.length
    | none => rel

/-- `remote_workspace_path`. -/
def remoteWorkspacePath (workspaceRoot path : Txt) (category : String) : Txt :=
  let raw := (PurePath.of path).asPosix
  if isManagedRemotePath raw workspaceRoot then normpath raw
  else
    let root := categoryRoot category
    let rel := if (PurePath.of raw).root ≠ [] then relativePart raw root else raw
    join (join workspaceRoot root) (trimCategoryPrefix rel root)

/-! ## What the trimming leaves -/

/-- Empty, or made of proper components without `..`. -/
def Plain (t : Txt) : Prop :=
  t = [] ∨ ∀ c ∈ t.splitOn '/', PurePath.isComponent c = true ∧ c ≠ dots

theorem Plain.components {t : Txt} (h : Plain t) : ∀ c ∈ Text.components t, c ≠ dots := by
  intro c hc
  rcases h with rfl | h
  · cases hc
  · exact (h c (List.mem_filter.mp hc).1).2

theorem Plain.head {t : Txt} (h : Plain t) : t.head? ≠ some '/' := by
  intro hhead
  rcases h with rfl | h
  · cases hhead
  · cases t with
    | nil => cases hhead
    | cons c t =>
      obtain rfl := Option.some.inj hhead
      have hsplit : ('/' :: t).splitOn '/' = [] :: t.splitOn '/' :=
        List.splitOn_append_cons_self [] t
      have hempty := (h [] (by rw [hsplit]; exact List.mem_cons_self)).1
      cases hempty

/-- What follows a directory prefix is as plain as the whole. -/
theorem Plain.drop {pre t : Txt} (h : Plain ((pre ++ ['/']) ++ t)) : Plain t := by
  rw [List.append_assoc, List.singleton_append] at h
  rcases h with h | h
  · exact absurd h (by simp)
  · right
    intro c hc
    apply h
    rw [List.splitOn_append_cons_self]
    exact List.mem_append_right _ hc

/-- A component that lost the dots at its front. -/
theorem lstripDots_component {c : Txt} (hc : '/' ∉ c) (hne : lstripDots c ≠ []) :
    '/' ∉ lstripDots c ∧ PurePath.isComponent (lstripDots c) = true ∧ lstripDots c ≠ dots := by
  have hslash : '/' ∉ lstripDots c := fun h => hc ((List.dropWhile_suffix _).subset h)
  have hhead := List.head?_dropWhile_not (fun c => decide (c = '.') || decide (c = '/')) c
  cases hd : lstripDots c with
  | nil => exact absurd hd hne
  | cons x xs =>
    rw [hd] at hslash
    rw [show c.dropWhile _ = x :: xs from hd] at hhead
    have hx : x ≠ '.' := by
      rintro rfl
      cases hhead
    refine ⟨hslash, ?_, fun h => hx (List.cons.inj h).1⟩
    unfold PurePath.isComponent
    simp [hx]

theorem plain_of_dropWhile {cs : List Txt} (h : ∀ c ∈ cs, Proper c ∧ c ≠ dots) :
    Plain (lstripDots (joinSlash cs)) := by
  induction cs with
  | nil => exact Or.inl rfl
  | cons c cs ih =>
    have hrest := ih fun x hx => h x (List.mem_cons_of_mem c hx)
    have hc := (h c List.mem_cons_self).1.2
    cases cs with
    | nil =>
      by_cases hne : lstripDots c = []
      · exact Or.inl hne
      · obtain ⟨hslash, hgood⟩ := lstripDots_component hc hne
        right
        show ∀ x ∈ (lstripDots c).splitOn '/', _
        rw [List.splitOn_eq_singleton hslash]
        intro x hx
        rw [List.mem_singleton.mp hx]
        exact hgood
    | cons d ds =>
      have hjoin : lstripDots (joinSlash (c :: d :: ds)) =
          if (lstripDots c).isEmpty then lstripDots (joinSlash (d :: ds))
          else lstripDots c ++ '/' :: joinSlash (d :: ds) := List.dropWhile_append
      rw [hjoin]
      by_cases hne : lstripDots c = []
      · rw [hne]
        exact hrest
      · obtain ⟨hslash, hgood⟩ := lstripDots_component hc hne
        rw [if_neg (by rwa [List.isEmpty_iff])]
        right
        rw [List.splitOn_append_cons_self_of_not_mem hslash, splitOn_joinSlash
          (fun x hx => (h x (List.mem_cons_of_mem c hx)).1) (List.cons_ne_nil d ds)]
        intro x hx
        rcases List.mem_cons.mp hx with rfl | hx
        · exact hgood
        · obtain ⟨hproper, hdots⟩ := h x (List.mem_cons_of_mem c hx)
          exact ⟨hproper.1, hdots⟩

theorem lstripDots_replicate (n : Nat) (rest : List Txt) :
    lstripDots (joinSlash (List.replicate n dots ++ rest)) = lstripDots (joinSlash rest) := by
  induction n with
  | zero => rfl
  | succ n ih =>
    rw [List.replicate_succ, List.cons_append]
    cases hcs : List.replicate n dots ++ rest with
    | nil =>
      rw [hcs] at ih
      rw [← ih]
      rfl
    | cons c cs =>
      rw [hcs] at ih
      rw [← ih]
      rfl

theorem plain_lstripDots (t : Txt) : Plain (lstripDots (normpath t)) := by
  obtain ⟨n, rest, heq, _, hrest⟩ := normComps_form t
  have hslashes : ∀ (k : Nat) (u : Txt),
      lstripDots (List.replicate k '/' ++ u) = lstripDots u := by
    intro k u
    induction k with
    | zero => rfl
    | succ k ih => exact ih
  unfold normpath
  by_cases hnil : List.replicate (leadingSlashes t) '/' ++ joinSlash (normComps t) = []
  · simp only [hnil, if_true]
    exact Or.inl rfl
  · simp only [hnil, if_false]
    rw [hslashes, heq, lstripDots_replicate]
    exact plain_of_dropWhile hrest

theorem redundant_slash {category pre : Txt} (h : pre ∈ redundant category) :
    ∃ q, pre = q ++ ['/'] := by
  unfold redundant at h
  cases hsuffix : outputSuffix category with
  | some suffix =>
    simp only [hsuffix, List.mem_cons, List.not_mem_nil, or_false] at h
    rcases h with rfl | rfl
    · exact ⟨_, rfl⟩
    · exact ⟨_, rfl⟩
  | none =>
    simp only [hsuffix] at h
    split at h
    · exact ⟨"output".toList, List.mem_singleton.mp h⟩
    · split at h
      · simp only [List.mem_cons, List.not_mem_nil, or_false] at h
        rcases h with rfl | rfl | rfl
        · exact ⟨"output/test-binaries".toList, rfl⟩
        · exact ⟨"output/external".toList, rfl⟩
        · exact ⟨"external".toList, rfl⟩
      · cases h

theorem plain_trimCategoryPrefix (path category : Txt) :
    Plain (trimCategoryPrefix path category) := by
  have hplain := plain_lstripDots path
  unfold trimCategoryPrefix
  generalize lstripDots (normpath path) = rel at hplain
  show Plain (if rel = ['.'] then [] else _)
  by_cases hdot : rel = ['.']
  · rw [if_pos hdot]
    exact Or.inl rfl
  · rw [if_neg hdot]
    cases hfind : (redundant category).find? fun pre => pre.isPrefixOf rel with
    | none => exact hplain
    | some pre =>
      obtain ⟨q, rfl⟩ := redundant_slash (List.mem_of_find?_eq_some hfind)
      have hpre : (q ++ ['/']).isPrefixOf rel = true := by
        have hfound := List.find?_some hfind
        exact hfound
      obtain ⟨u, rfl⟩ := List.isPrefixOf_iff_prefix.mp hpre
      show Plain (List.drop _ _)
      rw [List.drop_left]
      exact hplain.drop

/-! ## Containment -/

section

variable {ws : Txt}

theorem components_rstripSlash (t : Txt) :
    components (rstripSlash t) = components t ∧
      (rstripSlash t ≠ [] → (rstripSlash t).head? = t.head?) := by
  obtain ⟨n, hn⟩ : ∃ n, t = rstripSlash t ++ List.replicate n '/' := by
    have hslashes : ∀ c ∈ t.reverse.takeWhile (· = '/'), c = '/' := by
      intro c hc
      have hyes := List.mem_takeWhile_imp (p := fun c => decide (c = '/')) hc
      exact of_decide_eq_true hyes
    have hsplit := List.takeWhile_append_dropWhile (p := fun c => decide (c = '/')) (l := t.reverse)
    rw [List.eq_replicate_of_mem hslashes] at hsplit
    refine ⟨(t.reverse.takeWhile (· = '/')).length, ?_⟩
    have hrev := congrArg List.reverse hsplit
    rw [List.reverse_append, List.reverse_replicate, List.reverse_reverse] at hrev
    exact hrev.symm
  constructor
  · conv_rhs => rw [hn]
    rw [components_append_slashes]
  · intro hne
    conv_rhs => rw [hn]
    rw [List.head?_append_of_ne_nil _ hne]

/-- A managed path is under the workspace as it stands. -/
theorem managed_under (habs : ws.head? = some '/') {p : Txt}
    (h : isManagedRemotePath p ws = true) : Under ws (normpath (PurePath.of p).asPosix) := by
  unfold isManagedRemotePath at h
  generalize hn : normpath (PurePath.of p).asPosix = n at h
  obtain ⟨hcomps, hhead⟩ := components_rstripSlash ws
  have hne : n ≠ [] := by
    rw [← hn]
    exact normpath_ne_nil _
  have hfacts : n.head? = some '/' ∧ components ws <+: components n := by
    rcases Bool.or_eq_true_iff.mp h with heq | hpre
    · have heq : n = rstripSlash ws := of_decide_eq_true heq
      rw [heq] at hne ⊢
      rw [hhead hne, hcomps]
      exact ⟨habs, List.prefix_rfl⟩
    · obtain ⟨u, rfl⟩ := List.isPrefixOf_iff_prefix.mp hpre
      rw [List.append_assoc, List.singleton_append, components_append_slash, hcomps]
      refine ⟨?_, List.prefix_append _ _⟩
      by_cases hnil : rstripSlash ws = []
      · rw [hnil]
        rfl
      · rw [List.head?_append_of_ne_nil _ hnil, hhead hnil, habs]
  have hplain : ∀ c ∈ components n, c ≠ dots := by
    rw [← hn] at hfacts ⊢
    rw [components_normpath]
    exact normComps_no_dots (leadingSlashes_ne_zero.mpr (head_normpath.mp hfacts.1))
  exact under_of_plain hfacts.1 hplain hfacts.2

/-! ## Managed paths -/

/-- With its `..` cancelled, the path goes through the directory. -/
def LeadsInto (root path : Txt) : Prop :=
  leadingSlashes path = leadingSlashes root ∧ components root <+: normComps path

theorem rstripSlash_eq {w : Txt} (hlast : w.getLast? ≠ some '/') : rstripSlash w = w := by
  unfold rstripSlash
  cases hw : w.reverse with
  | nil => rw [List.dropWhile_nil, ← hw, List.reverse_reverse]
  | cons c v =>
    have hc : c ≠ '/' := by
      rintro rfl
      rw [← List.head?_reverse, hw] at hlast
      exact hlast rfl
    rw [List.dropWhile_cons_of_neg (by simpa using hc), ← hw, List.reverse_reverse]

theorem getLast_of_slashes {w : Txt} {n : Nat} (h : w <+: List.replicate n '/') (hne : w ≠ []) :
    w.getLast? = some '/' := by
  rw [List.getLast?_eq_some_getLast hne, List.eq_of_mem_replicate (h.subset (List.getLast_mem hne))]

theorem leadsInto_of_prefix {w t : Txt} (habs : t.head? = some '/')
    (hlast : w.getLast? ≠ some '/') (hne : w ≠ []) (h : w ++ ['/'] <+: normpath t) :
    normpath w = w ∧ LeadsInto w t := by
  have hproper := normComps_proper t
  rw [normpath_absolute habs] at h
  have hpre : List.replicate (leadingSlashes t) '/' <+: w := by
    rcases List.prefix_or_prefix_of_prefix (List.prefix_append _ _)
      ((List.prefix_append w ['/']).trans h) with h | h
    · exact h
    · exact absurd (getLast_of_slashes h hne) hlast
  obtain ⟨v, rfl⟩ := hpre
  rw [List.append_assoc, List.prefix_append_right_inj] at h
  obtain ⟨hv, hcomps, -, -⟩ := (slash_prefix_joinSlash hproper).mp h
  have hslashes : leadingSlashes (List.replicate (leadingSlashes t) '/' ++ v) = leadingSlashes t :=
    leadingSlashes_replicate (leadingSlashes_le t) (hv ▸ head_joinSlash (components_proper v))
  have hcomps' : components (List.replicate (leadingSlashes t) '/' ++ v) = components v :=
    components_slashes _ v
  have hplain : ∀ c ∈ components (List.replicate (leadingSlashes t) '/' ++ v), c ≠ dots := by
    rw [hcomps']
    exact fun c hc => normComps_no_dots (leadingSlashes_ne_zero.mpr habs) c (hcomps.subset hc)
  have hhead := leadingSlashes_ne_zero.mp (hslashes ▸ leadingSlashes_ne_zero.mpr habs)
  refine ⟨?_, hslashes.symm, hcomps' ▸ hcomps⟩
  rw [normpath_absolute hhead, hslashes, normComps_plain hplain, hcomps', hv]

theorem head_of_managed {w t : Txt} (habs : w.head? = some '/')
    (h : isManagedRemotePath t w = true) : t.head? = some '/' := by
  have hunder := (managed_under habs h).1
  rwa [head_normpath, head_normpath, ← head_normpath, normpath_asPosix, head_normpath] at hunder

/-- A path is managed when it leads into a workspace that is in normal form. -/
theorem managed_iff {w t : Txt} (habs : w.head? = some '/') (hlast : w.getLast? ≠ some '/') :
    isManagedRemotePath t w = true ↔ normpath w = w ∧ LeadsInto w t := by
  have hne : w ≠ [] := fun h => by rw [h] at habs; cases habs
  have htest : isManagedRemotePath t w = true ↔ normpath t = w ∨ w ++ ['/'] <+: normpath t := by
    unfold isManagedRemotePath
    simp only [rstripSlash_eq hlast, normpath_asPosix]
    rw [Bool.or_eq_true, decide_eq_true_eq, List.isPrefixOf_iff_prefix]
  constructor
  · intro h
    have hhead := head_of_managed habs h
    rcases htest.mp h with rfl | hpre
    · refine ⟨?_, (leadingSlashes_normpath hhead).symm, ?_⟩
      · rw [normpath_absolute habs, leadingSlashes_normpath hhead, normComps_normpath hhead,
          ← normpath_absolute hhead]
      · rw [components_normpath]
    · exact leadsInto_of_prefix hhead hlast hne hpre
  · intro ⟨hnormal, hslashes, ds, hds⟩
    rw [htest]
    have hhead := leadingSlashes_ne_zero.mp (hslashes ▸ leadingSlashes_ne_zero.mpr habs)
    have hcomps : normComps w = components w := by rw [← components_normpath, hnormal]
    have hw : w = List.replicate (leadingSlashes t) '/' ++ joinSlash (components w) := by
      conv_lhs => rw [← hnormal, normpath_absolute habs, ← hslashes, hcomps]
    have hsome : components w ≠ [] := by
      intro hnil
      rw [hnil, joinSlash, List.append_nil] at hw
      exact hlast (getLast_of_slashes ⟨[], by rw [List.append_nil, ← hw]⟩ hne)
    rw [normpath_absolute hhead, ← hds]
    by_cases hnil : ds = []
    · left
      rw [hnil, List.append_nil, ← hw]
    · right
      rw [joinSlash_append hsome hnil, ← List.append_assoc, ← hw]
      exact ⟨joinSlash ds, by rw [List.append_assoc, List.singleton_append]⟩

theorem categoryRoot_plain {category : String} (h : category ∈ categoryRoots.map (·.1)) :
    (categoryRoot category).head? ≠ some '/' ∧ ∀ c ∈ components (categoryRoot category),
    c ≠ dots := by
  revert category
  decide

theorem isManagedRemotePath_asPosix (path ws : Txt) :
    isManagedRemotePath (PurePath.of path).asPosix ws = isManagedRemotePath path ws := by
  unfold isManagedRemotePath
  rw [normpath_asPosix, normpath_asPosix]

/-- What is mapped stays below a workspace whose path mentions no `..`. -/
theorem mapped_under (hws : ∀ c ∈ components ws, c ≠ dots) (habs : ws.head? = some '/')
    (path : Txt) {category : String} (hcategory : category ∈ categoryRoots.map (·.1)) :
    Under ws (remoteWorkspacePath ws path category) ∧
      (isManagedRemotePath path ws = false →
        Under (join ws (categoryRoot category)) (remoteWorkspacePath ws path category)) := by
  unfold remoteWorkspacePath
  simp only [isManagedRemotePath_asPosix]
  by_cases hmanaged : isManagedRemotePath path ws = true
  · rw [if_pos hmanaged, hmanaged]
    exact ⟨managed_under habs hmanaged, fun h => nomatch h⟩
  · rw [if_neg hmanaged]
    obtain ⟨hhead, hroot⟩ := categoryRoot_plain hcategory
    generalize (if (PurePath.of (PurePath.of path).asPosix).root ≠ [] then _ else _) = rel
    have htrim := plain_trimCategoryPrefix rel (categoryRoot category)
    generalize trimCategoryPrefix rel (categoryRoot category) = rest at htrim
    have hcomps : components (join (join ws (categoryRoot category)) rest) =
        components ws ++ components (categoryRoot category) ++ components rest := by
      rw [components_join htrim.head, components_join hhead]
    have hjoined : (join (join ws (categoryRoot category)) rest).head? = some '/' :=
      head_join (head_join habs)
    have hplain : ∀ c ∈ components (join (join ws (categoryRoot category)) rest), c ≠ dots := by
      rw [hcomps]
      intro c hc
      rcases List.mem_append.mp hc with hc | hc
      · rcases List.mem_append.mp hc with hc | hc
        · exact hws c hc
        · exact hroot c hc
      · exact htrim.components c hc
    refine ⟨under_of_plain hjoined hplain ?_, fun _ => under_of_plain hjoined hplain ?_⟩
    · rw [hcomps, List.append_assoc]
      exact List.prefix_append _ _
    · rw [hcomps, components_join hhead]
      exact List.prefix_append _ _

/-- Whatever the path is, what it is mapped to is under the workspace, and under the
directory of its category unless it was in the workspace already. -/
theorem remoteWorkspacePath_under (hws : normpath ws = ws) (habs : ws.head? = some '/')
    (path : Txt) {category : String} (hcategory : category ∈ categoryRoots.map (·.1)) :
    Under ws (remoteWorkspacePath ws path category) ∧
      (isManagedRemotePath path ws = false →
        Under (join ws (categoryRoot category)) (remoteWorkspacePath ws path category)) :=
  mapped_under (components_no_dots_of_normal habs hws) habs path hcategory

end

theorem remoteWorkspacePath_under_dots :
    Under "/home/u/run-rocm-tests".toList (remoteWorkspacePath "/home/u/run-rocm-tests".toList
        "../output/logs/../../etc".toList "logs") ∧
      (isManagedRemotePath "../output/logs/../../etc".toList "/home/u/run-rocm-tests".toList =
        false →
        Under (join "/home/u/run-rocm-tests".toList (categoryRoot "logs"))
          (remoteWorkspacePath "/home/u/run-rocm-tests".toList "../output/logs/../../etc".toList
            "logs")) :=
  remoteWorkspacePath_under (by decide) (by decide) _ (by decide)

end WorkspaceLayout
end Common
end RocmTests

import RocmTests.Common.SftpStage

/-!
# A directory and its files in the workspace

A directory is mapped into the remote workspace as a whole or file by file.  The two agree where
the mapping treats the directory and the path of a file in it alike: finds the same marker in both
and cuts the same prefix off both.
-/

namespace RocmTests
namespace Common
namespace WorkspaceLayout

open Text
open SftpStage (noColons)

/-! ## Markers -/

/-- The markers that `_relative_part` looks for, each with what it puts in front of the rest. -/
def markersOf (root : Txt) : List (Txt × Txt) :=
  if root = "external".toList then
    [("/output/test-binaries/".toList, []), ("/output/external/".toList, []),
      ("/external/".toList, [])]
  else if root = "output".toList then [("/output/".toList, "output/".toList)]
  else
    match outputSuffix root with
    | some suffix => [("/output/".toList ++ suffix ++ ['/'], suffix ++ ['/'])]
    | none => []

def behindFirst (ms : List (Txt × Txt)) (n : Txt) : Option Txt :=
  ms.findSome? fun m => (behind m.1 n).map (m.2 ++ ·)

/-- What is behind the first marker, or the path without the slash in front. -/
def cut (ms : List (Txt × Txt)) (n : Txt) : Txt := (behindFirst ms n).getD (n.dropWhile (· = '/'))

/-- The first marker that occurs. -/
def foundIn (ms : List (Txt × Txt)) (n : Txt) : Option (Txt × Txt) :=
  ms.find? fun m => (indexOf m.1 n).isSome

theorem relativePart_eq (path root : Txt) :
    relativePart path root = cut (markersOf root) (noColons (normpath path)) := by
  unfold relativePart cut behindFirst markersOf
  simp only [show (normpath path).map _ = noColons (normpath path) from rfl]
  generalize noColons (normpath path) = n
  by_cases hext : root = "external".toList
  · subst hext
    have hout : outputSuffix "external".toList = none := by decide
    rw [if_pos rfl, if_pos rfl, if_neg (by decide), hout]
    simp only [List.findSome?_cons, List.findSome?_nil, Option.bind_none]
    cases behind "/output/test-binaries/".toList n with
    | some rest => rfl
    | none =>
      cases behind "/output/external/".toList n with
      | some rest => rfl
      | none =>
        cases behind "/external/".toList n with
        | some rest => rfl
        | none => rfl
  · rw [if_neg hext, if_neg hext]
    by_cases hout : root = "output".toList
    · subst hout
      have hsuffix : outputSuffix "output".toList = none := by decide
      rw [if_pos rfl, if_pos rfl, hsuffix]
      simp only [List.findSome?_cons, List.findSome?_nil, Option.bind_none]
      cases behind "/output/".toList n with
      | some rest => rfl
      | none => rfl
    · rw [if_neg hout, if_neg hout]
      cases outputSuffix root with
      | none => rfl
      | some suffix =>
        simp only [List.findSome?_cons, List.findSome?_nil, Option.bind_some]
        cases behind ("/output/".toList ++ suffix ++ ['/']) n with
        | some rest => rfl
        | none => rfl

/-! ### One marker -/

theorem behind_of_indexOf {m n : Txt} {i : Nat} (h : indexOf m n = some i) :
    behind m n = some (n.drop (i + m.length)) := by
  rw [behind, h, Option.map_some]

theorem behind_eq_none_iff {m n : Txt} : behind m n = none ↔ ¬ m <:+: n := by
  rw [behind, Option.map_eq_none_iff, ← indexOf_isSome_iff, Option.not_isSome_iff_eq_none]

/-- A marker that occurs is found with the same rest when the path goes on. -/
theorem behind_append {m n rest : Txt} (h : behind m n = some rest) (u : Txt) :
    behind m (n ++ u) = some (rest ++ u) := by
  obtain ⟨i, hi, rfl⟩ := Option.map_eq_some_iff.mp h
  rw [behind_of_indexOf (indexOf_append hi u), List.drop_append_of_le_length (indexOf_add_le hi)]

/-- A marker that the path ends with, but for the slash, has the next name behind it. -/
theorem behind_new {m n : Txt} (hm : behind m n = none) (hnew : m <:+: n ++ ['/']) (c : Txt) :
    behind m (n ++ '/' :: c) = some c := by
  obtain ⟨i, hi⟩ := Option.isSome_iff_exists.mp (indexOf_isSome_iff.mpr hnew)
  have hpre := indexOf_some_drop hi
  have hle := indexOf_add_le hi
  rw [List.length_append, List.length_singleton] at hle
  have hend : i + m.length = n.length + 1 := by
    by_contra hne
    have hinside : m <+: n.drop i := by
      rw [List.drop_append_of_le_length (by omega)] at hpre
      refine List.prefix_of_prefix_length_le hpre (List.prefix_append _ _) ?_
      rw [List.length_drop]
      omega
    exact behind_eq_none_iff.mp hm (hinside.isInfix.trans (List.drop_suffix i n).isInfix)
  have hrest : behind m (n ++ ['/']) = some [] := by
    rw [behind_of_indexOf hi, List.drop_eq_nil_of_le]
    rw [List.length_append, List.length_singleton, hend]
  have happ := behind_append hrest c
  rwa [List.append_assoc, List.singleton_append, List.nil_append] at happ

theorem behind_none {m n c : Txt} (hlast : m.getLast? = some '/') (hc : '/' ∉ c)
    (hnot : ¬ m <:+: n ++ ['/']) : behind m (n ++ '/' :: c) = none := by
  rw [behind_eq_none_iff]
  intro ⟨x, y, hxy⟩
  have hsplit : (x ++ m) ++ y = (n ++ ['/']) ++ c := by
    rw [hxy, List.append_assoc, List.singleton_append]
  rcases List.append_eq_append_iff.mp hsplit with ⟨z, hz, -⟩ | ⟨z, hz, hcz⟩
  · exact hnot ⟨x, z, hz.symm⟩
  · cases z with
    | nil =>
      rw [List.append_nil] at hz
      exact hnot ⟨x, [], by rw [List.append_nil, hz]⟩
    | cons d z =>
      -- the last slash of the marker would be in the name
      have hmem : (x ++ m).getLast? = some '/' := by
        rw [List.getLast?_append, hlast]
        rfl
      rw [hz, List.getLast?_append_of_ne_nil _ (List.cons_ne_nil d z)] at hmem
      exact hc (hcz ▸ List.mem_append_left y (List.mem_of_getLast? hmem))

/-! ### All of them -/

section

variable {ms : List (Txt × Txt)} {n c : Txt}

theorem foundIn_cons_pos {m : Txt × Txt} {t : Txt} (h : m.1 <:+: t) :
    foundIn (m :: ms) t = some m :=
  List.find?_cons_of_pos (indexOf_isSome_iff.mpr h)

theorem foundIn_cons_neg {m : Txt × Txt} {t : Txt} (h : ¬ m.1 <:+: t) :
    foundIn (m :: ms) t = foundIn ms t :=
  List.find?_cons_of_neg (mt indexOf_isSome_iff.mp h)

theorem infix_of_foundIn {m : Txt × Txt} (h : foundIn ms n = some m) : m.1 <:+: n := by
  have hfound := List.find?_some h
  exact indexOf_isSome_iff.mp hfound

theorem behindFirst_cons_some {m : Txt × Txt} {t rest : Txt} (h : behind m.1 t = some rest) :
    behindFirst (m :: ms) t = some (m.2 ++ rest) := by
  rw [behindFirst, List.findSome?_cons, h]
  rfl

theorem behindFirst_cons_none {m : Txt × Txt} {t : Txt} (h : behind m.1 t = none) :
    behindFirst (m :: ms) t = behindFirst ms t := by
  rw [behindFirst, List.findSome?_cons, h]
  rfl

/-- What the first marker of a longer path is, against that of the path. -/
theorem behindFirst_child (hms : ∀ m ∈ ms, m.1.getLast? = some '/') (hc : '/' ∉ c) :
    (foundIn ms (n ++ ['/']) = foundIn ms n ∧
        behindFirst ms (n ++ '/' :: c) = (behindFirst ms n).map (· ++ '/' :: c)) ∨
      foundIn ms (n ++ ['/']) ≠ foundIn ms n ∧
        ∃ m ∈ ms, behindFirst ms (n ++ '/' :: c) = some (m.2 ++ c) := by
  induction ms with
  | nil => exact Or.inl ⟨rfl, rfl⟩
  | cons m ms ih =>
    cases hm : behind m.1 n with
    | some rest =>
      have hin : m.1 <:+: n := not_not.mp fun h => by
        rw [behind_eq_none_iff.mpr h] at hm
        cases hm
      left
      rw [foundIn_cons_pos hin, foundIn_cons_pos (hin.trans (List.prefix_append n _).isInfix),
        behindFirst_cons_some hm, behindFirst_cons_some (behind_append hm _), Option.map_some,
        List.append_assoc]
      exact ⟨rfl, rfl⟩
    | none =>
      have hnot := behind_eq_none_iff.mp hm
      rw [foundIn_cons_neg hnot]
      by_cases hnew : m.1 <:+: n ++ ['/']
      · right
        refine ⟨fun h => ?_, m, List.mem_cons_self, behindFirst_cons_some (behind_new hm hnew c)⟩
        rw [foundIn_cons_pos hnew] at h
        exact hnot (infix_of_foundIn h.symm)
      · have hlast := hms m List.mem_cons_self
        rw [foundIn_cons_neg hnew, behindFirst_cons_none hm,
          behindFirst_cons_none (behind_none hlast hc hnew)]
        refine (ih fun m' hm' => hms m' (List.mem_cons_of_mem m hm')).imp_right ?_
        exact fun ⟨hne, m', hm', heq⟩ => ⟨hne, m', List.mem_cons_of_mem m hm', heq⟩

end

/-! ## Prefixes -/

/-- What is left when the first prefix that fits is cut off. -/
def trimmed (prefixes : List Txt) (r : Txt) : Txt :=
  match prefixes.find? fun pre => pre.isPrefixOf r with
  | some pre => r.drop pre.length
  | none => r

theorem trimCategoryPrefix_eq (path root : Txt) :
    trimCategoryPrefix path root = trimmed (redundant root) (lstripDots (normpath path)) := by
  have hdot : lstripDots (normpath path) ≠ ['.'] := by
    intro h
    have hhead := List.head?_dropWhile_not (fun c => decide (c = '.') || decide (c = '/'))
      (normpath path)
    rw [show (normpath path).dropWhile _ = ['.'] from h] at hhead
    simp at hhead
  unfold trimCategoryPrefix trimmed
  dsimp only
  exact (if_neg hdot).trans rfl

section

variable {prefixes : List Txt} {r c : Txt}

theorem length_trimmed_le (prefixes : List Txt) (r : Txt) :
    (trimmed prefixes r).length ≤ r.length := by
  unfold trimmed
  split
  · rw [List.length_drop]
    exact Nat.sub_le _ _
  · exact Nat.le_refl _

theorem trimmed_suffix (prefixes : List Txt) (r : Txt) : trimmed prefixes r <:+ r := by
  unfold trimmed
  split
  · exact List.drop_suffix _ r
  · exact List.suffix_rfl

/-- A directory prefix of a path with a name behind it. -/
theorem slash_prefix_child {x : Txt} (hc : '/' ∉ c) :
    x ++ ['/'] <+: r ++ '/' :: c ↔ x ++ ['/'] <+: r ∨ x = r := by
  constructor
  · intro ⟨y, hy⟩
    have hsplit : (x ++ ['/']) ++ y = (r ++ ['/']) ++ c := by
      rw [hy, List.append_assoc, List.singleton_append]
    rcases List.append_eq_append_iff.mp hsplit with ⟨z, hz, -⟩ | ⟨z, hz, hcz⟩
    · rcases List.eq_nil_or_concat z with rfl | ⟨z, d, rfl⟩
      · rw [List.append_nil] at hz
        exact Or.inr (List.append_cancel_right hz).symm
      · rw [List.concat_eq_append, ← List.append_assoc] at hz
        exact Or.inl ⟨z, (List.append_inj' hz rfl).1.symm⟩
    · rcases List.eq_nil_or_concat z with rfl | ⟨z, d, rfl⟩
      · rw [List.append_nil] at hz
        exact Or.inr (List.append_cancel_right hz)
      · rw [List.concat_eq_append, ← List.append_assoc] at hz
        have hd : ['/'] = [d] := (List.append_inj' hz rfl).2
        rw [List.concat_eq_append, ← (List.cons.inj hd).1] at hcz
        exact absurd (hcz ▸ List.mem_append_left y (List.mem_append_right z List.mem_cons_self)) hc
  · rintro (h | rfl)
    · exact h.trans (List.prefix_append r _)
    · exact ⟨c, by rw [List.append_assoc, List.singleton_append]⟩

theorem trimmed_child (hslash : ∀ pre ∈ prefixes, ∃ x, pre = x ++ ['/']) (hc : '/' ∉ c)
    (hr : r ++ ['/'] ∉ prefixes) :
    trimmed prefixes (r ++ '/' :: c) = trimmed prefixes r ++ '/' :: c := by
  have hfind : prefixes.find? (fun pre => pre.isPrefixOf (r ++ '/' :: c)) =
      prefixes.find? fun pre => pre.isPrefixOf r := by
    refine List.find?_congr fun pre hpre => ?_
    obtain ⟨x, rfl⟩ := hslash pre hpre
    have hx : x ≠ r := fun h => hr (h ▸ hpre)
    rw [Bool.eq_iff_iff, List.isPrefixOf_iff_prefix, List.isPrefixOf_iff_prefix,
      slash_prefix_child hc, or_iff_left hx]
  unfold trimmed
  rw [hfind]
  cases hpre : prefixes.find? fun pre => pre.isPrefixOf r with
  | none => rfl
  | some pre =>
    have hfound := List.find?_some hpre
    exact List.drop_append_of_le_length (List.isPrefixOf_iff_prefix.mp hfound).length_le

/-- The directory that a prefix names is cut off a path in it, and not off itself. -/
theorem trimmed_whole (hslash : ∀ pre ∈ prefixes, ∃ x, pre = x ++ ['/'])
    (hanti : ∀ pre ∈ prefixes, ∀ pre' ∈ prefixes, pre <+: pre' → pre = pre') (hc : '/' ∉ c)
    (hr : r ++ ['/'] ∈ prefixes) : trimmed prefixes (r ++ '/' :: c) = c := by
  have hself : r ++ ['/'] <+: r ++ '/' :: c := (slash_prefix_child hc).mpr (Or.inr rfl)
  unfold trimmed
  cases hpre : prefixes.find? fun pre => pre.isPrefixOf (r ++ '/' :: c) with
  | none => exact absurd (List.isPrefixOf_iff_prefix.mpr hself) (List.find?_eq_none.mp hpre _ hr)
  | some pre =>
    have hmem := List.mem_of_find?_eq_some hpre
    have hfound := List.find?_some hpre
    obtain ⟨x, rfl⟩ := hslash pre hmem
    have hx : x = r := by
      rcases (slash_prefix_child hc).mp (List.isPrefixOf_iff_prefix.mp hfound) with hin | hx
      · have heq := hanti _ hmem _ hr (hin.trans (List.prefix_append r _))
        exact List.append_cancel_right heq
      · exact hx
    show (r ++ '/' :: c).drop (x ++ ['/']).length = c
    have hsplit : r ++ '/' :: c = (r ++ ['/']) ++ c := by
      rw [List.append_assoc, List.singleton_append]
    rw [hx, hsplit, List.drop_left]

end

/-! ## The mapping by its parts -/

/-- What is mapped of a path, without the dots and slashes in front. -/
def remainder (root path : Txt) : Txt :=
  lstripDots (normpath
    (if path.head? = some '/' then cut (markersOf root) (noColons (normpath path)) else path))

theorem head_asPosix {t : Txt} :
    (PurePath.of t).asPosix.head? = some '/' ↔ t.head? = some '/' := by
  rw [← head_normpath, normpath_asPosix, head_normpath]

theorem root_ne_nil_iff {t : Txt} : (PurePath.of t).root ≠ [] ↔ t.head? = some '/' := by
  rw [root_eq, ← leadingSlashes_ne_zero]
  exact not_congr (List.replicate_eq_nil_iff '/')

theorem remoteWorkspacePath_of_managed {ws path : Txt} (category : String)
    (h : isManagedRemotePath path ws = true) :
    remoteWorkspacePath ws path category = normpath path := by
  unfold remoteWorkspacePath
  simp only [isManagedRemotePath_asPosix, h, if_true, normpath_asPosix]

theorem remoteWorkspacePath_of_not {ws path : Txt} (category : String)
    (h : isManagedRemotePath path ws = false) :
    remoteWorkspacePath ws path category = join (join ws (categoryRoot category))
      (trimmed (redundant (categoryRoot category)) (remainder (categoryRoot category) path)) := by
  unfold remoteWorkspacePath remainder
  simp only [isManagedRemotePath_asPosix, h, Bool.false_eq_true, if_false, trimCategoryPrefix_eq,
    relativePart_eq, normpath_asPosix, root_ne_nil_iff, head_asPosix]
  by_cases hhead : path.head? = some '/'
  · rw [if_pos hhead, if_pos hhead]
  · rw [if_neg hhead, if_neg hhead, normpath_asPosix]

/-! ### Categories -/

/-- What the proofs use of a category's directory, its markers and its prefixes. -/
structure Tidy (root : Txt) : Prop where
  names : ∀ c ∈ components root, IsName c
  ne_nil : components root ≠ []
  spelled : joinSlash (components root) = root
  markers : ∀ m ∈ markersOf root, m.1.getLast? = some '/' ∧ 't' ∈ m.1 ∧ ':' ∉ m.2
  /-- What is put in front is a prefix that is cut off again. -/
  fronts : ∀ m ∈ markersOf root, m.2 = [] ∨ IsName m.2.dropLast ∧
    lstripDots m.2.dropLast = m.2.dropLast ∧ m.2.dropLast ≠ [] ∧
      m.2 = m.2.dropLast ++ ['/'] ∧ m.2 ∈ redundant root
  prefixes : ∀ pre ∈ redundant root, ∀ pre' ∈ redundant root, pre <+: pre' → pre = pre'

instance (root : Txt) : Decidable (Tidy root) :=
  decidable_of_iff
    ((∀ c ∈ components root, IsName c) ∧ components root ≠ [] ∧
      joinSlash (components root) = root ∧
      (∀ m ∈ markersOf root, m.1.getLast? = some '/' ∧ 't' ∈ m.1 ∧ ':' ∉ m.2) ∧
      (∀ m ∈ markersOf root, m.2 = [] ∨ IsName m.2.dropLast ∧
        lstripDots m.2.dropLast = m.2.dropLast ∧ m.2.dropLast ≠ [] ∧
          m.2 = m.2.dropLast ++ ['/'] ∧ m.2 ∈ redundant root) ∧
      ∀ pre ∈ redundant root, ∀ pre' ∈ redundant root, pre <+: pre' → pre = pre')
    ⟨fun ⟨a, b, c, d, e, f⟩ => ⟨a, b, c, d, e, f⟩, fun ⟨a, b, c, d, e, f⟩ => ⟨a, b, c, d, e, f⟩⟩

theorem tidy_of_category {category : String} (h : category ∈ categoryRoots.map (·.1)) :
    Tidy (categoryRoot category) := by
  revert category
  decide

/-! ### Managed paths -/

section

variable {ws path c : Txt}

/-- A path is managed when it leads into the workspace, which may be the root of all paths. -/
theorem managed_iff_of_normal (hws : normpath ws = ws) (habs : ws.head? = some '/') :
    isManagedRemotePath path ws = true ↔ path.head? = some '/' ∧
      (components ws = [] ∨ leadingSlashes path = leadingSlashes ws) ∧
        components ws <+: normComps path := by
  have hrooted := rooted_of_normal habs hws
  by_cases hnil : components ws = []
  · have hslashes : ws = List.replicate (leadingSlashes ws) '/' := by
      rw [hnil, rooted, joinSlash, List.append_nil] at hrooted
      exact hrooted
    have hstrip : rstripSlash ws = [] := by
      have hall : ∀ x ∈ ws.reverse, decide (x = '/') = true := by
        intro x hx
        rw [hslashes, List.reverse_replicate] at hx
        exact decide_eq_true (List.eq_of_mem_replicate hx)
      rw [rstripSlash, List.dropWhile_eq_nil_iff.mpr hall]
      rfl
    have hne := normpath_ne_nil path
    unfold isManagedRemotePath
    simp only [normpath_asPosix, hstrip, List.nil_append]
    rw [Bool.or_eq_true, decide_eq_true_eq, or_iff_right hne, List.isPrefixOf_iff_prefix,
      ← head_normpath, hnil]
    constructor
    · rintro ⟨u, hu⟩
      exact ⟨hu ▸ rfl, Or.inl rfl, List.nil_prefix⟩
    · intro h
      obtain ⟨u, hu⟩ := List.head?_eq_some_iff.mp h.1
      exact ⟨u, hu.symm⟩
  · have hlast : ws.getLast? ≠ some '/' := by
      rw [hrooted, rooted, List.getLast?_append_of_ne_nil _
        (mt (joinSlash_eq_nil_iff (components_proper ws)).mp hnil)]
      exact getLast_joinSlash (components_proper ws)
    rw [managed_iff habs hlast, LeadsInto, or_iff_right hnil, and_iff_right hws]
    constructor
    · intro h
      refine ⟨leadingSlashes_ne_zero.mp ?_, h⟩
      rw [h.1]
      exact leadingSlashes_ne_zero.mpr habs
    · exact fun h => h.2

theorem managed_child (hws : normpath ws = ws) (habs : ws.head? = some '/') (hc : IsName c)
    (h : isManagedRemotePath path ws = true) : isManagedRemotePath (join path c) ws = true := by
  rw [managed_iff_of_normal hws habs] at h ⊢
  rw [leadingSlashes_child path hc, normComps_child path hc]
  exact ⟨head_join h.1, h.2.1, h.2.2.trans (List.prefix_append _ _)⟩

/-- A path that is not managed, and a name below it that is: then the path is what is above the
workspace. -/
theorem managed_of_child (hws : normpath ws = ws) (habs : ws.head? = some '/') (hc : IsName c)
    (h : isManagedRemotePath (join path c) ws = true) (hcomps : components ws <+: normComps path) :
    isManagedRemotePath path ws = true := by
  rw [managed_iff_of_normal hws habs] at h ⊢
  rw [leadingSlashes_child path hc] at h
  refine ⟨?_, h.2.1, hcomps⟩
  rw [← leadingSlashes_ne_zero, ← leadingSlashes_child path hc, leadingSlashes_ne_zero]
  exact h.1

/-- Where the path is managed, the mapping only normalises. -/
theorem laws_of_managed (hws : normpath ws = ws) (habs : ws.head? = some '/') (hc : IsName c)
    (category : String) (h : isManagedRemotePath path ws = true) :
    remoteWorkspacePath ws (normpath path) category = normpath path ∧
      normpath (normpath path) = normpath path ∧
      remoteWorkspacePath ws (join path c) category = join (normpath path) c := by
  have hhead := ((managed_iff_of_normal hws habs).mp h).1
  have hidem := normpath_normpath hhead
  have hmanaged : isManagedRemotePath (normpath path) ws = true := by
    unfold isManagedRemotePath at h ⊢
    rwa [normpath_asPosix, hidem, ← normpath_asPosix]
  refine ⟨?_, hidem, ?_⟩
  · rw [remoteWorkspacePath_of_managed category hmanaged, hidem]
  · rw [remoteWorkspacePath_of_managed category (managed_child hws habs hc h),
      normpath_join_child hhead hc]

end

/-! ### Other paths -/

theorem Plain.splitOn {t : Txt} (h : Plain t) (hne : t ≠ []) :
    t.splitOn '/' = Text.components t ∧ ∀ c ∈ Text.components t, IsName c := by
  have hall := h.resolve_left hne
  have hcomps : Text.components t = t.splitOn '/' :=
    List.filter_eq_self.mpr fun c hc => (hall c hc).1
  refine ⟨hcomps.symm, fun c hc => ⟨components_proper t c hc, ?_⟩⟩
  exact (hall c (hcomps ▸ hc)).2

theorem Plain.eq_joinSlash {t : Txt} (h : Plain t) : t = joinSlash (Text.components t) := by
  by_cases hne : t = []
  · rw [hne]
    rfl
  · rw [← (h.splitOn hne).1, joinSlash_eq_intercalate, List.intercalate_splitOn]

theorem Plain.getLast {t : Txt} (h : Plain t) : t.getLast? ≠ some '/' := by
  rw [h.eq_joinSlash]
  exact getLast_joinSlash (components_proper t)

theorem trimmed_eq_nil_iff {prefixes : List Txt} {r : Txt} (hr : Plain r)
    (hslash : ∀ pre ∈ prefixes, ∃ x, pre = x ++ ['/']) : trimmed prefixes r = [] ↔ r = [] := by
  constructor
  · intro h
    unfold trimmed at h
    split at h
    · rename_i pre hpre
      obtain ⟨x, rfl⟩ := hslash pre (List.mem_of_find?_eq_some hpre)
      have hfound := List.find?_some hpre
      obtain ⟨u, rfl⟩ := List.isPrefixOf_iff_prefix.mp hfound
      rw [List.drop_left] at h
      rw [h, List.append_nil] at hr
      exact absurd (List.getLast?_concat) hr.getLast
    · exact h
  · intro h
    have hle := length_trimmed_le prefixes r
    rw [h, List.length_nil, Nat.le_zero, List.length_eq_zero_iff] at hle
    rw [h, hle]

section

variable {ws root path c : Txt}

theorem plain_trimmed (root path : Txt) :
    Plain (trimmed (redundant root) (remainder root path)) := by
  unfold remainder
  rw [← trimCategoryPrefix_eq]
  exact plain_trimCategoryPrefix _ _

theorem join_root (hws : normpath ws = ws) (habs : ws.head? = some '/') (hr : Tidy root) :
    join ws root = rooted (leadingSlashes ws) (components ws ++ components root) := by
  conv_lhs => rw [rooted_of_normal habs hws, ← hr.spelled]
  exact join_rooted (leadingSlashes_ne_zero.mpr habs) (components_proper ws)
    (fun c hc => (hr.names c hc).1) hr.ne_nil

theorem root_spec (hws : normpath ws = ws) (habs : ws.head? = some '/') (hr : Tidy root) :
    join ws root ≠ [] ∧ (join ws root).getLast? ≠ some '/' := by
  have hproper : ∀ c ∈ components ws ++ components root, Proper c := fun c hc =>
    (List.mem_append.mp hc).elim (components_proper ws c) fun hc => (hr.names c hc).1
  have hne := mt (joinSlash_eq_nil_iff hproper).mp
    (List.append_ne_nil_of_right_ne_nil (components ws) hr.ne_nil)
  rw [join_root hws habs hr, rooted]
  refine ⟨List.append_ne_nil_of_right_ne_nil _ hne, ?_⟩
  rw [List.getLast?_append_of_ne_nil _ hne]
  exact getLast_joinSlash hproper

theorem mapped_proper (ws : Txt) (hr : Tidy root) (t : Txt) :
    ∀ c ∈ components ws ++ components root ++ components t, Proper c := by
  intro c hc
  rcases List.mem_append.mp hc with hc | hc
  · exact (List.mem_append.mp hc).elim (components_proper ws c) fun hc => (hr.names c hc).1
  · exact components_proper t c hc

theorem mapped_eq (hws : normpath ws = ws) (habs : ws.head? = some '/') (hr : Tidy root) {t : Txt}
    (ht : Plain t) (hnil : t ≠ []) : join (join ws root) t =
      rooted (leadingSlashes ws) (components ws ++ components root ++ components t) := by
  have hcomps : components t ≠ [] := by
    intro h
    rw [ht.eq_joinSlash, h] at hnil
    exact hnil rfl
  have hproper : ∀ c ∈ components ws ++ components root, Proper c := fun c hc =>
    mapped_proper ws hr t c (List.mem_append_left _ hc)
  conv_lhs => rw [join_root hws habs hr, ht.eq_joinSlash]
  exact join_rooted (leadingSlashes_ne_zero.mpr habs) hproper (components_proper t) hcomps

/-- What is mapped is in normal form unless nothing of the path is left. -/
theorem normal_iff (hws : normpath ws = ws) (habs : ws.head? = some '/') (hr : Tidy root) {t : Txt}
    (ht : Plain t) : normpath (join (join ws root) t) = join (join ws root) t ↔ t ≠ [] := by
  obtain ⟨hne, hlast⟩ := root_spec hws habs hr
  have hslashes := leadingSlashes_ne_zero.mpr habs
  have hnames : ∀ c ∈ components ws ++ components root, IsName c := by
    intro c hc
    rcases List.mem_append.mp hc with hc | hc
    · exact ⟨components_proper ws c hc, components_no_dots_of_normal habs hws c hc⟩
    · exact hr.names c hc
  have hproper : ∀ c ∈ components ws ++ components root, Proper c := fun c hc => (hnames c hc).1
  constructor
  · rintro h rfl
    rw [join_eq hne hlast ht.head] at h
    have hcomps : normComps (join ws root ++ ['/']) ≠ [] := by
      have heq : components (join ws root ++ ['/']) = components ws ++ components root := by
        rw [components_append_slash, join_root hws habs hr, components_rooted _ hproper]
        exact List.append_nil _
      rw [normComps_plain, heq]
      · exact List.append_ne_nil_of_right_ne_nil _ hr.ne_nil
      · rw [heq]
        exact fun c hc => (hnames c hc).2
    have hend := getLast_normpath hcomps
    rw [h, List.getLast?_concat] at hend
    exact hend rfl
  · intro hnil
    obtain ⟨-, ht_names⟩ := ht.splitOn hnil
    rw [mapped_eq hws habs hr ht hnil]
    refine normpath_rooted (leadingSlashes_le ws) hslashes fun c hc => ?_
    rcases List.mem_append.mp hc with hc | hc
    · exact hnames c hc
    · exact ht_names c hc

/-- What is mapped is in the workspace. -/
theorem managed_mapped (hws : normpath ws = ws) (habs : ws.head? = some '/') (hr : Tidy root)
    {t : Txt} (ht : Plain t) (hnil : t ≠ []) :
    isManagedRemotePath (join (join ws root) t) ws = true := by
  have hnormal := (normal_iff hws habs hr ht).mpr hnil
  have heq := mapped_eq hws habs hr ht hnil
  have hproper := mapped_proper ws hr t
  have hhead : (join (join ws root) t).head? = some '/' := head_join (head_join habs)
  rw [managed_iff_of_normal hws habs, ← components_normpath, hnormal, heq,
    components_rooted _ hproper, rooted,
    leadingSlashes_replicate (leadingSlashes_le ws) (head_joinSlash hproper), ← rooted, ← heq,
    List.append_assoc]
  exact ⟨hhead, Or.inr rfl, List.prefix_append _ _⟩

/-! ### What is mapped of a name below a path -/

theorem lstripDots_append {a : Txt} (h : lstripDots a ≠ []) (b : Txt) :
    lstripDots (a ++ b) = lstripDots a ++ b := by
  unfold lstripDots at h ⊢
  rw [List.dropWhile_append, if_neg (by simpa using h)]

theorem normComps_ne_nil_of_lstripDots {u : Txt} (h : lstripDots (normpath u) ≠ []) :
    normComps u ≠ [] := by
  intro hnil
  apply h
  unfold lstripDots normpath
  rw [hnil, List.dropWhile_eq_nil_iff]
  intro x hx
  simp only [joinSlash, List.append_nil] at hx
  split at hx
  · rw [List.mem_singleton.mp hx]
    rfl
  · rw [List.eq_of_mem_replicate hx]
    rfl

/-- Of a relative path the name stays behind the rest. -/
theorem remainder_relative (hc : IsName c) (hrel : path.head? ≠ some '/')
    (hrest : remainder root path ≠ []) :
    remainder root (join path c) = remainder root path ++ '/' :: c := by
  have hjoin : (join path c).head? ≠ some '/' := by
    rw [Ne, ← leadingSlashes_ne_zero, leadingSlashes_child path hc, leadingSlashes_ne_zero]
    exact hrel
  unfold remainder at hrest ⊢
  rw [if_neg hrel] at hrest ⊢
  rw [if_neg hjoin, normpath_child hc (normComps_ne_nil_of_lstripDots hrest),
    lstripDots_append hrest]

theorem colon_not_mem_noColons (t : Txt) : ':' ∉ noColons t := by
  intro h
  obtain ⟨x, -, hx⟩ := List.mem_map.mp h
  split at hx
  · exact absurd hx (by decide)
  · rename_i hne
    exact hne hx

theorem noColons_of_not_mem {t : Txt} (h : ':' ∉ t) : noColons t = t := by
  refine (List.map_congr_left fun x hx => ?_).trans (List.map_id t)
  have hx : x ≠ ':' := fun e => h (e ▸ hx)
  exact if_neg hx

theorem noColons_append_slash (a b : Txt) :
    noColons (a ++ '/' :: b) = noColons a ++ '/' :: noColons b := by
  unfold noColons
  rw [List.map_append, List.map_cons]
  rfl

theorem isName_noColons (hc : IsName c) : IsName (noColons c) := SftpStage.noColons_plain hc

/-- An absolute path of which something is left has a component. -/
theorem normComps_ne_nil_of_remainder (hr : Tidy root) (habs : path.head? = some '/')
    (hrest : remainder root path ≠ []) : normComps path ≠ [] := by
  intro hnil
  apply hrest
  have hslashes : noColons (normpath path) = List.replicate (leadingSlashes path) '/' := by
    rw [normpath_absolute habs, hnil, joinSlash, List.append_nil, noColons_of_not_mem]
    exact fun h => absurd (List.eq_of_mem_replicate h) (by decide)
  have hcut : cut (markersOf root) (List.replicate (leadingSlashes path) '/') = [] := by
    have hnone : behindFirst (markersOf root) (List.replicate (leadingSlashes path) '/') =
        none := by
      rw [behindFirst, List.findSome?_eq_none_iff]
      intro m hm
      rw [Option.map_eq_none_iff, behind_eq_none_iff]
      intro h
      exact absurd (List.eq_of_mem_replicate (h.subset (hr.markers m hm).2.1)) (by decide)
    rw [cut, hnone, Option.getD_none, List.dropWhile_eq_nil_iff]
    intro x hx
    exact decide_eq_true (List.eq_of_mem_replicate hx)
  unfold remainder
  rw [if_pos habs, hslashes, hcut]
  decide

/-- Of an absolute path the name stays behind the rest where the same marker is found, and is all
that is left where the path ends with a new one. -/
theorem remainder_absolute (hr : Tidy root) (hc : IsName c) (habs : path.head? = some '/')
    (hrest : remainder root path ≠ []) :
    (foundIn (markersOf root) (noColons (normpath path) ++ ['/']) =
          foundIn (markersOf root) (noColons (normpath path)) ∧
        remainder root (join path c) = remainder root path ++ '/' :: noColons c) ∨
      foundIn (markersOf root) (noColons (normpath path) ++ ['/']) ≠
          foundIn (markersOf root) (noColons (normpath path)) ∧
        ∃ m ∈ markersOf root,
          remainder root (join path c) = lstripDots (normpath (m.2 ++ noColons c)) := by
  have hne := normComps_ne_nil_of_remainder hr habs hrest
  have hname := isName_noColons hc
  have hjoin : (join path c).head? = some '/' := head_join habs
  have hchild : noColons (normpath (join path c)) =
      noColons (normpath path) ++ '/' :: noColons c := by
    rw [normpath_child hc hne, noColons_append_slash]
  unfold remainder at hrest ⊢
  rw [if_pos habs] at hrest ⊢
  rw [if_pos hjoin, hchild]
  rcases behindFirst_child (n := noColons (normpath path)) (fun m hm => (hr.markers m hm).1)
    hname.1.2 with ⟨hsame, heq⟩ | ⟨hnew, m, hm, heq⟩
  · left
    refine ⟨hsame, ?_⟩
    have hcut : cut (markersOf root) (noColons (normpath path) ++ '/' :: noColons c) =
        cut (markersOf root) (noColons (normpath path)) ++ '/' :: noColons c := by
      unfold cut at hrest ⊢
      rw [heq]
      cases hfirst : behindFirst (markersOf root) (noColons (normpath path)) with
      | some rest => rfl
      | none =>
        have hdrop : (noColons (normpath path)).dropWhile (· = '/') ≠ [] := by
          intro hnil
          rw [hfirst, Option.getD_none, hnil] at hrest
          exact hrest (by decide)
        rw [Option.map_none, Option.getD_none, Option.getD_none, List.dropWhile_append,
          if_neg (by simpa using hdrop)]
    rw [hcut, normpath_append_slash hname (normComps_ne_nil_of_lstripDots hrest),
      lstripDots_append hrest]
  · right
    refine ⟨hnew, m, hm, ?_⟩
    rw [cut, heq, Option.getD_some]

end

/-! ## The laws -/

section

variable (ws path c : Txt) (category : String)

/-- The mapping gives a normal form, keeps what it gave, and takes a name below the path to that
name below what it gave. -/
structure Homomorphic : Prop where
  normal : normpath (remoteWorkspacePath ws path category) = remoteWorkspacePath ws path category
  idempotent : remoteWorkspacePath ws (remoteWorkspacePath ws path category) category =
    remoteWorkspacePath ws path category
  child : remoteWorkspacePath ws (join path c) category =
    join (remoteWorkspacePath ws path category) c

/-- What has to hold of a path that is not in the workspace, and of the name below it. -/
structure Regular (root : Txt) : Prop where
  /-- The path has more than dots and slashes. -/
  rest : remainder root path ≠ []
  /-- It is no directory that is cut off a path in it. -/
  prefixes : remainder root path ++ ['/'] ∉ redundant root
  /-- The name does not lead into the workspace. -/
  outside : isManagedRemotePath (join path c) ws = false
  colon : path.head? = some '/' → ':' ∉ c
  /-- No marker ends with the path. -/
  markers : path.head? = some '/' → foundIn (markersOf root) (noColons (normpath path) ++ ['/']) =
    foundIn (markersOf root) (noColons (normpath path))

end

section

variable {ws root path c : Txt} {category : String}

/-- With the name, one directory is cut off that is not cut off the path: only the name is left. -/
theorem length_trimmed_new (hr : Tidy root) (hc : IsName c) {m : Txt × Txt}
    (hm : m ∈ markersOf root) :
    (trimmed (redundant root) (lstripDots (normpath (m.2 ++ c)))).length ≤ c.length := by
  have hslash : ∀ pre ∈ redundant root, ∃ x, pre = x ++ ['/'] := fun _ h => redundant_slash h
  rcases hr.fronts m hm with hnil | ⟨hx, hstrip, hne, hsplit, hmem⟩
  · rw [hnil, List.nil_append, normpath_name hc]
    exact (length_trimmed_le _ _).trans (List.dropWhile_suffix _).length_le
  · generalize hx' : m.2.dropLast = x at hx hstrip hne hsplit
    rw [hsplit] at hmem ⊢
    have hcomps : normComps x ≠ [] := by
      rw [normComps_plain (by rw [hx.components]; simpa using hx.2), hx.components]
      exact List.cons_ne_nil x []
    rw [List.append_assoc, List.singleton_append, normpath_append_slash hc hcomps,
      normpath_name hx, lstripDots_append (hstrip.symm ▸ hne), hstrip,
      trimmed_whole hslash hr.prefixes hc.1.2 hmem]

theorem colon_not_mem_cut (hr : Tidy root) {n : Txt} (hn : ':' ∉ n) :
    ':' ∉ cut (markersOf root) n := by
  unfold cut
  cases hfirst : behindFirst (markersOf root) n with
  | none => exact fun h => hn ((List.dropWhile_suffix _).subset h)
  | some u =>
    obtain ⟨m, hm, hu⟩ := List.exists_of_findSome?_eq_some hfirst
    obtain ⟨rest, hrest, rfl⟩ := Option.map_eq_some_iff.mp hu
    obtain ⟨i, -, rfl⟩ := Option.map_eq_some_iff.mp hrest
    intro h
    rcases List.mem_append.mp h with h | h
    · exact (hr.markers m hm).2.2 h
    · exact hn (List.mem_of_mem_drop h)

/-- No colon reaches the workspace with an absolute path. -/
theorem colon_not_mem_trimmed (hr : Tidy root) (habs : path.head? = some '/') :
    ':' ∉ trimmed (redundant root) (remainder root path) := by
  intro h
  have hrest := (trimmed_suffix _ _).subset h
  unfold remainder at hrest
  rw [if_pos habs] at hrest
  rcases mem_normpath ((List.dropWhile_suffix _).subset hrest) with h | h | h
  · exact absurd h (by decide)
  · exact absurd h (by decide)
  · exact colon_not_mem_cut hr (colon_not_mem_noColons _) h

/-- Of a path that is not in the workspace, the child law is one about what is left. -/
theorem child_iff (hws : normpath ws = ws) (habs : ws.head? = some '/')
    (hr : Tidy (categoryRoot category)) (hc : IsName c)
    (h : isManagedRemotePath path ws = false)
    (hout : isManagedRemotePath (join path c) ws = false)
    (hne : trimmed (redundant (categoryRoot category)) (remainder (categoryRoot category) path) ≠
      []) :
    remoteWorkspacePath ws (join path c) category =
        join (remoteWorkspacePath ws path category) c ↔
      trimmed (redundant (categoryRoot category))
        (remainder (categoryRoot category) (join path c)) =
        trimmed (redundant (categoryRoot category)) (remainder (categoryRoot category) path) ++
          '/' :: c := by
  obtain ⟨hroot, hlast⟩ := root_spec hws habs hr
  have ht := plain_trimmed (categoryRoot category) path
  have ht' := plain_trimmed (categoryRoot category) (join path c)
  rw [remoteWorkspacePath_of_not category h, remoteWorkspacePath_of_not category hout]
  generalize trimmed _ (remainder _ path) = t at ht hne ⊢
  generalize trimmed _ (remainder _ (join path c)) = t' at ht' ⊢
  have hmapped : (join ws (categoryRoot category) ++ '/' :: t).getLast? ≠ some '/' := by
    rw [List.getLast?_append_of_ne_nil _ (List.cons_ne_nil '/' t), List.getLast?_cons_of_ne_nil hne]
    exact ht.getLast
  rw [join_eq hroot hlast ht.head, join_eq hroot hlast ht'.head,
    join_eq (List.append_ne_nil_of_right_ne_nil _ (List.cons_ne_nil _ _)) hmapped hc.head,
    List.append_assoc, List.cons_append, List.append_cancel_left_eq, List.cons.injEq,
    and_iff_right rfl]

/-- A name below what is outside the workspace may be the workspace itself; the law fails there. -/
theorem not_child_of_managed (hws : normpath ws = ws) (habs : ws.head? = some '/')
    (hr : Tidy (categoryRoot category)) (hc : IsName c)
    (h : isManagedRemotePath path ws = false)
    (hin : isManagedRemotePath (join path c) ws = true) :
    remoteWorkspacePath ws (join path c) category ≠
      join (remoteWorkspacePath ws path category) c := by
  intro heq
  have ht := plain_trimmed (categoryRoot category) path
  rw [remoteWorkspacePath_of_managed category hin, remoteWorkspacePath_of_not category h] at heq
  have hcomps := congrArg components heq
  rw [components_normpath, normComps_child path hc, components_child _ hc,
    components_join ht.head, join_root hws habs hr,
    components_rooted] at hcomps
  · have hpath := List.append_cancel_right hcomps
    have hpre : components ws <+: normComps path := by
      rw [hpath, List.append_assoc]
      exact List.prefix_append _ _
    rw [managed_of_child hws habs hc hin hpre] at h
    cases h
  · intro d hd
    exact (List.mem_append.mp hd).elim (components_proper ws d) fun hd => (hr.names d hd).1

/-- Where no marker ends with the path, the name stays behind the rest. -/
theorem remainder_child (hr : Tidy root) (hc : IsName c) (hrest : remainder root path ≠ [])
    (hcolon : path.head? = some '/' → ':' ∉ c)
    (hmarkers : path.head? = some '/' →
      foundIn (markersOf root) (noColons (normpath path) ++ ['/']) =
        foundIn (markersOf root) (noColons (normpath path))) :
    remainder root (join path c) = remainder root path ++ '/' :: c := by
  by_cases hhead : path.head? = some '/'
  · rcases remainder_absolute hr hc hhead hrest with ⟨-, heq⟩ | ⟨hne, -⟩
    · rwa [noColons_of_not_mem (hcolon hhead)] at heq
    · exact absurd (hmarkers hhead) hne
  · exact remainder_relative hc hhead hrest

theorem regular_of_child (hws : normpath ws = ws) (habs : ws.head? = some '/')
    (hroot : categoryRoot category = root) (hr : Tidy root) (hc : IsName c)
    (h : isManagedRemotePath path ws = false)
    (hchild : remoteWorkspacePath ws (join path c) category =
      join (remoteWorkspacePath ws path category) c)
    (hrest : remainder root path ≠ []) : Regular ws path c root := by
  have hslash : ∀ pre ∈ redundant root, ∃ x, pre = x ++ ['/'] := fun _ h => redundant_slash h
  have hout : isManagedRemotePath (join path c) ws = false := Bool.eq_false_iff.mpr fun hin =>
    not_child_of_managed hws habs (hroot ▸ hr) hc h hin hchild
  have hne : trimmed (redundant root) (remainder root path) ≠ [] :=
    mt (trimmed_eq_nil_iff (plain_lstripDots _) hslash).mp hrest
  have heq := (child_iff hws habs (hroot ▸ hr) hc h hout (hroot ▸ hne)).mp hchild
  rw [hroot] at heq
  have hlong : c.length < (trimmed (redundant root) (remainder root (join path c))).length := by
    have hpos := List.length_pos_iff.mpr hne
    rw [heq, List.length_append, List.length_cons]
    omega
  have hcolon : path.head? = some '/' → ':' ∉ c := by
    intro hhead hmem
    apply colon_not_mem_trimmed hr (head_join (b := c) hhead)
    rw [heq]
    exact List.mem_append_right _ (List.mem_cons_of_mem '/' hmem)
  have hmarkers : path.head? = some '/' →
      foundIn (markersOf root) (noColons (normpath path) ++ ['/']) =
        foundIn (markersOf root) (noColons (normpath path)) := by
    intro hhead
    rcases remainder_absolute hr hc hhead hrest with ⟨hsame, -⟩ | ⟨-, m, hm, hnew⟩
    · exact hsame
    · rw [noColons_of_not_mem (hcolon hhead)] at hnew
      have hshort := length_trimmed_new hr hc hm
      rw [← hnew] at hshort
      omega
  refine ⟨hrest, fun hmem => ?_, hout, hcolon, hmarkers⟩
  -- the directory is cut off the path in it, and only the name is left
  rw [remainder_child hr hc hrest hcolon hmarkers,
    trimmed_whole hslash hr.prefixes hc.1.2 hmem] at hlong
  omega

/-- The mapping is a homomorphism at a path and a name below it exactly where the path is in the
workspace or the two are regular. -/
theorem homomorphic_iff (hws : normpath ws = ws) (habs : ws.head? = some '/')
    (hcategory : category ∈ categoryRoots.map (·.1)) (hc : IsName c) :
    Homomorphic ws path c category ↔ isManagedRemotePath path ws = true ∨
      Regular ws path c (categoryRoot category) := by
  have hr := tidy_of_category hcategory
  have hslash : ∀ pre ∈ redundant (categoryRoot category), ∃ x, pre = x ++ ['/'] :=
    fun _ h => redundant_slash h
  by_cases h : isManagedRemotePath path ws = true
  · obtain ⟨hidem, hnormal, hchild⟩ := laws_of_managed hws habs hc category h
    refine iff_of_true ⟨?_, ?_, ?_⟩ (Or.inl h)
    · rw [remoteWorkspacePath_of_managed category h, hnormal]
    · rw [remoteWorkspacePath_of_managed category h, hidem]
    · rw [remoteWorkspacePath_of_managed category h, hchild]
  · have h := Bool.eq_false_iff.mpr h
    rw [h, or_iff_right Bool.false_ne_true]
    generalize hroot : categoryRoot category = root at hr hslash
    have ht := plain_trimmed root path
    have hrest : trimmed (redundant root) (remainder root path) = [] ↔ remainder root path = [] :=
      trimmed_eq_nil_iff (plain_lstripDots _) hslash
    have hmapped := remoteWorkspacePath_of_not category h
    rw [hroot] at hmapped
    constructor
    · intro ⟨hnormal, _, hchild⟩
      rw [hmapped, normal_iff hws habs hr ht] at hnormal
      exact regular_of_child hws habs hroot hr hc h hchild (mt hrest.mpr hnormal)
    · intro hreg
      have hne := mt hrest.mp hreg.rest
      refine ⟨?_, ?_, ?_⟩
      · rw [hmapped, (normal_iff hws habs hr ht).mpr hne]
      · rw [hmapped, remoteWorkspacePath_of_managed category (managed_mapped hws habs hr ht hne),
          (normal_iff hws habs hr ht).mpr hne]
      · rw [child_iff hws habs (hroot ▸ hr) hc h hreg.outside (hroot ▸ hne), hroot,
          remainder_child hr hc hreg.rest hreg.colon hreg.markers,
          trimmed_child hslash hc.1.2 hreg.prefixes]

theorem homomorphic_source : Homomorphic "/w".toList "src/a".toList "x".toList "work" ↔
    isManagedRemotePath "src/a".toList "/w".toList = true ∨
      Regular "/w".toList "src/a".toList "x".toList (categoryRoot "work") :=
  homomorphic_iff (by decide) rfl (by decide) (by decide)

/-- The directory `output` is mapped as a whole below itself, and its files are not. -/
theorem not_homomorphic_output :
    ¬ ∀ (ws path c : Txt) (category : String), normpath ws = ws → ws.head? = some '/' →
      category ∈ categoryRoots.map (·.1) → IsName c → Homomorphic ws path c category := by
  intro h
  have hchild := (h "/w".toList "output".toList "x".toList "work" (by decide) rfl (by decide)
    (by decide)).child
  have hfile : remoteWorkspacePath "/w".toList (join "output".toList "x".toList) "work" =
      "/w/output/x".toList := by decide
  have hwhole : remoteWorkspacePath "/w".toList "output".toList "work" =
      "/w/output/output".toList := by decide
  rw [hfile, hwhole] at hchild
  exact absurd hchild (by decide)

end

end WorkspaceLayout
end Common
end RocmTests

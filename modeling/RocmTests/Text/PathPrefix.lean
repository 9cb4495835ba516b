import RocmTests.Text.PosixPath

/-!
# Texts that a path begins with

A path may begin with the text of another one and not be below it: the last component of the
shorter text can be the beginning of a longer name.
-/

namespace RocmTests
namespace Text

theorem isComponent_append {c d : Txt} (h : PurePath.isComponent c = true) :
    PurePath.isComponent (c ++ d) = true := by
  unfold PurePath.isComponent at h ⊢
  cases c with
  | nil => cases h
  | cons x c =>
    cases c with
    | nil => cases d <;> simp_all
    | cons y c => simp

theorem components_of_no_slash {p : Txt} (hp : '/' ∉ p) :
    components p = if PurePath.isComponent p = true then [p] else [] := by
  rw [components_eq, List.splitOn_eq_singleton hp, List.filter_singleton]
  split <;> simp_all

theorem length_components_of_no_slash {p : Txt} (hp : '/' ∉ p) (b : Txt) :
    (components p).length ≤ (components (p ++ b)).length := by
  rw [components_of_no_slash hp]
  by_cases hcomp : PurePath.isComponent p = true
  · rw [if_pos hcomp]
    by_cases hb : '/' ∈ b
    · obtain ⟨u, v, rfl, hu⟩ := List.eq_append_cons_of_mem hb
      have hpu : '/' ∉ p ++ u := fun h => (List.mem_append.mp h).elim hp hu
      rw [← List.append_assoc, components_append_slash, components_of_no_slash hpu,
        if_pos (isComponent_append hcomp)]
      exact Nat.le_add_left 1 _
    · have hpb : '/' ∉ p ++ b := fun h => (List.mem_append.mp h).elim hp hb
      rw [components_of_no_slash hpb, if_pos (isComponent_append hcomp)]
      exact Nat.le_refl 1
  · rw [if_neg hcomp]
    exact Nat.zero_le _

/-- A longer text has no fewer components. -/
theorem length_components_le (a b : Txt) :
    (components a).length ≤ (components (a ++ b)).length := by
  by_cases ha : '/' ∈ a
  · obtain ⟨v, w, hrev, hv⟩ := List.eq_append_cons_of_mem (List.mem_reverse.mpr ha)
    have heq : a = w.reverse ++ '/' :: v.reverse := by
      rw [← List.reverse_reverse a, hrev, List.reverse_append, List.reverse_cons,
        List.append_assoc, List.singleton_append]
    have hlast : '/' ∉ v.reverse := fun h => hv (List.mem_reverse.mp h)
    rw [heq, List.append_assoc, List.cons_append, components_append_slash,
      components_append_slash, List.length_append, List.length_append]
    exact Nat.add_le_add_left (length_components_of_no_slash hlast b) _
  · exact length_components_of_no_slash ha b

theorem joinSlash_cons (c : Txt) {cs : List Txt} (h : cs ≠ []) :
    joinSlash (c :: cs) = c ++ '/' :: joinSlash cs := by
  cases cs with
  | nil => exact absurd rfl h
  | cons d ds => rfl

theorem joinSlash_append {cs ds : List Txt} (hcs : cs ≠ []) (hds : ds ≠ []) :
    joinSlash (cs ++ ds) = joinSlash cs ++ '/' :: joinSlash ds := by
  induction cs with
  | nil => exact absurd rfl hcs
  | cons c cs ih =>
    by_cases hnil : cs = []
    · rw [hnil]
      exact joinSlash_cons c hds
    · have happ : cs ++ ds ≠ [] := fun h => hnil (List.append_eq_nil_iff.mp h).1
      rw [List.cons_append, joinSlash_cons c happ, ih hnil, joinSlash_cons c hnil,
        List.append_assoc, List.cons_append]

theorem joinSlash_eq_nil_iff {cs : List Txt} (h : ∀ c ∈ cs, Proper c) :
    joinSlash cs = [] ↔ cs = [] := by
  constructor
  · intro hnil
    rw [← components_joinSlash h, hnil]
    rfl
  · exact fun hnil => by rw [hnil]; rfl

/-- With a slash behind it, what the text of a path begins with is a directory above it. -/
theorem slash_prefix_joinSlash {cs : List Txt} (h : ∀ c ∈ cs, Proper c) {k : Txt} :
    k ++ ['/'] <+: joinSlash cs ↔
      joinSlash (components k) = k ∧ components k <+: cs ∧ components k ≠ [] ∧
        (components k).length < cs.length := by
  constructor
  · intro ⟨u, hu⟩
    rw [List.append_assoc, List.singleton_append] at hu
    have hne : cs ≠ [] := by
      rintro rfl
      exact absurd hu (List.append_ne_nil_of_right_ne_nil k (List.cons_ne_nil _ _))
    have hsplit : k.splitOn '/' ++ u.splitOn '/' = cs := by
      rw [← splitOn_joinSlash h hne, ← hu, List.splitOn_append_cons_self]
    have hk : components k = k.splitOn '/' := by
      rw [components_eq, List.filter_eq_self]
      exact fun c hc => (h c (hsplit ▸ List.mem_append_left _ hc)).1
    have hpos := List.length_pos_of_ne_nil (List.splitOn_ne_nil '/' u)
    refine ⟨?_, hk ▸ ⟨_, hsplit⟩, hk ▸ List.splitOn_ne_nil '/' k, ?_⟩
    · rw [hk, joinSlash_eq_intercalate, List.intercalate_splitOn]
    · rw [hk, ← hsplit, List.length_append]
      omega
  · intro ⟨hk, ⟨ds, hds⟩, hne, hlen⟩
    have hrest : ds ≠ [] := by
      rintro rfl
      rw [← hds, List.append_nil] at hlen
      exact absurd hlen (Nat.lt_irrefl _)
    refine ⟨joinSlash ds, ?_⟩
    rw [← hds, joinSlash_append hne hrest, hk, List.append_assoc, List.singleton_append]

/-! ## Normal forms -/

theorem leadingSlashes_append {w : Txt} (h : ∃ c ∈ w, c ≠ '/') (v : Txt) :
    leadingSlashes (w ++ v) = leadingSlashes w := by
  obtain ⟨x, hx, hslash⟩ := h
  rcases w with _ | ⟨a, _ | ⟨b, _ | ⟨c, w⟩⟩⟩
  · cases hx
  · rw [List.mem_singleton] at hx
    subst hx
    simp [leadingSlashes, hslash]
  · by_cases ha : a = '/'
    · subst ha
      have hb : b ≠ '/' := by
        rintro rfl
        simp_all
      simp [leadingSlashes, hb]
    · simp [leadingSlashes, ha]
  · by_cases ha : a = '/'
    · by_cases hb : b = '/'
      · by_cases hc : c = '/'
        · subst ha hb hc
          rfl
        · simp [leadingSlashes, ha, hb, hc]
      · simp [leadingSlashes, ha, hb]
    · simp [leadingSlashes, ha]

theorem normpath_absolute {t : Txt} (h : t.head? = some '/') :
    normpath t = List.replicate (leadingSlashes t) '/' ++ joinSlash (normComps t) := by
  have hne := leadingSlashes_ne_zero.mpr h
  unfold normpath
  simp only []
  rw [if_neg]
  exact fun hnil => hne (List.replicate_eq_nil_iff '/' |>.mp (List.append_eq_nil_iff.mp hnil).1)

theorem leadingSlashes_normpath {t : Txt} (h : t.head? = some '/') :
    leadingSlashes (normpath t) = leadingSlashes t := by
  rw [normpath_absolute h]
  exact leadingSlashes_replicate (leadingSlashes_le t) (head_joinSlash (normComps_proper t))

theorem normComps_normpath {t : Txt} (h : t.head? = some '/') :
    normComps (normpath t) = normComps t := by
  have hplain := normComps_no_dots (leadingSlashes_ne_zero.mpr h)
  rw [← components_normpath t] at hplain ⊢
  exact normComps_plain hplain

/-! ## A name below a path -/

/-- A name that stays where it is put. -/
def IsName (c : Txt) : Prop := Proper c ∧ c ≠ dots

instance (c : Txt) : Decidable (IsName c) := by
  unfold IsName Proper
  infer_instance

theorem IsName.ne_nil {c : Txt} (h : IsName c) : c ≠ [] := by
  rintro rfl
  exact absurd h.1.1 (by decide)

theorem IsName.head {c : Txt} (h : IsName c) : c.head? ≠ some '/' :=
  fun hhead => h.1.2 (List.mem_of_mem_head? hhead)

theorem IsName.components {c : Txt} (h : IsName c) : Text.components c = [c] := by
  rw [components_of_no_slash h.1.2, if_pos h.1.1]

theorem join_eq {a b : Txt} (ha : a ≠ []) (hlast : a.getLast? ≠ some '/')
    (hb : b.head? ≠ some '/') : join a b = a ++ '/' :: b := by
  unfold join
  rw [if_neg hb, if_neg (not_or.mpr ⟨ha, hlast⟩)]

theorem leadingSlashes_child (p : Txt) {c : Txt} (hc : IsName c) :
    leadingSlashes (join p c) = leadingSlashes p := by
  by_cases hother : ∃ x ∈ p, x ≠ '/'
  · unfold join
    rw [if_neg hc.head]
    split
    · exact leadingSlashes_append hother c
    · exact leadingSlashes_append hother _
  · obtain ⟨n, rfl⟩ : ∃ n, p = List.replicate n '/' :=
      ⟨_, List.eq_replicate_of_mem fun x hx => not_not.mp fun hne => hother ⟨x, hx, hne⟩⟩
    have hjoin : join (List.replicate n '/') c = List.replicate n '/' ++ c := by
      unfold join
      rw [if_neg hc.head, if_pos]
      cases n with
      | zero => exact Or.inl rfl
      | succ n =>
        right
        rw [List.getLast?_replicate, if_neg (Nat.succ_ne_zero n)]
    rw [hjoin]
    rcases n with _ | _ | _ | n
    · exact leadingSlashes_replicate (Nat.zero_le 2) hc.head
    · exact leadingSlashes_replicate (by decide) hc.head
    · exact leadingSlashes_replicate (Nat.le_refl 2) hc.head
    · rfl

theorem normComps_eq_foldl (t : Txt) : normComps t =
    ((components t).foldl (normStep (decide (leadingSlashes t ≠ 0))) []).reverse := by
  rw [normComps, foldl_normStep_skip, components_eq]

theorem normComps_snoc {p x c : Txt} (hc : IsName c)
    (hslashes : leadingSlashes x = leadingSlashes p)
    (hcomps : Text.components x = Text.components p ++ [c]) : normComps x = normComps p ++ [c] := by
  have hstep (absolute : Bool) (kept : List Txt) : normStep absolute kept c = c :: kept := by
    unfold normStep
    rw [hc.1.1, if_neg Bool.noConfusion, if_pos (Or.inl hc.2)]
  rw [normComps_eq_foldl, normComps_eq_foldl, hslashes, hcomps, List.foldl_append,
    List.foldl_cons, List.foldl_nil, hstep, List.reverse_cons]

/-- The normal form of a name below a path. -/
theorem normpath_snoc {p x c : Txt} (hc : IsName c)
    (hslashes : leadingSlashes x = leadingSlashes p)
    (hcomps : Text.components x = Text.components p ++ [c]) :
    normpath x = if normComps p = [] then List.replicate (leadingSlashes p) '/' ++ c
      else normpath p ++ '/' :: c := by
  unfold normpath
  rw [normComps_snoc hc hslashes hcomps, hslashes]
  by_cases hnil : normComps p = []
  · rw [if_pos hnil, hnil, List.nil_append]
    exact if_neg (List.append_ne_nil_of_right_ne_nil _ hc.ne_nil)
  · have hjoin : joinSlash (normComps p ++ [c]) = joinSlash (normComps p) ++ '/' :: c :=
      joinSlash_append hnil (List.cons_ne_nil c [])
    have hne := mt (joinSlash_eq_nil_iff (normComps_proper p)).mp hnil
    rw [if_neg hnil, hjoin, if_neg (List.append_ne_nil_of_right_ne_nil _
      (List.append_ne_nil_of_left_ne_nil hne _)), if_neg (List.append_ne_nil_of_right_ne_nil _ hne),
      List.append_assoc]

theorem components_child (p : Txt) {c : Txt} (hc : IsName c) :
    Text.components (join p c) = Text.components p ++ [c] := by
  rw [components_join hc.head, hc.components]

theorem normComps_child (p : Txt) {c : Txt} (hc : IsName c) :
    normComps (join p c) = normComps p ++ [c] :=
  normComps_snoc hc (leadingSlashes_child p hc) (components_child p hc)

theorem normpath_child {p c : Txt} (hc : IsName c) (hp : normComps p ≠ []) :
    normpath (join p c) = normpath p ++ '/' :: c := by
  rw [normpath_snoc hc (leadingSlashes_child p hc) (components_child p hc), if_neg hp]

theorem exists_ne_slash_of_normComps {u : Txt} (hu : normComps u ≠ []) : ∃ x ∈ u, x ≠ '/' := by
  by_contra hall
  have hslashes : u = List.replicate u.length '/' :=
    List.eq_replicate_of_mem fun x hx => not_not.mp fun hne => hall ⟨x, hx, hne⟩
  have hnil : Text.components u = [] := by
    rw [hslashes, ← List.append_nil (List.replicate _ _), components_slashes]
    rfl
  rw [normComps_eq_foldl, hnil] at hu
  exact hu rfl

theorem normpath_append_slash {u c : Txt} (hc : IsName c) (hu : normComps u ≠ []) :
    normpath (u ++ '/' :: c) = normpath u ++ '/' :: c := by
  rw [normpath_snoc (p := u) hc, if_neg hu]
  · exact leadingSlashes_append (exists_ne_slash_of_normComps hu) _
  · rw [components_append_slash, hc.components]

theorem normpath_name {c : Txt} (hc : IsName c) : normpath c = c := by
  have hjoin : join [] c = c := by
    unfold join
    rw [if_neg hc.head, if_pos (Or.inl rfl)]
    rfl
  have h := normpath_snoc hc (leadingSlashes_child [] hc) (components_child [] hc)
  rw [hjoin] at h
  rw [h, if_pos (by rfl)]
  rfl

/-- The components that are left were there. -/
theorem mem_normComps {t d : Txt} (h : d ∈ normComps t) : d ∈ Text.components t := by
  have hfold (absolute : Bool) (cs : List Txt) : ∀ kept : List Txt,
      d ∈ cs.foldl (normStep absolute) kept → d ∈ kept ∨ d ∈ cs := by
    induction cs with
    | nil => exact fun kept h => Or.inl h
    | cons c cs ih =>
      intro kept h
      rcases ih _ h with hstep | hcs
      · unfold normStep at hstep
        split at hstep
        · exact Or.inl hstep
        · split at hstep
          · rcases List.mem_cons.mp hstep with rfl | hkept
            · exact Or.inr List.mem_cons_self
            · exact Or.inl hkept
          · exact Or.inl (List.mem_of_mem_tail hstep)
      · exact Or.inr (List.mem_cons_of_mem c hcs)
  rw [normComps_eq_foldl, List.mem_reverse] at h
  exact (hfold _ _ _ h).resolve_left List.not_mem_nil

theorem mem_joinSlash {cs : List Txt} {x : Char} (h : x ∈ joinSlash cs) :
    x = '/' ∨ ∃ c ∈ cs, x ∈ c := by
  induction cs with
  | nil => cases h
  | cons c cs ih =>
    by_cases hnil : cs = []
    · rw [hnil] at h
      exact Or.inr ⟨c, List.mem_cons_self, h⟩
    · rw [joinSlash_cons c hnil, List.mem_append, List.mem_cons] at h
      rcases h with h | h | h
      · exact Or.inr ⟨c, List.mem_cons_self, h⟩
      · exact Or.inl h
      · exact (ih h).imp_right fun ⟨d, hd, hx⟩ => ⟨d, List.mem_cons_of_mem c hd, hx⟩

theorem mem_joinSlash_of_mem {cs : List Txt} {c : Txt} {x : Char} (hc : c ∈ cs) (hx : x ∈ c) :
    x ∈ joinSlash cs := by
  induction cs with
  | nil => cases hc
  | cons d cs ih =>
    by_cases hnil : cs = []
    · rw [hnil] at hc ⊢
      exact List.mem_singleton.mp hc ▸ hx
    · rw [joinSlash_cons d hnil, List.mem_append, List.mem_cons]
      rcases List.mem_cons.mp hc with rfl | hc
      · exact Or.inl hx
      · exact Or.inr (Or.inr (ih hc))

theorem mem_of_mem_components {t c : Txt} {x : Char} (hc : c ∈ Text.components t) (hx : x ∈ c) :
    x ∈ t := by
  have hjoin : joinSlash (t.splitOn '/') = t := by
    rw [joinSlash_eq_intercalate, List.intercalate_splitOn]
  rw [← hjoin]
  exact mem_joinSlash_of_mem (List.mem_filter.mp hc).1 hx

/-- The normal form has no new characters but slashes and dots. -/
theorem mem_normpath {t : Txt} {x : Char} (h : x ∈ normpath t) : x = '/' ∨ x = '.' ∨ x ∈ t := by
  unfold normpath at h
  simp only [] at h
  split at h
  · exact Or.inr (Or.inl (List.mem_singleton.mp h))
  · rcases List.mem_append.mp h with h | h
    · exact Or.inl (List.eq_of_mem_replicate h)
    · rcases mem_joinSlash h with h | ⟨c, hc, hx⟩
      · exact Or.inl h
      · exact Or.inr (Or.inr (mem_of_mem_components (mem_normComps hc) hx))

/-! ## Absolute paths in normal form -/

theorem getLast_joinSlash {cs : List Txt} (h : ∀ c ∈ cs, Proper c) :
    (joinSlash cs).getLast? ≠ some '/' := by
  intro hlast
  obtain ⟨u, hu⟩ := List.getLast?_eq_some_iff.mp hlast
  by_cases hnil : cs = []
  · rw [hnil] at hu
    exact absurd hu.symm (List.append_ne_nil_of_right_ne_nil u (List.cons_ne_nil _ _))
  · have hsplit := splitOn_joinSlash h hnil
    rw [hu, List.splitOn_append_cons_self] at hsplit
    have hempty : [] ∈ cs := hsplit ▸ List.mem_append_right _ List.mem_cons_self
    exact absurd (h [] hempty).1 (by decide)

theorem getLast_normpath {t : Txt} (h : normComps t ≠ []) : (normpath t).getLast? ≠ some '/' := by
  have hproper := normComps_proper t
  have hne := mt (joinSlash_eq_nil_iff hproper).mp h
  unfold normpath
  simp only []
  rw [if_neg (List.append_ne_nil_of_right_ne_nil _ hne), List.getLast?_append_of_ne_nil _ hne]
  exact getLast_joinSlash hproper

theorem normpath_normpath {t : Txt} (h : t.head? = some '/') :
    normpath (normpath t) = normpath t := by
  rw [normpath_absolute (head_normpath.mpr h), leadingSlashes_normpath h, normComps_normpath h,
    ← normpath_absolute h]

/-- The text with so many slashes in front of the components. -/
def rooted (n : Nat) (cs : List Txt) : Txt := List.replicate n '/' ++ joinSlash cs

theorem rooted_of_normal {t : Txt} (h : t.head? = some '/') (hnormal : normpath t = t) :
    t = rooted (leadingSlashes t) (components t) := by
  have hcomps : normComps t = components t := by rw [← components_normpath, hnormal]
  conv_lhs => rw [← hnormal, normpath_absolute h, hcomps]
  rfl

theorem components_rooted (n : Nat) {cs : List Txt} (h : ∀ c ∈ cs, Proper c) :
    components (rooted n cs) = cs := by
  rw [rooted, components_slashes, components_joinSlash h]

theorem normpath_rooted {n : Nat} (hn : n ≤ 2) (hpos : n ≠ 0) {cs : List Txt}
    (h : ∀ c ∈ cs, IsName c) : normpath (rooted n cs) = rooted n cs := by
  have hproper : ∀ c ∈ cs, Proper c := fun c hc => (h c hc).1
  have hslashes : leadingSlashes (rooted n cs) = n :=
    leadingSlashes_replicate hn (head_joinSlash hproper)
  have hcomps := components_rooted n hproper
  have hhead := leadingSlashes_ne_zero.mp (hslashes ▸ hpos)
  rw [normpath_absolute hhead, hslashes, normComps_plain, hcomps]
  · rfl
  · rw [hcomps]
    exact fun c hc => (h c hc).2

theorem join_rooted {n : Nat} (hpos : n ≠ 0) {cs ds : List Txt} (hcs : ∀ c ∈ cs, Proper c)
    (hds : ∀ c ∈ ds, Proper c) (hne : ds ≠ []) :
    join (rooted n cs) (joinSlash ds) = rooted n (cs ++ ds) := by
  have hhead := head_joinSlash hds
  by_cases hnil : cs = []
  · have hroot : rooted n cs = List.replicate n '/' := by
      rw [rooted, hnil, joinSlash, List.append_nil]
    unfold join
    rw [if_neg hhead, hroot, if_pos, hnil, List.nil_append]
    · rfl
    · right
      rw [List.getLast?_replicate, if_neg hpos]
  · have hroot := mt (joinSlash_eq_nil_iff hcs).mp hnil
    have hlast : (rooted n cs).getLast? ≠ some '/' := by
      rw [rooted, List.getLast?_append_of_ne_nil _ hroot]
      exact getLast_joinSlash hcs
    have hrooted : rooted n cs ≠ [] := List.append_ne_nil_of_right_ne_nil _ hroot
    rw [join_eq hrooted hlast hhead, rooted, rooted, joinSlash_append hnil hne, List.append_assoc]

/-- Of an absolute path the normal form has the name below it. -/
theorem normpath_join_child {p c : Txt} (h : p.head? = some '/') (hc : IsName c) :
    normpath (join p c) = join (normpath p) c := by
  by_cases hnil : normComps p = []
  · have hslashes : normpath p = List.replicate (leadingSlashes p) '/' := by
      rw [normpath_absolute h, hnil, joinSlash, List.append_nil]
    rw [normpath_snoc hc (leadingSlashes_child p hc) (components_child p hc), if_pos hnil, hslashes]
    unfold join
    rw [if_neg hc.head, if_pos]
    right
    rw [List.getLast?_replicate, if_neg (leadingSlashes_ne_zero.mpr h)]
  · rw [normpath_child hc hnil, join_eq (normpath_ne_nil p) (getLast_normpath hnil) hc.head]

end Text
end RocmTests

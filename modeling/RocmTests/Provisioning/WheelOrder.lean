import RocmTests.Provisioning.WheelRanking

/-!
# The preference that the ranking is

The order of the wheels is right for every effective hint.  Which hint is effective depends on the
order in which a set is walked where several of its versions share the latest date, and then so may
the ranking.
-/

namespace RocmTests
namespace Provisioning
namespace Wheels

open Text

/-! ## The order for one hint -/

/-- A wheel of the family of the hint whose ROCm version has a date. -/
def DatedFamily (hint version : Txt) : Prop := SameFamily hint version ∧ dateOf version ≠ 0

/-- The three preferences, each between a wheel and one that comes later. -/
structure Ordered (hint : Txt) (ranked : List Txt) : Prop where
  exact : ranked.Pairwise fun a b => torchRocmVersion b = hint → torchRocmVersion a = hint
  family : ranked.Pairwise fun a b => SameFamily hint b → SameFamily hint a
  dated : rocmBuildDate hint ≠ 0 → ranked.Pairwise fun a b =>
    DatedFamily hint a → DatedFamily hint b →
      torchCoreIsPrerelease a = torchCoreIsPrerelease b →
        (dateOf b ≤ rocmBuildDate hint → dateOf a ≤ rocmBuildDate hint) ∧
          ((dateOf a ≤ rocmBuildDate hint ↔ dateOf b ≤ rocmBuildDate hint) →
            |dateOf a - rocmBuildDate hint| ≤ |dateOf b - rocmBuildDate hint|)

section

variable {hint a b : Txt} {i j : Nat} {k k' : Score}

theorem preOf_eq (v : Txt) : preOf v = 0 ∨ preOf v = 1 := by
  unfold preOf flag
  split
  · exact Or.inr rfl
  · exact Or.inl rfl

theorem exact_of_le (hne : hint ≠ []) (ha : torchVersionScore a hint i = some k)
    (hb : torchVersionScore b hint j = some k') (hle : k ≤ k')
    (h : torchRocmVersion b = hint) : torchRocmVersion a = hint := by
  have hk' : k' = score 0 (preOf b) 0 0 j := by
    rcases score_cases hne hb with ⟨-, hk⟩ | ⟨hnot, -⟩
    · exact hk
    · exact absurd h hnot
  rw [hk'] at hle
  rcases score_cases hne ha with ⟨hexact, -⟩ |
    ⟨-, ⟨-, ⟨-, -, rfl⟩ | ⟨-, rfl⟩⟩ | ⟨-, ⟨-, rfl⟩ | ⟨-, rfl⟩⟩⟩
  · exact hexact
  all_goals
    rw [score_le_iff] at hle
    omega

theorem family_of_le (hne : hint ≠ []) (ha : torchVersionScore a hint i = some k)
    (hb : torchVersionScore b hint j = some k') (hle : k ≤ k')
    (h : SameFamily hint b) : SameFamily hint a := by
  rcases score_cases hne ha with ⟨hexact, -⟩ | ⟨-, ⟨hfamily, -⟩ | ⟨-, hk⟩⟩
  · obtain ⟨f, hf, -⟩ := h
    exact ⟨f, hf, by rw [hexact, hf]⟩
  · exact hfamily
  · rcases score_cases hne hb with ⟨-, rfl⟩ | ⟨-, ⟨-, ⟨-, -, rfl⟩ | ⟨-, rfl⟩⟩ | ⟨hnot, -⟩⟩
    · rcases hk with ⟨-, rfl⟩ | ⟨-, rfl⟩ <;> rw [score_le_iff] at hle <;> omega
    · rcases hk with ⟨-, rfl⟩ | ⟨-, rfl⟩ <;> rw [score_le_iff] at hle <;> omega
    · rcases hk with ⟨-, rfl⟩ | ⟨-, rfl⟩ <;> rw [score_le_iff] at hle <;> omega
    · exact absurd h hnot

/-- What a dated wheel of the family scores, but for the position. -/
theorem score_dated (hne : hint ≠ []) (hdate : rocmBuildDate hint ≠ 0)
    (ha : torchVersionScore a hint i = some k) (h : DatedFamily hint a) :
    (dateOf a = rocmBuildDate hint ∧ k = score 0 (preOf a) 0 0 i) ∨
      k = score 1 (flag (rocmBuildDate hint < dateOf a)) (preOf a)
        |dateOf a - rocmBuildDate hint| i := by
  rcases score_cases hne ha with ⟨hexact, hk⟩ |
    ⟨-, ⟨-, ⟨-, -, hk⟩ | ⟨hzero, -⟩⟩ | ⟨hnot, -⟩⟩
  · exact Or.inl ⟨by rw [dateOf, hexact], hk⟩
  · exact Or.inr hk
  · exact absurd hzero (not_or.mpr ⟨hdate, h.2⟩)
  · exact absurd h.1 hnot

theorem flag_eq (p : Prop) [Decidable p] : p ∧ flag (decide p) = 1 ∨ ¬ p ∧ flag (decide p) = 0 := by
  by_cases hp : p
  · exact Or.inl ⟨hp, by rw [decide_eq_true hp]; rfl⟩
  · exact Or.inr ⟨hp, by rw [decide_eq_false hp]; rfl⟩

theorem dated_of_le (hne : hint ≠ []) (hdate : rocmBuildDate hint ≠ 0)
    (ha : torchVersionScore a hint i = some k) (hb : torchVersionScore b hint j = some k')
    (hle : k ≤ k') (hda : DatedFamily hint a) (hdb : DatedFamily hint b)
    (hpre : torchCoreIsPrerelease a = torchCoreIsPrerelease b) :
    (dateOf b ≤ rocmBuildDate hint → dateOf a ≤ rocmBuildDate hint) ∧
      ((dateOf a ≤ rocmBuildDate hint ↔ dateOf b ≤ rocmBuildDate hint) →
        |dateOf a - rocmBuildDate hint| ≤ |dateOf b - rocmBuildDate hint|) := by
  have hsame : preOf a = preOf b := by rw [preOf, preOf, hpre]
  have hnonneg := abs_nonneg (dateOf b - rocmBuildDate hint)
  have hflag := flag_eq (rocmBuildDate hint < dateOf a)
  have hflag' := flag_eq (rocmBuildDate hint < dateOf b)
  rcases score_dated hne hdate ha hda with ⟨hexact, rfl⟩ | rfl
  · rw [hexact, sub_self, abs_zero]
    exact ⟨fun _ => le_rfl, fun _ => hnonneg⟩
  · rcases score_dated hne hdate hb hdb with ⟨-, rfl⟩ | rfl
    · rw [score_le_iff] at hle
      omega
    · rw [score_le_iff, hsame] at hle
      constructor <;> omega

/-- A list that is sorted by the scores for a hint has the three preferences. -/
theorem ordered_of_sorted {ranked : List Txt} {key : Txt → Score} {index : Txt → Nat}
    (hne : hint ≠ []) (hkey : ∀ v ∈ ranked, torchVersionScore v hint (index v) = some (key v))
    (hsorted : ranked.Pairwise fun a b => key a ≤ key b) : Ordered hint ranked := by
  refine ⟨hsorted.imp_of_mem ?_, hsorted.imp_of_mem ?_, fun hdate => hsorted.imp_of_mem ?_⟩
  · exact fun ha hb hle => exact_of_le hne (hkey _ ha) (hkey _ hb) hle
  · exact fun ha hb hle => family_of_le hne (hkey _ ha) (hkey _ hb) hle
  · exact fun ha hb hle => dated_of_le hne hdate (hkey _ ha) (hkey _ hb) hle

end

/-! ## The order in which the set is walked -/

/-- The candidates with the latest date, any of which may become the effective hint. -/
def Latest (rocmHint : Txt) (rocmVersions : List Txt) (hint : Txt) : Prop :=
  hint ∈ candidates rocmHint rocmVersions ∧
    ∀ v ∈ candidates rocmHint rocmVersions, rocmBuildDate v ≤ rocmBuildDate hint

/-- A wheel built for the hint comes before another as a dated wheel of the family, by prerelease,
date and position, as it does as the wheel of the hint. -/
def Ahead (hint : Txt) (index : Txt → Nat) (u w : Txt) : Prop :=
  SameFamily hint w →
    (dateOf w = 0 → preOf w = 1 ∨ preOf u = 0 ∧ index u < index w) ∧
      (dateOf w ≠ 0 → dateOf w ≤ rocmBuildDate hint → preOf u < preOf w ∨ preOf u = preOf w ∧
        (dateOf w < rocmBuildDate hint ∨ dateOf w = rocmBuildDate hint ∧ index u < index w))

/-- A wheel of another family is nearer to the hint than one that comes later. -/
def Nearer (hint : Txt) (index : Txt → Nat) (u w : Txt) : Prop :=
  distanceOf hint u < distanceOf hint w ∨
    distanceOf hint u = distanceOf hint w ∧ index u < index w

/-- A wheel of another family of ROCm. -/
def Foreign (hint version : Txt) : Prop :=
  torchRocmVersion version ≠ [] ∧ ¬ SameFamily hint version

/-- Two hints put the wheels in one order. -/
structure Alike (wheels : List Txt) (index : Txt → Nat) (hint hint' : Txt) : Prop where
  exact : ∀ u ∈ wheels, ∀ w ∈ wheels, torchRocmVersion u = hint → torchRocmVersion w ≠ hint →
    Ahead hint index u w
  exact' : ∀ u ∈ wheels, ∀ w ∈ wheels, torchRocmVersion u = hint' → torchRocmVersion w ≠ hint' →
    Ahead hint' index u w
  foreign : ∀ u ∈ wheels, ∀ w ∈ wheels, Foreign hint u → Foreign hint w → preOf u = preOf w →
    Nearer hint index u w → Nearer hint' index u w

/-- Whatever the order in which the set is walked, the ranking is one and the same list. -/
structure Preferred (versions : List Txt) (rocmHint : Txt) (rocmVersions ranked : List Txt) :
    Prop where
  usable : ranked.Perm (versions.filter (usable rocmVersions))
  ranking : ∀ walked : List Txt, walked.Perm rocmVersions →
    rankTorchVersions versions rocmHint walked = some ranked
  ordered : ∀ walked : List Txt, walked.Perm rocmVersions → ∀ hint,
    effectiveHint rocmHint walked = some hint → Ordered hint ranked

section

variable {versions rocmVersions walked : List Txt} {rocmHint hint hint' : Txt}

theorem candidates_perm (h : walked.Perm rocmVersions) :
    (candidates rocmHint walked).Perm (candidates rocmHint rocmVersions) := h.filter _

theorem usable_perm (h : walked.Perm rocmVersions) : usable walked = usable rocmVersions := by
  funext v
  have hempty : walked.isEmpty = rocmVersions.isEmpty := by
    rw [Bool.eq_iff_iff, List.isEmpty_iff, List.isEmpty_iff]
    constructor
    · rintro rfl
      exact h.nil_eq.symm
    · rintro rfl
      exact h.eq_nil
  have hcontains : walked.contains (torchRocmVersion v) =
      rocmVersions.contains (torchRocmVersion v) := by
    rw [Bool.eq_iff_iff, List.contains_iff_mem, List.contains_iff_mem, h.mem_iff]
  rw [usable, usable, hempty, hcontains]

theorem latest_perm (h : walked.Perm rocmVersions) :
    Latest rocmHint walked hint ↔ Latest rocmHint rocmVersions hint := by
  unfold Latest
  simp only [(candidates_perm h).mem_iff]

/-- What the effective hint is. -/
theorem effective_cases (h : effectiveHint rocmHint rocmVersions = some hint) :
    hint = rocmHint ∧ (isBuildNumber rocmHint = true → candidates rocmHint rocmVersions = []) ∨
      isBuildNumber rocmHint = true ∧ Latest rocmHint rocmVersions hint := by
  by_cases hb : isBuildNumber rocmHint = true
  · have hread : Short rocmHint ∧ ∀ v ∈ rocmVersions, Short v := by
      by_contra hnot
      rw [effectiveHint_eq_none_iff.mpr ⟨hb, hnot⟩] at h
      cases h
    rw [effectiveHint_of_build hb hread.1 hread.2] at h
    cases hmax : maxBy rocmBuildDate (candidates rocmHint rocmVersions) with
    | none =>
      rw [hmax] at h
      refine Or.inl ⟨(Option.some.inj h).symm, fun _ => ?_⟩
      cases hcand : candidates rocmHint rocmVersions with
      | nil => rfl
      | cons v vs =>
        rw [hcand] at hmax
        cases hmax
    | some m =>
      rw [hmax] at h
      obtain rfl := Option.some.inj h
      exact Or.inr ⟨hb, maxBy_spec hmax⟩
  · unfold effectiveHint at h
    rw [if_neg hb] at h
    exact Or.inl ⟨(Option.some.inj h).symm, fun hbuild => absurd hbuild hb⟩

theorem latest_facts (h : Latest rocmHint rocmVersions hint) :
    hint ∈ rocmVersions ∧ familyOf hint = familyOf rocmHint ∧ rocmBuildDate hint ≠ 0 := by
  obtain ⟨hmem, hboth⟩ := List.mem_filter.mp h.1
  rw [Bool.and_eq_true, decide_eq_true_eq, decide_eq_true_eq] at hboth
  exact ⟨hmem, hboth.1, hboth.2⟩

theorem effective_ne_nil (hne : rocmHint ≠ [])
    (h : effectiveHint rocmHint rocmVersions = some hint) : hint ≠ [] := by
  rcases effective_cases h with ⟨rfl, -⟩ | ⟨-, hlatest⟩
  · exact hne
  · rintro rfl
    exact (latest_facts hlatest).2.2 rfl

/-- The set can be walked so that any of the latest becomes the effective hint. -/
theorem exists_walk (hb : isBuildNumber rocmHint = true) (hshort : Short rocmHint)
    (hall : ∀ v ∈ rocmVersions, Short v) (h : Latest rocmHint rocmVersions hint) :
    ∃ walked : List Txt, walked.Perm rocmVersions ∧ effectiveHint rocmHint walked = some hint := by
  obtain ⟨hmem, -, -⟩ := latest_facts h
  have hperm : (hint :: rocmVersions.erase hint).Perm rocmVersions :=
    (List.perm_cons_erase hmem).symm
  refine ⟨_, hperm, ?_⟩
  rw [effectiveHint_of_build hb hshort fun v hv => hall v (hperm.mem_iff.mp hv)]
  have hfirst := (List.mem_filter.mp h.1).2
  have hcand : candidates rocmHint (hint :: rocmVersions.erase hint) =
      hint :: candidates rocmHint (rocmVersions.erase hint) := List.filter_cons_of_pos hfirst
  rw [hcand, maxBy_cons]
  · rfl
  · intro v hv
    apply h.2
    rw [← (candidates_perm hperm).mem_iff, hcand]
    exact List.mem_cons_of_mem hint hv

end

end Wheels
end Provisioning
end RocmTests

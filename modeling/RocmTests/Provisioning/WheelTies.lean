import Mathlib.Data.List.Permutation
import RocmTests.Collections.StableSort
import RocmTests.Provisioning.WheelOrder

/-!
# Ties between the hints

Several candidates may share the latest date, and the order in which the set is walked chooses one
of them.  Two such hints agree on the date and the family, so they differ only in which wheels are
built for exactly the hint and in how far the wheels of other families are from it.
-/

namespace RocmTests
namespace Provisioning
namespace Wheels

open Collections Text

/-- The score of a wheel of the family of a dated hint, but for a wheel of the hint. -/
def familyScore (date : Int) (version : Txt) (index : Nat) : Score :=
  if dateOf version = 0 then score 1 (preOf version) 0 0 index
  else score 1 (flag (date < dateOf version)) (preOf version) |dateOf version - date| index

/-- Two dated hints of one family and one date. -/
structure Rivals (hint hint' : Txt) : Prop where
  ne : hint ≠ hint'
  family : ∃ f, rocmFamily hint = some (some f) ∧ rocmFamily hint' = some (some f)
  dated : rocmBuildDate hint ≠ 0
  date : rocmBuildDate hint' = rocmBuildDate hint

section

variable {hint hint' u w v : Txt} {i j : Nat} {k : Score} {index : Txt → Nat}

theorem Rivals.symm (h : Rivals hint hint') : Rivals hint' hint := by
  obtain ⟨f, hf, hf'⟩ := h.family
  exact ⟨h.ne.symm, ⟨f, hf', hf⟩, h.date ▸ h.dated, h.date.symm⟩

theorem Rivals.ne_nil (h : Rivals hint hint') : hint ≠ [] := by
  intro hnil
  apply h.dated
  rw [hnil]
  rfl

theorem Rivals.sameFamily_iff (h : Rivals hint hint') : SameFamily hint v ↔ SameFamily hint' v := by
  obtain ⟨f, hf, hf'⟩ := h.family
  unfold SameFamily
  rw [hf, hf']

theorem Rivals.sameFamily_exact (h : Rivals hint hint') (hv : torchRocmVersion v = hint) :
    SameFamily hint v := by
  obtain ⟨f, hf, -⟩ := h.family
  exact ⟨f, hf, by rw [hv, hf]⟩

theorem exists_familyScore (date : Int) (v : Txt) (i : Nat) :
    ∃ b c d, familyScore date v i = score 1 b c d i := by
  unfold familyScore
  split
  · exact ⟨_, _, _, rfl⟩
  · exact ⟨_, _, _, rfl⟩

theorem score_of_family (h : Rivals hint hint') (hk : torchVersionScore v hint i = some k)
    (hfamily : SameFamily hint v) (hv : torchRocmVersion v ≠ hint) :
    k = familyScore (rocmBuildDate hint) v i := by
  unfold familyScore
  rcases score_cases h.ne_nil hk with ⟨hexact, -⟩ |
    ⟨-, ⟨-, ⟨-, hdated, rfl⟩ | ⟨hzero, rfl⟩⟩ | ⟨hnot, -⟩⟩
  · exact absurd hexact hv
  · rw [if_neg hdated]
  · rw [if_pos (hzero.resolve_left h.dated)]
  · exact absurd hfamily hnot

theorem score_of_exact (h : Rivals hint hint') (hk : torchVersionScore v hint i = some k)
    (hv : torchRocmVersion v = hint) : k = score 0 (preOf v) 0 0 i := by
  rcases score_cases h.ne_nil hk with ⟨-, hk⟩ | ⟨hnot, -⟩
  · exact hk
  · exact absurd hv hnot

theorem score_of_foreign (h : Rivals hint hint') (hk : torchVersionScore v hint i = some k)
    (hnot : ¬ SameFamily hint v) :
    torchRocmVersion v = [] ∧ k = score 4 1 (preOf v) 0 i ∨
      Foreign hint v ∧ k = score 3 (preOf v) 0 (distanceOf hint v) i := by
  rcases score_cases h.ne_nil hk with ⟨hexact, -⟩ | ⟨-, ⟨hfamily, -⟩ | ⟨-, hcase⟩⟩
  · exact absurd (h.sameFamily_exact hexact) hnot
  · exact absurd hfamily hnot
  · rcases hcase with ⟨hplain, hk⟩ | ⟨hsome, hk⟩
    · exact Or.inl ⟨hplain, hk⟩
    · exact Or.inr ⟨⟨hsome, hnot⟩, hk⟩

/-- Outside the family the hints differ in the distance. -/
theorem scores_outside (h : Rivals hint hint') {k' : Score}
    (hk : torchVersionScore v hint i = some k) (hk' : torchVersionScore v hint' i = some k')
    (hnot : ¬ SameFamily hint v) :
    (torchRocmVersion v = [] ∧ k = score 4 1 (preOf v) 0 i ∧ k' = score 4 1 (preOf v) 0 i) ∨
      Foreign hint v ∧ k = score 3 (preOf v) 0 (distanceOf hint v) i ∧
        k' = score 3 (preOf v) 0 (distanceOf hint' v) i := by
  have hnot' : ¬ SameFamily hint' v := fun hs => hnot (h.sameFamily_iff.mpr hs)
  rcases score_of_foreign h hk hnot with ⟨hplain, hk⟩ | ⟨hforeign, hk⟩
  · rcases score_of_foreign h.symm hk' hnot' with ⟨-, hk'⟩ | ⟨hforeign', -⟩
    · exact Or.inl ⟨hplain, hk, hk'⟩
    · exact absurd hplain hforeign'.1
  · rcases score_of_foreign h.symm hk' hnot' with ⟨hplain, -⟩ | ⟨-, hk'⟩
    · exact absurd hplain hforeign.1
    · exact Or.inr ⟨hforeign, hk, hk'⟩

/-- A wheel of the family scores at most `1`, any other at least `3`. -/
theorem score_family_lt (h : Rivals hint hint') {k' : Score}
    (hu : torchVersionScore u hint i = some k) (hw : torchVersionScore w hint j = some k')
    (hfamily : SameFamily hint u) (hnot : ¬ SameFamily hint w) : k < k' := by
  have hlow : ∃ a b c d, a ≤ 1 ∧ k = score a b c d i := by
    by_cases hexact : torchRocmVersion u = hint
    · exact ⟨0, _, _, _, by omega, score_of_exact h hu hexact⟩
    · obtain ⟨b, c, d, heq⟩ := exists_familyScore (rocmBuildDate hint) u i
      exact ⟨1, b, c, d, le_rfl, (score_of_family h hu hfamily hexact).trans heq⟩
  obtain ⟨a, b, c, d, ha, rfl⟩ := hlow
  rcases score_of_foreign h hw hnot with ⟨-, rfl⟩ | ⟨-, rfl⟩
  · rw [score_lt_iff]
    omega
  · rw [score_lt_iff]
    omega

theorem ahead_iff (hu : torchRocmVersion u = hint) (hdate : rocmBuildDate hint ≠ 0)
    (hfamily : SameFamily hint w) :
    Ahead hint index u w ↔ familyScore (rocmBuildDate hint) u (index u) <
      familyScore (rocmBuildDate hint) w (index w) := by
  have hself : dateOf u = rocmBuildDate hint := by rw [dateOf, hu]
  have hpre := preOf_eq u
  have hpre' := preOf_eq w
  have hlate : flag (rocmBuildDate hint < dateOf u) = 0 := by
    rw [hself, decide_eq_false (lt_irrefl _)]
    rfl
  have hflag := flag_eq (rocmBuildDate hint < dateOf w)
  have habs : dateOf w = rocmBuildDate hint ∧ |dateOf w - rocmBuildDate hint| = 0 ∨
      dateOf w ≠ rocmBuildDate hint ∧ 0 < |dateOf w - rocmBuildDate hint| := by
    by_cases heq : dateOf w = rocmBuildDate hint
    · exact Or.inl ⟨heq, by rw [heq, sub_self, abs_zero]⟩
    · exact Or.inr ⟨heq, abs_pos.mpr (sub_ne_zero.mpr heq)⟩
  have hleft : familyScore (rocmBuildDate hint) u (index u) = score 1 0 (preOf u) 0 (index u) := by
    rw [familyScore, if_neg (hself ▸ hdate), hlate, hself, sub_self, abs_zero]
  unfold Ahead
  rw [hleft]
  by_cases hzero : dateOf w = 0
  · rw [familyScore, if_pos hzero, score_lt_iff]
    constructor
    · intro hahead
      have := (hahead hfamily).1 hzero
      omega
    · intro hlt _
      refine ⟨fun _ => ?_, fun h => absurd hzero h⟩
      omega
  · rw [familyScore, if_neg hzero, score_lt_iff]
    constructor
    · intro hahead
      by_cases hle : dateOf w ≤ rocmBuildDate hint
      · have := (hahead hfamily).2 hzero hle
        omega
      · omega
    · intro hlt _
      refine ⟨fun h => absurd h hzero, fun _ hle => ?_⟩
      omega

theorem not_familyScore_lt (date p : Int) (h : familyScore date v i < score 0 p 0 0 j) : False := by
  obtain ⟨b, c, d, heq⟩ := exists_familyScore date v i
  rw [heq, score_lt_iff] at h
  omega

theorem lt_familyScore (date p : Int) : score 0 p 0 0 i < familyScore date v j := by
  obtain ⟨b, c, d, heq⟩ := exists_familyScore date v j
  rw [heq, score_lt_iff]
  omega

/-- Among wheels of one date the order is the one among wheels of the hint. -/
theorem familyScore_lt_iff {date : Int} (hdate : date ≠ 0) (hu : dateOf u = date)
    (hw : dateOf w = date) :
    familyScore date u i < familyScore date w j ↔
      score 0 (preOf u) 0 0 i < score 0 (preOf w) 0 0 j := by
  unfold familyScore
  rw [if_neg (hu ▸ hdate), if_neg (hw ▸ hdate), hu, hw, score_lt_iff, score_lt_iff]
  omega

/-! ## When two hints rank alike -/

variable {wheels : List Txt} {key key' : Txt → Score}

/-- The scores for two hints order the wheels in one way. -/
def Agree (wheels : List Txt) (key key' : Txt → Score) : Prop :=
  ∀ u ∈ wheels, ∀ w ∈ wheels, key u < key w → key' u < key' w

theorem Agree.symm (h : Agree wheels key key')
    (hinj : ∀ u ∈ wheels, ∀ w ∈ wheels, key u = key w → u = w) : Agree wheels key' key := by
  intro u hu w hw hlt
  rcases lt_trichotomy (key u) (key w) with hless | heq | hmore
  · exact hless
  · obtain rfl := hinj u hu w hw heq
    exact absurd hlt (lt_irrefl _)
  · exact absurd hlt (lt_asymm (h w hw u hu hmore))

theorem ahead_of_agree (h : Rivals hint hint')
    (hkey : ∀ v ∈ wheels, torchVersionScore v hint (index v) = some (key v))
    (hkey' : ∀ v ∈ wheels, torchVersionScore v hint' (index v) = some (key' v))
    (hagree : Agree wheels key key') (hu : u ∈ wheels) (hw : w ∈ wheels)
    (hexact : torchRocmVersion u = hint) (hother : torchRocmVersion w ≠ hint) :
    Ahead hint index u w := by
  intro hfamily
  refine (ahead_iff hexact h.dated hfamily).mpr ?_ hfamily
  have hfirst : key u < key w := by
    rw [score_of_exact h (hkey u hu) hexact, score_of_family h (hkey w hw) hfamily hother]
    exact lt_familyScore _ _
  have hlt := hagree u hu w hw hfirst
  rw [score_of_family h.symm (hkey' u hu) (h.sameFamily_iff.mp (h.sameFamily_exact hexact))
    (hexact ▸ h.ne), h.date] at hlt
  by_cases hexact' : torchRocmVersion w = hint'
  · rw [score_of_exact h.symm (hkey' w hw) hexact'] at hlt
    exact (not_familyScore_lt _ _ hlt).elim
  · rwa [score_of_family h.symm (hkey' w hw) (h.sameFamily_iff.mp hfamily) hexact', h.date] at hlt

theorem alike_of_agree (h : Rivals hint hint')
    (hkey : ∀ v ∈ wheels, torchVersionScore v hint (index v) = some (key v))
    (hkey' : ∀ v ∈ wheels, torchVersionScore v hint' (index v) = some (key' v))
    (hinj : ∀ u ∈ wheels, ∀ w ∈ wheels, key u = key w → u = w)
    (hagree : Agree wheels key key') : Alike wheels index hint hint' := by
  refine ⟨fun u hu w hw => ahead_of_agree h hkey hkey' hagree hu hw,
    fun u hu w hw => ahead_of_agree h.symm hkey' hkey (hagree.symm hinj) hu hw, ?_⟩
  intro u hu w hw hfu hfw hpre hnear
  obtain ⟨hku, hku'⟩ := ((scores_outside h (hkey u hu) (hkey' u hu) hfu.2).resolve_left
    fun hplain => hfu.1 hplain.1).2
  obtain ⟨hkw, hkw'⟩ := ((scores_outside h (hkey w hw) (hkey' w hw) hfw.2).resolve_left
    fun hplain => hfw.1 hplain.1).2
  have hlt := hagree u hu w hw
  rw [hku, hku', hkw, hkw', hpre, score_lt_iff, score_lt_iff] at hlt
  unfold Nearer at hnear ⊢
  omega

/-- Within the family. -/
theorem agree_family (h : Rivals hint hint') {ku kw ku' kw' : Score}
    (hu : torchVersionScore u hint (index u) = some ku)
    (hw : torchVersionScore w hint (index w) = some kw)
    (hu' : torchVersionScore u hint' (index u) = some ku')
    (hw' : torchVersionScore w hint' (index w) = some kw')
    (hfu : SameFamily hint u) (hfw : SameFamily hint w)
    (hexact : torchRocmVersion u = hint → torchRocmVersion w ≠ hint → Ahead hint index u w)
    (hexact' : torchRocmVersion w = hint' → torchRocmVersion u ≠ hint' → Ahead hint' index w u)
    (hlt : ku < kw) : ku' < kw' := by
  have hfu' := h.sameFamily_iff.mp hfu
  have hfw' := h.sameFamily_iff.mp hfw
  -- within the family the two hints differ in the wheels of the hint only
  have hfamily : familyScore (rocmBuildDate hint) u (index u) <
      familyScore (rocmBuildDate hint) w (index w) := by
    by_cases heu : torchRocmVersion u = hint
    · by_cases hew : torchRocmVersion w = hint
      · rw [score_of_exact h hu heu, score_of_exact h hw hew] at hlt
        exact (familyScore_lt_iff h.dated (by rw [dateOf, heu]) (by rw [dateOf, hew])).mpr hlt
      · exact (ahead_iff heu h.dated hfw).mp (hexact heu hew)
    · rw [score_of_family h hu hfu heu] at hlt
      by_cases hew : torchRocmVersion w = hint
      · rw [score_of_exact h hw hew] at hlt
        exact (not_familyScore_lt _ _ hlt).elim
      · rwa [score_of_family h hw hfw hew] at hlt
  by_cases hew : torchRocmVersion w = hint'
  · by_cases heu : torchRocmVersion u = hint'
    · rw [score_of_exact h.symm hu' heu, score_of_exact h.symm hw' hew]
      exact (familyScore_lt_iff h.dated (by rw [dateOf, heu, h.date])
        (by rw [dateOf, hew, h.date])).mp hfamily
    · have hback := (ahead_iff hew h.symm.dated hfu').mp (hexact' hew heu)
      rw [h.date] at hback
      exact absurd hback (lt_asymm hfamily)
  · rw [score_of_family h.symm hw' hfw' hew, h.date]
    by_cases heu : torchRocmVersion u = hint'
    · rw [score_of_exact h.symm hu' heu]
      exact lt_familyScore _ _
    · rwa [score_of_family h.symm hu' hfu' heu, h.date]

theorem agree_of_alike (h : Rivals hint hint')
    (hkey : ∀ v ∈ wheels, torchVersionScore v hint (index v) = some (key v))
    (hkey' : ∀ v ∈ wheels, torchVersionScore v hint' (index v) = some (key' v))
    (halike : Alike wheels index hint hint') : Agree wheels key key' := by
  intro u hu w hw hlt
  by_cases hfu : SameFamily hint u
  · by_cases hfw : SameFamily hint w
    · exact agree_family h (hkey u hu) (hkey w hw) (hkey' u hu) (hkey' w hw) hfu hfw
        (halike.exact u hu w hw) (halike.exact' w hw u hu) hlt
    · exact score_family_lt h.symm (hkey' u hu) (hkey' w hw) (h.sameFamily_iff.mp hfu)
        fun hs => hfw (h.sameFamily_iff.mpr hs)
  · by_cases hfw : SameFamily hint w
    · exact absurd hlt (lt_asymm (score_family_lt h (hkey w hw) (hkey u hu) hfw hfu))
    · rcases scores_outside h (hkey u hu) (hkey' u hu) hfu with ⟨-, hku, hku'⟩ | ⟨hou, hku, hku'⟩
      · rcases scores_outside h (hkey w hw) (hkey' w hw) hfw with ⟨-, hkw, hkw'⟩ | ⟨-, hkw, -⟩
        · rw [hku, hkw] at hlt
          rwa [hku', hkw']
        · rw [hku, hkw, score_lt_iff] at hlt
          omega
      · rcases scores_outside h (hkey w hw) (hkey' w hw) hfw with ⟨-, -, hkw'⟩ | ⟨how, hkw, hkw'⟩
        · rw [hku', hkw', score_lt_iff]
          omega
        · have hnear := halike.foreign u hu w hw hou how
          unfold Nearer at hnear
          rw [hku, hkw, score_lt_iff] at hlt
          rw [hku', hkw', score_lt_iff]
          omega

/-! ## The ranking and the walk -/

variable {versions rocmVersions walked ranked : List Txt} {rocmHint : Txt}

/-- The versions that are compared by their numbers have none that `int` refuses. -/
def Readable (versions : List Txt) (rocmHint : Txt) (rocmVersions : List Txt) : Prop :=
  (isBuildNumber rocmHint = true → Short rocmHint ∧ ∀ v ∈ rocmVersions, Short v) ∧
    ∀ v ∈ versions, usable rocmVersions v = true → torchRocmVersion v ≠ [] →
      torchRocmVersion v ≠ rocmHint → Short rocmHint ∧ Short (torchRocmVersion v)

/-- The candidates that share the latest date rank the wheels alike. -/
def Untied (versions : List Txt) (rocmHint : Txt) (rocmVersions : List Txt) : Prop :=
  isBuildNumber rocmHint = true → ∀ hint hint', Latest rocmHint rocmVersions hint →
    Latest rocmHint rocmVersions hint' → hint ≠ hint' →
      Alike (versions.filter (usable rocmVersions)) versions.idxOf hint hint'

theorem Readable.perm (h : Readable versions rocmHint rocmVersions)
    (hperm : walked.Perm rocmVersions) :
    Readable versions rocmHint walked := by
  unfold Readable
  rw [usable_perm hperm]
  exact ⟨fun hb => ⟨(h.1 hb).1, fun v hv => (h.1 hb).2 v (hperm.mem_iff.mp hv)⟩, h.2⟩

/-- Where the set is not empty, a usable wheel is built for one of its versions. -/
theorem mem_of_usable (hmem : hint ∈ rocmVersions) (hv : usable rocmVersions v = true)
    (hsome : torchRocmVersion v ≠ []) : torchRocmVersion v ∈ rocmVersions := by
  unfold usable at hv
  rw [Bool.or_eq_true, Bool.or_eq_true, decide_eq_true_eq, List.isEmpty_iff,
    List.contains_iff_mem] at hv
  rcases hv with (hnil | hempty) | hin
  · exact absurd hnil hsome
  · rw [hempty] at hmem
    cases hmem
  · exact hin

theorem exists_rank_iff (hne : rocmHint ≠ []) :
    (∃ ranked, rankTorchVersions versions rocmHint rocmVersions = some ranked) ↔
      Readable versions rocmHint rocmVersions := by
  constructor
  · intro ⟨ranked, h⟩
    obtain ⟨hint, key, hhint, hkey, -, -⟩ := rank_spec h
    have hbuild : isBuildNumber rocmHint = true → Short rocmHint ∧ ∀ v ∈ rocmVersions, Short v := by
      intro hb
      by_contra hlong
      rw [effectiveHint_eq_none_iff.mpr ⟨hb, hlong⟩] at hhint
      cases hhint
    refine ⟨hbuild, fun v hv husable hsome hother => ?_⟩
    rcases effective_cases hhint with ⟨rfl, -⟩ | ⟨hb, hlatest⟩
    · by_contra hlong
      have hnone := (torchVersionScore_eq_none_iff (i := versions.idxOf v) hne).mpr
        ⟨hsome, hother, hlong⟩
      rw [hkey v (List.mem_filter.mpr ⟨hv, husable⟩)] at hnone
      cases hnone
    · exact ⟨(hbuild hb).1, (hbuild hb).2 _ (mem_of_usable (latest_facts hlatest).1 husable hsome)⟩
  · intro ⟨hbuild, hcompared⟩
    cases hhint : effectiveHint rocmHint rocmVersions with
    | none =>
      obtain ⟨hb, hlong⟩ := effectiveHint_eq_none_iff.mp hhint
      exact absurd (hbuild hb) hlong
    | some hint =>
      refine exists_rank hhint fun v hv hnone => ?_
      obtain ⟨hmem, husable⟩ := List.mem_filter.mp hv
      obtain ⟨hsome, hother, hlong⟩ :=
        (torchVersionScore_eq_none_iff (effective_ne_nil hne hhint)).mp hnone
      rcases effective_cases hhint with ⟨rfl, -⟩ | ⟨hb, hlatest⟩
      · exact hlong (hcompared v hmem husable hsome hother)
      · have hin := (latest_facts hlatest).1
        exact hlong ⟨(hbuild hb).2 hint hin, (hbuild hb).2 _ (mem_of_usable hin husable hsome)⟩

theorem rivals_of_latest (hb : isBuildNumber rocmHint = true) (hshort : Short rocmHint)
    (hall : ∀ v ∈ rocmVersions, Short v) (h : Latest rocmHint rocmVersions hint)
    (h' : Latest rocmHint rocmVersions hint') (hne : hint ≠ hint') : Rivals hint hint' := by
  obtain ⟨hmem, hfamily, hdated⟩ := latest_facts h
  obtain ⟨hmem', hfamily', -⟩ := latest_facts h'
  obtain ⟨f, hf⟩ := familyOf_of_build hb hshort
  refine ⟨hne, ⟨f, ?_, ?_⟩, hdated, le_antisymm (h.2 hint' h'.1) (h'.2 hint h.1)⟩
  · rw [rocmFamily_of_short (hall hint hmem), hfamily, hf]
  · rw [rocmFamily_of_short (hall hint' hmem'), hfamily', hf]

/-- The position is the last component. -/
theorem index_of_score (hne : hint ≠ []) (hk : torchVersionScore v hint i = some k) :
    ∃ a b c d, k = score a b c d i := by
  rcases score_cases hne hk with ⟨-, hk⟩ |
    ⟨-, ⟨-, ⟨-, -, hk⟩ | ⟨-, hk⟩⟩ | ⟨-, ⟨-, hk⟩ | ⟨-, hk⟩⟩⟩
  all_goals exact ⟨_, _, _, _, hk⟩

theorem eq_of_score_eq (hne : hint ≠ []) (hu : u ∈ versions)
    (hku : torchVersionScore u hint (versions.idxOf u) = some k)
    (hkw : torchVersionScore w hint (versions.idxOf w) = some k) : u = w := by
  obtain ⟨a, b, c, d, rfl⟩ := index_of_score hne hku
  obtain ⟨a', b', c', d', heq⟩ := index_of_score hne hkw
  have hle := score_le_iff.mp heq.le
  have hge := score_le_iff.mp heq.ge
  exact (List.idxOf_inj hu).mp (by omega)

theorem injective_of_scores (hne : hint ≠ [])
    (hkey : ∀ v ∈ versions.filter (usable rocmVersions),
      torchVersionScore v hint (versions.idxOf v) = some (key v)) :
    ∀ u ∈ versions.filter (usable rocmVersions), ∀ w ∈ versions.filter (usable rocmVersions),
      key u = key w → u = w := by
  intro u hu w hw heq
  exact eq_of_score_eq hne (List.mem_filter.mp hu).1 (hkey u hu) (heq ▸ hkey w hw)

/-- Where the ties do not matter, every walk gives one ranking. -/
theorem rank_unique (hne : rocmHint ≠ []) (hread : Readable versions rocmHint rocmVersions)
    (huntied : Untied versions rocmHint rocmVersions) (hperm : walked.Perm rocmVersions)
    {ranked' : List Txt} (h : rankTorchVersions versions rocmHint rocmVersions = some ranked)
    (h' : rankTorchVersions versions rocmHint walked = some ranked') : ranked' = ranked := by
  obtain ⟨hint, key, hhint, hkey, hranked, hsorted⟩ := rank_spec h
  obtain ⟨hint', key', hhint', hkey', hranked', hsorted'⟩ := rank_spec h'
  rw [usable_perm hperm] at hkey' hranked'
  have hinj := injective_of_scores (effective_ne_nil hne hhint) hkey
  have hinj' := injective_of_scores (effective_ne_nil hne hhint') hkey'
  refine (sorted_eq_of_agree hranked hranked' hsorted hsorted' hinj hinj' ?_).symm
  by_cases hsame : hint = hint'
  · subst hsame
    intro u hu w hw hlt
    have hku := Option.some.inj ((hkey u hu).symm.trans (hkey' u hu))
    have hkw := Option.some.inj ((hkey w hw).symm.trans (hkey' w hw))
    rwa [← hku, ← hkw]
  · rcases effective_cases hhint with ⟨rfl, hnone⟩ | ⟨hb, hlatest⟩
    · rcases effective_cases hhint' with ⟨heq, -⟩ | ⟨hb, hlatest'⟩
      · exact absurd heq.symm hsame
      · have hmem := (candidates_perm hperm).mem_iff.mp hlatest'.1
        rw [hnone hb] at hmem
        cases hmem
    · rcases effective_cases hhint' with ⟨-, hnone⟩ | ⟨-, hlatest'⟩
      · have hmem := (candidates_perm hperm).mem_iff.mpr hlatest.1
        rw [hnone hb] at hmem
        cases hmem
      · rw [latest_perm hperm] at hlatest'
        have hrivals := rivals_of_latest hb (hread.1 hb).1 (hread.1 hb).2 hlatest hlatest' hsame
        exact agree_of_alike hrivals hkey hkey' (huntied hb hint hint' hlatest hlatest' hsame)

theorem untied_of_unique (hne : rocmHint ≠ []) (hread : Readable versions rocmHint rocmVersions)
    (h : ∀ walked : List Txt, walked.Perm rocmVersions →
      rankTorchVersions versions rocmHint walked = some ranked) :
    Untied versions rocmHint rocmVersions := by
  intro hb hint hint' hlatest hlatest' hother
  obtain ⟨hshort, hall⟩ := hread.1 hb
  obtain ⟨walked, hperm, hwalk⟩ := exists_walk hb hshort hall hlatest
  obtain ⟨walked', hperm', hwalk'⟩ := exists_walk hb hshort hall hlatest'
  obtain ⟨e, key, he, hkey, hranked, hsorted⟩ := rank_spec (h walked hperm)
  obtain ⟨e', key', he', hkey', -, hsorted'⟩ := rank_spec (h walked' hperm')
  obtain rfl := Option.some.inj (hwalk.symm.trans he)
  obtain rfl := Option.some.inj (hwalk'.symm.trans he')
  rw [usable_perm hperm] at hkey hranked
  rw [usable_perm hperm'] at hkey'
  have hinj := injective_of_scores (effective_ne_nil hne hwalk) hkey
  have hinj' := injective_of_scores (effective_ne_nil hne hwalk') hkey'
  refine alike_of_agree (rivals_of_latest hb hshort hall hlatest hlatest' hother) hkey hkey' hinj ?_
  have hagree := agree_of_sorted hsorted hsorted' fun u hu w hw =>
    hinj' u (hranked.mem_iff.mp hu) w (hranked.mem_iff.mp hw)
  exact fun u hu w hw => hagree u (hranked.mem_iff.mpr hu) w (hranked.mem_iff.mpr hw)

/-- The ranking is a preference exactly where the numbers are read and the latest candidates rank
the wheels alike. -/
theorem preferred_iff (hne : rocmHint ≠ []) :
    (∃ ranked, Preferred versions rocmHint rocmVersions ranked) ↔
      Readable versions rocmHint rocmVersions ∧ Untied versions rocmHint rocmVersions := by
  constructor
  · intro ⟨ranked, h⟩
    have hread := (exists_rank_iff hne).mp ⟨ranked, h.ranking rocmVersions (List.Perm.refl _)⟩
    exact ⟨hread, untied_of_unique hne hread h.ranking⟩
  · intro ⟨hread, huntied⟩
    obtain ⟨ranked, hranked⟩ := (exists_rank_iff hne).mpr hread
    have hranking : ∀ walked : List Txt, walked.Perm rocmVersions →
        rankTorchVersions versions rocmHint walked = some ranked := by
      intro walked hperm
      obtain ⟨ranked', hranked'⟩ := (exists_rank_iff hne).mpr (hread.perm hperm)
      rw [hranked', rank_unique hne hread huntied hperm hranked hranked']
    refine ⟨ranked, ?_, hranking, fun walked hperm hint hhint => ?_⟩
    · obtain ⟨-, -, -, -, hperm, -⟩ := rank_spec hranked
      exact hperm
    · obtain ⟨e, key, he, hkey, hperm', hsorted⟩ := rank_spec (hranking walked hperm)
      obtain rfl := Option.some.inj (hhint.symm.trans he)
      exact ordered_of_sorted (effective_ne_nil hne hhint)
        (fun v hv => hkey v (hperm'.mem_iff.mp hv)) hsorted

def nightly : Txt := "7.14.0a20260624".toList

def older : Txt := "7.13.0a20260101".toList

def buildHint : Txt := "7.14.60850".toList

/-- One wheel for each of two ROCm versions, of which one has the family of the hint. -/
theorem preferred_nightly : ∃ ranked, Preferred
    ["2.9.0+rocm7.13.0a20260101".toList, "2.9.0+rocm7.14.0a20260624".toList] buildHint
    [nightly, older] ranked := by
  refine (preferred_iff (by decide)).mpr
    ⟨⟨fun _ => ⟨?_, fun v hv => ?_⟩, fun v hv _ _ _ => ⟨?_, ?_⟩⟩, ?_⟩
  · unfold Short
    decide +kernel
  · simp only [List.mem_cons, List.not_mem_nil, or_false] at hv
    unfold Short
    rcases hv with rfl | rfl
    · decide +kernel
    · decide +kernel
  · unfold Short
    decide +kernel
  · simp only [List.mem_cons, List.not_mem_nil, or_false] at hv
    unfold Short
    rcases hv with rfl | rfl
    · decide +kernel
    · decide +kernel
  · have hcand : candidates buildHint [nightly, older] = [nightly] := by decide +kernel
    intro _ hint hint' hlatest hlatest' hne
    have hmem := hlatest.1
    have hmem' := hlatest'.1
    rw [hcand, List.mem_singleton] at hmem hmem'
    exact absurd (hmem.trans hmem'.symm) hne

def patch : Txt := "7.14.1a20260624".toList

def nightlyWheel : Txt := "2.9.0+rocm7.14.0a20260624".toList

def patchWheel : Txt := "2.9.0+rocm7.14.1a20260624".toList

/-- Two ROCm versions of one date: whichever is met first in the set is the hint, and its wheel is
ranked first. -/
theorem not_preferred_tied : [nightlyWheel, patchWheel].Nodup ∧ buildHint ≠ [] ∧
    [nightly, patch].Nodup ∧
      ¬ ∃ ranked, Preferred [nightlyWheel, patchWheel] buildHint [nightly, patch] ranked := by
  refine ⟨by decide, by decide, by decide, fun ⟨ranked, h⟩ => ?_⟩
  have hfirst := (h.ordered [nightly, patch] (List.Perm.refl _) nightly (by decide +kernel)).exact
  have hsecond :=
    (h.ordered [patch, nightly] (List.Perm.swap _ _ _) patch (by decide +kernel)).exact
  have husable : [nightlyWheel, patchWheel].filter (usable [nightly, patch]) =
      [nightlyWheel, patchWheel] := by decide +kernel
  have hnightly : torchRocmVersion nightlyWheel = nightly := by decide +kernel
  have hpatch : torchRocmVersion patchWheel = patch := by decide +kernel
  have hne : nightly ≠ patch := by decide
  have hperm := h.usable
  rw [husable] at hperm
  rcases List.perm_pair.mp hperm with rfl | rfl
  · have hback := (List.pairwise_pair.mp hsecond) hpatch
    exact hne (hnightly.symm.trans hback)
  · have hback := (List.pairwise_pair.mp hfirst) hnightly
    exact hne (hback.symm.trans hpatch)

end

end Wheels
end Provisioning
end RocmTests

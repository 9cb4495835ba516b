import RocmTests.Monitored.Cudamemtest
import RocmTests.Monitored.RunOne

/-!
# Comparing the GPUs of a run

`detect_imbalance` reports the GPUs whose average is far from the mean of all, and
`find_imbalance_exclusions` what was held back from that comparison.  The statistics
of the samples are given; averages are exact.
-/

namespace RocmTests
namespace Monitored
namespace Imbalance

open Text
open Cudamemtest (roundHalfEven)

/-! ## Statistics -/

/-- What `detect_workload_pattern` names a run. -/
inductive Pattern where
  | singleGpu
  | unknown
  | lowGfxUtil
  | serial
  | parallel
  | mixed
deriving DecidableEq

inductive Metric where
  | power
  | gfxClk
  | gfxUtil
deriving DecidableEq

def Metric.name : Metric → Txt
  | .power => "power".toList
  | .gfxClk => "gfx_clk".toList
  | .gfxUtil => "gfx_util".toList

/-- The metrics in the order in which `detect_imbalance` takes them. -/
def metrics : List Metric := [.power, .gfxClk, .gfxUtil]

def imbalancePct : ℚ := 15
def imbalanceMinSamples : Int := 5

/-- `IMBALANCE_MIN_SPREAD`. -/
def imbalanceMinSpread : List (Metric × ℚ) := [(.gfxUtil, 5)]

/-- What is known of one GPU.  `avg` is `none` where there is no average or none that is
a finite number. -/
structure GpuStats where
  steadyStateSamples : Option Int
  avg : Metric → Option ℚ

/-- `st.get("steady_state_samples", IMBALANCE_MIN_SAMPLES)`. -/
def GpuStats.samples (st : GpuStats) : Int := st.steadyStateSamples.getD imbalanceMinSamples

/-- The dictionary `per_gpu`. -/
structure PerGpu where
  items : List (Txt × GpuStats)
  nodup : (items.map Prod.fst).Nodup

/-! ## The comparison -/

/-- `_eligible_avgs`. -/
def eligibleAvgs (p : PerGpu) (m : Metric) : List (Txt × ℚ) :=
  p.items.filterMap fun (gid, st) =>
    if st.samples < imbalanceMinSamples then none
    else
      match st.avg m with
      | some avg => if 0 ≤ avg then some (gid, avg) else none
      | none => none

def fleetMean (avgs : List (Txt × ℚ)) : ℚ := (avgs.map Prod.snd).sum / avgs.length

/-- `max(avgs.values()) - min(avgs.values())`. -/
def spread (avgs : List (Txt × ℚ)) : ℚ :=
  ((avgs.map Prod.snd).max?.getD 0) - ((avgs.map Prod.snd).min?.getD 0)

def spreadFloor (m : Metric) : ℚ := (imbalanceMinSpread.lookup m).getD 0

/-- `abs(avg - fleet_mean) / fleet_mean * 100`. -/
def deviation (mean avg : ℚ) : ℚ := |avg - mean| / mean * 100

/-- `round(q, digits)`. -/
def roundTo (digits : Nat) (q : ℚ) : ℚ := mkRat (roundHalfEven (q * 10 ^ digits)) (10 ^ digits)

structure Flag where
  gpu : Txt
  metric : Metric
  gpuAvg : ℚ
  fleetMean : ℚ
  deviationPct : ℚ

/-- The flags of one metric. -/
def metricFlags (m : Metric) (avgs : List (Txt × ℚ)) : List Flag :=
  if avgs.length < 2 then []
  else
    let mean := fleetMean avgs
    if mean < 1 then []
    else if spreadFloor m ≠ 0 ∧ spread avgs < spreadFloor m then []
    else avgs.filterMap fun (gid, avg) =>
      if imbalancePct < deviation mean avg then
        some ⟨gid, m, roundTo 1 avg, roundTo 1 mean, roundTo 1 (deviation mean avg)⟩
      else none

def detectImbalance (p : PerGpu) (pattern : Pattern) (serialProfile : Bool) : List Flag :=
  if serialProfile ∨ pattern = .serial ∨ p.items.length ≤ 1 then []
  else metrics.flatMap fun m => metricFlags m (eligibleAvgs p m)

/-! ## What is held back -/

/-- A record of `find_imbalance_exclusions`: a GPU with a short window, or a metric whose
spread is too small, with the GPUs it would have flagged. -/
inductive Exclusion where
  | excluded (gpu : Txt) (steadyStateSamples : Int)
  | withheld (gpus : List Txt) (metric : Metric) (spread spreadFloor : ℚ)

/-- `f"{q:.2f}"` of a number that is not negative. -/
def showHundredths (q : ℚ) : Txt :=
  let n := (roundHalfEven (100 * q)).toNat
  showNat (n / 100) ++ '.' :: showNat (n / 10 % 10) ++ showNat (n % 10)

def Exclusion.note : Exclusion → Txt
  | .excluded _ samples =>
    "excluded from cross-GPU comparison: steady window has ".toList ++ showInt samples ++
      " sample(s), below the ".toList ++ showInt imbalanceMinSamples ++
      " needed for a meaningful average".toList
  | .withheld gpus metric spread spreadFloor =>
    metric.name ++ " deviation on GPU(s) ".toList ++ joinComma gpus ++
      " not reported: fleet spread ".toList ++ showHundredths spread ++ " is below the ".toList ++
      Cudamemtest.showTenths spreadFloor ++
      " floor, so the relative deviation is not meaningful at this scale".toList

/-- `sorted(per_gpu.items())`. -/
def sortedItems (p : PerGpu) : List (Txt × GpuStats) := p.items.mergeSort fun a b => a.1 ≤ b.1

/-- The GPUs of one metric that the floor of the spread keeps back. -/
def withheldGpus (avgs : List (Txt × ℚ)) : List Txt :=
  ((avgs.filter fun x => imbalancePct < deviation (fleetMean avgs) x.2).map Prod.fst).mergeSort
    fun a b => a ≤ b

def spreadExclusion (m : Metric) (floor : ℚ) (avgs : List (Txt × ℚ)) : Option Exclusion :=
  if floor = 0 then none
  else if avgs.length < 2 then none
  else if fleetMean avgs < 1 then none
  else if floor ≤ spread avgs then none
  else if withheldGpus avgs = [] then none
  else some (.withheld (withheldGpus avgs) m (roundTo 2 (spread avgs)) floor)

def findImbalanceExclusions (p : PerGpu) (pattern : Pattern) (serialProfile : Bool) :
    List Exclusion :=
  if serialProfile ∨ pattern = .serial then []
  else
    ((sortedItems p).filterMap fun (gid, st) =>
      if st.samples < imbalanceMinSamples then some (.excluded gid st.samples) else none) ++
    imbalanceMinSpread.filterMap fun (m, floor) => spreadExclusion m floor (eligibleAvgs p m)

/-- Whether `e["metric"] == "excluded"`. -/
def Exclusion.dropsGpu : Exclusion → Bool
  | .excluded _ _ => true
  | .withheld _ _ _ _ => false

def comparableGpuCount (p : PerGpu) (exclusions : List Exclusion) : Nat :=
  p.items.length - exclusions.countP Exclusion.dropsGpu

inductive ComparisonStatus where
  | notApplicable
  | compared
  | inconclusive
deriving DecidableEq

/-- `comparison_status` of `run_analysis`. -/
def comparisonStatus (p : PerGpu) (pattern : Pattern) (serialProfile : Bool) : ComparisonStatus :=
  if serialProfile ∨ pattern = .serial then .notApplicable
  else if 2 ≤ comparableGpuCount p (findImbalanceExclusions p pattern serialProfile) then .compared
  else .inconclusive

/-! ## Accounting for every deviation -/

/-- The average is further from the mean of the comparable GPUs than allowed. -/
def Deviates (p : PerGpu) (m : Metric) (avg : ℚ) : Prop :=
  eligibleAvgs p m ≠ [] ∧
    imbalancePct * fleetMean (eligibleAvgs p m) < |avg - fleetMean (eligibleAvgs p m)| * 100

def Reported (p : PerGpu) (pattern : Pattern) (serialProfile : Bool) (gid : Txt) (m : Metric) :
    Prop :=
  ∃ f ∈ detectImbalance p pattern serialProfile, f.gpu = gid ∧ f.metric = m

/-- The record names the GPU, for all metrics or for this one. -/
def Exclusion.Names (gid : Txt) (m : Metric) : Exclusion → Prop
  | .excluded gpu _ => gpu = gid
  | .withheld gpus metric _ _ => gid ∈ gpus ∧ metric = m

def Listed (p : PerGpu) (pattern : Pattern) (serialProfile : Bool) (gid : Txt) (m : Metric) :
    Prop :=
  ∃ e ∈ findImbalanceExclusions p pattern serialProfile, e.Names gid m

/-- Nothing that is held back disappears. -/
structure Accounted (p : PerGpu) (pattern : Pattern) (serialProfile : Bool) : Prop where
  deviating : ∀ gid st, (gid, st) ∈ p.items → ∀ m avg, st.avg m = some avg → Deviates p m avg →
    Reported p pattern serialProfile gid m ∨ Listed p pattern serialProfile gid m
  short : ∀ gid st, (gid, st) ∈ p.items → st.samples < imbalanceMinSamples →
    Exclusion.excluded gid st.samples ∈ findImbalanceExclusions p pattern serialProfile ∧
      ∀ m, ¬ Reported p pattern serialProfile gid m
  inconclusive : comparisonStatus p pattern serialProfile = .inconclusive →
    detectImbalance p pattern serialProfile = []

/-- The comparison of a metric keeps nothing back in silence: no average over a long
window is negative, and the mean is at least 1 unless nobody is far from it. -/
structure Transparent (p : PerGpu) (m : Metric) : Prop where
  nonneg : ∀ gid st, (gid, st) ∈ p.items → imbalanceMinSamples ≤ st.samples → ∀ avg,
    st.avg m = some avg → 0 ≤ avg
  mean : fleetMean (eligibleAvgs p m) < 1 → ∀ x ∈ eligibleAvgs p m, ¬ Deviates p m x.2

variable {p : PerGpu} {m : Metric} {gid : Txt}

theorem mem_eligibleAvgs {avg : ℚ} : (gid, avg) ∈ eligibleAvgs p m ↔
    ∃ st, (gid, st) ∈ p.items ∧ imbalanceMinSamples ≤ st.samples ∧ st.avg m = some avg ∧
      0 ≤ avg := by
  unfold eligibleAvgs
  rw [List.mem_filterMap]
  constructor
  · rintro ⟨⟨gid', st⟩, hmem, h⟩
    simp only at h
    split_ifs at h with hshort
    split at h
    · rename_i avg' havg
      split_ifs at h with hpos
      cases h
      exact ⟨st, hmem, not_lt.mp hshort, havg, hpos⟩
    · cases h
  · rintro ⟨st, hmem, hlong, havg, hpos⟩
    refine ⟨(gid, st), hmem, ?_⟩
    simp only [if_neg (not_lt.mpr hlong), havg, if_pos hpos]

theorem PerGpu.unique {st st' : GpuStats} (h : (gid, st) ∈ p.items) (h' : (gid, st') ∈ p.items) :
    st = st' :=
  congrArg Prod.snd (List.inj_on_of_nodup_map p.nodup h h' rfl)

theorem fleetMean_nonneg (p : PerGpu) (m : Metric) : 0 ≤ fleetMean (eligibleAvgs p m) := by
  refine div_nonneg (List.sum_nonneg fun a ha => ?_) (Nat.cast_nonneg _)
  obtain ⟨⟨gid, avg⟩, hmem, rfl⟩ := List.mem_map.mp ha
  obtain ⟨st, -, -, -, hpos⟩ := mem_eligibleAvgs.mp hmem
  exact hpos

theorem fleetMean_singleton (x : Txt × ℚ) : fleetMean [x] = x.2 := by
  simp [fleetMean]

theorem lt_deviation_iff {mean avg : ℚ} (hmean : 1 ≤ mean) :
    imbalancePct < deviation mean avg ↔ imbalancePct * mean < |avg - mean| * 100 := by
  have hpos : 0 < mean := lt_of_lt_of_le one_pos hmean
  unfold deviation
  rw [div_mul_eq_mul_div, lt_div_iff₀ hpos]

theorem length_eligibleAvgs_le (p : PerGpu) (m : Metric) :
    (eligibleAvgs p m).length ≤ p.items.length := List.length_filterMap_le _ _

theorem length_filterMap_add_countP_le {α β : Type} {f : α → Option β} {q : α → Bool}
    (h : ∀ x, q x = true → f x = none) (l : List α) :
    (l.filterMap f).length + l.countP q ≤ l.length := by
  induction l with
  | nil => rfl
  | cons x l ih =>
    by_cases hq : q x = true
    · rw [List.filterMap_cons_none (h x hq), List.countP_cons_of_pos hq, List.length_cons]
      omega
    · rw [List.countP_cons_of_neg hq, List.length_cons]
      cases hx : f x with
      | none =>
        rw [List.filterMap_cons_none hx]
        omega
      | some y =>
        rw [List.filterMap_cons_some hx, List.length_cons]
        omega

/-- The comparable GPUs are among those with long windows. -/
theorem length_eligibleAvgs_add_short_le (p : PerGpu) (m : Metric) :
    (eligibleAvgs p m).length + p.items.countP (fun x => x.2.samples < imbalanceMinSamples) ≤
      p.items.length :=
  length_filterMap_add_countP_le (fun _ hx => if_pos (of_decide_eq_true hx)) p.items

/-- A single GPU is its own mean. -/
theorem two_le_of_deviates {avg : ℚ} (hmem : (gid, avg) ∈ eligibleAvgs p m)
    (h : Deviates p m avg) : 2 ≤ (eligibleAvgs p m).length := by
  obtain ⟨hne, hdev⟩ := h
  have hlen := List.length_pos_iff.mpr hne
  by_contra hlt
  obtain ⟨x, hx⟩ := List.length_eq_one_iff.mp (show (eligibleAvgs p m).length = 1 by omega)
  rw [hx] at hmem hdev
  cases List.mem_singleton.mp hmem
  have hnonneg := fleetMean_nonneg p m
  rw [hx] at hnonneg
  rw [fleetMean_singleton] at hdev hnonneg
  simp only [sub_self, abs_zero, zero_mul] at hdev
  have hpct : (0 : ℚ) ≤ imbalancePct := by unfold imbalancePct; norm_num
  exact absurd hdev (not_lt.mpr (mul_nonneg hpct hnonneg))

/-- What reports a GPU for a metric. -/
structure Flags (p : PerGpu) (m : Metric) (gid : Txt) (avg : ℚ) : Prop where
  mem : (gid, avg) ∈ eligibleAvgs p m
  several : 2 ≤ (eligibleAvgs p m).length
  mean : 1 ≤ fleetMean (eligibleAvgs p m)
  spread : spreadFloor m = 0 ∨ spreadFloor m ≤ spread (eligibleAvgs p m)
  far : imbalancePct < deviation (fleetMean (eligibleAvgs p m)) avg

theorem exists_metricFlag_iff {m' : Metric} :
    (∃ f ∈ metricFlags m' (eligibleAvgs p m'), f.gpu = gid ∧ f.metric = m) ↔
      m' = m ∧ ∃ avg, Flags p m gid avg := by
  unfold metricFlags
  constructor
  · rintro ⟨f, hf, rfl, rfl⟩
    simp only at hf
    split_ifs at hf with hone hmean hspread
    · cases hf
    · cases hf
    · cases hf
    · obtain ⟨⟨gid', avg⟩, hmem, hflag⟩ := List.mem_filterMap.mp hf
      simp only at hflag
      split_ifs at hflag with hfar
      cases hflag
      refine ⟨rfl, avg, hmem, not_lt.mp hone, not_lt.mp hmean, ?_, hfar⟩
      by_contra hnot
      rw [not_or, not_le] at hnot
      exact hspread hnot
  · rintro ⟨rfl, avg, h⟩
    have hspread : ¬ (spreadFloor m' ≠ 0 ∧ spread (eligibleAvgs p m') < spreadFloor m') := by
      rintro ⟨hfloor, hlt⟩
      rcases h.spread with hzero | hle
      · exact hfloor hzero
      · exact absurd hle (not_le.mpr hlt)
    simp only [if_neg (not_lt.mpr h.several), if_neg (not_lt.mpr h.mean), if_neg hspread]
    exact ⟨_, List.mem_filterMap.mpr ⟨(gid, avg), h.mem, if_pos h.far⟩, rfl, rfl⟩

theorem mem_withheldGpus {avgs : List (Txt × ℚ)} : gid ∈ withheldGpus avgs ↔
    ∃ avg, (gid, avg) ∈ avgs ∧ imbalancePct < deviation (fleetMean avgs) avg := by
  unfold withheldGpus
  rw [List.mem_mergeSort, List.mem_map]
  constructor
  · rintro ⟨⟨gid', avg⟩, h, rfl⟩
    obtain ⟨hmem, hfar⟩ := List.mem_filter.mp h
    exact ⟨avg, hmem, of_decide_eq_true hfar⟩
  · rintro ⟨avg, hmem, hfar⟩
    exact ⟨(gid, avg), List.mem_filter.mpr ⟨hmem, decide_eq_true hfar⟩, rfl⟩

theorem spreadExclusion_names_iff {m' : Metric} {floor : ℚ} {avgs : List (Txt × ℚ)} :
    (∃ e, spreadExclusion m' floor avgs = some e ∧ e.Names gid m) ↔
      m' = m ∧ floor ≠ 0 ∧ 2 ≤ avgs.length ∧ 1 ≤ fleetMean avgs ∧ spread avgs < floor ∧
        gid ∈ withheldGpus avgs := by
  unfold spreadExclusion
  constructor
  · rintro ⟨e, he, hnames⟩
    split_ifs at he with hfloor hone hmean hspread hnobody
    cases he
    exact ⟨hnames.2, hfloor, not_lt.mp hone, not_lt.mp hmean, not_le.mp hspread, hnames.1⟩
  · rintro ⟨rfl, hfloor, hseveral, hmean, hspread, hgid⟩
    rw [if_neg hfloor, if_neg (not_lt.mpr hseveral), if_neg (not_lt.mpr hmean),
      if_neg (not_le.mpr hspread), if_neg (List.ne_nil_of_mem hgid)]
    exact ⟨_, rfl, hgid, rfl⟩

theorem countP_dropsGpu_spread :
    (imbalanceMinSpread.filterMap fun (m, floor) =>
      spreadExclusion m floor (eligibleAvgs p m)).countP Exclusion.dropsGpu = 0 := by
  rw [List.countP_eq_zero]
  intro e he hdrops
  obtain ⟨⟨m', floor⟩, -, he⟩ := List.mem_filterMap.mp he
  unfold spreadExclusion at he
  simp only at he
  split_ifs at he
  all_goals
    cases he
    cases hdrops

theorem countP_dropsGpu_short (l : List (Txt × GpuStats)) :
    (l.filterMap fun (gid, st) =>
      if st.samples < imbalanceMinSamples then some (Exclusion.excluded gid st.samples)
        else none).countP Exclusion.dropsGpu =
      l.countP fun x => x.2.samples < imbalanceMinSamples := by
  induction l with
  | nil => rfl
  | cons x rest ih =>
    rw [List.filterMap_cons]
    by_cases h : x.2.samples < imbalanceMinSamples
    · simp only [h, if_true]
      rw [List.countP_cons_of_pos rfl, ih, List.countP_cons_of_pos (by simpa using h)]
    · simp only [h, if_false]
      rw [ih, List.countP_cons_of_neg (by simpa using h)]

section

variable {pattern : Pattern} {serialProfile : Bool} (hpattern : pattern ≠ .serial)
  (hprofile : serialProfile = false)
include hpattern hprofile

theorem reported_iff : Reported p pattern serialProfile gid m ↔ ∃ avg, Flags p m gid avg := by
  unfold Reported detectImbalance
  split_ifs with hnone
  · refine iff_of_false (by simp) ?_
    rintro ⟨avg, h⟩
    have hle := length_eligibleAvgs_le p m
    have hseveral := h.several
    rcases hnone with hserial | hserial | hfew
    · rw [hprofile] at hserial
      cases hserial
    · exact hpattern hserial
    · omega
  · simp only [List.mem_flatMap]
    constructor
    · rintro ⟨f, ⟨m', -, hf⟩, hgid, hm⟩
      exact (exists_metricFlag_iff.mp ⟨f, hf, hgid, hm⟩).2
    · intro h
      obtain ⟨f, hf, hgid, hm⟩ := exists_metricFlag_iff.mpr ⟨rfl, h⟩
      exact ⟨f, ⟨m, by cases m <;> simp [metrics], hf⟩, hgid, hm⟩

theorem findImbalanceExclusions_eq : findImbalanceExclusions p pattern serialProfile =
    ((sortedItems p).filterMap fun (gid, st) =>
      if st.samples < imbalanceMinSamples then some (.excluded gid st.samples) else none) ++
    imbalanceMinSpread.filterMap fun (m, floor) => spreadExclusion m floor (eligibleAvgs p m) := by
  unfold findImbalanceExclusions
  rw [if_neg]
  rw [hprofile]
  simp [hpattern]

theorem excluded_mem {st : GpuStats} (hmem : (gid, st) ∈ p.items)
    (hshort : st.samples < imbalanceMinSamples) :
    Exclusion.excluded gid st.samples ∈ findImbalanceExclusions p pattern serialProfile := by
  rw [findImbalanceExclusions_eq hpattern hprofile]
  exact List.mem_append_left _
    (List.mem_filterMap.mpr ⟨(gid, st), List.mem_mergeSort.mpr hmem, if_pos hshort⟩)

/-- A record names a GPU for its short window or for the spread of a metric. -/
theorem listed_iff : Listed p pattern serialProfile gid m ↔
    (∃ st, (gid, st) ∈ p.items ∧ st.samples < imbalanceMinSamples) ∨
      spreadFloor m ≠ 0 ∧ 2 ≤ (eligibleAvgs p m).length ∧ 1 ≤ fleetMean (eligibleAvgs p m) ∧
        spread (eligibleAvgs p m) < spreadFloor m ∧ gid ∈ withheldGpus (eligibleAvgs p m) := by
  unfold Listed
  rw [findImbalanceExclusions_eq hpattern hprofile]
  constructor
  · rintro ⟨e, he, hnames⟩
    rcases List.mem_append.mp he with he | he
    · obtain ⟨⟨gid', st⟩, hmem, he⟩ := List.mem_filterMap.mp he
      simp only at he
      split_ifs at he with hshort
      cases he
      cases hnames
      exact .inl ⟨st, List.mem_mergeSort.mp hmem, hshort⟩
    · obtain ⟨⟨m', floor⟩, hm', he⟩ := List.mem_filterMap.mp he
      obtain ⟨rfl, hrest⟩ := spreadExclusion_names_iff.mp ⟨e, he, hnames⟩
      obtain ⟨rfl, rfl⟩ := Prod.mk.inj (List.mem_singleton.mp hm')
      exact .inr hrest
  · rintro (⟨st, hmem, hshort⟩ | hrest)
    · exact ⟨_, List.mem_append_left _
        (List.mem_filterMap.mpr ⟨(gid, st), List.mem_mergeSort.mpr hmem, if_pos hshort⟩), rfl⟩
    · have hmem : (m, spreadFloor m) ∈ imbalanceMinSpread := by
        cases m with
        | power => exact absurd rfl hrest.1
        | gfxClk => exact absurd rfl hrest.1
        | gfxUtil => exact List.mem_singleton_self _
      obtain ⟨e, he, hnames⟩ := spreadExclusion_names_iff.mpr ⟨rfl, hrest⟩
      exact ⟨e, List.mem_append_right _ (List.mem_filterMap.mpr ⟨_, hmem, he⟩), hnames⟩

/-- Where the comparison is made, a GPU that is far from the mean is named. -/
theorem named_of_far {avg : ℚ} (hmem : (gid, avg) ∈ eligibleAvgs p m) (hdev : Deviates p m avg)
    (hmean : 1 ≤ fleetMean (eligibleAvgs p m)) :
    Reported p pattern serialProfile gid m ∨ Listed p pattern serialProfile gid m := by
  have hseveral := two_le_of_deviates hmem hdev
  have hfar := (lt_deviation_iff hmean).mpr hdev.2
  rw [reported_iff hpattern hprofile, listed_iff hpattern hprofile]
  by_cases hspread : spreadFloor m = 0 ∨ spreadFloor m ≤ spread (eligibleAvgs p m)
  · exact .inl ⟨avg, hmem, hseveral, hmean, hspread, hfar⟩
  · rw [not_or, not_le] at hspread
    exact .inr (.inr ⟨hspread.1, hseveral, hmean, hspread.2, mem_withheldGpus.mpr
      ⟨avg, hmem, hfar⟩⟩)

theorem deviating_iff :
    (∀ gid st, (gid, st) ∈ p.items → ∀ m avg, st.avg m = some avg → Deviates p m avg →
      Reported p pattern serialProfile gid m ∨ Listed p pattern serialProfile gid m) ↔
      ∀ m, eligibleAvgs p m ≠ [] → Transparent p m := by
  constructor
  · intro h m hne
    have hunnamed {gid : Txt} {st : GpuStats} (hst : (gid, st) ∈ p.items)
        (hlong : imbalanceMinSamples ≤ st.samples)
        (hbar : fleetMean (eligibleAvgs p m) < 1 ∨ ∀ avg, (gid, avg) ∉ eligibleAvgs p m) :
        ¬ (Reported p pattern serialProfile gid m ∨ Listed p pattern serialProfile gid m) := by
      rw [reported_iff hpattern hprofile, listed_iff hpattern hprofile]
      rintro (⟨avg, hflags⟩ | ⟨st', hst', hshort⟩ | ⟨-, -, hmean, -, hgid⟩)
      · rcases hbar with hbar | hbar
        · exact absurd hflags.mean (not_le.mpr hbar)
        · exact hbar avg hflags.mem
      · rw [p.unique hst' hst] at hshort
        exact absurd hlong (not_le.mpr hshort)
      · rcases hbar with hbar | hbar
        · exact absurd hmean (not_le.mpr hbar)
        · obtain ⟨avg, hmem, -⟩ := mem_withheldGpus.mp hgid
          exact hbar avg hmem
    constructor
    · intro gid st hst hlong avg havg
      by_contra hneg
      rw [not_le] at hneg
      have hmean := fleetMean_nonneg p m
      have hdev : Deviates p m avg := by
        refine ⟨hne, ?_⟩
        rw [abs_of_neg (by linarith)]
        unfold imbalancePct
        linarith
      refine hunnamed hst hlong (.inr fun avg' hmem => ?_) (h gid st hst m avg havg hdev)
      obtain ⟨st', hst', -, havg', hpos⟩ := mem_eligibleAvgs.mp hmem
      rw [p.unique hst' hst, havg] at havg'
      cases havg'
      exact absurd hpos (not_le.mpr hneg)
    · intro hsmall x hx hdev
      obtain ⟨st, hst, hlong, havg, -⟩ := mem_eligibleAvgs.mp hx
      exact hunnamed hst hlong (.inl hsmall) (h x.1 st hst m x.2 havg hdev)
  · intro h gid st hst m avg havg hdev
    by_cases hshort : st.samples < imbalanceMinSamples
    · exact .inr ((listed_iff hpattern hprofile).mpr (.inl ⟨st, hst, hshort⟩))
    · have hm := h m hdev.1
      have hmem : (gid, avg) ∈ eligibleAvgs p m := mem_eligibleAvgs.mpr
        ⟨st, hst, not_lt.mp hshort, havg, hm.nonneg gid st hst (not_lt.mp hshort) avg havg⟩
      refine named_of_far hpattern hprofile hmem hdev ?_
      by_contra hsmall
      exact hm.mean (not_le.mp hsmall) _ hmem hdev

theorem not_reported_of_short {st : GpuStats} (hst : (gid, st) ∈ p.items)
    (hshort : st.samples < imbalanceMinSamples) : ¬ Reported p pattern serialProfile gid m := by
  rw [reported_iff hpattern hprofile]
  rintro ⟨avg, hflags⟩
  obtain ⟨st', hst', hlong, -⟩ := mem_eligibleAvgs.mp hflags.mem
  rw [p.unique hst' hst] at hlong
  exact absurd hlong (not_le.mpr hshort)

theorem countP_dropsGpu :
    (findImbalanceExclusions p pattern serialProfile).countP Exclusion.dropsGpu =
      p.items.countP fun x => x.2.samples < imbalanceMinSamples := by
  rw [findImbalanceExclusions_eq hpattern hprofile, List.countP_append, countP_dropsGpu_spread,
    countP_dropsGpu_short, Nat.add_zero]
  exact (List.mergeSort_perm p.items _).countP_eq _

/-- Fewer than two GPUs with long windows leave nothing to compare. -/
theorem detectImbalance_eq_nil
    (h : comparisonStatus p pattern serialProfile = .inconclusive) :
    detectImbalance p pattern serialProfile = [] := by
  have hfew : comparableGpuCount p (findImbalanceExclusions p pattern serialProfile) < 2 := by
    unfold comparisonStatus at h
    split_ifs at h with hserial hseveral
    exact not_le.mp hseveral
  unfold comparableGpuCount at hfew
  rw [countP_dropsGpu hpattern hprofile] at hfew
  unfold detectImbalance
  split_ifs
  · rfl
  · rw [List.flatMap_eq_nil_iff]
    intro m _
    have hle := length_eligibleAvgs_add_short_le p m
    unfold metricFlags
    rw [if_pos]
    omega

/-- Every deviation is reported or listed exactly if the comparison is transparent in
every metric that has a comparable GPU. -/
theorem accounted_iff : Accounted p pattern serialProfile ↔
    ∀ m, eligibleAvgs p m ≠ [] → Transparent p m := by
  constructor
  · intro h
    exact (deviating_iff hpattern hprofile).mp h.deviating
  · intro h
    exact ⟨(deviating_iff hpattern hprofile).mpr h, fun gid st hst hshort =>
      ⟨excluded_mem hpattern hprofile hst hshort, fun m =>
        not_reported_of_short hpattern hprofile hst hshort⟩,
      detectImbalance_eq_nil hpattern hprofile⟩

end

/-- Two GPUs at 280 W and 200 W. -/
def twoGpus : PerGpu :=
  ⟨[("0".toList, ⟨some 300, fun m => if m = .power then some 280 else none⟩),
    ("1".toList, ⟨some 300, fun m => if m = .power then some 200 else none⟩)], by decide⟩

theorem accounted_twoGpus : Pattern.parallel ≠ .serial ∧ false = false ∧
    (Accounted twoGpus .parallel false ↔ ∀ m, eligibleAvgs twoGpus m ≠ [] →
      Transparent twoGpus m) :=
  ⟨by decide, rfl, accounted_iff (by decide) rfl⟩

/-- Two GPUs that are hardly used, one nine times as much as the other. -/
def hardlyUsed : PerGpu :=
  ⟨[("0".toList, ⟨some 300, fun m => if m = .gfxUtil then some (1 / 10) else none⟩),
    ("1".toList, ⟨some 300, fun m => if m = .gfxUtil then some (9 / 10) else none⟩)], by decide⟩

theorem eligibleAvgs_hardlyUsed :
    eligibleAvgs hardlyUsed .gfxUtil = [("0".toList, 1 / 10), ("1".toList, 9 / 10)] := by
  norm_num [eligibleAvgs, hardlyUsed, GpuStats.samples, imbalanceMinSamples, List.filterMap_cons]

theorem hardlyUsed_unaccounted : ¬ Accounted hardlyUsed .parallel false := by
  intro h
  have hmean : fleetMean (eligibleAvgs hardlyUsed .gfxUtil) = 1 / 2 := by
    rw [eligibleAvgs_hardlyUsed]
    norm_num [fleetMean]
  have hne : eligibleAvgs hardlyUsed .gfxUtil ≠ [] := by
    rw [eligibleAvgs_hardlyUsed]
    exact List.cons_ne_nil _ _
  have htransparent := (deviating_iff (by decide) rfl).mp h.deviating .gfxUtil hne
  refine htransparent.mean (by rw [hmean]; norm_num) ("1".toList, 9 / 10) ?_ ⟨hne, ?_⟩
  · rw [eligibleAvgs_hardlyUsed]
    exact .tail _ (.head _)
  · rw [hmean]
    norm_num [imbalancePct]

end Imbalance
end Monitored
end RocmTests

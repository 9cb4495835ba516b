import RocmTests.Collections.Stretches
import RocmTests.Monitored.CsvReaders
import RocmTests.Monitored.RunOne

/-!
# The gate on the coverage in time

`run_one` reads the telemetry twice.  The first reading tells how far the clock of
the file is from the run's own, and a run whose first sample is further from its
start than the budget is judged on the clock of the file.  A monitor that starts
late looks the same; the time it missed then shows at the end of the run.
-/

namespace RocmTests
namespace Monitored

open Text Collections Validation
open Markers (strip)

/-! ## What the scan books -/

namespace Collect

/-- The counters agree with the samples, and the boundaries are those given. -/
structure Booked (s : Collect) (start stop : Option Int) : Prop where
  count : s.evidence.sampleCount = s.samples.length
  gpus : s.evidence.sampledGpus = (s.samples.map Sample.gpu).toFinset
  start : s.evidence.coverageStartTimestamp = start
  stop : s.evidence.coverageEndTimestamp = stop

variable {s : Collect} {start stop : Option Int}

theorem Booked.modify (h : s.Booked start stop) {f : MonitoringEvidence → MonitoringEvidence}
    (hcount : (f s.evidence).sampleCount = s.evidence.sampleCount)
    (hgpus : (f s.evidence).sampledGpus = s.evidence.sampledGpus)
    (hstart : (f s.evidence).coverageStartTimestamp = s.evidence.coverageStartTimestamp)
    (hstop : (f s.evidence).coverageEndTimestamp = s.evidence.coverageEndTimestamp) :
    (s.modify f).Booked start stop :=
  ⟨hcount.trans h.count, hgpus.trans h.gpus, hstart.trans h.start, hstop.trans h.stop⟩

theorem Booked.addSample (h : s.Booked start stop) (row : Csv.Row) (gpu : Txt) (ts : Int) :
    (s.addSample row gpu ts).Booked start stop := by
  unfold Collect.addSample
  split
  · refine ⟨?_, ?_, h.start, h.stop⟩
    · show s.evidence.sampleCount + 1 = _
      rw [h.count, List.length_append, List.length_singleton]
    · show insert gpu s.evidence.sampledGpus = _
      rw [h.gpus, List.map_append, List.toFinset_append]
      exact Finset.insert_eq gpu _ ▸ Finset.union_comm _ _
  · exact h

theorem Booked.addSensors (h : s.Booked start stop) (row : Csv.Row) (gpu : Txt) :
    (s.addSensors row gpu).Booked start stop := by
  unfold Collect.addSensors
  refine h.modify ?_ ?_ ?_ ?_ <;> cases finiteField row CsvSchema.gfxUtil <;>
    (simp only []; split_ifs <;> rfl)

theorem Booked.addRow (h : s.Booked start stop) (row : Csv.Row) :
    (s.addRow row).Booked start stop := by
  unfold Collect.addRow
  cases parseInt (strip (str (getOr row CsvSchema.timestamp []))) with
  | none => exact h.modify rfl rfl rfl rfl
  | some ts =>
    by_cases hgpu : strip (cellOr row CsvSchema.gpu []) = []
    · simp only [if_pos hgpu]
      exact h.modify rfl rfl rfl rfl
    · simp only [if_neg hgpu]
      exact (h.addSample row _ ts).addSensors row _

theorem Booked.scan (outcomes : List (Option Csv.Row)) :
    ∀ {s : Collect}, s.Booked start stop → (s.scan outcomes).Booked start stop := by
  induction outcomes with
  | nil =>
    intro s h
    by_cases hstop : s.evidence.undecodableRows > maxCorruptRows
    · simp only [Collect.scan, if_pos hstop]
      exact h.modify rfl rfl rfl rfl
    · simp only [Collect.scan, if_neg hstop]
      exact h
  | cons outcome rest ih =>
    intro s h
    by_cases hstop : s.evidence.undecodableRows > maxCorruptRows
    · simp only [Collect.scan, if_pos hstop]
      exact h.modify rfl rfl rfl rfl
    · cases outcome with
      | none =>
        simp only [Collect.scan, if_neg hstop]
        exact ih (h.modify rfl rfl rfl rfl)
      | some row =>
        simp only [Collect.scan, if_neg hstop]
        exact ih (h.addRow row)

theorem booked_collectRows (csv : Option Txt) (start stop : Option Int) :
    (collectRows csv start stop).Booked start stop := by
  have hstart : (Collect.start start stop).Booked start stop := ⟨rfl, rfl, rfl, rfl⟩
  cases csv with
  | none => exact hstart
  | some text => exact hstart.scan _

end Collect

/-- The samples of a file. -/
def samplesOf (csv : Option Txt) : List Sample := (collectRows csv none none).samples

theorem collectRows_samples (csv : Option Txt) (start stop : Option Int) :
    (collectRows csv start stop).samples = samplesOf csv := by
  cases csv with
  | none => rfl
  | some text =>
    have h := (Collect.scan_eq (Csv.dictRows text) (.start start stop) rfl).1
    have h' := (Collect.scan_eq (Csv.dictRows text) (.start none none) rfl).1
    exact h.trans h'.symm

/-! ## The worst stretch -/

namespace Collect

theorem sortedTimes_pairwise (times : List Int) : (sortedTimes times).Pairwise (· < ·) := by
  have hle : (sortedTimes times).Pairwise (· ≤ ·) := List.pairwise_insertionSort _ _
  have hne : (sortedTimes times).Nodup :=
    (List.perm_insertionSort _ _).nodup_iff.mpr (List.nodup_dedup times)
  exact (hle.and hne).imp fun h => lt_of_le_of_ne h.1 h.2

@[simp]
theorem mem_sortedTimes {times : List Int} {t : Int} : t ∈ sortedTimes times ↔ t ∈ times := by
  rw [sortedTimes, List.mem_insertionSort, List.mem_dedup]

theorem bounds_of_sorted {ordered : List Int} (h : ordered.Pairwise (· < ·)) (hne : ordered ≠ []) :
    (bounds ordered).1 ∈ ordered ∧ (bounds ordered).2 ∈ ordered ∧
      (∀ t ∈ ordered, (bounds ordered).1 ≤ t) ∧ ∀ t ∈ ordered, t ≤ (bounds ordered).2 := by
  cases ordered with
  | nil => exact absurd rfl hne
  | cons x xs =>
    have hlast : (bounds (x :: xs)).2 = (x :: xs).getLast hne := by
      show (x :: xs).getLastD 0 = _
      rw [List.getLastD_eq_getLast?, List.getLast?_eq_some_getLast hne]
      rfl
    rw [hlast]
    refine ⟨List.mem_cons_self, List.getLast_mem hne, ?_, ?_⟩
    · intro t ht
      rcases List.mem_cons.mp ht with rfl | ht
      · exact le_refl t
      · exact (List.rel_of_pairwise_cons h ht).le
    · intro t ht
      exact (h.imp fun h => h.le).rel_getLast ht

theorem lt_maxGap_iff {limit : Int} (hlimit : 0 ≤ limit) (ordered : List Int) :
    limit < maxGap ordered ↔ ∃ p ∈ ordered.zip ordered.tail, limit < p.2 - p.1 := by
  unfold maxGap
  cases hmax : ((ordered.zip ordered.tail).map fun p => p.2 - p.1).max? with
  | none =>
    rw [List.max?_eq_none_iff, List.map_eq_nil_iff] at hmax
    rw [hmax]
    exact iff_of_false (not_lt.mpr hlimit) (by simp)
  | some m =>
    obtain ⟨hmem, hle⟩ := List.max?_eq_some_iff.mp hmax
    obtain ⟨q, hq, hqm⟩ := List.mem_map.mp hmem
    constructor
    · intro h
      exact ⟨q, hq, hqm ▸ h⟩
    · rintro ⟨p, hp, hlt⟩
      exact lt_of_lt_of_le hlt (hle _ (List.mem_map_of_mem hp))

end Collect

namespace MonitoringEvidence

theorem lt_foldl_worse_iff (e : MonitoringEvidence) (durationSec limit : Int)
    (ws : List (Txt × Int × Int)) : ∀ worst : Int × Option Txt,
      limit < (ws.foldl (e.worse durationSec) worst).1 ↔
        limit < worst.1 ∨ ∃ w ∈ ws, limit < e.blind durationSec w.1 w.2.1 w.2.2 := by
  induction ws with
  | nil => simp
  | cons w ws ih =>
    intro worst
    have hstep : limit < (e.worse durationSec worst w).1 ↔
        limit < worst.1 ∨ limit < e.blind durationSec w.1 w.2.1 w.2.2 := by
      simp only [worse]
      split_ifs <;> omega
    rw [List.foldl_cons, ih, hstep, List.exists_mem_cons_iff, or_assoc]

theorem lt_worstCoverage_iff (e : MonitoringEvidence) (durationSec : Int) {limit : Int}
    (hlimit : 0 ≤ limit) (hgap : e.gpuWindows = [] → e.maxSampleGapSec = 0) :
    limit < (e.worstCoverage durationSec).1 ↔
      ∃ w ∈ e.gpuWindows, limit < e.blind durationSec w.1 w.2.1 w.2.2 := by
  unfold worstCoverage
  by_cases hnil : e.gpuWindows = []
  · rw [if_pos hnil, hgap hnil, hnil]
    exact iff_of_false (not_lt.mpr hlimit) (by simp)
  · rw [if_neg hnil]
    simp only [lt_max_iff, lt_foldl_worse_iff, List.mem_insertionSort]
    constructor
    · rintro (h | h | h)
      · omega
      · omega
      · exact h
    · exact fun h => .inr (.inr h)

end MonitoringEvidence

/-- The times of a GPU's samples. -/
def gpuTimes (samples : List Sample) (gpu : Txt) : List Int :=
  (samples.filter fun x => x.gpu = gpu).map Sample.timestamp

theorem mem_gpuTimes {samples : List Sample} {gpu : Txt} {t : Int} :
    t ∈ gpuTimes samples gpu ↔ ∃ x ∈ samples, x.gpu = gpu ∧ x.timestamp = t := by
  simp only [gpuTimes, List.mem_map, List.mem_filter, decide_eq_true_eq, and_assoc]

/-- More than `limit` seconds lie between two times. -/
def Longer (limit a b : Int) : Prop := limit < b - a

theorem widening_longer {limit : Int} (hlimit : 0 ≤ limit) : Widening (Longer limit) where
  proper := fun {a b} h => by
    unfold Longer at h
    omega
  mono := fun {a a' b b'} ha hb h => by
    unfold Longer at *
    omega

namespace Collect

variable {s : Collect} {start stop : Int}

theorem mem_gpus {gpu : Txt} : gpu ∈ s.gpus ↔ ∃ x ∈ s.samples, x.gpu = gpu := by
  simp only [gpus, List.mem_insertionSort, List.mem_dedup, List.mem_map]

theorem lookup_map (gpus : List Txt) (f : Txt → Int × Int) {gpu : Txt} (h : gpu ∈ gpus) :
    (gpus.map fun g => (g, f g)).lookup gpu = some (f gpu) := by
  induction gpus with
  | nil => cases h
  | cons g gs ih =>
    rw [List.map_cons, List.lookup_cons]
    by_cases hg : gpu = g
    · rw [hg, beq_self_eq_true]
    · rw [beq_eq_false_iff_ne.mpr hg]
      exact ih ((List.mem_cons.mp h).resolve_left hg)

/-- The stretch of one GPU that counts, and the longest between two samples. -/
theorem blind_finish (h : s.Booked (some start) (some stop)) {gpu : Txt} (hgpu : gpu ∈ s.gpus)
    (durationSec span gap : Int) :
    s.finish.blind durationSec gpu span gap =
      max (max (max 0 ((bounds (s.timesOf gpu)).1 - start))
        (max 0 (stop - (bounds (s.timesOf gpu)).2))) gap := by
  have hlookup : s.finish.gpuSampleBounds.lookup gpu = some (bounds (s.timesOf gpu)) :=
    lookup_map s.gpus (fun g => bounds (s.timesOf g)) hgpu
  have hstart : s.finish.coverageStartTimestamp = some start := h.start
  have hstop : s.finish.coverageEndTimestamp = some stop := h.stop
  rw [MonitoringEvidence.blind, hlookup, hstart, hstop]

/-- The worst coverage is over a limit when one GPU's first sample, its last one or a
gap between two is. -/
theorem lt_worst_finish_iff (h : s.Booked (some start) (some stop)) (durationSec : Int)
    {limit : Int} (hlimit : 0 ≤ limit) :
    limit < (s.finish.worstCoverage durationSec).1 ↔
      ∃ gpu ∈ s.gpus, Longer limit start (bounds (s.timesOf gpu)).1 ∨
        Longer limit (bounds (s.timesOf gpu)).2 stop ∨
        ∃ p ∈ (s.timesOf gpu).zip (s.timesOf gpu).tail, Longer limit p.1 p.2 := by
  have hgap : s.finish.gpuWindows = [] → s.finish.maxSampleGapSec = 0 := by
    intro hnil
    have hgpus : s.gpus = [] := List.map_eq_nil_iff.mp hnil
    show ((s.gpus.map fun gpu => maxGap (s.timesOf gpu)).foldl max 0) = 0
    rw [hgpus]
    rfl
  rw [MonitoringEvidence.lt_worstCoverage_iff _ _ hlimit hgap]
  have hwindows : s.finish.gpuWindows = s.gpus.map fun gpu =>
      (gpu, (bounds (s.timesOf gpu)).2 - (bounds (s.timesOf gpu)).1, maxGap (s.timesOf gpu)) := rfl
  simp only [hwindows, List.mem_map, exists_exists_and_eq_and]
  refine exists_congr fun gpu => and_congr_right fun hgpu => ?_
  rw [blind_finish h hgpu, lt_max_iff, lt_max_iff, lt_max_iff, lt_max_iff, lt_maxGap_iff hlimit,
    or_assoc]
  unfold Longer
  constructor
  · rintro ((h0 | hlead) | (h0 | htrail) | hpair)
    · omega
    · exact .inl hlead
    · omega
    · exact .inr (.inl htrail)
    · exact .inr (.inr hpair)
  · rintro (hlead | htrail | hpair)
    · exact .inl (.inr hlead)
    · exact .inr (.inl (.inr htrail))
    · exact .inr (.inr hpair)

end Collect

/-- All samples lie in the window. -/
def Within (samples : List Sample) (start stop : Int) : Prop :=
  ∀ x ∈ samples, start ≤ x.timestamp ∧ x.timestamp ≤ stop

/-- Some sampled GPU has a stretch of the window that is longer than `limit`. -/
def SomeUncovered (samples : List Sample) (limit start stop : Int) : Prop :=
  ∃ x ∈ samples, Uncovered (Longer limit) (gpuTimes samples x.gpu) start stop

namespace Collect

variable {s : Collect} {start stop : Int}

theorem timesOf_pairwise (s : Collect) (gpu : Txt) : (s.timesOf gpu).Pairwise (· < ·) :=
  sortedTimes_pairwise _

theorem mem_timesOf {gpu : Txt} {t : Int} : t ∈ s.timesOf gpu ↔ t ∈ gpuTimes s.samples gpu :=
  mem_sortedTimes

theorem bounds_timesOf {gpu : Txt} (hgpu : gpu ∈ s.gpus) :
    (bounds (s.timesOf gpu)).1 ∈ s.timesOf gpu ∧ (bounds (s.timesOf gpu)).2 ∈ s.timesOf gpu ∧
      (∀ t ∈ s.timesOf gpu, (bounds (s.timesOf gpu)).1 ≤ t) ∧
      ∀ t ∈ s.timesOf gpu, t ≤ (bounds (s.timesOf gpu)).2 := by
  obtain ⟨x, hx, hxgpu⟩ := mem_gpus.mp hgpu
  have hmem : x.timestamp ∈ s.timesOf gpu :=
    mem_timesOf.mpr (mem_gpuTimes.mpr ⟨x, hx, hxgpu, rfl⟩)
  exact bounds_of_sorted (s.timesOf_pairwise gpu) (List.ne_nil_of_mem hmem)

/-- With the samples in the window, the worst coverage is the longest stretch. -/
theorem lt_worst_within (h : s.Booked (some start) (some stop)) (durationSec : Int) {limit : Int}
    (hlimit : 0 ≤ limit) (hin : Within s.samples start stop) :
    limit < (s.finish.worstCoverage durationSec).1 ↔
      SomeUncovered s.samples limit start stop := by
  have hgpu {gpu : Txt} (hmem : gpu ∈ s.gpus) :
      Uncovered (Longer limit) (gpuTimes s.samples gpu) start stop ↔
        Longer limit start (bounds (s.timesOf gpu)).1 ∨
          Longer limit (bounds (s.timesOf gpu)).2 stop ∨
          ∃ p ∈ (s.timesOf gpu).zip (s.timesOf gpu).tail, Longer limit p.1 p.2 := by
    obtain ⟨hfirst, hlast, hmin, hmax⟩ := bounds_timesOf hmem
    rw [← uncovered_congr fun t => mem_timesOf, uncovered_iff (widening_longer hlimit)
      (s.timesOf_pairwise gpu) hfirst hlast hmin hmax]
    intro t ht
    obtain ⟨x, hx, -, rfl⟩ := mem_gpuTimes.mp (mem_timesOf.mp ht)
    exact hin x hx
  rw [lt_worst_finish_iff h durationSec hlimit]
  constructor
  · rintro ⟨gpu, hmem, hlong⟩
    obtain ⟨x, hx, rfl⟩ := mem_gpus.mp hmem
    exact ⟨x, hx, (hgpu hmem).mpr hlong⟩
  · rintro ⟨x, hx, hlong⟩
    have hmem : x.gpu ∈ s.gpus := mem_gpus.mpr ⟨x, hx, rfl⟩
    exact ⟨x.gpu, hmem, (hgpu hmem).mp hlong⟩

/-- When every sample is long before the end, so is the last one of each GPU. -/
theorem lt_worst_of_trailing (h : s.Booked (some start) (some stop)) (durationSec : Int)
    {limit : Int} (hlimit : 0 ≤ limit) {x : Sample} (hx : x ∈ s.samples)
    (hlate : ∀ y ∈ s.samples, limit < stop - y.timestamp) :
    limit < (s.finish.worstCoverage durationSec).1 := by
  have hmem : x.gpu ∈ s.gpus := mem_gpus.mpr ⟨x, hx, rfl⟩
  rw [lt_worst_finish_iff h durationSec hlimit]
  refine ⟨x.gpu, hmem, .inr (.inl ?_)⟩
  obtain ⟨y, hy, -, hyt⟩ := mem_gpuTimes.mp (mem_timesOf.mp (bounds_timesOf hmem).2.1)
  rw [← hyt]
  exact hlate y hy

/-- The first time of the file is the earliest of all samples. -/
theorem firstTimestamp_spec (s : Collect) :
    (s.finish.firstTimestamp = none ∧ s.samples = []) ∨
      ∃ x ∈ s.samples, s.finish.firstTimestamp = some x.timestamp ∧
        ∀ y ∈ s.samples, x.timestamp ≤ y.timestamp := by
  have hfirst : s.finish.firstTimestamp =
      (sortedTimes (s.samples.map Sample.timestamp)).head? := rfl
  have hsorted := sortedTimes_pairwise (s.samples.map Sample.timestamp)
  have hmem (t : Int) : t ∈ sortedTimes (s.samples.map Sample.timestamp) ↔
      t ∈ s.samples.map Sample.timestamp := mem_sortedTimes
  rw [hfirst]
  cases hevery : sortedTimes (s.samples.map Sample.timestamp) with
  | nil =>
    rw [hevery] at hmem
    refine .inl ⟨rfl, List.eq_nil_iff_forall_not_mem.mpr fun x hx => ?_⟩
    exact List.not_mem_nil ((hmem _).mpr (List.mem_map_of_mem hx))
  | cons t ts =>
    rw [hevery] at hmem hsorted
    obtain ⟨x, hx, hxt⟩ := List.mem_map.mp ((hmem t).mp List.mem_cons_self)
    refine .inr ⟨x, hx, congrArg some hxt.symm, fun y hy => ?_⟩
    rw [hxt]
    rcases List.mem_cons.mp ((hmem _).mpr (List.mem_map_of_mem hy)) with hyt | hyts
    · exact hyt.ge
    · exact (List.rel_of_pairwise_cons hsorted hyts).le

end Collect

/-! ## The decision -/

theorem telemetryBudgetSec_nonneg (durationSec : Int) : 0 ≤ telemetryBudgetSec durationSec := by
  unfold telemetryBudgetSec maxTelemetryGapSec
  split_ifs <;> omega

namespace Run

/-- The condition of the gate. -/
def CoverageRejects (r : Run) : Prop :=
  0 < r.monitoring.sampleCount ∧
    telemetryBudgetSec r.duration < (r.monitoring.worstCoverage r.duration).1

/-- The evidence on the run's own clock. -/
def unaligned (r : Run) : MonitoringEvidence :=
  collectMonitoringEvidence r.csv (some r.coverageStart) (some (r.coverageStart + r.duration))

theorem budget_lt_unaligned_iff {r : Run}
    (hin : Within (samplesOf r.csv) r.coverageStart (r.coverageStart + r.duration)) :
    telemetryBudgetSec r.duration < (r.unaligned.worstCoverage r.duration).1 ↔
      SomeUncovered (samplesOf r.csv) (telemetryBudgetSec r.duration) r.coverageStart
        (r.coverageStart + r.duration) := by
  rw [← collectRows_samples r.csv (some r.coverageStart) (some (r.coverageStart + r.duration))]
    at hin ⊢
  exact Collect.lt_worst_within (Collect.booked_collectRows r.csv _ _) r.duration
    (telemetryBudgetSec_nonneg _) hin

/-- Either the window is the run's own, or the clock of the file is used, and then
the first sample is too late on the run's. -/
theorem monitoring_cases {r : Run}
    (hin : Within (samplesOf r.csv) r.coverageStart (r.coverageStart + r.duration)) :
    r.monitoring = r.unaligned ∨ ∃ x ∈ samplesOf r.csv,
      telemetryBudgetSec r.duration < x.timestamp - r.coverageStart ∧
        (∀ y ∈ samplesOf r.csv, x.timestamp ≤ y.timestamp) ∧
        r.monitoring = collectMonitoringEvidence r.csv (some x.timestamp)
          (some (x.timestamp + r.duration)) := by
  rcases (collectRows r.csv none none).firstTimestamp_spec with ⟨hnone, -⟩ | ⟨x, hx, hfirst, hmin⟩
  · have hprelim : (collectMonitoringEvidence r.csv none none).firstTimestamp = none := hnone
    simp only [monitoring, alignCoverageToCsvClock, hprelim]
    exact .inl rfl
  · have hprelim : (collectMonitoringEvidence r.csv none none).firstTimestamp =
        some x.timestamp := hfirst
    have hstart := (hin x hx).1
    simp only [monitoring, alignCoverageToCsvClock, hprelim]
    by_cases hskew : |r.coverageStart - x.timestamp| ≤ telemetryBudgetSec r.duration
    · simp only [if_pos hskew]
      exact .inl rfl
    · simp only [if_neg hskew]
      rw [abs_of_nonpos (by omega)] at hskew
      exact .inr ⟨x, hx, by omega, hmin, rfl⟩

/-- A first sample that is too late shows on either clock: before it on the run's, at
the end on that of the file. -/
theorem budget_lt_monitoring_iff {r : Run}
    (hin : Within (samplesOf r.csv) r.coverageStart (r.coverageStart + r.duration)) :
    telemetryBudgetSec r.duration < (r.monitoring.worstCoverage r.duration).1 ↔
      SomeUncovered (samplesOf r.csv) (telemetryBudgetSec r.duration) r.coverageStart
        (r.coverageStart + r.duration) := by
  rcases monitoring_cases hin with heq | ⟨x, hx, hlate, hmin, heq⟩
  · rw [heq]
    exact budget_lt_unaligned_iff hin
  · refine iff_of_true ?_ ?_
    · rw [heq]
      have hsamples := collectRows_samples r.csv (some x.timestamp)
        (some (x.timestamp + r.duration))
      refine Collect.lt_worst_of_trailing (Collect.booked_collectRows r.csv _ _) r.duration
        (telemetryBudgetSec_nonneg _) (hsamples.symm ▸ hx) fun y hy => ?_
      have hend := (hin y (hsamples ▸ hy)).2
      omega
    · refine ⟨x, hx, r.coverageStart, x.timestamp, .inl rfl,
        .inr (mem_gpuTimes.mpr ⟨x, hx, rfl, rfl⟩), hlate, fun t ht => ?_⟩
      obtain ⟨y, hy, -, rfl⟩ := mem_gpuTimes.mp ht
      exact .inr (hmin y hy)

theorem sampleCount_pos {r : Run} {x : Sample} (hx : x ∈ samplesOf r.csv) :
    0 < r.monitoring.sampleCount := by
  have hwindow (start stop : Option Int) :
      0 < (collectMonitoringEvidence r.csv start stop).sampleCount := by
    have hcount : (collectMonitoringEvidence r.csv start stop).sampleCount =
        (collectRows r.csv start stop).samples.length :=
      (Collect.booked_collectRows r.csv start stop).count
    rw [hcount, collectRows_samples]
    exact List.length_pos_of_mem hx
  exact hwindow _ _

/-- When the samples are on the run's clock, a run is rejected for its coverage exactly
when a sampled GPU has too long a stretch without a sample, with the clock of the file
or without, and a rejected run does not pass the gates. -/
theorem coverageRejects_iff (alnum printable : Char → Bool) (vs : Validators) (r : Run)
    (hin : Within (samplesOf r.csv) r.coverageStart (r.coverageStart + r.duration)) :
    (r.CoverageRejects ↔ SomeUncovered (samplesOf r.csv) (telemetryBudgetSec r.duration)
      r.coverageStart (r.coverageStart + r.duration)) ∧
      (telemetryBudgetSec r.duration < (r.unaligned.worstCoverage r.duration).1 →
        r.CoverageRejects) ∧
      (r.CoverageRejects → ¬ (r.gated alnum printable vs).Passing) := by
  have hrejects : r.CoverageRejects ↔ SomeUncovered (samplesOf r.csv)
      (telemetryBudgetSec r.duration) r.coverageStart (r.coverageStart + r.duration) := by
    rw [← budget_lt_monitoring_iff hin]
    refine ⟨fun h => h.2, fun h => ⟨?_, h⟩⟩
    obtain ⟨x, hx, -⟩ := (budget_lt_monitoring_iff hin).mp h
    exact sampleCount_pos hx
  refine ⟨hrejects, fun h => hrejects.mpr ((budget_lt_unaligned_iff hin).mp h), fun h hpass => ?_⟩
  obtain ⟨-, -, hcovered, -⟩ := gated_passing hpass
  exact not_lt.mpr hcovered h.2

/-- A run of 200 seconds whose monitor starts after 70. -/
def lateMonitor : Run :=
  { healthy with
    duration := 200
    csv := some ("timestamp,gpu,power_usage,hotspot_temperature,gfx\n170,0,250,60,90\n" ++
      "220,0,251,61,95\n270,0,251,62,95\n300,0,251,62,95\n").toList }

theorem within_lateMonitor : Within (samplesOf lateMonitor.csv) 100 300 := by
  unfold Within
  decide +kernel

theorem coverageRejects_lateMonitor : lateMonitor.CoverageRejects :=
  (coverageRejects_iff Char.isAlpha Char.isAlpha noValidators lateMonitor
    within_lateMonitor).2.1 (by decide +kernel)

end Run

end Monitored
end RocmTests

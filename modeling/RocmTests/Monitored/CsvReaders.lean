import RocmTests.Monitored.Evidence

/-!
# The two readers of `power_temp.csv`

The verdict reads the telemetry through `collect_monitoring_evidence`, the
published statistics through `load_csv_with_stats` and `group_by_gpu`.  Both skip
what the CSV reader cannot decode in the same way.  They book a decoded row
differently: the analysis has a default for a column that is missing, and it
keeps the GPU as it is written.
-/

namespace RocmTests
namespace Monitored

open Text
open Text.Csv (Row)
open Markers (strip)

/-! ## The rows of the analysis -/

/-- `_sf`. -/
def sf (v : Option Txt) (default : ℚ) : ℚ :=
  let s := strip (str v)
  if s = [] ∨ s.map Char.toUpper ∈ ["N/A".toList, "NA".toList, "NAN".toList] then default
  else
    match PyFloat.parse s with
    | some (.finite fv) => fv
    | _ => default

/-- `r.get(name)`: an absent column and an absent cell are both `None`. -/
def cell (r : Row) (name : Txt) : Option Txt := (r.get name).join

/-- A row of the analysis, with the row of the file it comes from. -/
structure AnalysisRow where
  source : Row
  t : Int
  gpu : Txt
  power : ℚ
  maxPower : ℚ
  hotspotTemp : ℚ
  memTemp : ℚ
  gfxClk : ℚ
  gfxUtil : ℚ
  memUtil : ℚ
  memClk : ℚ
  vramUsed : ℚ
  vramTotal : ℚ
  vramPct : ℚ
deriving DecidableEq

/-- `int(r.get(TIMESTAMP, "0"))`; `int(None)` is a `TypeError`. -/
def analysisTime (r : Row) : Option Int :=
  match getOr r CsvSchema.timestamp ['0'] with
  | some t => parseInt t
  | none => none

def analysisVramPct (r : Row) (vramUsed vramTotal : ℚ) : ℚ :=
  let text := strip (cellOr r CsvSchema.vramPct [])
  if text ≠ [] ∧ text ≠ "N/A".toList then sf (cell r CsvSchema.vramPct) 0
  else if 0 < vramTotal then vramUsed / vramTotal * 100
  else 0

def analysisRow (r : Row) (t : Int) : AnalysisRow :=
  let vramUsed := sf (cell r CsvSchema.vramUsed) 0
  let vramTotal := sf (cell r CsvSchema.vramTotal) 0
  { source := r
    t := t
    gpu := cellOr r CsvSchema.gpu ['0']
    power := sf (cell r CsvSchema.powerUsage) 0
    maxPower := sf (cell r CsvSchema.maxPower) 1000
    hotspotTemp := sf (cell r CsvSchema.hotspotTemp) 0
    memTemp := sf (cell r CsvSchema.memTemp) 0
    gfxClk := sf (cell r CsvSchema.gfxClk) 0
    gfxUtil := sf (cell r CsvSchema.gfxUtil) 0
    memUtil := sf (cell r CsvSchema.memUtil) 0
    memClk := sf (cell r CsvSchema.memClk) 0
    vramUsed := vramUsed
    vramTotal := vramTotal
    vramPct := analysisVramPct r vramUsed vramTotal }

structure LoadStats where
  undecodableRows : Nat := 0
  scanAborted : Bool := false
deriving DecidableEq

/-- The loop of `load_csv_with_stats`. -/
def loadScan (rows : List AnalysisRow) (undecodable : Nat) :
    List (Option Row) → List AnalysisRow × LoadStats
  | [] => (rows, { undecodableRows := undecodable, scanAborted := undecodable > maxCorruptRows })
  | outcome :: rest =>
    if undecodable > maxCorruptRows then
      (rows, { undecodableRows := undecodable, scanAborted := true })
    else
      match outcome with
      | none => loadScan rows (undecodable + 1) rest
      | some r =>
        match analysisTime r with
        | none => loadScan rows undecodable rest
        | some t => loadScan (rows ++ [analysisRow r t]) undecodable rest

def loadCsvWithStats (csv : Option Txt) : List AnalysisRow × LoadStats :=
  match csv with
  | none => ([], {})
  | some text => loadScan [] 0 (Csv.dictRows text)

/-- `group_by_gpu`; a GPU that is no key has no rows. -/
def groupByGpu (rows : List AnalysisRow) (gpu : Txt) : List AnalysisRow :=
  rows.filter fun r => r.gpu = gpu

/-! ## What a scan reads -/

/-- The rows read before the scan gives up. -/
def readRows (undecodable : Nat) : List (Option Row) → List Row
  | [] => []
  | outcome :: rest =>
    if undecodable > maxCorruptRows then []
    else
      match outcome with
      | none => readRows (undecodable + 1) rest
      | some r => r :: readRows undecodable rest

/-- How many rows could not be decoded until then. -/
def undecodableCount (undecodable : Nat) : List (Option Row) → Nat
  | [] => undecodable
  | outcome :: rest =>
    if undecodable > maxCorruptRows then undecodable
    else
      match outcome with
      | none => undecodableCount (undecodable + 1) rest
      | some _ => undecodableCount undecodable rest

theorem loadScan_eq (outcomes : List (Option Row)) (rows : List AnalysisRow) (undecodable : Nat) :
    loadScan rows undecodable outcomes =
      (rows ++ (readRows undecodable outcomes).filterMap
          (fun r => (analysisTime r).map (analysisRow r)),
        { undecodableRows := undecodableCount undecodable outcomes
          scanAborted := undecodableCount undecodable outcomes > maxCorruptRows }) := by
  induction outcomes generalizing rows undecodable with
  | nil => simp [loadScan, readRows, undecodableCount]
  | cons outcome rest ih =>
    by_cases hstop : undecodable > maxCorruptRows
    · simp [loadScan, readRows, undecodableCount, hstop]
    · cases outcome with
      | none => simp only [loadScan, readRows, undecodableCount, if_neg hstop, ih]
      | some r =>
        simp only [loadScan, readRows, undecodableCount, if_neg hstop]
        cases ht : analysisTime r with
        | none => simp [ht, ih]
        | some t => simp [ht, ih]

/-- The sample that the collector makes of a row. -/
def sampleOf (row : Row) : Option Sample :=
  match parseInt (strip (str (getOr row CsvSchema.timestamp []))) with
  | none => none
  | some ts =>
    let gpu := strip (cellOr row CsvSchema.gpu [])
    if gpu = [] then none
    else if hasFiniteTelemetry row then some { row := row, gpu := gpu, timestamp := ts }
    else none

namespace Collect

theorem addSensors_undecodable (s : Collect) (row : Row) (gpu : Txt) :
    (s.addSensors row gpu).evidence.undecodableRows = s.evidence.undecodableRows ∧
      (s.addSensors row gpu).evidence.scanAborted = s.evidence.scanAborted := by
  simp only [addSensors, modify]
  cases finiteField row CsvSchema.gfxUtil with
  | none =>
    constructor <;> split_ifs <;> rfl
  | some u =>
    by_cases hu : 0 < u
    · simp only [if_pos hu]
      constructor <;> split_ifs <;> rfl
    · simp only [if_neg hu]
      constructor <;> split_ifs <;> rfl

theorem addSample_undecodable (s : Collect) (row : Row) (gpu : Txt) (ts : Int) :
    (s.addSample row gpu ts).evidence.undecodableRows = s.evidence.undecodableRows ∧
      (s.addSample row gpu ts).evidence.scanAborted = s.evidence.scanAborted := by
  unfold addSample
  split_ifs <;> exact ⟨rfl, rfl⟩

/-- A decoded row leaves the scan's own counters alone. -/
theorem addRow_undecodable (s : Collect) (row : Row) :
    (s.addRow row).evidence.undecodableRows = s.evidence.undecodableRows ∧
      (s.addRow row).evidence.scanAborted = s.evidence.scanAborted := by
  unfold addRow
  cases parseInt (strip (str (getOr row CsvSchema.timestamp []))) with
  | none => exact ⟨rfl, rfl⟩
  | some ts =>
    by_cases hgpu : strip (cellOr row CsvSchema.gpu []) = []
    · simp only [if_pos hgpu]
      exact ⟨rfl, rfl⟩
    · simp only [if_neg hgpu]
      have hsensors := addSensors_undecodable
        (s.addSample row (strip (cellOr row CsvSchema.gpu [])) ts) row
        (strip (cellOr row CsvSchema.gpu []))
      have hsample := addSample_undecodable s row (strip (cellOr row CsvSchema.gpu [])) ts
      exact ⟨hsensors.1.trans hsample.1, hsensors.2.trans hsample.2⟩

theorem addSensors_samples (s : Collect) (row : Row) (gpu : Txt) :
    (s.addSensors row gpu).samples = s.samples := rfl

theorem addRow_samples (s : Collect) (row : Row) :
    (s.addRow row).samples = s.samples ++ (sampleOf row).toList := by
  unfold addRow sampleOf
  cases parseInt (strip (str (getOr row CsvSchema.timestamp []))) with
  | none => exact (List.append_nil _).symm
  | some ts =>
    by_cases hgpu : strip (cellOr row CsvSchema.gpu []) = []
    · simp only [if_pos hgpu]
      exact (List.append_nil _).symm
    · simp only [if_neg hgpu]
      rw [addSensors_samples]
      by_cases hfin : hasFiniteTelemetry row = true
      · simp only [addSample, if_pos hfin]
        rfl
      · simp only [addSample, if_neg hfin]
        exact (List.append_nil _).symm

theorem scan_eq (outcomes : List (Option Row)) (s : Collect)
    (hs : s.evidence.scanAborted = false) :
    (s.scan outcomes).samples =
        s.samples ++ (readRows s.evidence.undecodableRows outcomes).filterMap sampleOf ∧
      (s.scan outcomes).evidence.undecodableRows =
        undecodableCount s.evidence.undecodableRows outcomes ∧
      (s.scan outcomes).evidence.scanAborted =
        decide (undecodableCount s.evidence.undecodableRows outcomes > maxCorruptRows) := by
  induction outcomes generalizing s with
  | nil =>
    by_cases hstop : s.evidence.undecodableRows > maxCorruptRows
    · simp [scan, readRows, undecodableCount, modify, hstop]
    · simp [scan, readRows, undecodableCount, hstop, hs]
  | cons outcome rest ih =>
    by_cases hstop : s.evidence.undecodableRows > maxCorruptRows
    · simp [scan, readRows, undecodableCount, modify, hstop]
    · cases outcome with
      | none =>
        simp only [scan, readRows, undecodableCount, if_neg hstop]
        exact ih (s.modify fun e => { e with undecodableRows := e.undecodableRows + 1 }) hs
      | some row =>
        have hrow := addRow_undecodable s row
        obtain ⟨hsamples, hcount, habort⟩ := ih (s.addRow row) (hrow.2.trans hs)
        rw [hrow.1] at hsamples hcount habort
        simp only [scan, readRows, undecodableCount, if_neg hstop]
        refine ⟨?_, hcount, habort⟩
        rw [hsamples, addRow_samples, List.append_assoc]
        congr 1
        cases hrow : sampleOf row with
        | none => rw [List.filterMap_cons_none hrow]; rfl
        | some x => rw [List.filterMap_cons_some hrow]; rfl

end Collect

/-! ## Booking -/

section Booking

variable {α κ τ : Type} [DecidableEq κ]

/-- The rows that `f` books under a key, with the value it books them at. -/
def bookedTo (f : α → Option (κ × τ)) (rows : List α) (k : κ) : List (α × τ) :=
  rows.filterMap fun r => ((f r).filter fun p => p.1 = k).map fun p => (r, p.2)

theorem mem_bookedTo {f : α → Option (κ × τ)} {rows : List α} {k : κ} {r : α} {v : τ} :
    (r, v) ∈ bookedTo f rows k ↔ r ∈ rows ∧ f r = some (k, v) := by
  unfold bookedTo
  rw [List.mem_filterMap]
  constructor
  · rintro ⟨r', hr', hf⟩
    simp only [Option.map_eq_some_iff, Option.filter_eq_some_iff, Prod.mk.injEq,
      decide_eq_true_eq] at hf
    obtain ⟨⟨k', v'⟩, ⟨hf, rfl⟩, rfl, rfl⟩ := hf
    exact ⟨hr', hf⟩
  · rintro ⟨hr, hf⟩
    refine ⟨r, hr, ?_⟩
    simp [hf]

/-- Two bookings give the same rows under every key exactly if they treat every
row alike. -/
theorem bookedTo_eq_iff (f g : α → Option (κ × τ)) (rows : List α) :
    (∀ k, bookedTo f rows k = bookedTo g rows k) ↔ ∀ r ∈ rows, f r = g r := by
  constructor
  · intro h r hr
    apply Option.ext
    rintro ⟨k, v⟩
    constructor
    · intro hf
      exact (mem_bookedTo.mp (h k ▸ mem_bookedTo.mpr ⟨hr, hf⟩)).2
    · intro hg
      exact (mem_bookedTo.mp ((h k).symm ▸ mem_bookedTo.mpr ⟨hr, hg⟩)).2
  · intro h k
    unfold bookedTo
    apply List.filterMap_congr
    intro r hr
    rw [h r hr]

end Booking

/-- Where the analysis books a row that carries telemetry. -/
def analysisBooking (r : Row) : Option (Txt × Int) :=
  if hasFiniteTelemetry r then (analysisTime r).map fun t => (cellOr r CsvSchema.gpu ['0'], t)
  else none

/-- Where the collector books a row. -/
def collectorBooking (r : Row) : Option (Txt × Int) :=
  (sampleOf r).map fun x => (x.gpu, x.timestamp)

/-- The rows with telemetry that the analysis attributes to `gpu`, with their
times. -/
def analysisRowsOf (rows : List AnalysisRow) (gpu : Txt) : List (Row × Int) :=
  ((groupByGpu rows gpu).filter fun r => hasFiniteTelemetry r.source).map fun r => (r.source, r.t)

/-- The rows that the collector attributes to `gpu`, with their times. -/
def Collect.rowsOf (s : Collect) (gpu : Txt) : List (Row × Int) :=
  (s.samples.filter fun x => x.gpu = gpu).map fun x => (x.row, x.timestamp)

theorem analysisRowsOf_eq (rows : List Row) (gpu : Txt) :
    analysisRowsOf (rows.filterMap fun r => (analysisTime r).map (analysisRow r)) gpu =
      bookedTo analysisBooking rows gpu := by
  unfold analysisRowsOf groupByGpu bookedTo
  rw [List.filter_filterMap, List.filter_filterMap, List.map_filterMap]
  apply List.filterMap_congr
  intro r _
  unfold analysisBooking
  cases analysisTime r with
  | none => by_cases hfin : hasFiniteTelemetry r = true <;> simp [hfin]
  | some t =>
    by_cases hgpu : cellOr r CsvSchema.gpu ['0'] = gpu
    · by_cases hfin : hasFiniteTelemetry r = true <;> simp [Option.filter, hgpu, hfin, analysisRow]
    · by_cases hfin : hasFiniteTelemetry r = true <;> simp [Option.filter, hgpu, hfin, analysisRow]

theorem sampleOf_row {r : Row} {x : Sample} (h : sampleOf r = some x) : x.row = r := by
  unfold sampleOf at h
  split at h
  · cases h
  · simp only [] at h
    split_ifs at h
    cases h
    rfl

theorem rowsOf_eq {s : Collect} {rows : List Row} (hs : s.samples = rows.filterMap sampleOf)
    (gpu : Txt) : s.rowsOf gpu = bookedTo collectorBooking rows gpu := by
  unfold Collect.rowsOf bookedTo
  rw [hs, List.filter_filterMap, List.map_filterMap]
  apply List.filterMap_congr
  intro r _
  unfold collectorBooking
  cases hx : sampleOf r with
  | none => rfl
  | some x =>
    have hrow := sampleOf_row hx
    by_cases hgpu : x.gpu = gpu <;> simp [Option.filter, hgpu, hrow]

/-! ## Agreement -/

/-- The columns that name a row are there and need no repair: the timestamp has a
column, and if it is a number the GPU is a text without surrounding space. -/
def PlainKeys (r : Row) : Prop :=
  match r.get CsvSchema.timestamp with
  | none => False
  | some none => True
  | some (some t) =>
    parseInt t = none ∨ ∃ g, r.get CsvSchema.gpu = some (some g) ∧ g ≠ [] ∧ strip g = g

theorem str_none_no_time : parseInt (strip (str none)) = none := by decide +kernel

theorem gpu_alike_iff (r : Row) :
    (strip (cellOr r CsvSchema.gpu []) ≠ [] ∧
        cellOr r CsvSchema.gpu ['0'] = strip (cellOr r CsvSchema.gpu [])) ↔
      ∃ g, r.get CsvSchema.gpu = some (some g) ∧ g ≠ [] ∧ strip g = g := by
  unfold cellOr
  constructor
  · rintro ⟨hne, heq⟩
    split at hne
    next c cs hc =>
      rw [hc] at heq
      exact ⟨c :: cs, hc, List.cons_ne_nil c cs, heq.symm⟩
    next => exact absurd rfl hne
  · rintro ⟨g, hg, hne, hstrip⟩
    rw [hg]
    cases g with
    | nil => exact absurd rfl hne
    | cons c cs =>
      simp only [hstrip]
      exact ⟨List.cons_ne_nil c cs, trivial⟩

/-- The two readers book a row with telemetry alike exactly if its keys are plain. -/
theorem booking_eq_iff {r : Row} (hfin : hasFiniteTelemetry r = true) :
    analysisBooking r = collectorBooking r ↔ PlainKeys r := by
  unfold analysisBooking collectorBooking sampleOf analysisTime PlainKeys getOr
  rw [if_pos hfin]
  cases hts : r.get CsvSchema.timestamp with
  | none =>
    have hzero : parseInt ['0'] = some 0 := by decide +kernel
    have hblank : parseInt (strip (str (some []))) = none := by decide +kernel
    simp [hzero, hblank]
  | some cell =>
    cases cell with
    | none => simp [str_none_no_time]
    | some t =>
      simp only [Option.getD_some, str, parseInt_strip]
      cases ht : parseInt t with
      | none => simp
      | some n =>
        rw [← gpu_alike_iff]
        by_cases hgpu : strip (cellOr r CsvSchema.gpu []) = []
        · simp [hgpu]
        · simp [hgpu, hfin]

/-- The analysis and the collector agree on a file: the same rows with telemetry
under every GPU, at the same times, and the same account of what was not read. -/
def ReadersAgree (text : Txt) (coverageStart coverageEnd : Option Int) : Prop :=
  let loaded := loadCsvWithStats (some text)
  (∀ gpu, analysisRowsOf loaded.1 gpu =
      (collectRows (some text) coverageStart coverageEnd).rowsOf gpu) ∧
    loaded.2.undecodableRows =
      (collectMonitoringEvidence (some text) coverageStart coverageEnd).undecodableRows ∧
    loaded.2.scanAborted =
      (collectMonitoringEvidence (some text) coverageStart coverageEnd).scanAborted

theorem booking_agree_iff (r : Row) :
    analysisBooking r = collectorBooking r ↔ (hasFiniteTelemetry r = true → PlainKeys r) := by
  by_cases hfin : hasFiniteTelemetry r = true
  · rw [booking_eq_iff hfin]
    exact ⟨fun h _ => h, fun h => h hfin⟩
  · have hsample : sampleOf r = none := by
      unfold sampleOf
      split
      · rfl
      · simp [hfin]
    simp [analysisBooking, collectorBooking, hfin, hsample]

theorem readersAgree_iff_plainKeys (text : Txt) (coverageStart coverageEnd : Option Int) :
    ReadersAgree text coverageStart coverageEnd ↔
      ∀ r ∈ readRows 0 (Csv.dictRows text), hasFiniteTelemetry r = true → PlainKeys r := by
  have hload := loadScan_eq (Csv.dictRows text) [] 0
  obtain ⟨hsamples, hcount, habort⟩ :=
    Collect.scan_eq (Csv.dictRows text) (Collect.start coverageStart coverageEnd) rfl
  have hrows : (∀ gpu, analysisRowsOf (loadCsvWithStats (some text)).1 gpu =
      (collectRows (some text) coverageStart coverageEnd).rowsOf gpu) ↔
      ∀ r ∈ readRows 0 (Csv.dictRows text), hasFiniteTelemetry r = true → PlainKeys r := by
    have hcollect := rowsOf_eq (s := collectRows (some text) coverageStart coverageEnd) hsamples
    have hanalysis : ∀ gpu, analysisRowsOf (loadCsvWithStats (some text)).1 gpu =
        bookedTo analysisBooking (readRows 0 (Csv.dictRows text)) gpu := by
      intro gpu
      rw [← analysisRowsOf_eq]
      exact congrArg (fun p => analysisRowsOf p.1 gpu) hload
    simp only [hcollect, hanalysis]
    rw [show (Collect.start coverageStart coverageEnd).evidence.undecodableRows = 0 from rfl,
      bookedTo_eq_iff]
    simp only [booking_agree_iff]
  rw [← hrows]
  -- the two accounts of what was not read are equal on every file
  refine ⟨fun h => h.1, fun h => ⟨h, ?_, ?_⟩⟩
  · exact (congrArg (fun p => p.2.undecodableRows) hload).trans hcount.symm
  · exact (congrArg (fun p => p.2.scanAborted) hload).trans habort.symm

/-- Without a timestamp column the analysis books every row at time 0, and the
collector books none. -/
theorem readers_disagree_without_timestamp :
    ¬ ReadersAgree "gpu,power_usage\n0,250\n".toList none none := by
  intro h
  have hzero := h.1 ['0']
  revert hzero
  decide +kernel

-- the same happens to a blank GPU, which the analysis calls GPU 0
example : ¬ ReadersAgree "timestamp,gpu,power_usage\n100,,250\n".toList none none := by
  intro h
  have hzero := h.1 ['0']
  revert hzero
  decide +kernel

end Monitored
end RocmTests

import Mathlib.Data.Finset.Insert
import Mathlib.Data.List.Dedup
import Mathlib.Data.List.Sort
import RocmTests.Text.Csv
import RocmTests.Text.Numeral

/-!
# Telemetry evidence

`collect_monitoring_evidence` reads `power_temp.csv` and keeps what the verdict
needs: how many samples there are, which GPUs they are of, which sensors were
read, and when.  A row that cannot be decoded is counted and passed over, and
after more than a hundred of them the rest of the file is not read.
-/

namespace RocmTests
namespace Monitored

open Text
open Text.Csv (Row)
open Markers (strip)

/-! ## Columns -/

namespace CsvSchema

def timestamp : Txt := "timestamp".toList
def gpu : Txt := "gpu".toList
def powerUsage : Txt := "power_usage".toList
def maxPower : Txt := "max_power".toList
def hotspotTemp : Txt := "hotspot_temperature".toList
def memTemp : Txt := "memory_temperature".toList
def gfxClk : Txt := "gfx_clk".toList
def gfxUtil : Txt := "gfx".toList
def memUtil : Txt := "mem".toList
def memClk : Txt := "mem_clock".toList
def vramUsed : Txt := "vram_used".toList
def vramTotal : Txt := "vram_total".toList
def vramPct : Txt := "vram_percent".toList

end CsvSchema

def dynamicTelemetryFields : List Txt :=
  [CsvSchema.powerUsage, CsvSchema.hotspotTemp, CsvSchema.memTemp, CsvSchema.gfxClk,
    CsvSchema.gfxUtil, CsvSchema.memUtil, CsvSchema.memClk, CsvSchema.vramUsed, CsvSchema.vramPct]

/-! ## Cells -/

/-- `row.get(name, default)`; `none` is Python's `None`. -/
def getOr (row : Row) (name default : Txt) : Option Txt := (row.get name).getD (some default)

/-- `str(row.get(name) or default)`. -/
def cellOr (row : Row) (name default : Txt) : Txt :=
  match row.get name with
  | some (some (c :: cs)) => c :: cs
  | _ => default

/-- `str` of a cell. -/
def str : Option Txt → Txt
  | some t => t
  | none => "None".toList

def finiteField (row : Row) (fieldName : Txt) : Option ℚ :=
  match PyFloat.parse (strip (str (getOr row fieldName []))) with
  | some (.finite value) => if value < 0 then none else some value
  | _ => none

def hasFiniteTelemetry (row : Row) : Bool :=
  dynamicTelemetryFields.any fun metric => (finiteField row metric).isSome

/-! ## The evidence -/

def maxCorruptRows : Nat := 100

def maxTelemetryGapSec : Int := 60

def telemetryBudgetSec (durationSec : Int) : Int :=
  if durationSec ≤ 0 then maxTelemetryGapSec
  else min maxTelemetryGapSec (max 5 (durationSec / 2))

structure MonitoringEvidence where
  sampleCount : Nat := 0
  activeSampleCount : Nat := 0
  sampledGpus : Finset Txt := ∅
  activeGpus : Finset Txt := ∅
  powerGpus : Finset Txt := ∅
  hotspotGpus : Finset Txt := ∅
  undecodableRows : Nat := 0
  unparsableRows : Nat := 0
  scanAborted : Bool := false
  firstTimestamp : Option Int := none
  lastTimestamp : Option Int := none
  maxSampleGapSec : Int := 0
  gpuWindows : List (Txt × Int × Int) := []
  coverageStartTimestamp : Option Int := none
  coverageEndTimestamp : Option Int := none
  gpuSampleBounds : List (Txt × Int × Int) := []
deriving DecidableEq

/-- A row that counts, with the GPU and the time it is booked under.  The code
keeps the GPU and the time. -/
structure Sample where
  row : Row
  gpu : Txt
  timestamp : Int
deriving DecidableEq

/-- Variables of the scan. -/
structure Collect where
  evidence : MonitoringEvidence
  samples : List Sample

namespace Collect

def modify (s : Collect) (f : MonitoringEvidence → MonitoringEvidence) : Collect :=
  { s with evidence := f s.evidence }

def unparsable (s : Collect) : Collect :=
  s.modify fun e => { e with unparsableRows := e.unparsableRows + 1 }

def addSample (s : Collect) (row : Row) (gpu : Txt) (ts : Int) : Collect :=
  if hasFiniteTelemetry row then
    { evidence :=
        { s.evidence with
          sampleCount := s.evidence.sampleCount + 1
          sampledGpus := insert gpu s.evidence.sampledGpus }
      samples := s.samples ++ [{ row := row, gpu := gpu, timestamp := ts }] }
  else s

def addSensors (s : Collect) (row : Row) (gpu : Txt) : Collect :=
  s.modify fun e =>
    let e := if (finiteField row CsvSchema.powerUsage).isSome then
      { e with powerGpus := insert gpu e.powerGpus } else e
    let e := if (finiteField row CsvSchema.hotspotTemp).isSome then
      { e with hotspotGpus := insert gpu e.hotspotGpus } else e
    match finiteField row CsvSchema.gfxUtil with
    | some gfxUtil =>
      if 0 < gfxUtil then
        { e with
          activeSampleCount := e.activeSampleCount + 1
          activeGpus := insert gpu e.activeGpus }
      else e
    | none => e

/-- The part of the loop's body after a row has been read. -/
def addRow (s : Collect) (row : Row) : Collect :=
  match parseInt (strip (str (getOr row CsvSchema.timestamp []))) with
  | none => s.unparsable
  | some ts =>
    let gpu := strip (cellOr row CsvSchema.gpu [])
    if gpu = [] then s.unparsable else (s.addSample row gpu ts).addSensors row gpu

/-- The loop, over what the calls of `next(reader)` do. -/
def scan (s : Collect) : List (Option Row) → Collect
  | [] =>
    if s.evidence.undecodableRows > maxCorruptRows then
      s.modify fun e => { e with scanAborted := true }
    else s
  | outcome :: rest =>
    if s.evidence.undecodableRows > maxCorruptRows then
      s.modify fun e => { e with scanAborted := true }
    else
      match outcome with
      | none => (s.modify fun e => { e with undecodableRows := e.undecodableRows + 1 }).scan rest
      | some row => (s.addRow row).scan rest

/-! The sets of times are sorted before use. -/

def sortedTimes (times : List Int) : List Int := times.dedup.insertionSort (· ≤ ·)

def timesOf (s : Collect) (gpu : Txt) : List Int :=
  sortedTimes ((s.samples.filter fun x => x.gpu = gpu).map Sample.timestamp)

def gpus (s : Collect) : List Txt :=
  (s.samples.map Sample.gpu).dedup.insertionSort (· ≤ ·)

/-- `max((b - a for a, b in pairwise(ordered)), default=0)`. -/
def maxGap (ordered : List Int) : Int :=
  ((ordered.zip ordered.tail).map fun p => p.2 - p.1).max?.getD 0

def bounds (ordered : List Int) : Int × Int := (ordered.headD 0, ordered.getLastD 0)

/-- What follows the loop. -/
def finish (s : Collect) : MonitoringEvidence :=
  let every := sortedTimes (s.samples.map Sample.timestamp)
  let gaps := s.gpus.map fun gpu => maxGap (s.timesOf gpu)
  { s.evidence with
    firstTimestamp := every.head?
    lastTimestamp := every.getLast?
    gpuWindows := s.gpus.map fun gpu =>
      (gpu, (bounds (s.timesOf gpu)).2 - (bounds (s.timesOf gpu)).1, maxGap (s.timesOf gpu))
    gpuSampleBounds := s.gpus.map fun gpu => (gpu, bounds (s.timesOf gpu))
    maxSampleGapSec := gaps.foldl max 0 }

end Collect

def Collect.start (coverageStart coverageEnd : Option Int) : Collect :=
  { evidence :=
      { coverageStartTimestamp := coverageStart, coverageEndTimestamp := coverageEnd }
    samples := [] }

/-- The state of the scan at its end; `none` is a file that is not there. -/
def collectRows (csv : Option Txt) (coverageStart coverageEnd : Option Int) : Collect :=
  match csv with
  | none => .start coverageStart coverageEnd
  | some text => (Collect.start coverageStart coverageEnd).scan (Csv.dictRows text)

def collectMonitoringEvidence (csv : Option Txt) (coverageStart coverageEnd : Option Int) :
    MonitoringEvidence :=
  (collectRows csv coverageStart coverageEnd).finish

/-! ## Coverage of the run -/

namespace MonitoringEvidence

/-- Longest stretch of the run in which one GPU has no sample: before its first,
after its last, or between two.  Without run boundaries the whole shortfall of
its span counts. -/
def blind (e : MonitoringEvidence) (durationSec : Int) (gpu : Txt) (span gap : Int) : Int :=
  match e.gpuSampleBounds.lookup gpu, e.coverageStartTimestamp, e.coverageEndTimestamp with
  | some (first, last), some start, some stop =>
    max (max (max 0 (first - start)) (max 0 (stop - last))) gap
  | _, _, _ => max (if 0 < durationSec then max 0 (durationSec - span) else 0) gap

/-- One turn of the loop of `worst_coverage`. -/
def worse (e : MonitoringEvidence) (durationSec : Int) (worst : Int × Option Txt)
    (w : Txt × Int × Int) : Int × Option Txt :=
  let b := e.blind durationSec w.1 w.2.1 w.2.2
  if worst.1 < b then (b, some w.1) else worst

def worstCoverage (e : MonitoringEvidence) (durationSec : Int) : Int × Option Txt :=
  if e.gpuWindows = [] then (e.maxSampleGapSec, none)
  else
    let worst := (e.gpuWindows.insertionSort fun a b => a.1 ≤ b.1).foldl (e.worse durationSec)
      (-1, none)
    (max 0 worst.1, worst.2)

theorem le_foldl_worse (e : MonitoringEvidence) (durationSec : Int) (ws : List (Txt × Int × Int)) :
    ∀ worst : Int × Option Txt, worst.1 ≤ (ws.foldl (e.worse durationSec) worst).1 ∧
      ∀ w ∈ ws, e.blind durationSec w.1 w.2.1 w.2.2 ≤
        (ws.foldl (e.worse durationSec) worst).1 := by
  induction ws with
  | nil => simp
  | cons w ws ih =>
    intro worst
    obtain ⟨hrest, hall⟩ := ih (e.worse durationSec worst w)
    have hstep : worst.1 ≤ (e.worse durationSec worst w).1 ∧
        e.blind durationSec w.1 w.2.1 w.2.2 ≤ (e.worse durationSec worst w).1 := by
      simp only [worse]
      by_cases h : worst.1 < e.blind durationSec w.1 w.2.1 w.2.2
      · rw [if_pos h]
        exact ⟨h.le, le_refl _⟩
      · rw [if_neg h]
        exact ⟨le_refl _, not_lt.mp h⟩
    refine ⟨hstep.1.trans hrest, ?_⟩
    intro x hx
    rcases List.mem_cons.mp hx with hx | hx
    · rw [hx]
      exact hstep.2.trans hrest
    · exact hall x hx

/-- The worst coverage bounds the blind stretch of every GPU. -/
theorem blind_le_worstCoverage (e : MonitoringEvidence) (durationSec : Int)
    {w : Txt × Int × Int} (hw : w ∈ e.gpuWindows) :
    e.blind durationSec w.1 w.2.1 w.2.2 ≤ (e.worstCoverage durationSec).1 := by
  have hne : e.gpuWindows ≠ [] := List.ne_nil_of_mem hw
  have hmem : w ∈ e.gpuWindows.insertionSort fun a b => a.1 ≤ b.1 :=
    (List.mem_insertionSort _).mpr hw
  have hle := (le_foldl_worse e durationSec _ (-1, none)).2 w hmem
  unfold worstCoverage
  rw [if_neg hne]
  exact hle.trans (le_max_right _ _)

end MonitoringEvidence

/-- The run's boundaries, moved to the clock of the file when the two differ by
more than the budget. -/
def alignCoverageToCsvClock (coverageStart durationSec : Int) (e : MonitoringEvidence) :
    Int × Int :=
  match e.firstTimestamp with
  | none => (coverageStart, coverageStart + durationSec)
  | some first =>
    if |coverageStart - first| ≤ telemetryBudgetSec durationSec then
      (coverageStart, coverageStart + durationSec)
    else (first, first + durationSec)

end Monitored
end RocmTests

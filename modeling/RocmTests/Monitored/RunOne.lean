import Mathlib.Data.Finset.Sort
import Mathlib.Data.List.Lex
import RocmTests.Monitored.Evidence
import RocmTests.Monitored.Summary

/-!
# The verdict of a monitored run

`MonitoredTestOrchestrator.run_one` after the workload has ended.  The validation
comes first, then five gates on the telemetry, then the summary is written, then
the analysis and the report may still fail the run.  Each gate rewrites the
validation, the exit code and the unsupported flag, and the summary is patched
when the verdict changes after it was written.
-/

namespace RocmTests
namespace Monitored

open Text Validation

/-! ## Texts of the gates -/

section

variable (printable : Char → Bool)

def hexDigit (n : Nat) : Char := Char.ofNat (if n < 10 then 48 + n else 87 + n)

/-- `n` in hexadecimal with `width` digits. -/
def hex : Nat → Nat → Txt
  | 0, _ => []
  | width + 1, n => hex width (n / 16) ++ [hexDigit (n % 16)]

/-- One character of `repr` between the quotes `q`.  Which characters beyond ASCII
are printable is left to a parameter. -/
def reprChar (q c : Char) : Txt :=
  if c = q ∨ c = '\\' then ['\\', c]
  else if c = '\n' then ['\\', 'n']
  else if c = '\r' then ['\\', 'r']
  else if c = '\t' then ['\\', 't']
  else if c.toNat < 32 ∨ c.toNat = 127 then '\\' :: 'x' :: hex 2 c.toNat
  else if c.toNat < 127 ∨ printable c then [c]
  else if c.toNat < 256 then '\\' :: 'x' :: hex 2 c.toNat
  else if c.toNat < 65536 then '\\' :: 'u' :: hex 4 c.toNat
  else '\\' :: 'U' :: hex 8 c.toNat

def singleQuote : Char := Char.ofNat 39

def doubleQuote : Char := Char.ofNat 34

/-- `repr` of a text. -/
def reprTxt (t : Txt) : Txt :=
  let q := if singleQuote ∈ t ∧ doubleQuote ∉ t then doubleQuote else singleQuote
  q :: t.flatMap (reprChar printable q) ++ [q]

def joinComma : List Txt → Txt
  | [] => []
  | [t] => t
  | t :: ts => t ++ ", ".toList ++ joinComma ts

/-- `sorted(gpus)` as it prints. -/
def showGpus (gpus : Finset Txt) : Txt :=
  '[' :: joinComma ((gpus.sort (· ≤ ·)).map (reprTxt printable)) ++ [']']

def zeroSamplesNote : Txt :=
  "monitoring produced zero samples; cannot validate power/thermal behavior".toList

def blindNote (duration : Int) (worstGpu : Option Txt) (blindSec budget : Int) : Txt :=
  "monitoring did not continuously cover the ".toList ++ showInt duration ++ "s run".toList ++
    (match worstGpu with
    | some gpu => " for GPU ".toList ++ gpu
    | none => []) ++
    " (longest stretch without telemetry ".toList ++ showInt blindSec ++ "s > ".toList ++
    showInt budget ++
    "s budget); power/thermal evidence does not span the workload".toList

def coverageNote (sampled expected : Finset Txt) : Txt :=
  "monitoring GPU identity mismatch (observed ".toList ++ showGpus printable sampled ++
    ", expected ".toList ++ showGpus printable expected ++ [')']

def sensorNote (power hotspot expected : Finset Txt) : Txt :=
  "monitoring sensor coverage incomplete (power GPUs ".toList ++ showGpus printable power ++
    ", hotspot GPUs ".toList ++ showGpus printable hotspot ++ ", expected ".toList ++
    showGpus printable expected ++ [')']

def activityNote (active expected : Finset Txt) : Txt :=
  "monitoring GPU activity incomplete (active GPUs ".toList ++ showGpus printable active ++
    ", expected ".toList ++ showGpus printable expected ++ [')']

end

def analysisNote : Txt := "analysis artifact generation failed".toList

def reportNote : Txt := "HTML report generation failed".toList

/-! ## The run -/

/-- What `run_one` finds after the workload: its result, the files of the run, its
times, and how the two artifact steps go.  `minUtil` is
`profile.get("min_util", 0)`. -/
structure Run where
  name : Txt
  timestamp : Txt
  exitCode : Int
  unsupported : Bool
  console : Option LogFile
  dmesg : Option LogFile
  csv : Option Txt
  coverageStart : Int
  duration : Int
  numGpus : Int
  minUtil : ℚ
  metrics : Json
  dmesgSource : Option Txt
  inheritedCriticalCategories : Option (List Txt)
  analysis : AnalysisStep
  reportWritten : Bool

/-- The three variables that the gates rewrite. -/
structure Verdict where
  val : ValidationResult
  exitCode : Int
  unsupported : Bool

namespace Verdict

/-- A gate on the telemetry.  It does not apply to an unsupported test. -/
def gate (v : Verdict) (fires : Bool) (note : Txt) : Verdict :=
  if !v.unsupported && fires then
    { v with val := v.val.fail note, exitCode := if v.exitCode = 0 then 1 else v.exitCode }
  else v

/-- An artifact step failed. -/
def artifactFailed (v : Verdict) (note : Txt) : Verdict :=
  { val := v.val.fail note, exitCode := 1, unsupported := false }

def status (v : Verdict) : Status := statusOf v.unsupported v.exitCode

/-- `val.message or "N/A"`. -/
def message (v : Verdict) : Txt := if v.val.message = [] then "N/A".toList else v.val.message

end Verdict

structure Outcome where
  testName : Txt
  status : Status
  exitCode : Int
  elapsedSeconds : Int
  validation : Txt

namespace Run

variable (alnum printable : Char → Bool) (vs : Validators)

def validation (r : Run) : ValidationResult :=
  validateResult alnum vs r.name r.console r.exitCode r.dmesg r.unsupported (some r.numGpus)

/-- The verdict after the validation. -/
def validated (r : Run) : Verdict :=
  let val := r.validation alnum vs
  { val := if r.unsupported && !val.failed then
      ⟨unsupportedReasonFromLog r.console r.name, false⟩ else val
    exitCode := if r.exitCode = 0 ∧ val.failed = true then 1 else r.exitCode
    unsupported := r.unsupported && !val.failed }

/-- The evidence, with the run's boundaries on the clock of the file. -/
def monitoring (r : Run) : MonitoringEvidence :=
  let prelim := collectMonitoringEvidence r.csv none none
  let window := alignCoverageToCsvClock r.coverageStart r.duration prelim
  collectMonitoringEvidence r.csv (some window.1) (some window.2)

def expectedGpus (r : Run) : Finset Txt :=
  ((List.range r.numGpus.toNat).map fun gpu => showInt gpu).toFinset

/-- The verdict after the gates on the telemetry. -/
def gated (r : Run) : Verdict :=
  let e := r.monitoring
  let worst := e.worstCoverage r.duration
  let budget := telemetryBudgetSec r.duration
  let expected := r.expectedGpus
  ((((r.validated alnum vs).gate (e.sampleCount = 0) zeroSamplesNote
    |>.gate (0 < e.sampleCount ∧ budget < worst.1) (blindNote r.duration worst.2 worst.1 budget))
    |>.gate (e.sampledGpus ≠ expected) (coverageNote printable e.sampledGpus expected))
    |>.gate (e.powerGpus ≠ expected ∨ e.hotspotGpus ≠ expected)
      (sensorNote printable e.powerGpus e.hotspotGpus expected))
    |>.gate (0 < r.minUtil ∧ e.activeGpus ≠ expected)
      (activityNote printable e.activeGpus expected)

def summaryInfo (r : Run) : SummaryInfo :=
  { testName := r.name
    timestamp := r.timestamp
    duration := r.duration
    monitorSamples := r.monitoring.sampleCount
    metrics := r.metrics
    dmesgSource := r.dmesgSource
    inheritedCriticalCategories := r.inheritedCriticalCategories }

/-- The summary that the analysis finds. -/
def firstSummary (r : Run) : Dict :=
  let v := r.gated alnum printable vs
  initialSummary r.summaryInfo v.exitCode v.message v.unsupported

/-- The verdict, the summary and the artifact errors after the analysis. -/
def analysed (r : Run) : Verdict × Dict × List Txt :=
  let v := r.gated alnum printable vs
  let (ok, summary) := safeAnalyze (r.firstSummary alnum printable vs) r.analysis
  if ok then (v, summary, [])
  else
    let v := v.artifactFailed analysisNote
    let errors := ["analysis".toList]
    (v, updateSummaryStatus summary v.exitCode v.val.message v.unsupported errors, errors)

/-- The verdict and the summary after the report, which is not written into the
summary. -/
def reported (r : Run) : Verdict × Dict :=
  let (v, summary, errors) := r.analysed alnum printable vs
  if r.reportWritten then (v, summary)
  else
    let v := v.artifactFailed reportNote
    (v, updateSummaryStatus summary v.exitCode v.val.message v.unsupported
      (errors ++ ["report".toList]))

/-- `run_one`: the outcome, and `summary.json` when it returns. -/
def runOne (r : Run) : Outcome × Dict :=
  let (v, summary) := r.reported alnum printable vs
  ({ testName := r.name
     status := v.status
     exitCode := v.exitCode
     elapsedSeconds := r.duration
     validation := v.message }, summary)

end Run

/-! ## Soundness -/

namespace Verdict

/-- A run that has not been failed: exit code 0 and not unsupported. -/
def Passing (v : Verdict) : Prop := v.exitCode = 0 ∧ v.unsupported = false

theorem status_pass_iff (v : Verdict) : v.status = .pass ↔ v.Passing := by
  unfold status statusOf Passing
  cases v.unsupported with
  | true => simp
  | false =>
    by_cases h : v.exitCode = 0
    · simp [h]
    · simp [h]

theorem status_unsupported_iff (v : Verdict) :
    v.status = .unsupported ↔ v.unsupported = true := by
  unfold status statusOf
  cases v.unsupported with
  | true => simp
  | false =>
    by_cases h : v.exitCode = 0
    · simp [h]
    · simp [h]

/-- A gate lets a run pass only if it did not fire. -/
theorem gate_passing {v : Verdict} {fires : Bool} {note : Txt} (h : (v.gate fires note).Passing) :
    v.Passing ∧ fires = false := by
  unfold gate Passing at *
  cases hfires : (!v.unsupported && fires) with
  | true =>
    rw [hfires] at h
    by_cases hexit : v.exitCode = 0
    · simp [hexit] at h
    · simp [hexit] at h
  | false =>
    rw [hfires] at h
    refine ⟨h, ?_⟩
    have hun : v.unsupported = false := h.2
    rw [hun] at hfires
    exact hfires

@[simp]
theorem gate_unsupported (v : Verdict) (fires : Bool) (note : Txt) :
    (v.gate fires note).unsupported = v.unsupported := by
  unfold gate
  split_ifs <;> rfl

end Verdict

namespace Run

section

variable (alnum printable : Char → Bool) (vs : Validators) (r : Run)

/-- What a run that passes has shown. -/
structure PassEvidence : Prop where
  exit : r.exitCode = 0
  validated : (r.validation alnum vs).failed = false
  sampled : 0 < r.monitoring.sampleCount
  covered : (r.monitoring.worstCoverage r.duration).1 ≤ telemetryBudgetSec r.duration
  eachCovered : ∀ w ∈ r.monitoring.gpuWindows,
    r.monitoring.blind r.duration w.1 w.2.1 w.2.2 ≤ telemetryBudgetSec r.duration
  sampledGpus : r.monitoring.sampledGpus = r.expectedGpus
  powerGpus : r.monitoring.powerGpus = r.expectedGpus
  hotspotGpus : r.monitoring.hotspotGpus = r.expectedGpus
  activeGpus : 0 < r.minUtil → r.monitoring.activeGpus = r.expectedGpus
  analysis : (safeAnalyze (r.firstSummary alnum printable vs) r.analysis).1 = true
  report : r.reportWritten = true

end

section

variable {alnum printable : Char → Bool} {vs : Validators}

theorem validated_passing {r : Run} (h : (r.validated alnum vs).Passing) :
    r.exitCode = 0 ∧ (r.validation alnum vs).failed = false := by
  unfold validated Verdict.Passing at h
  cases hfail : (r.validation alnum vs).failed with
  | true =>
    simp only [hfail] at h
    by_cases hexit : r.exitCode = 0
    · simp [hexit] at h
    · simp [hexit] at h
  | false =>
    refine ⟨?_, rfl⟩
    simpa [hfail] using h.1

/-- The gates on the telemetry let a run pass only with full coverage. -/
theorem gated_passing {r : Run} (h : (r.gated alnum printable vs).Passing) :
    (r.validated alnum vs).Passing ∧ 0 < r.monitoring.sampleCount ∧
      (r.monitoring.worstCoverage r.duration).1 ≤ telemetryBudgetSec r.duration ∧
      r.monitoring.sampledGpus = r.expectedGpus ∧ r.monitoring.powerGpus = r.expectedGpus ∧
      r.monitoring.hotspotGpus = r.expectedGpus ∧
      (0 < r.minUtil → r.monitoring.activeGpus = r.expectedGpus) := by
  obtain ⟨h, hactive⟩ := Verdict.gate_passing h
  obtain ⟨h, hsensors⟩ := Verdict.gate_passing h
  obtain ⟨h, hidentity⟩ := Verdict.gate_passing h
  obtain ⟨h, hblind⟩ := Verdict.gate_passing h
  obtain ⟨h, hzero⟩ := Verdict.gate_passing h
  simp only [decide_eq_false_iff_not, not_and, not_lt, not_or, not_not] at *
  have hpos : 0 < r.monitoring.sampleCount := Nat.pos_of_ne_zero hzero
  exact ⟨h, hpos, hblind hpos, hidentity, hsensors.1, hsensors.2, hactive⟩

theorem gated_unsupported (r : Run) :
    (r.gated alnum printable vs).unsupported = (r.validated alnum vs).unsupported := by
  simp only [gated, Verdict.gate_unsupported]

theorem validated_unsupported {r : Run} (h : (r.validated alnum vs).unsupported = true) :
    r.unsupported = true ∧ (r.validation alnum vs).failed = false := by
  unfold validated at h
  rw [Bool.and_eq_true, Bool.not_eq_true'] at h
  exact h

end

theorem artifactFailed_status (v : Verdict) (note : Txt) :
    (v.artifactFailed note).status = .fail := rfl

variable (alnum printable : Char → Bool) (vs : Validators)

/-- What the analysis leaves: the verdict of the gates if it succeeded, a failure
if not, and in both cases a summary that says so. -/
theorem analysed_cases (r : Run) :
    (((r.analysed alnum printable vs).1 = r.gated alnum printable vs ∧
        (safeAnalyze (r.firstSummary alnum printable vs) r.analysis).1 = true) ∨
      (r.analysed alnum printable vs).1 =
        (r.gated alnum printable vs).artifactFailed analysisNote) ∧
    Records (r.analysed alnum printable vs).2.1 (r.analysed alnum printable vs).1.status
      (r.analysed alnum printable vs).1.exitCode := by
  have hfirst : Records (r.firstSummary alnum printable vs) (r.gated alnum printable vs).status
      (r.gated alnum printable vs).exitCode := initialSummary_records _ _ _ _
  have hafter := safeAnalyze_records r.analysis hfirst
  unfold analysed
  cases hok : (safeAnalyze (r.firstSummary alnum printable vs) r.analysis).1 with
  | true =>
    simp only [hok, if_true]
    exact ⟨Or.inl ⟨trivial, trivial⟩, hafter⟩
  | false =>
    simp only [hok, Bool.false_eq_true, if_false]
    exact ⟨Or.inr trivial, updateSummaryStatus_records _ _ _ _ _⟩

theorem reported_cases (r : Run) :
    (((r.reported alnum printable vs).1 = r.gated alnum printable vs ∧
        (safeAnalyze (r.firstSummary alnum printable vs) r.analysis).1 = true ∧
        r.reportWritten = true) ∨
      (r.reported alnum printable vs).1.status = .fail) ∧
    Records (r.reported alnum printable vs).2 (r.reported alnum printable vs).1.status
      (r.reported alnum printable vs).1.exitCode := by
  obtain ⟨hcases, hrecords⟩ := analysed_cases alnum printable vs r
  unfold reported
  cases hreport : r.reportWritten with
  | false =>
    simp only [Bool.false_eq_true, if_false]
    exact ⟨Or.inr (artifactFailed_status _ _), updateSummaryStatus_records _ _ _ _ _⟩
  | true =>
    simp only [if_true]
    refine ⟨?_, hrecords⟩
    rcases hcases with hok | hfail
    · exact Or.inl ⟨hok.1, hok.2, trivial⟩
    · rw [hfail]
      exact Or.inr rfl

/-- A verdict of PASS has all the evidence behind it, a verdict of UNSUPPORTED was
the workload's own and no layer failed, and the summary says what is returned. -/
theorem runOne_sound (r : Run) :
    ((r.runOne alnum printable vs).1.status = .pass → r.PassEvidence alnum printable vs) ∧
      ((r.runOne alnum printable vs).1.status = .unsupported →
        r.unsupported = true ∧
          LayersPass alnum vs r.name r.console r.exitCode r.dmesg r.unsupported (some r.numGpus)) ∧
      Records (r.runOne alnum printable vs).2 (r.runOne alnum printable vs).1.status
        (r.runOne alnum printable vs).1.exitCode := by
  obtain ⟨hcases, hrecords⟩ := reported_cases alnum printable vs r
  have hstatus : (r.runOne alnum printable vs).1.status =
      (r.reported alnum printable vs).1.status := rfl
  refine ⟨?_, ?_, hrecords⟩
  · intro hpass
    rw [hstatus] at hpass
    rcases hcases with ⟨hv, hanalysis, hreport⟩ | hfail
    · rw [hv, Verdict.status_pass_iff] at hpass
      obtain ⟨hval, hsamples, hcovered, hsampled, hpower, hhotspot, hactive⟩ := gated_passing hpass
      obtain ⟨hexit, hnotfailed⟩ := validated_passing hval
      exact
        { exit := hexit
          validated := hnotfailed
          sampled := hsamples
          covered := hcovered
          eachCovered := fun w hw =>
            (MonitoringEvidence.blind_le_worstCoverage _ _ hw).trans hcovered
          sampledGpus := hsampled
          powerGpus := hpower
          hotspotGpus := hhotspot
          activeGpus := hactive
          analysis := hanalysis
          report := hreport }
    · rw [hfail] at hpass
      cases hpass
  · intro hunsupported
    rw [hstatus] at hunsupported
    rcases hcases with ⟨hv, _, _⟩ | hfail
    · rw [hv, Verdict.status_unsupported_iff, gated_unsupported] at hunsupported
      obtain ⟨hsaid, hnotfailed⟩ := validated_unsupported hunsupported
      exact ⟨hsaid, (validateResult_failed _ _ _ _ _ _ _).mp hnotfailed⟩
    · rw [hfail] at hunsupported
      cases hunsupported

/-- A run of ten seconds on one GPU that is sampled every five. -/
def healthy : Run :=
  { name := "probe".toList
    timestamp := "20250101_000000".toList
    exitCode := 0
    unsupported := false
    console := some ⟨3, .ok "ok\n".toList⟩
    dmesg := none
    csv := some ("timestamp,gpu,power_usage,hotspot_temperature,gfx\n100,0,250,60,90\n" ++
      "105,0,251,61,95\n110,0,251,62,95\n").toList
    coverageStart := 100
    duration := 10
    numGpus := 1
    minUtil := 50
    metrics := .obj []
    dmesgSource := none
    inheritedCriticalCategories := none
    analysis := .analysed [] true
    reportWritten := true }

/-- No test has a validator of its own. -/
def noValidators : Validators :=
  { registry := fun _ => none
    rvs := fun _ _ _ _ _ _ => ⟨[], false⟩
    hmmMemtest := fun _ _ _ => ⟨[], false⟩
    transferbench := fun _ _ _ => ⟨[], false⟩ }

theorem runOne_sound_healthy :
    (healthy.runOne Char.isAlpha Char.isAlpha noValidators).1.status = .pass ∧
      healthy.PassEvidence Char.isAlpha Char.isAlpha noValidators := by
  have hpass : (healthy.runOne Char.isAlpha Char.isAlpha noValidators).1.status = .pass := by
    decide +kernel
  exact ⟨hpass, (runOne_sound Char.isAlpha Char.isAlpha noValidators healthy).1 hpass⟩

end Run

end Monitored
end RocmTests

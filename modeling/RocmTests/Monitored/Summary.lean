import RocmTests.Monitored.Validation

/-!
# `summary.json`

The file is written once with the verdict of the gates, extended by the analysis,
and patched when an artifact step fails.  A `dict` is a list of its items in the
order of their first assignment.  Every write goes to a temporary file that then
replaces the old one, so a step that fails on the way leaves the file as it was.
-/

namespace RocmTests
namespace Monitored

open Text

inductive Json where
  | null
  | bool (b : Bool)
  | num (q : ℚ)
  | str (s : Txt)
  | arr (xs : List Json)
  | obj (items : List (Txt × Json))

abbrev Dict := List (Txt × Json)

namespace Dict

/-- `d[k] = v`. -/
def set : Dict → Txt → Json → Dict
  | [], k, v => [(k, v)]
  | (k', v') :: d, k, v => if k' = k then (k, v) :: d else (k', v') :: set d k v

def get (d : Dict) (k : Txt) : Option Json := d.lookup k

def getD (d : Dict) (k : Txt) (default : Json) : Json := (d.get k).getD default

def setAll (d : Dict) (items : Dict) : Dict := items.foldl (fun d p => d.set p.1 p.2) d

theorem get_set_self (d : Dict) (k : Txt) (v : Json) : (d.set k v).get k = some v := by
  induction d with
  | nil => simp [set, get]
  | cons p d ih =>
    obtain ⟨k', v'⟩ := p
    by_cases h : k' = k
    · simp [set, get, h]
    · have hne : (k == k') = false := by simpa using Ne.symm h
      simpa [set, get, h, hne, List.lookup_cons] using ih

theorem get_set_of_ne (d : Dict) {k k' : Txt} (v : Json) (h : k' ≠ k) :
    (d.set k v).get k' = d.get k' := by
  have hne : (k' == k) = false := by simpa using h
  induction d with
  | nil => simp [set, get, List.lookup_cons, hne]
  | cons p d ih =>
    obtain ⟨k₀, v₀⟩ := p
    by_cases h₀ : k₀ = k
    · simp [set, get, h₀, List.lookup_cons, hne]
    · simp only [set, get, if_neg h₀, List.lookup_cons] at ih ⊢
      rw [ih]

/-- Assignments to other keys leave a key alone. -/
theorem get_setAll_of_not_mem (items : Dict) {k : Txt} (h : k ∉ items.map Prod.fst) (d : Dict) :
    (d.setAll items).get k = d.get k := by
  induction items generalizing d with
  | nil => rfl
  | cons p items ih =>
    rw [List.map_cons, List.mem_cons, not_or] at h
    show ((d.set p.1 p.2).setAll items).get k = d.get k
    rw [ih h.2, get_set_of_ne d p.2 h.1]

/-- The last assignment to a key is the one that is read. -/
theorem get_setAll_append (d : Dict) (items later : Dict) {k : Txt} (v : Json)
    (h : k ∉ later.map Prod.fst) :
    (d.setAll (items ++ (k, v) :: later)).get k = some v := by
  unfold setAll
  rw [List.foldl_append, List.foldl_cons]
  exact (get_setAll_of_not_mem later h _).trans (get_set_self _ k v)

end Dict

/-! ## The status -/

inductive Status where
  | pass
  | fail
  | unsupported
deriving DecidableEq

def Status.text : Status → Txt
  | .pass => "PASS".toList
  | .fail => "FAIL".toList
  | .unsupported => "UNSUPPORTED".toList

def statusOf (unsupported : Bool) (exitCode : Int) : Status :=
  if unsupported then .unsupported else if exitCode = 0 then .pass else .fail

def resultKey : Txt := "result".toList

def exitCodeKey : Txt := "exit_code".toList

/-- The file agrees with a verdict. -/
def Records (summary : Dict) (status : Status) (exitCode : Int) : Prop :=
  summary.get resultKey = some (.str status.text) ∧
    summary.get exitCodeKey = some (.num exitCode)

/-! ## The first version -/

/-- What the first version is made of, besides the verdict.  The last two are
there only when they are out of the ordinary. -/
structure SummaryInfo where
  testName : Txt
  timestamp : Txt
  duration : Int
  monitorSamples : Nat
  metrics : Json
  dmesgSource : Option Txt
  inheritedCriticalCategories : Option (List Txt)

def dirtyItems : Option (List Txt) → Dict
  | none => []
  | some cats =>
    [("pretest_kernel_dirty".toList, .bool true),
      ("inherited_critical_categories".toList, .arr (cats.map .str))]

def sourceItems : Option Txt → Dict
  | none => []
  | some source => [("dmesg_source".toList, .str source)]

def laterItems (info : SummaryInfo) (validation : Txt) (unsupported : Bool) : Dict :=
  [("unsupported".toList, .bool unsupported), ("duration_seconds".toList, .num info.duration),
    ("monitor_samples".toList, .num info.monitorSamples), ("validation".toList, .str validation),
    ("metrics".toList, info.metrics)] ++
    sourceItems info.dmesgSource ++ dirtyItems info.inheritedCriticalCategories

/-- `_write_initial_summary`. -/
def initialSummary (info : SummaryInfo) (exitCode : Int) (validation : Txt) (unsupported : Bool) :
    Dict :=
  [("test_name".toList, .str info.testName), ("timestamp".toList, .str info.timestamp),
    (resultKey, .str (statusOf unsupported exitCode).text), (exitCodeKey, .num exitCode)] ++
    laterItems info validation unsupported

/-! ## Later versions -/

/-- `_update_summary_status`. -/
def updateSummaryStatus (data : Dict) (exitCode : Int) (validation : Txt) (unsupported : Bool)
    (artifactErrors : List Txt) : Dict :=
  data.setAll
    [(resultKey, .str (statusOf unsupported exitCode).text), (exitCodeKey, .num exitCode),
      ("unsupported".toList, .bool unsupported), ("validation".toList, .str validation),
      ("artifacts_complete".toList, .bool false),
      ("artifact_errors".toList, .arr (artifactErrors.map .str))]

def asArr : Json → Option (List Json)
  | .arr xs => some xs
  | _ => none

def asObj : Json → Option Dict
  | .obj d => some d
  | _ => none

/-- `bool(x)`. -/
def truthy : Json → Bool
  | .null => false
  | .bool b => b
  | .num q => q ≠ 0
  | .str s => !s.isEmpty
  | .arr xs => !xs.isEmpty
  | .obj d => !d.isEmpty

def anomalies (analysis : Dict) : Option Json := do
  let imbalanced ← asArr (analysis.getD "imbalanced_gpus".toList (.arr []))
  let exclusions ← asArr (analysis.getD "imbalance_exclusions".toList (.arr []))
  let marked ← exclusions.mapM fun entry =>
    (asObj entry).map fun d => Json.obj (d.set "low_confidence".toList (.bool true))
  let power ← asObj (analysis.getD "power_analysis".toList (.obj []))
  let mem ← asObj (analysis.getD "mem_temp_analysis".toList (.obj []))
  return .obj
    [("throttle_events".toList, analysis.getD "throttle_events".toList (.arr [])),
      ("imbalanced_gpus".toList, .arr (imbalanced ++ marked)),
      ("imbalance_exclusions".toList, .arr exclusions),
      ("imbalance_comparison_status".toList,
        analysis.getD "imbalance_comparison_status".toList (.str "compared".toList)),
      ("power_cap_saturated_pct".toList, power.getD "cap_saturation_pct".toList (.num 0)),
      ("temp_still_rising".toList, mem.getD "temp_still_rising".toList (.bool false))]

def analysisInput (analysis : Dict) : Json :=
  .obj
    [("undecodable_rows".toList, analysis.getD "undecodable_rows".toList (.num 0)),
      ("scan_aborted".toList,
        .bool (truthy (analysis.getD "scan_aborted".toList (.bool false)))),
      ("analysis_unavailable".toList,
        .bool (truthy (analysis.getD "analysis_unavailable".toList (.bool false))))]

/-- `enrich_summary`; `none` is an exception, which leaves the file alone. -/
def enrichSummary (existing analysis : Dict) : Option Dict := do
  let anomalies ← anomalies analysis
  let mem ← asObj (analysis.getD "mem_temp_analysis".toList (.obj []))
  return existing.setAll
    [("per_gpu".toList, analysis.getD "per_gpu".toList (.obj [])),
      ("gpu_limits".toList, analysis.getD "gpu_limits".toList (.obj [])),
      ("workload_pattern".toList,
        analysis.getD "workload_pattern".toList (.str "unknown".toList)),
      ("serial_profile".toList,
        .bool (truthy (analysis.getD "serial_profile".toList (.bool false)))),
      ("anomalies".toList, anomalies),
      ("power_analysis".toList, analysis.getD "power_analysis".toList (.obj [])),
      ("mem_temp_analysis".toList, .obj (mem.filter fun p => p.1 ≠ "rising_gpus".toList)),
      ("monitoring_validation".toList, analysis.getD "monitoring_validation".toList (.obj [])),
      ("steady_state".toList, analysis.getD "steady_state".toList (.obj [])),
      ("analysis_input".toList, analysisInput analysis)]

/-- How the analysis step goes: it may raise before the summary is replaced, find
no rows, or enrich the summary and then write its own file or not. -/
inductive AnalysisStep where
  | raised
  | noRows
  | analysed (analysis : Dict) (healthWritten : Bool)

/-- `_safe_analyze`: whether the step succeeded, and the summary after it. -/
def safeAnalyze (summary : Dict) : AnalysisStep → Bool × Dict
  | .raised => (false, summary)
  | .noRows => (true, summary)
  | .analysed analysis healthWritten =>
    match enrichSummary summary analysis with
    | none => (false, summary)
    | some summary => (healthWritten, summary)

/-! ## What the file records -/

theorem initialSummary_records (info : SummaryInfo) (exitCode : Int) (validation : Txt)
    (unsupported : Bool) :
    Records (initialSummary info exitCode validation unsupported) (statusOf unsupported exitCode)
      exitCode := by
  have hname : (resultKey == "test_name".toList) = false := by decide
  have htime : (resultKey == "timestamp".toList) = false := by decide
  have hname' : (exitCodeKey == "test_name".toList) = false := by decide
  have htime' : (exitCodeKey == "timestamp".toList) = false := by decide
  have hresult : (exitCodeKey == resultKey) = false := by decide
  unfold Records initialSummary Dict.get
  constructor
  · simp only [List.cons_append, List.lookup_cons, hname, htime, beq_self_eq_true]
  · simp only [List.cons_append, List.lookup_cons, hname', htime', hresult, beq_self_eq_true]

theorem updateSummaryStatus_records (data : Dict) (exitCode : Int) (validation : Txt)
    (unsupported : Bool) (artifactErrors : List Txt) :
    Records (updateSummaryStatus data exitCode validation unsupported artifactErrors)
      (statusOf unsupported exitCode) exitCode := by
  constructor
  · apply Dict.get_setAll_append data [] _ (.str (statusOf unsupported exitCode).text)
    simp only [List.map_cons, List.map_nil]
    decide
  · apply Dict.get_setAll_append data [(resultKey, .str (statusOf unsupported exitCode).text)] _
      (.num exitCode)
    simp only [List.map_cons, List.map_nil]
    decide

/-- The analysis writes no key of the verdict. -/
theorem enrichSummary_records {existing analysis summary : Dict} {status : Status} {exitCode : Int}
    (henrich : enrichSummary existing analysis = some summary)
    (h : Records existing status exitCode) : Records summary status exitCode := by
  simp only [enrichSummary, Option.bind_eq_bind, Option.bind_eq_some_iff, Option.pure_def,
    Option.some.injEq] at henrich
  obtain ⟨anomalies, _, mem, _, rfl⟩ := henrich
  constructor
  · refine (Dict.get_setAll_of_not_mem _ ?_ existing).trans h.1
    simp only [List.map_cons, List.map_nil]
    decide
  · refine (Dict.get_setAll_of_not_mem _ ?_ existing).trans h.2
    simp only [List.map_cons, List.map_nil]
    decide

theorem safeAnalyze_records {summary : Dict} {status : Status} {exitCode : Int}
    (step : AnalysisStep) (h : Records summary status exitCode) :
    Records (safeAnalyze summary step).2 status exitCode := by
  cases step with
  | raised => exact h
  | noRows => exact h
  | analysed analysis healthWritten =>
    simp only [safeAnalyze]
    cases henrich : enrichSummary summary analysis with
    | none => exact h
    | some enriched => exact enrichSummary_records henrich h

end Monitored
end RocmTests

import Mathlib.Data.List.MinMax
import RocmTests.Results.Replacing
import RocmTests.Text.Find
import RocmTests.Text.JsonValue

/-!
# The summary rows of a nightly run

Each `counts.json` becomes a row, and a row `TOTAL` is computed from them before any is
inserted.  The table then keeps one row for each run, platform, row type and test, so what
is published may be less than what was summed.

The columns of a case row, which are empty on a summary row, are left out except
`nodeid`.  `raw_counts_json` is the dict that is dumped into it.
-/

namespace RocmTests
namespace Results

open Text

/-! ## Counts -/

/-- `int_or_zero`.  Only a `TypeError` and a `ValueError` are caught. -/
def intOrZero (value : JsonValue) : Except IntError Int :=
  match value.toInt with
  | .ok n => .ok n
  | .error .overflowError => .error .overflowError
  | .error _ => .ok 0

structure PlatformCounts where
  platform : Txt
  passed : Int
  skipped : Int
  failed : Int
  error : Int
  total : Int
deriving DecidableEq

/-- A `counts.json` as it was read, with the artifact it was found in. -/
structure CountsFile where
  payload : List (Txt × JsonValue)
  artifactName : Txt
  countsPath : Txt

section

-- `str` of what is not a text
variable (str : JsonValue → Txt)

def toStr : JsonValue → Txt
  | .str s => s
  | v => str v

def CountsFile.get (f : CountsFile) (key : Txt) : JsonValue :=
  (JsonValue.get? f.payload key).getD .null

def parseCounts (f : CountsFile) : Except IntError PlatformCounts := do
  let platform := f.get "platform".toList
  let passed ← intOrZero (f.get "passed".toList)
  let skipped ← intOrZero (f.get "skipped".toList)
  let failed ← intOrZero (f.get "failed".toList)
  let error ← intOrZero (f.get "error".toList)
  let total ← intOrZero (f.get "total".toList)
  return {
    platform := if platform.truthy then toStr str platform else f.artifactName
    passed, skipped, failed, error, total }

/-- A triple of `counts_rows`. -/
structure CountsRow where
  counts : PlatformCounts
  artifactName : Txt
  countsPath : Txt

/-- `read_local_counts`, with the files in the order of their paths. -/
def readLocalCounts (files : List CountsFile) : Except IntError (List CountsRow) :=
  files.mapM fun f => (parseCounts str f).map fun counts => ⟨counts, f.artifactName, f.countsPath⟩

end

/-! ## Rows -/

structure TargetConfig where
  name : Txt
  runsOn : Txt
  artifactGroup : Txt
  gpuArch : Txt
  testsFilters : Txt

structure PlatformJobMetadata where
  url : Txt
  status : Txt
  conclusion : Txt

/-- `resolve_target`: the target of that name, else the one with the longest name the
platform starts with. -/
def resolveTarget (platform : Txt) (targets : List (Txt × TargetConfig)) : Option TargetConfig :=
  match targets.lookup platform with
  | some t => some t
  | none =>
    ((targets.filter fun x => x.1.isPrefixOf platform).map Prod.snd).argmax fun t => t.name.length

/-- The columns that are the same on every row of a run. -/
structure RunColumns where
  runId : Int
  headBranch : Txt
  headSha : Txt
  timeStarted : Txt
  runUrl : Txt
  repository : Txt
  workflowName : Txt
  runNumber : Int
  runAttempt : Int
  sourceRepo : Txt
  artifactSource : Txt
  artifactSourceRunId : Option Int
  artifactSourceUrl : Txt
  event : Txt
  timeUpdated : Option Txt

structure Row where
  rowType : Txt
  run : RunColumns
  platform : Txt
  gpuArch : Txt
  status : Txt
  conclusion : Txt
  targetName : Txt
  runsOn : Txt
  artifactGroup : Txt
  testsFilters : Txt
  artifactName : Txt
  artifactUrl : Txt
  testsPass : Int
  testsFail : Int
  testsError : Int
  testsSkip : Int
  totalTestCount : Int
  resultStatus : Txt
  rawCountsJson : List (Txt × JsonValue)
  nodeid : Txt

def summaryType : Txt := "summary".toList

def passedStatus : Txt := "passed".toList

def totalPlatform : Txt := "TOTAL".toList

def resultStatus (failed error total : Int) : Txt :=
  if failed = 0 ∧ error = 0 ∧ total > 0 then passedStatus else "failed".toList

section

variable (run : RunColumns) (targets : List (Txt × TargetConfig))
  (platformJobs : List (Txt × PlatformJobMetadata))

def summaryRow (c : CountsRow) : Row :=
  let target := resolveTarget c.counts.platform targets
  let platformJob := platformJobs.lookup c.counts.platform
  { rowType := summaryType
    run := run
    platform := c.counts.platform
    gpuArch := target.elim [] (·.gpuArch)
    status := platformJob.elim [] (·.status)
    conclusion := platformJob.elim [] (·.conclusion)
    targetName := target.elim c.counts.platform (·.name)
    runsOn := target.elim [] (·.runsOn)
    artifactGroup := target.elim [] (·.artifactGroup)
    testsFilters := target.elim [] (·.testsFilters)
    artifactName := c.artifactName
    artifactUrl :=
      platformJob.elim c.countsPath fun job => if job.url = [] then c.countsPath else job.url
    testsPass := c.counts.passed
    testsFail := c.counts.failed
    testsError := c.counts.error
    testsSkip := c.counts.skipped
    totalTestCount := c.counts.total
    resultStatus := resultStatus c.counts.failed c.counts.error c.counts.total
    rawCountsJson :=
      [("platform".toList, .str c.counts.platform), ("passed".toList, .int c.counts.passed),
        ("skipped".toList, .int c.counts.skipped), ("failed".toList, .int c.counts.failed),
        ("error".toList, .int c.counts.error), ("total".toList, .int c.counts.total)]
    nodeid := [] }

/-- The row that is added to `rows`, the first of which is `first`. -/
def totalRow (first : Row) (rows : List Row) : Row :=
  let totalPass := (rows.map Row.testsPass).sum
  let totalFail := (rows.map Row.testsFail).sum
  let totalError := (rows.map Row.testsError).sum
  let totalSkip := (rows.map Row.testsSkip).sum
  let totalCount := (rows.map Row.totalTestCount).sum
  { first with
    platform := totalPlatform
    gpuArch := "all".toList
    targetName := totalPlatform
    runsOn := []
    artifactGroup := "all".toList
    testsFilters := []
    artifactName := "computed-total".toList
    artifactUrl := first.run.runUrl
    status := []
    conclusion := []
    testsPass := totalPass
    testsFail := totalFail
    testsError := totalError
    testsSkip := totalSkip
    totalTestCount := totalCount
    resultStatus := resultStatus totalFail totalError totalCount
    rawCountsJson :=
      [("source".toList, .str "computed_from_platform_counts".toList),
        ("platforms".toList, .int rows.length), ("passed".toList, .int totalPass),
        ("skipped".toList, .int totalSkip), ("failed".toList, .int totalFail),
        ("error".toList, .int totalError), ("total".toList, .int totalCount)] }

def buildSummaryInsertRows (includeTotalRow : Bool) (countsRows : List CountsRow) : List Row :=
  let rows := countsRows.map (summaryRow run targets platformJobs)
  match rows with
  | [] => []
  | first :: _ => if includeTotalRow then rows ++ [totalRow first rows] else rows

/-! ## The table -/

/-- `ORDER BY (run_id, platform, row_type, nodeid)`. -/
def Row.key (r : Row) : Int × Txt × Txt × Txt := (r.run.runId, r.platform, r.rowType, r.nodeid)

def countColumns : List (Row → Int) :=
  [Row.testsPass, Row.testsFail, Row.testsError, Row.testsSkip, Row.totalTestCount]

/-- The count columns are `UInt32`. -/
def Row.Storable (r : Row) : Prop := ∀ col ∈ countColumns, 0 ≤ col r ∧ col r < 2 ^ 32

instance (r : Row) : Decidable r.Storable :=
  inferInstanceAs (Decidable (∀ col ∈ countColumns, 0 ≤ col r ∧ col r < 2 ^ 32))

/-- `insert_rows` into a new table; `none` is an exception.  An insert is refused when it
is empty or a number does not fit its column. -/
def insertRows (rows : List Row) : Option (List Row) :=
  if rows ≠ [] ∧ ∀ r ∈ rows, r.Storable then some (keepLast Row.key rows) else none

/-- The summary rows beside the total. -/
def platformRows (table : List Row) : List Row :=
  table.filter fun r => r.rowType = summaryType ∧ r.platform ≠ totalPlatform

structure TotalsAgree (table : List Row) (t : Row) : Prop where
  sums : ∀ col ∈ countColumns, col t = ((platformRows table).map col).sum
  passed : t.resultStatus = passedStatus →
    ∀ r ∈ platformRows table, r.testsFail = 0 ∧ r.testsError = 0

/-- There is a row `TOTAL`, and it is the sum of the others. -/
def TotalIsSum (table : List Row) : Prop :=
  (∃ t ∈ table, t.platform = totalPlatform) ∧
    ∀ t ∈ table, t.platform = totalPlatform → TotalsAgree table t

/-- Whenever the rows of these files are published, their total is the sum. -/
def PublishedTotalIsSum (str : JsonValue → Txt) (files : List CountsFile) : Prop :=
  ∀ countsRows table, readLocalCounts str files = .ok countsRows →
    insertRows (buildSummaryInsertRows run targets platformJobs true countsRows) = some table →
      TotalIsSum table

/-! ## When the sum is what is published -/

/-- The counts whose row does not stay: there are later ones of the same platform, or the
platform has the name of the total. -/
def superseded : List CountsRow → List CountsRow
  | [] => []
  | c :: cs =>
    if c.counts.platform ∈ cs.map (·.counts.platform) ∨ c.counts.platform = totalPlatform then
      c :: superseded cs
    else superseded cs

def countFields : List (PlatformCounts → Int) :=
  [PlatformCounts.passed, PlatformCounts.failed, PlatformCounts.error, PlatformCounts.skipped,
    PlatformCounts.total]

def PlatformCounts.IsZero (c : PlatformCounts) : Prop := ∀ field ∈ countFields, field c = 0

/-- No count is negative, and no sum is too large for its column. -/
def Fits (cs : List CountsRow) : Prop :=
  ∀ field ∈ countFields,
    (∀ c ∈ cs, 0 ≤ field c.counts) ∧ (cs.map fun c => field c.counts).sum < 2 ^ 32

theorem of_resultStatus_passed {failed error total : Int}
    (h : resultStatus failed error total = passedStatus) : failed = 0 ∧ error = 0 := by
  unfold resultStatus at h
  by_cases hpassed : failed = 0 ∧ error = 0 ∧ total > 0
  · exact ⟨hpassed.1, hpassed.2.1⟩
  · rw [if_neg hpassed] at h
    exact absurd h (by decide)

theorem totalRow_col (first : Row) (rows : List Row) {col : Row → Int}
    (hcol : col ∈ countColumns) : col (totalRow first rows) = (rows.map col).sum := by
  simp only [countColumns, List.mem_cons, List.not_mem_nil, or_false] at hcol
  rcases hcol with rfl | rfl | rfl | rfl | rfl <;> rfl

/-- The columns of a row are the fields of its counts, in one order. -/
theorem forall_countColumns {P : (CountsRow → Int) → Prop} :
    (∀ col ∈ countColumns, P fun c => col (summaryRow run targets platformJobs c)) ↔
      ∀ field ∈ countFields, P fun c => field c.counts := by
  simp only [countColumns, countFields, List.forall_mem_cons, List.not_mem_nil, IsEmpty.forall_iff,
    implies_true, and_true]
  rfl

theorem key_summaryRow (c : CountsRow) : (summaryRow run targets platformJobs c).key =
    (run.runId, c.counts.platform, summaryType, []) := rfl

theorem replaced_rows (t : Row)
    (ht : t.key = (run.runId, totalPlatform, summaryType, [])) (cs : List CountsRow) :
    replaced Row.key (cs.map (summaryRow run targets platformJobs) ++ [t]) =
      (superseded cs).map (summaryRow run targets platformJobs) := by
  induction cs with
  | nil => rfl
  | cons c cs ih =>
    have hmem : (summaryRow run targets platformJobs c).key ∈
          (cs.map (summaryRow run targets platformJobs) ++ [t]).map Row.key ↔
        c.counts.platform ∈ cs.map (·.counts.platform) ∨ c.counts.platform = totalPlatform := by
      rw [List.map_append, List.mem_append, List.map_map, List.map_singleton, List.mem_singleton,
        ht, key_summaryRow]
      simp [key_summaryRow, List.mem_map]
    rw [List.map_cons, List.cons_append, replaced, ih, superseded]
    by_cases h : c.counts.platform ∈ cs.map (·.counts.platform) ∨ c.counts.platform = totalPlatform
    · rw [if_pos h, if_pos (hmem.mpr h), List.map_cons]
    · rw [if_neg h, if_neg (mt hmem.mp h)]

theorem superseded_subset (cs : List CountsRow) : superseded cs ⊆ cs := by
  induction cs with
  | nil => exact List.Subset.refl _
  | cons c cs ih =>
    rw [superseded]
    by_cases h : c.counts.platform ∈ cs.map (·.counts.platform) ∨ c.counts.platform = totalPlatform
    · rw [if_pos h]
      exact List.cons_subset_cons c ih
    · rw [if_neg h]
      exact List.subset_cons_of_subset c ih

/-- The rows, and the total with the key it always has. -/
theorem build_eq {cs : List CountsRow} (hne : cs ≠ []) :
    ∃ first, (∀ rows, (totalRow first rows).key =
        (run.runId, totalPlatform, summaryType, [])) ∧
      buildSummaryInsertRows run targets platformJobs true cs =
        cs.map (summaryRow run targets platformJobs) ++
          [totalRow first (cs.map (summaryRow run targets platformJobs))] := by
  cases cs with
  | nil => exact absurd rfl hne
  | cons c cs => exact ⟨summaryRow run targets platformJobs c, fun _ => rfl, rfl⟩

theorem fits_iff (cs : List CountsRow) : Fits cs ↔ ∀ col ∈ countColumns,
    (∀ r ∈ cs.map (summaryRow run targets platformJobs), 0 ≤ col r) ∧
      ((cs.map (summaryRow run targets platformJobs)).map col).sum < 2 ^ 32 := by
  simp only [List.forall_mem_map, List.map_map]
  exact (forall_countColumns run targets platformJobs
    (P := fun f => (∀ c ∈ cs, 0 ≤ f c) ∧ (cs.map f).sum < 2 ^ 32)).symm

/-- The insert goes through exactly when every count and every sum fits. -/
theorem storable_iff (first : Row) (cs : List CountsRow) :
    (∀ r ∈ cs.map (summaryRow run targets platformJobs) ++
        [totalRow first (cs.map (summaryRow run targets platformJobs))], r.Storable) ↔ Fits cs := by
  rw [fits_iff run targets platformJobs]
  generalize cs.map (summaryRow run targets platformJobs) = rows
  rw [List.forall_mem_append, List.forall_mem_singleton]
  constructor
  · intro ⟨hrows, htotal⟩ col hcol
    refine ⟨fun r hr => (hrows r hr col hcol).1, ?_⟩
    rw [← totalRow_col first rows hcol]
    exact (htotal col hcol).2
  · intro h
    -- no term is greater than the sum
    have hle : ∀ col ∈ countColumns, ∀ r ∈ rows, col r ≤ (rows.map col).sum := fun col hcol r hr =>
      List.single_le_sum (List.forall_mem_map.mpr (h col hcol).1) _ (List.mem_map_of_mem hr)
    constructor
    · intro r hr col hcol
      exact ⟨(h col hcol).1 r hr, lt_of_le_of_lt (hle col hcol r hr) (h col hcol).2⟩
    · intro col hcol
      rw [totalRow_col first rows hcol]
      exact ⟨List.sum_nonneg (List.forall_mem_map.mpr (h col hcol).1), (h col hcol).2⟩

section

variable {t : Row} (ht : t.key = (run.runId, totalPlatform, summaryType, []))
  (cs : List CountsRow)
include ht

theorem platformRows_table :
    platformRows (keepLast Row.key (cs.map (summaryRow run targets platformJobs) ++ [t])) =
      (keepLast Row.key (cs.map (summaryRow run targets platformJobs))).filter
        (·.key ≠ t.key) := by
  have htotal : t.platform = totalPlatform := congrArg (·.2.1) ht
  rw [keepLast_concat, platformRows, List.filter_append,
    List.filter_eq_nil_iff (l := [t]) |>.mpr (by simp [htotal]), List.append_nil,
    List.filter_filter]
  apply List.filter_congr
  intro r hr
  obtain ⟨c, _, rfl⟩ := List.mem_map.mp (List.pwFilter_subset _ hr)
  have hkey : (summaryRow run targets platformJobs c).key = t.key ↔
      c.counts.platform = totalPlatform := by
    rw [ht, key_summaryRow]
    constructor
    · intro h
      exact congrArg (·.2.1) h
    · intro h
      rw [h]
  have htype : (summaryRow run targets platformJobs c).rowType = summaryType := rfl
  have hplatform : (summaryRow run targets platformJobs c).platform = c.counts.platform := rfl
  by_cases h : c.counts.platform = totalPlatform
  · simp only [hkey, hplatform, h, ne_eq, not_true_eq_false, decide_false, and_false,
      Bool.false_and]
  · simp only [hkey, hplatform, htype, h, ne_eq, not_false_eq_true, and_self, decide_true,
      Bool.and_self]

/-- What is left beside the total, and what was replaced, make up what was summed. -/
theorem sum_platformRows (col : Row → Int) :
    ((platformRows (keepLast Row.key
        (cs.map (summaryRow run targets platformJobs) ++ [t]))).map col).sum +
      (((superseded cs).map (summaryRow run targets platformJobs)).map col).sum =
        ((cs.map (summaryRow run targets platformJobs)).map col).sum := by
  have hsum := sum_keepLast_add_replaced Row.key col
    (cs.map (summaryRow run targets platformJobs) ++ [t])
  rw [replaced_rows run targets platformJobs t ht, keepLast_concat, List.map_append,
    List.map_append, List.sum_append, List.sum_append] at hsum
  rw [platformRows_table run targets platformJobs ht]
  omega

theorem eq_of_totalPlatform {r : Row}
    (hr : r ∈ keepLast Row.key (cs.map (summaryRow run targets platformJobs) ++ [t]))
    (hplatform : r.platform = totalPlatform) : r = t := by
  rw [keepLast_concat, List.mem_append, List.mem_singleton] at hr
  rcases hr with hr | hr
  · obtain ⟨hmem, hkey⟩ := List.mem_filter.mp hr
    obtain ⟨c, _, rfl⟩ := List.mem_map.mp (List.pwFilter_subset _ hmem)
    have hsame : (summaryRow run targets platformJobs c).key = t.key := by
      rw [ht, key_summaryRow, show c.counts.platform = totalPlatform from hplatform]
    exact absurd hsame (of_decide_eq_true hkey)
  · exact hr

end

theorem totalsAgree_iff {first : Row} {cs : List CountsRow} (hfits : Fits cs)
    (hkey : (totalRow first (cs.map (summaryRow run targets platformJobs))).key =
      (run.runId, totalPlatform, summaryType, [])) :
    TotalsAgree (keepLast Row.key (cs.map (summaryRow run targets platformJobs) ++
        [totalRow first (cs.map (summaryRow run targets platformJobs))]))
      (totalRow first (cs.map (summaryRow run targets platformJobs))) ↔
    ∀ c ∈ superseded cs, c.counts.IsZero := by
  have hcolumns := (fits_iff run targets platformJobs cs).mp hfits
  have hsplit := sum_platformRows run targets platformJobs hkey cs
  have hzero : ∀ col ∈ countColumns,
      ((((superseded cs).map (summaryRow run targets platformJobs)).map col).sum = 0 ↔
        ∀ c ∈ superseded cs, col (summaryRow run targets platformJobs c) = 0) := by
    intro col hcol
    rw [sum_eq_zero_iff col, List.forall_mem_map]
    intro r hr
    exact (hcolumns col hcol).1 r (List.map_subset _ (superseded_subset cs) hr)
  have hall : (∀ c ∈ superseded cs, c.counts.IsZero) ↔ ∀ col ∈ countColumns,
      (((superseded cs).map (summaryRow run targets platformJobs)).map col).sum = 0 := by
    rw [forall₂_congr hzero, forall_countColumns run targets platformJobs
      (P := fun f => ∀ c ∈ superseded cs, f c = 0)]
    constructor
    · intro h field hfield c hc
      exact h c hc field hfield
    · intro h c hc field hfield
      exact h field hfield c hc
  rw [hall]
  constructor
  · intro h col hcol
    have hsum := h.sums col hcol
    rw [totalRow_col first _ hcol, ← hsplit col] at hsum
    omega
  · intro h
    constructor
    · intro col hcol
      rw [totalRow_col first _ hcol, ← hsplit col, h col hcol, add_zero]
    · intro hpassed r hr
      obtain ⟨hfail, herror⟩ := of_resultStatus_passed hpassed
      rw [platformRows_table run targets platformJobs hkey] at hr
      have hmem := List.pwFilter_subset _ (List.mem_of_mem_filter hr)
      have hfailColumn : Row.testsFail ∈ countColumns := by simp [countColumns]
      have herrorColumn : Row.testsError ∈ countColumns := by simp [countColumns]
      exact ⟨(sum_eq_zero_iff _ (hcolumns _ hfailColumn).1).mp hfail r hmem,
        (sum_eq_zero_iff _ (hcolumns _ herrorColumn).1).mp herror r hmem⟩

/-- The rows of some counts are published when the counts fit the columns. -/
theorem insertRows_iff (first : Row) {cs : List CountsRow} {rows table : List Row}
    (hrows : cs.map (summaryRow run targets platformJobs) = rows) :
    insertRows (rows ++ [totalRow first rows]) = some table ↔
      Fits cs ∧ keepLast Row.key (rows ++ [totalRow first rows]) = table := by
  have hstorable := storable_iff run targets platformJobs first cs
  rw [hrows] at hstorable
  rw [insertRows, ← hstorable]
  by_cases hfits : ∀ r ∈ rows ++ [totalRow first rows], r.Storable
  · rw [if_pos ⟨List.append_ne_nil_of_right_ne_nil _ (List.cons_ne_nil _ _), hfits⟩,
      Option.some_inj]
    exact (and_iff_right hfits).symm
  · rw [if_neg fun h => hfits h.2]
    constructor
    · intro h
      cases h
    · intro h
      exact absurd h.1 hfits

/-- The published total is the sum of what is published exactly when no counts are
replaced but those that are zero, or nothing is published. -/
theorem publishedTotalIsSum_iff (str : JsonValue → Txt) (files : List CountsFile) :
    PublishedTotalIsSum run targets platformJobs str files ↔
      ∀ countsRows, readLocalCounts str files = .ok countsRows → Fits countsRows →
        ∀ c ∈ superseded countsRows, c.counts.IsZero := by
  unfold PublishedTotalIsSum
  refine forall_congr' fun cs => ?_
  rw [forall_comm]
  refine forall_congr' fun _ => ?_
  by_cases hne : cs = []
  · -- no rows are refused, and there are none to replace
    rw [hne]
    constructor
    · intro _ _ c hc
      cases hc
    · intro _ table hinsert
      cases hinsert
  obtain ⟨first, hkey, hbuild⟩ := build_eq run targets platformJobs hne
  generalize hrows : cs.map (summaryRow run targets platformJobs) = rows at hbuild
  have htotal : totalRow first rows ∈ keepLast Row.key (rows ++ [totalRow first rows]) := by
    rw [keepLast_concat]
    exact List.mem_append_right _ List.mem_cons_self
  rw [hbuild]
  constructor
  · intro h hfits
    have hinsert := (insertRows_iff run targets platformJobs first hrows).mpr ⟨hfits, rfl⟩
    have hagree := (h _ hinsert).2 _ htotal (congrArg (·.2.1) (hkey rows))
    rw [← hrows] at hagree
    exact (totalsAgree_iff run targets platformJobs hfits (hkey _)).mp hagree
  · intro h table htable
    obtain ⟨hfits, rfl⟩ := (insertRows_iff run targets platformJobs first hrows).mp htable
    have hagree := (totalsAgree_iff run targets platformJobs hfits (hkey _)).mpr (h hfits)
    rw [hrows] at hagree
    refine ⟨⟨_, htotal, congrArg (·.2.1) (hkey rows)⟩, ?_⟩
    intro r hr hplatform
    rw [← hrows] at hr
    rw [eq_of_totalPlatform run targets platformJobs (hkey _) cs hr hplatform, hrows]
    exact hagree

end

/-! ### Two artifacts of one platform -/

section

/-- One test that passed, on `gfx94X`. -/
def shardFile (artifactName : Txt) : CountsFile where
  payload :=
    [("platform".toList, .str "gfx94X".toList), ("passed".toList, .int 1),
      ("total".toList, .int 1)]
  artifactName := artifactName
  countsPath := artifactName ++ "/counts.json".toList

def exampleRun : RunColumns where
  runId := 1
  headBranch := "main".toList
  headSha := []
  timeStarted := []
  runUrl := []
  repository := "ROCm/rocm-tests".toList
  workflowName := []
  runNumber := 1
  runAttempt := 1
  sourceRepo := []
  artifactSource := []
  artifactSourceRunId := none
  artifactSourceUrl := []
  event := []
  timeUpdated := none

def twoShards : List CountsRow :=
  ["counts-a".toList, "counts-b".toList].map fun name =>
    ⟨⟨"gfx94X".toList, 1, 0, 0, 0, 1⟩, name, name ++ "/counts.json".toList⟩

/-- The total says two tests passed, and the one row beside it says one. -/
theorem twoShards_total_differs :
    ¬ PublishedTotalIsSum exampleRun [] [] (fun _ => [])
      [shardFile "counts-a".toList, shardFile "counts-b".toList] := by
  intro h
  have hinsert : ∃ table, insertRows (buildSummaryInsertRows exampleRun [] [] true twoShards) =
      some table := ⟨_, if_pos (by decide)⟩
  obtain ⟨table, hinsert⟩ := hinsert
  have htable : keepLast Row.key (buildSummaryInsertRows exampleRun [] [] true twoShards) = table :=
    (Option.ite_some_none_eq_some.mp hinsert).2
  have htotal : ∃ t ∈ table, t.platform = totalPlatform ∧ t.testsPass = 2 := by
    rw [← htable]
    decide
  have hsum : ((platformRows table).map Row.testsPass).sum = 1 := by
    rw [← htable]
    decide
  obtain ⟨t, hmem, hplatform, hpass⟩ := htotal
  have hagree := ((h twoShards table rfl hinsert).2 t hmem hplatform).sums Row.testsPass
    List.mem_cons_self
  rw [hpass, hsum] at hagree
  cases hagree

end

end Results
end RocmTests

import RocmTests.Results.SummaryRows

/-!
# Publishing a nightly run

`main` inserts the summary rows of a run, and after them the rows of its test cases.  It may end at
any request, it is repeated for the same run, and it is called for other runs in between.  Calls for
one run may publish other rows each time, as what the API says of the run goes on.  Each row of the
table is one that a call leaves which nothing interrupts, and a call that ends well is superseded by
later calls only.
-/

namespace RocmTests
namespace Results

open Text

/-! ## Case rows -/

/-- A test of a report, as `parse_json_report` gives it. -/
structure TestCaseResult where
  nodeid : Txt
  testFile : Txt
  testClass : Txt
  testName : Txt
  outcome : Txt
  durationSecs : PyFloat
  phase : Txt
  errorType : Txt
  errorMessage : Txt
  hwMarker : Txt
  ciMarker : Txt
  layerMarker : Txt
  runtimeMarker : Txt
  markersRaw : Txt

/-- The columns of a case row that are empty on a summary row, beside `nodeid`. -/
structure CaseColumns where
  testFile : Txt := []
  testClass : Txt := []
  testName : Txt := []
  outcome : Txt := []
  durationSecs : PyFloat := .finite 0
  phase : Txt := []
  errorType : Txt := []
  errorMessage : Txt := []
  hwMarker : Txt := []
  ciMarker : Txt := []
  layerMarker : Txt := []
  runtimeMarker : Txt := []
  markersRaw : Txt := "[]".toList

structure TableRow where
  row : Row
  columns : CaseColumns

def TableRow.key (r : TableRow) : Int × Txt × Txt × Txt := r.row.key

def caseType : Txt := "case".toList

/-- The tests of one report.  `timeStarted` is when the run started as their rows have it: where the
API does not say, it is the time at which they are built. -/
structure PlatformCases where
  platform : Txt
  cases : List TestCaseResult
  timeStarted : Txt

/-- A row of `build_case_insert_rows`.  Nothing is dumped into `raw_counts_json`. -/
def caseRow (run : RunColumns) (target : Option TargetConfig)
    (platformJob : Option PlatformJobMetadata) (p : PlatformCases)
    (c : TestCaseResult) : TableRow where
  row :=
    { rowType := caseType
      run := { run with timeStarted := p.timeStarted }
      platform := p.platform
      gpuArch := target.elim [] (·.gpuArch)
      status := platformJob.elim [] (·.status)
      conclusion := platformJob.elim [] (·.conclusion)
      targetName := target.elim p.platform (·.name)
      runsOn := target.elim [] (·.runsOn)
      artifactGroup := target.elim [] (·.artifactGroup)
      testsFilters := target.elim [] (·.testsFilters)
      artifactName := []
      artifactUrl :=
        platformJob.elim run.runUrl fun job => if job.url = [] then run.runUrl else job.url
      testsPass := 0
      testsFail := 0
      testsError := 0
      testsSkip := 0
      totalTestCount := 0
      resultStatus := []
      rawCountsJson := []
      nodeid := c.nodeid }
  columns :=
    { testFile := c.testFile
      testClass := c.testClass
      testName := c.testName
      outcome := c.outcome
      durationSecs := c.durationSecs
      phase := c.phase
      errorType := c.errorType
      errorMessage := c.errorMessage
      hwMarker := c.hwMarker
      ciMarker := c.ciMarker
      layerMarker := c.layerMarker
      runtimeMarker := c.runtimeMarker
      markersRaw := c.markersRaw }

/-! ## A publication -/

/-- What `main` publishes, and what it was told about the table. -/
structure Publication where
  run : RunColumns
  targets : List (Txt × TargetConfig)
  platformJobs : List (Txt × PlatformJobMetadata)
  includeTotalRow : Bool
  countsRows : List CountsRow
  platformCases : List PlatformCases
  createTable : Bool
  recreateTable : Bool

namespace Publication

variable (p : Publication)

def summaryRows : List TableRow :=
  (buildSummaryInsertRows p.run p.targets p.platformJobs p.includeTotalRow p.countsRows).map
    fun r => ⟨r, {}⟩

/-- `build_case_insert_rows`. -/
def buildCaseInsertRows (pc : PlatformCases) : List TableRow :=
  pc.cases.map
    (caseRow p.run (resolveTarget pc.platform p.targets) (p.platformJobs.lookup pc.platform) pc)

/-- `all_rows` of `insert_case_rows`.  A platform without cases is passed over. -/
def caseRows : List TableRow := p.platformCases.flatMap p.buildCaseInsertRows

/-- What the publication leaves where nothing interrupts it: a later row replaces one with its
key. -/
def rows : List TableRow := keepLast TableRow.key (p.summaryRows ++ p.caseRows)

/-- `drop_and_create_table` or `create_table`. -/
def tableRequests : List (Request TableRow) :=
  if p.recreateTable then [.drop, .create] else if p.createTable then [.create] else []

/-- The requests of `main`, in their order. -/
def requests : List (Request TableRow) :=
  p.tableRequests ++ .insert p.summaryRows :: if p.caseRows = [] then [] else [.insert p.caseRows]

end Publication

/-- `insert_rows` takes no empty list, and the table no number that does not fit. -/
def Acceptable (rows : List TableRow) : Prop := rows ≠ [] ∧ ∀ r ∈ rows, r.row.Storable

instance : DecidablePred Acceptable := fun rows =>
  inferInstanceAs (Decidable (rows ≠ [] ∧ ∀ r ∈ rows, r.row.Storable))

/-- A call of `main`, with what becomes of its requests. -/
structure Attempt where
  publication : Publication
  answers : List Answer

namespace Attempt

variable (a : Attempt) (t : Store TableRow.key)

def after : Store TableRow.key := (send Acceptable t a.publication.requests a.answers).1

/-- `main` returns `True`. -/
def completed : Bool := (send Acceptable t a.publication.requests a.answers).2

end Attempt

/-- The table after some calls. -/
def tableAfter (calls : List Attempt) (t : Store TableRow.key) : Store TableRow.key :=
  calls.foldl (fun t a => a.after t) t

/-- The rows of a run. -/
def ofRun (runId : Int) (rows : List TableRow) : List TableRow :=
  rows.filter fun r => r.row.run.runId = runId

/-! ## The rows of a publication -/

section Rows

variable (p : Publication)

theorem run_summaryRows : ∀ r ∈ p.summaryRows, r.row.run = p.run ∧ r.row.rowType = summaryType := by
  have hall : ∀ r ∈ buildSummaryInsertRows p.run p.targets p.platformJobs p.includeTotalRow
      p.countsRows, r.run = p.run ∧ r.rowType = summaryType := by
    cases p.countsRows with
    | nil => exact fun r hr => (List.not_mem_nil hr).elim
    | cons c cs =>
      have hrows : ∀ r ∈ (c :: cs).map (summaryRow p.run p.targets p.platformJobs),
          r.run = p.run ∧ r.rowType = summaryType := by
        intro r hr
        obtain ⟨c', -, rfl⟩ := List.mem_map.mp hr
        exact ⟨rfl, rfl⟩
      show ∀ r ∈ if p.includeTotalRow then
        (c :: cs).map (summaryRow p.run p.targets p.platformJobs) ++
        [totalRow (summaryRow p.run p.targets p.platformJobs c)
          ((c :: cs).map (summaryRow p.run p.targets p.platformJobs))]
        else (c :: cs).map (summaryRow p.run p.targets p.platformJobs), _
      by_cases htotal : p.includeTotalRow = true
      · rw [if_pos htotal]
        refine List.forall_mem_append.mpr ⟨hrows, fun r hr => ?_⟩
        rw [List.mem_singleton.mp hr]
        exact ⟨rfl, rfl⟩
      · rw [if_neg htotal]
        exact hrows
  intro r hr
  obtain ⟨r', hr', rfl⟩ := List.mem_map.mp hr
  exact hall r' hr'

theorem run_caseRows :
    ∀ r ∈ p.caseRows, r.row.run.runId = p.run.runId ∧ r.row.rowType = caseType := by
  intro r hr
  obtain ⟨pc, -, hr⟩ := List.mem_flatMap.mp hr
  obtain ⟨c, -, rfl⟩ := List.mem_map.mp hr
  exact ⟨rfl, rfl⟩

/-- No key has a summary row and a case row. -/
theorem rowOf_caseRows_of_summary {k : Int × Txt × Txt × Txt} {x : TableRow}
    (h : rowOf TableRow.key p.summaryRows k = some x) : rowOf TableRow.key p.caseRows k = none := by
  rw [rowOf_eq_none_iff]
  intro hk
  obtain ⟨y, hy, hkey⟩ := List.mem_map.mp hk
  obtain ⟨hx, rfl⟩ := rowOf_spec _ h
  have htype : y.row.rowType = x.row.rowType := congrArg (·.2.2.1) hkey
  rw [(run_caseRows p y hy).2, (run_summaryRows p x hx).2] at htype
  exact absurd htype (by decide)

theorem mem_requests {r : Request TableRow} (h : r ∈ p.requests) :
    r = .drop ∧ p.recreateTable = true ∨ r = .create ∨ r = .insert p.summaryRows ∨
      r = .insert p.caseRows := by
  rw [Publication.requests, List.mem_append, List.mem_cons] at h
  rcases h with h | h | h
  · rw [Publication.tableRequests] at h
    by_cases hrecreate : p.recreateTable = true
    · rw [if_pos hrecreate, List.mem_cons, List.mem_singleton] at h
      exact h.imp (fun h => ⟨h, hrecreate⟩) Or.inl
    · rw [if_neg hrecreate] at h
      by_cases hcreate : p.createTable = true
      · rw [if_pos hcreate] at h
        exact Or.inr (Or.inl (List.mem_singleton.mp h))
      · rw [if_neg hcreate] at h
        cases h
  · exact Or.inr (Or.inr (Or.inl h))
  · by_cases hcases : p.caseRows = []
    · rw [if_pos hcases] at h
      cases h
    · rw [if_neg hcases] at h
      exact Or.inr (Or.inr (Or.inr (List.mem_singleton.mp h)))

/-- The requests of a publication insert its rows. -/
theorem within_requests : ∀ r ∈ p.requests, r.Within TableRow.key (· ∈ p.rows) := by
  intro r hr xs hxs k x hx
  have hall (h : rowOf TableRow.key (p.summaryRows ++ p.caseRows) k = some x) : x ∈ p.rows := by
    rw [Publication.rows, mem_keepLast_iff, (rowOf_spec _ h).2]
    exact h
  refine hall ?_
  rw [rowOf_append]
  rcases mem_requests p hr with ⟨rfl, -⟩ | rfl | rfl | rfl
  · cases hxs
  · cases hxs
  · rw [← Request.insert.inj hxs] at hx
    rw [rowOf_caseRows_of_summary p hx]
    exact hx
  · rw [← Request.insert.inj hxs] at hx
    rw [hx]
    rfl

theorem run_rows : ∀ x ∈ p.rows, x.row.run.runId = p.run.runId := by
  intro x hx
  rcases List.mem_append.mp (List.pwFilter_subset _ hx) with hx | hx
  · rw [(run_summaryRows p x hx).1]
  · exact (run_caseRows p x hx).1

end Rows

/-! ## Calls -/

section Calls

variable {a : Attempt} {t : Store TableRow.key} {k : Int × Txt × Txt × Txt}

theorem exists_sent (a : Attempt) (t : Store TableRow.key) :
    ∃ sent, sent <+: a.publication.requests ∧
    served Acceptable t sent = some (a.after t) ∧
      (a.completed t = true → sent = a.publication.requests) :=
  exists_served a.publication.requests a.answers t

theorem served_of_completed (h : a.completed t = true) :
    served Acceptable t a.publication.requests = some (a.after t) := by
  obtain ⟨sent, -, hserved, hall⟩ := exists_sent a t
  rw [← hall h]
  exact hserved

theorem drop_notMem_requests {p : Publication} (h : p.recreateTable = false) :
    Request.drop ∉ p.requests := by
  intro hdrop
  rcases mem_requests p hdrop with ⟨-, hrecreate⟩ | heq | heq | heq
  · rw [h] at hrecreate
    cases hrecreate
  · cases heq
  · cases heq
  · cases heq

/-- A call that ends well leaves the rows that it published. -/
theorem rowOf_after_of_completed (h : a.completed t = true) {x : TableRow}
    (hx : x ∈ a.publication.rows) : (a.after t).rowOf x.key = some x := by
  have hserved := served_of_completed h
  rw [Publication.requests, served_append] at hserved
  obtain ⟨u, -, hrest⟩ := Option.bind_eq_some_iff.mp hserved
  obtain ⟨u₁, hsummary, hcases⟩ := Option.bind_eq_some_iff.mp hrest
  have hfinal := (mem_keepLast_iff TableRow.key).mp hx
  rw [rowOf_append] at hfinal
  have hafter : (a.after t).rowOf x.key =
      (rowOf TableRow.key a.publication.caseRows x.key).or (u₁.rowOf x.key) := by
    by_cases hnil : a.publication.caseRows = []
    · rw [if_pos hnil] at hcases
      rw [hnil, rowOf_nil, Option.none_or]
      exact congrArg (fun v => Store.rowOf v x.key) (Option.some.inj hcases).symm
    · rw [if_neg hnil] at hcases
      obtain ⟨u₂, hinsert, hend⟩ := Option.bind_eq_some_iff.mp hcases
      rw [← rowOf_insert hinsert]
      exact congrArg (fun v => Store.rowOf v x.key) (Option.some.inj hend).symm
  rw [hafter, rowOf_insert hsummary, ← Option.or_assoc, hfinal]
  rfl

theorem rows_ne_nil_of_completed (h : a.completed t = true) : a.publication.rows ≠ [] := by
  have hserved := served_of_completed h
  rw [Publication.requests, served_append] at hserved
  obtain ⟨u, -, hrest⟩ := Option.bind_eq_some_iff.mp hserved
  obtain ⟨u₁, hinsert, -⟩ := Option.bind_eq_some_iff.mp hrest
  obtain ⟨x, hx⟩ := List.exists_mem_of_ne_nil _ (insert_spec hinsert).1.1
  intro hnil
  have hkey : rowOf TableRow.key (a.publication.summaryRows ++ a.publication.caseRows) x.key ≠
      none := by
    rw [ne_eq, rowOf_eq_none_iff, not_not]
    exact List.mem_map_of_mem (List.mem_append_left _ hx)
  obtain ⟨y, hy⟩ := Option.ne_none_iff_exists'.mp hkey
  have hmem : y ∈ a.publication.rows := by
    rw [Publication.rows, mem_keepLast_iff, (rowOf_spec _ hy).2]
    exact hy
  rw [hnil] at hmem
  cases hmem

theorem tableAfter_append (calls calls' : List Attempt) (t : Store TableRow.key) :
    tableAfter (calls ++ calls') t = tableAfter calls' (tableAfter calls t) :=
  List.foldl_append ..

section Run

variable {runId : Int} {rows : List TableRow} {calls : List Attempt} {kind : TableRow → Prop}

/-- Every row of the table was there or is one of a call. -/
theorem rowOf_tableAfter (hkind : ∀ a ∈ calls, ∀ x ∈ a.publication.rows, kind x)
    (ht : ∀ x, t.rowOf k = some x → kind x) :
    ∀ x, (tableAfter calls t).rowOf k = some x → kind x := by
  induction calls generalizing t with
  | nil => exact ht
  | cons a calls ih =>
    refine ih (fun b hb => hkind b (List.mem_cons_of_mem a hb)) ?_
    obtain ⟨sent, hsent, hserved, -⟩ := exists_sent a t
    refine rowOf_served_within (fun r hr xs hxs k x hx => ?_) ht hserved
    exact hkind a List.mem_cons_self x (within_requests _ r (hsent.subset hr) xs hxs k x hx)

theorem rowOf_tableAfter_kept (hkind : ∀ a ∈ calls, ∀ x ∈ a.publication.rows, kind x)
    (hrecreate : ∀ a ∈ calls, a.publication.recreateTable = false)
    (ht : ∃ x, t.rowOf k = some x ∧ kind x) :
    ∃ x, (tableAfter calls t).rowOf k = some x ∧ kind x := by
  induction calls generalizing t with
  | nil => exact ht
  | cons a calls ih =>
    refine ih (fun b hb => hkind b (List.mem_cons_of_mem a hb))
      (fun b hb => hrecreate b (List.mem_cons_of_mem a hb)) ?_
    obtain ⟨sent, hsent, hserved, -⟩ := exists_sent a t
    refine rowOf_served_kept (fun r hr xs hxs k x hx => ?_) (fun hdrop => ?_) ht hserved
    · exact hkind a List.mem_cons_self x (within_requests _ r (hsent.subset hr) xs hxs k x hx)
    · exact drop_notMem_requests (hrecreate a List.mem_cons_self) (hsent.subset hdrop)

/-- A row of the table is from a call, if it was not there before. -/
theorem mem_tableAfter {table : Table TableRow.key} (htable : tableAfter calls t = some table)
    {x : TableRow} (hx : x ∈ table.rows) :
    t.rowOf x.key = some x ∨ ∃ a ∈ calls, x ∈ a.publication.rows := by
  have hrow : (tableAfter calls t).rowOf x.key = some x := by
    rw [htable]
    exact table.mem_rows_iff.mp hx
  have hcalls : ∀ a ∈ calls, ∀ y ∈ a.publication.rows,
      t.rowOf y.key = some y ∨ ∃ a ∈ calls, y ∈ a.publication.rows :=
    fun a ha y hy => Or.inr ⟨a, ha, hy⟩
  refine rowOf_tableAfter hcalls (fun y hy => Or.inl ?_) x hrow
  cases t with
  | none => cases hy
  | some old =>
    have hkey : y.key = x.key := (rowOf_spec _ hy).2
    rw [hkey]
    exact hy

/-- After a call that ended well each of its keys has its row, or that of a later call. -/
theorem kept_tableAfter {before later : List Attempt}
    (hcompleted : a.completed (tableAfter before t))
    (hrecreate : ∀ b ∈ later, b.publication.recreateTable = false) :
    ∃ table, tableAfter (before ++ a :: later) t = some table ∧
      ∀ x ∈ a.publication.rows, ∃ y ∈ table.rows, y.key = x.key ∧
        (y = x ∨ ∃ b ∈ later, y ∈ b.publication.rows) := by
  have hkept : ∀ x ∈ a.publication.rows, ∃ y,
      (tableAfter (before ++ a :: later) t).rowOf x.key = some y ∧
        (y = x ∨ ∃ b ∈ later, y ∈ b.publication.rows) := by
    intro x hx
    rw [tableAfter_append]
    have hlast : (a.after (tableAfter before t)).rowOf x.key = some x :=
      rowOf_after_of_completed hcompleted hx
    show ∃ y, (tableAfter later (a.after (tableAfter before t))).rowOf x.key = some y ∧ _
    exact rowOf_tableAfter_kept (fun b hb y hy => Or.inr ⟨b, hb, hy⟩) hrecreate
      ⟨x, hlast, Or.inl rfl⟩
  cases htable : tableAfter (before ++ a :: later) t with
  | none =>
    obtain ⟨x, hx⟩ := List.exists_mem_of_ne_nil _ (rows_ne_nil_of_completed hcompleted)
    obtain ⟨y, hy, -⟩ := hkept x hx
    rw [htable] at hy
    cases hy
  | some table =>
    refine ⟨table, rfl, fun x hx => ?_⟩
    obtain ⟨y, hy, hfrom⟩ := hkept x hx
    rw [htable] at hy
    exact ⟨y, (rowOf_spec _ hy).1, (rowOf_spec _ hy).2, hfrom⟩

/-- Every call for the run publishes these rows. -/
def Publishes (runId : Int) (rows : List TableRow) (calls : List Attempt) : Prop :=
  ∀ a ∈ calls, a.publication.run.runId = runId → a.publication.rows = rows

theorem mem_ofRun {rows : List TableRow} {x : TableRow} :
    x ∈ ofRun runId rows ↔ x ∈ rows ∧ x.row.run.runId = runId := by
  rw [ofRun, List.mem_filter, decide_eq_true_iff]

/-- Where all calls for a run publish the same, the table has just that. -/
theorem ofRun_perm {before later : List Attempt} {table : Table TableRow.key}
    (hsame : Publishes runId rows (before ++ a :: later)) (hrun : a.publication.run.runId = runId)
    (hnew : ∀ x : TableRow, x.row.run.runId = runId → t.rowOf x.key = none)
    (htable : tableAfter (before ++ a :: later) t = some table)
    (hkept : ∀ x ∈ a.publication.rows, ∃ y ∈ table.rows, y.key = x.key ∧
      (y = x ∨ ∃ b ∈ later, y ∈ b.publication.rows)) :
    (ofRun runId table.rows).Perm rows := by
  have hrows : ∀ b ∈ before ++ a :: later, ∀ y ∈ b.publication.rows,
      y.row.run.runId = runId → y ∈ rows := by
    intro b hb y hy hyrun
    rw [← hsame b hb ((run_rows _ y hy).symm.trans hyrun)]
    exact hy
  have ha : a.publication.rows = rows :=
    hsame a (List.mem_append_right before List.mem_cons_self) hrun
  have hkeys : (rows.map TableRow.key).Nodup := by
    rw [← ha]
    exact nodup_keepLast TableRow.key _
  have hnodup : (ofRun runId table.rows).Nodup := (List.Nodup.of_map _ table.nodup).filter _
  rw [List.perm_ext_iff_of_nodup hnodup (List.Nodup.of_map _ hkeys)]
  intro x
  rw [mem_ofRun]
  constructor
  · rintro ⟨hx, hxrun⟩
    rcases mem_tableAfter htable hx with hold | ⟨b, hb, hxb⟩
    · rw [hnew x hxrun] at hold
      cases hold
    · exact hrows b hb x hxb hxrun
  · intro hx
    obtain ⟨y, hy, hkey, hfrom⟩ := hkept x (ha ▸ hx)
    have hxrun : x.row.run.runId = runId := (run_rows _ x (ha ▸ hx)).trans hrun
    have hyrows : y ∈ rows := by
      rcases hfrom with rfl | ⟨b, hb, hyb⟩
      · exact hx
      · exact hrows b (List.mem_append_right before (List.mem_cons_of_mem a hb)) y hyb
          ((congrArg Prod.fst hkey).trans hxrun)
    rw [← List.inj_on_of_nodup_map hkeys hyrows hx hkey]
    exact ⟨hy, (congrArg Prod.fst hkey).trans hxrun⟩

end Run

/-- A run is published by calls of which any number end early, with calls for other runs between
them.  Each row of the table is one that a call leaves which nothing interrupts.  After a call that
has ended well each of its keys has its row or that of a later call, until the table is made anew.
Where the calls for the run publish the same, the table then has just that of the run. -/
theorem published_again (calls : List Attempt) (t : Store TableRow.key) :
    (∀ table, tableAfter calls t = some table → ∀ x ∈ table.rows,
      t.rowOf x.key = some x ∨ ∃ a ∈ calls, x ∈ a.publication.rows) ∧
    ∀ before a later, calls = before ++ a :: later → a.completed (tableAfter before t) = true →
      (∀ b ∈ later, b.publication.recreateTable = false) →
        ∃ table, tableAfter calls t = some table ∧
          (∀ x ∈ a.publication.rows, ∃ y ∈ table.rows, y.key = x.key ∧
            (y = x ∨ ∃ b ∈ later, y ∈ b.publication.rows)) ∧
          (Publishes a.publication.run.runId a.publication.rows calls →
            (∀ x : TableRow, x.row.run.runId = a.publication.run.runId → t.rowOf x.key = none) →
              (ofRun a.publication.run.runId table.rows).Perm a.publication.rows) := by
  refine ⟨fun table htable x hx => mem_tableAfter htable hx, ?_⟩
  rintro before a later rfl hcompleted hrecreate
  obtain ⟨table, htable, hkept⟩ := kept_tableAfter hcompleted hrecreate
  exact ⟨table, htable, hkept, fun hsame hnew => ofRun_perm hsame rfl hnew htable hkept⟩

end Calls

/-! ## No case rows without summary rows -/

/-- The case rows of the table are from calls whose summary rows have rows in it. -/
def Summarised (calls : List Attempt) (t : Store TableRow.key) : Prop :=
  ∀ table, t = some table → ∀ x ∈ table.rows, x.row.rowType = caseType →
    ∃ a ∈ calls, x ∈ a.publication.caseRows ∧ a.publication.summaryRows ≠ [] ∧
      ∀ y ∈ a.publication.summaryRows, y.key ∈ table.rows.map TableRow.key

section Summarised

variable {calls : List Attempt} {t u : Store TableRow.key} {a : Attempt}

theorem Summarised.mono {calls' : List Attempt} (h : Summarised calls t) (hsub : calls ⊆ calls') :
    Summarised calls' t := by
  intro table htable x hx hcase
  obtain ⟨a, ha, hrest⟩ := h table htable x hx hcase
  exact ⟨a, hsub ha, hrest⟩

theorem Summarised.tableRequests (h : Summarised calls t) {p : Publication}
    {sent : List (Request TableRow)} (hsent : ∀ r ∈ sent, r ∈ p.tableRequests)
    (hserved : served Acceptable t sent = some u) : Summarised calls u := by
  have htable : ∀ r ∈ p.tableRequests, r = .drop ∨ r = .create := by
    rw [Publication.tableRequests]
    split_ifs <;> simp
  induction sent generalizing t with
  | nil =>
    rw [← Option.some.inj hserved]
    exact h
  | cons r sent ih =>
    obtain ⟨u₁, hr, hrest⟩ := Option.bind_eq_some_iff.mp hserved
    refine ih ?_ (fun q hq => hsent q (List.mem_cons_of_mem r hq)) hrest
    rcases htable r (hsent r List.mem_cons_self) with rfl | rfl
    · rw [← Option.some.inj hr]
      intro table htable
      cases htable
    · rw [← Option.some.inj hr]
      cases t with
      | none =>
        intro table htable x hx
        rw [← Option.some.inj htable] at hx
        cases hx
      | some table => exact h

theorem Summarised.insert {xs : List TableRow} (h : Summarised calls t)
    (hserved : (Request.insert xs).apply Acceptable t = some u)
    (hxs : ∀ table, u = some table → ∀ x ∈ xs, x.row.rowType = caseType →
      ∃ a ∈ calls, x ∈ a.publication.caseRows ∧ a.publication.summaryRows ≠ [] ∧
        ∀ y ∈ a.publication.summaryRows, y.key ∈ table.rows.map TableRow.key) :
    Summarised calls u := by
  obtain ⟨-, v, rfl, rfl⟩ := insert_spec hserved
  intro table htable x hx hcase
  have hsame := htable
  rw [← Option.some.inj htable] at hx ⊢
  rcases Table.mem_insert hx with hx | hx
  · obtain ⟨a, ha, hmem, hne, hkeys⟩ := h v rfl x hx hcase
    exact ⟨a, ha, hmem, hne, fun y hy => Table.mem_keys_insert.mpr (Or.inl (hkeys y hy))⟩
  · exact hxs _ rfl x hx hcase

/-- The summary rows are inserted. -/
theorem Summarised.summaryRows (h : Summarised calls t)
    (hserved : (Request.insert a.publication.summaryRows).apply Acceptable t = some u) :
    Summarised calls u := by
  refine h.insert hserved fun table _ x hx hcase => ?_
  rw [(run_summaryRows a.publication x hx).2] at hcase
  exact absurd hcase (by decide)

/-- The case rows are inserted after the summary rows. -/
theorem Summarised.caseRows {u' : Store TableRow.key} (h : Summarised calls u) (ha : a ∈ calls)
    (hsummary : (Request.insert a.publication.summaryRows).apply Acceptable t = some u)
    (hcases : (Request.insert a.publication.caseRows).apply Acceptable u = some u') :
    Summarised calls u' := by
  refine h.insert hcases fun table htable x hx _ => ?_
  obtain ⟨haccepted, v, -, rfl⟩ := insert_spec hsummary
  obtain ⟨-, v', hv', rfl⟩ := insert_spec hcases
  refine ⟨a, ha, hx, haccepted.1, fun y hy => ?_⟩
  rw [← Option.some.inj htable, ← Option.some.inj hv']
  exact Table.mem_keys_insert.mpr (Or.inl (Table.mem_keys_insert.mpr
    (Or.inr (List.mem_map_of_mem hy))))

theorem Summarised.after (h : Summarised calls t) : Summarised (calls ++ [a]) (a.after t) := by
  have h' : Summarised (calls ++ [a]) t := h.mono (List.subset_append_left calls [a])
  have ha : a ∈ calls ++ [a] := List.mem_append_right calls List.mem_cons_self
  obtain ⟨sent, hsent, hserved, -⟩ := exists_sent a t
  rw [Publication.requests] at hsent
  rcases List.prefix_or_prefix_of_prefix hsent (List.prefix_append _ _) with hearly | hlate
  · exact h'.tableRequests (fun r hr => hearly.subset hr) hserved
  obtain ⟨rest, rfl⟩ := hlate
  rw [List.prefix_append_right_inj] at hsent
  rw [served_append] at hserved
  obtain ⟨u, hu, hserved⟩ := Option.bind_eq_some_iff.mp hserved
  have hbefore := h'.tableRequests (fun r hr => hr) hu
  cases rest with
  | nil =>
    rw [← Option.some.inj hserved]
    exact hbefore
  | cons r rest =>
    obtain ⟨rfl, hrest⟩ := List.cons_prefix_cons.mp hsent
    obtain ⟨u₁, hsummary, hserved⟩ := Option.bind_eq_some_iff.mp hserved
    have hsummarised := hbefore.summaryRows hsummary
    cases rest with
    | nil =>
      rw [← Option.some.inj hserved]
      exact hsummarised
    | cons r rest =>
      by_cases hnil : a.publication.caseRows = []
      · rw [if_pos hnil] at hrest
        exact absurd (List.prefix_nil.mp hrest) (List.cons_ne_nil r rest)
      · rw [if_neg hnil] at hrest
        obtain ⟨rfl, hend⟩ := List.cons_prefix_cons.mp hrest
        obtain ⟨u₂, hcases, hserved⟩ := Option.bind_eq_some_iff.mp hserved
        rw [List.prefix_nil.mp hend] at hserved
        rw [← Option.some.inj hserved]
        exact hsummarised.caseRows ha hsummary hcases

/-- Over every sequence of calls from the first on, wherever each of them ends: a case row of
the table is from a call that has published summary rows for its run, and their keys are in
the table. -/
theorem summarised_tableAfter (calls : List Attempt) :
    Summarised calls (tableAfter calls none) := by
  induction calls using List.reverseRecOn with
  | nil =>
    intro table htable
    cases htable
  | append_singleton calls a ih =>
    rw [tableAfter_append]
    exact ih.after

end Summarised

/-! ### A call that is made again -/

section

def exampleCase : TestCaseResult where
  nodeid := "tests/e2e/hip/test_foo.py::test_bar".toList
  testFile := "tests/e2e/hip/test_foo.py".toList
  testClass := []
  testName := "test_bar".toList
  outcome := passedStatus
  durationSecs := .finite 1
  phase := []
  errorType := []
  errorMessage := []
  hwMarker := []
  ciMarker := []
  layerMarker := []
  runtimeMarker := []
  markersRaw := "[]".toList

def examplePublication : Publication where
  run := exampleRun
  targets := []
  platformJobs := []
  includeTotalRow := true
  countsRows := twoShards
  platformCases := [⟨"gfx94X".toList, [exampleCase], []⟩]
  createTable := true
  recreateTable := false

/-- The same run some time later. -/
def laterPublication : Publication :=
  { examplePublication with
    run := { exampleRun with timeUpdated := some "2026-01-01 06:00:00".toList, runAttempt := 2 } }

/-- The answer to the first insert is lost, and the call is made again. -/
def exampleCalls : List Attempt :=
  [⟨examplePublication, [.done, .lost]⟩, ⟨laterPublication, [.done, .done, .done]⟩]

theorem published_again_lost : ∃ table, tableAfter exampleCalls none = some table ∧
    ∀ x ∈ laterPublication.rows, x ∈ table.rows := by
  obtain ⟨table, htable, hkept, -⟩ := (published_again exampleCalls none).2
    [⟨examplePublication, [.done, .lost]⟩] ⟨laterPublication, [.done, .done, .done]⟩ [] rfl
    (by decide +kernel) (fun b hb => by cases hb)
  refine ⟨table, htable, fun x hx => ?_⟩
  obtain ⟨y, hy, -, hfrom⟩ := hkept x hx
  rcases hfrom with rfl | ⟨b, hb, -⟩
  · exact hy
  · cases hb

end

end Results
end RocmTests

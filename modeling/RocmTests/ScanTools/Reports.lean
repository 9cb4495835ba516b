import RocmTests.GithubActions.ChangedTests
import RocmTests.GithubActions.StepOutputs

/-!
# The reports of the scan tools

bandit, gitleaks, trivy and zizmor take a list of report formats, write a report for each,
and pass the paths on as outputs of the step: the SARIF report in one, all others in another.
-/

namespace RocmTests
namespace ScanTools

open Text GithubActions
open Markers (strip)

/-- `_ReportTarget`. -/
structure ReportTarget where
  fmt : Txt
  path : Txt

/-- A tool with its `_SUPPORTED_FORMATS`. -/
structure ScanTool where
  name : Txt
  supportedFormats : List (Txt × Txt)

def bandit : ScanTool where
  name := "bandit".toList
  supportedFormats := [("sarif".toList, "sarif".toList), ("json".toList, "json".toList),
    ("csv".toList, "csv".toList), ("html".toList, "html".toList), ("xml".toList, "xml".toList),
    ("yaml".toList, "yaml".toList), ("txt".toList, "txt".toList)]

def gitleaks : ScanTool where
  name := "gitleaks".toList
  supportedFormats := [("sarif".toList, "sarif".toList), ("json".toList, "json".toList),
    ("csv".toList, "csv".toList), ("junit".toList, "xml".toList)]

def trivy : ScanTool where
  name := "trivy".toList
  supportedFormats := [("sarif".toList, "sarif".toList), ("json".toList, "json".toList),
    ("table".toList, "txt".toList), ("cyclonedx".toList, "cdx.json".toList),
    ("spdx-json".toList, "spdx.json".toList), ("github".toList, "github.json".toList)]

def zizmor : ScanTool where
  name := "zizmor".toList
  supportedFormats := [("sarif".toList, "sarif".toList), ("json".toList, "json".toList),
    ("plain".toList, "txt".toList), ("github".toList, "txt".toList)]

def scanTools : List ScanTool := [bandit, gitleaks, trivy, zizmor]

/-- `", ".join(ts)`. -/
def joinComma : List Txt → Txt
  | [] => []
  | [t] => t
  | t :: ts => t ++ ", ".toList ++ joinComma ts

/-! ## `_parse_report_formats` -/

section Parse
variable (tool : ScanTool)

def expectedFormats : Txt := joinComma (sortSet (tool.supportedFormats.map Prod.fst))

def invalidFormat (fmt : Txt) : Txt :=
  "Invalid report_format '".toList ++ fmt ++ "' (expected one of: ".toList ++
    expectedFormats tool ++ ")".toList

def emptyFormats : Txt :=
  "report_formats is empty (expected one or more of: ".toList ++ expectedFormats tool ++
    ")".toList

def reportPath (ext : Txt) : Txt := tool.name ++ "-report.".toList ++ ext

/-- The targets of the formats that are left, after those in `seen`. -/
def targetsFrom (seen : List Txt) : List Txt → Except Txt (List ReportTarget)
  | [] => .ok []
  | rawFmt :: rest =>
    let fmt := strip rawFmt
    if fmt = [] ∨ fmt ∈ seen then targetsFrom seen rest
    else
      match tool.supportedFormats.lookup fmt with
      | none => .error (invalidFormat tool fmt)
      | some ext => (targetsFrom (fmt :: seen) rest).map (⟨fmt, reportPath tool ext⟩ :: ·)

def parseReportFormats (raw : Txt) : Except Txt (List ReportTarget) :=
  match targetsFrom tool [] (raw.splitOn ',') with
  | .error message => .error message
  | .ok [] => .error (emptyFormats tool)
  | .ok (t :: ts) => .ok (t :: ts)

end Parse

/-! ## Outputs -/

def isSarif (t : ReportTarget) : Bool := t.fmt = "sarif".toList

def nonSarif (targets : List ReportTarget) : List ReportTarget :=
  targets.filter fun t => !isSarif t

def sarifPath (targets : List ReportTarget) : Txt := ((targets.find? isSarif).map (·.path)).getD []

/-- What `main` passes to `gha_set_output`.  Without a diff range `files` is `none`, as it
always is in gitleaks. -/
def stepOutputs (files : Option (List Txt)) (targets : List ReportTarget) : Outputs :=
  if files = some [] then [("sarif_path".toList, []), ("non_sarif_paths".toList, [])]
  else
    [("sarif_path".toList, sarifPath targets),
      ("non_sarif_paths".toList, joinLines ((nonSarif targets).map (·.path)))]

theorem stepOutputs_names (files : Option (List Txt)) (targets : List ReportTarget) :
    (stepOutputs files targets).map Prod.fst = ["sarif_path".toList, "non_sarif_paths".toList] := by
  unfold stepOutputs
  split <;> rfl

theorem reportPath_newline_free {tool : ScanTool} (htool : tool ∈ scanTools) {fmt ext : Txt}
    (h : tool.supportedFormats.lookup fmt = some ext) : '\n' ∉ reportPath tool ext := by
  obtain ⟨l₁, l₂, heq, -⟩ := List.lookup_eq_some_iff.1 h
  have hmem : (fmt, ext) ∈ tool.supportedFormats := by rw [heq]; simp
  have hall : ∀ tool ∈ scanTools, ∀ p ∈ tool.supportedFormats, '\n' ∉ reportPath tool p.2 := by
    decide
  exact hall tool htool _ hmem

theorem targetsFrom_newline_free {tool : ScanTool} (htool : tool ∈ scanTools) (raws : List Txt) :
    ∀ (seen : List Txt) (targets : List ReportTarget), targetsFrom tool seen raws = .ok targets →
      ∀ t ∈ targets, '\n' ∉ t.path := by
  induction raws with
  | nil =>
    intro seen targets h
    cases h
    exact fun t ht => absurd ht List.not_mem_nil
  | cons rawFmt rest ih =>
    intro seen targets h
    rw [targetsFrom] at h
    split_ifs at h
    · exact ih seen targets h
    · cases hlookup : tool.supportedFormats.lookup (strip rawFmt) with
      | none =>
        simp only [hlookup] at h
        cases h
      | some ext =>
        simp only [hlookup] at h
        cases hrest : targetsFrom tool (strip rawFmt :: seen) rest with
        | error message =>
          rw [hrest] at h
          cases h
        | ok found =>
          rw [hrest] at h
          cases h
          intro t ht
          rcases List.mem_cons.1 ht with rfl | ht
          · exact reportPath_newline_free htool hlookup
          · exact ih _ found hrest t ht

theorem parseReportFormats_newline_free {tool : ScanTool} (htool : tool ∈ scanTools) {raw : Txt}
    {targets : List ReportTarget} (h : parseReportFormats tool raw = .ok targets) :
    ∀ t ∈ targets, '\n' ∉ t.path := by
  unfold parseReportFormats at h
  split at h
  · cases h
  · cases h
  · next heq =>
    cases h
    exact targetsFrom_newline_free htool _ _ _ heq

theorem newline_mem_joinLines {ls : List Txt} (h : ∀ l ∈ ls, '\n' ∉ l) :
    '\n' ∈ joinLines ls ↔ 2 ≤ ls.length := by
  cases ls with
  | nil => simp [joinLines]
  | cons l ls =>
    cases ls with
    | nil => simpa [joinLines] using h
    | cons l' ls => simp [joinLines]

/-- A run of a tool passes its outputs on intact exactly when there is nothing to scan or
at most one report is not SARIF. -/
theorem stepOutputs_readsBack_iff {tool : ScanTool} (htool : tool ∈ scanTools) {raw : Txt}
    {targets : List ReportTarget} (h : parseReportFormats tool raw = .ok targets)
    (files : Option (List Txt)) :
    ReadsBack (outputText (stepOutputs files targets)) (stepOutputs files targets) ↔
      files = some [] ∨ (nonSarif targets).length ≤ 1 := by
  have hpaths := parseReportFormats_newline_free htool h
  have hkeys : ((stepOutputs files targets).map Prod.fst).Nodup := by
    rw [stepOutputs_names]
    decide
  have hnames : ∀ p ∈ stepOutputs files targets, PlainName p.1 := by
    intro p hp
    have hfst : p.1 ∈ (stepOutputs files targets).map Prod.fst := List.mem_map_of_mem hp
    rw [stepOutputs_names] at hfst
    have hall : ∀ k ∈ ["sarif_path".toList, "non_sarif_paths".toList], PlainName k := by decide
    exact hall _ hfst
  have hsarif : '\n' ∉ sarifPath targets := by
    unfold sarifPath
    cases hfind : targets.find? isSarif with
    | none => exact List.not_mem_nil
    | some t => exact hpaths t (List.mem_of_find?_eq_some hfind)
  have hother : '\n' ∈ joinLines ((nonSarif targets).map (·.path)) ↔
      2 ≤ (nonSarif targets).length := by
    rw [newline_mem_joinLines, List.length_map]
    intro l hl
    obtain ⟨t, ht, rfl⟩ := List.mem_map.1 hl
    exact hpaths t (List.mem_of_mem_filter ht)
  have hvalues : (∀ p ∈ stepOutputs files targets, '\n' ∉ p.2) ↔
      files = some [] ∨ (nonSarif targets).length ≤ 1 := by
    unfold stepOutputs
    split_ifs with hfiles
    · simp [hfiles]
    · simp only [List.forall_mem_cons, hsarif, hother, hfiles, false_or, not_false_eq_true,
        true_and, not_le, Nat.lt_succ_iff]
      simp
  rw [← hvalues]
  exact ⟨newline_free_of_readsBack hkeys, readsBack_of_newline_free hnames⟩

/-- trivy with two formats that are not SARIF. -/
theorem json_and_table_misread : ¬ ∀ vars : Outputs, (∀ p ∈ vars, PlainName p.1) →
    (vars.map Prod.fst).Nodup → ∀ before, ∃ appended,
      ghaSetOutput vars (some before) = some (before ++ appended) ∧ ReadsBack appended vars := by
  intro h
  obtain ⟨appended, hfile, hreads⟩ := h
    [("sarif_path".toList, []),
      ("non_sarif_paths".toList, "trivy-report.json\ntrivy-report.txt".toList)]
    (by decide) (by decide) []
  rw [ghaSetOutput, Option.map_some, Option.some_inj, List.append_cancel_left_eq] at hfile
  rw [← hfile] at hreads
  exact absurd (newline_free_of_readsBack (by decide) hreads) (by decide)

example : (parseReportFormats trivy "json, table".toList).map (stepOutputs none) =
    .ok [("sarif_path".toList, []),
      ("non_sarif_paths".toList, "trivy-report.json\ntrivy-report.txt".toList)] := by
  decide

end ScanTools
end RocmTests

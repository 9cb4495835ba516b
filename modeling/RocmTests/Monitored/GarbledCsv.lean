import RocmTests.Monitored.CsvReaders
import RocmTests.Text.Utf8Chunks

/-!
# Garbled telemetry

Both readers of `power_temp.csv` open the file as text and pass over the rows that
`csv.reader` refuses.  Bytes that are not UTF-8 are refused by the decoder below it, when
the chunk they are in is read, and that error is not caught.
-/

namespace RocmTests
namespace Monitored

open Text
open Text.Csv (Row)
open Markers (strip)

/-! ## The calls of `next(reader)` -/

/-- The lines that are known to be over.  A `\r` at the end may become `\r\n`. -/
def completeLines (text : Txt) : List Txt :=
  if text.getLast? = some '\n' then Csv.keptLines text else (Csv.keptLines text).dropLast

/-- The records on complete lines, when there is no end of the file after them. -/
def recordsBefore (p : Csv.Parser) : List Txt → List (Option (List Txt))
  | [] => []
  | l :: ls =>
    match p.feedLine l with
    | none => none :: recordsBefore Csv.fresh ls
    | some p =>
      if p.state = .startRecord then some p.fields.reverse :: recordsBefore Csv.fresh ls
      else recordsBefore p ls

/-- What the calls of `next` do one after the other, and whether the call after them is a
`UnicodeDecodeError` and not the end of the file. -/
structure Calls where
  outcomes : List (Option Row)
  fails : Bool

/-- The calls on a file that is read in these chunks. -/
def callsOf (chunks : List Bytes) : Calls :=
  let (text, fails) := Utf8.decodeChunks [] chunks
  if fails then ⟨Csv.dictRowsFrom none (recordsBefore Csv.fresh (completeLines text)), true⟩
  else ⟨Csv.dictRows text, false⟩

/-! ## The two loops -/

/-- The loop of `load_csv_with_stats`; `none` is the error. -/
def loadCalls (fails : Bool) (rows : List AnalysisRow) (undecodable : Nat) :
    List (Option Row) → Option (List AnalysisRow × LoadStats)
  | [] =>
    if undecodable > maxCorruptRows then
      some (rows, { undecodableRows := undecodable, scanAborted := true })
    else if fails then none
    else some (rows, { undecodableRows := undecodable, scanAborted := false })
  | outcome :: rest =>
    if undecodable > maxCorruptRows then
      some (rows, { undecodableRows := undecodable, scanAborted := true })
    else
      match outcome with
      | none => loadCalls fails rows (undecodable + 1) rest
      | some r =>
        match analysisTime r with
        | none => loadCalls fails rows undecodable rest
        | some t => loadCalls fails (rows ++ [analysisRow r t]) undecodable rest

/-- `load_csv_with_stats` on a file that is there. -/
def loadCsvBytes (chunks : List Bytes) : Option (List AnalysisRow × LoadStats) :=
  loadCalls (callsOf chunks).fails [] 0 (callsOf chunks).outcomes

/-- The loop of `collect_monitoring_evidence`; `none` is the error. -/
def Collect.scanCalls (fails : Bool) (s : Collect) : List (Option Row) → Option Collect
  | [] =>
    if s.evidence.undecodableRows > maxCorruptRows then
      some (s.modify fun e => { e with scanAborted := true })
    else if fails then none
    else some s
  | outcome :: rest =>
    if s.evidence.undecodableRows > maxCorruptRows then
      some (s.modify fun e => { e with scanAborted := true })
    else
      match outcome with
      | none =>
        scanCalls fails (s.modify fun e => { e with undecodableRows := e.undecodableRows + 1 }) rest
      | some row => scanCalls fails (s.addRow row) rest

/-- The state of `collect_monitoring_evidence` after its loop. -/
def collectBytes (chunks : List Bytes) (coverageStart coverageEnd : Option Int) : Option Collect :=
  (Collect.start coverageStart coverageEnd).scanCalls (callsOf chunks).fails
    (callsOf chunks).outcomes

/-! ## What is promised -/

/-- The i-th call gives this row, and at most a hundred calls before it were refused. -/
structure Early (outcomes : List (Option Row)) (i : Nat) (row : Row) : Prop where
  read : outcomes[i]? = some (some row)
  before : (outcomes.take i).countP Option.isNone ≤ maxCorruptRows

/-- Neither function raises, and both keep the well-formed rows. -/
structure ScanSurvives (chunks : List Bytes) (coverageStart coverageEnd : Option Int) : Prop where
  collected : ∃ s, collectBytes chunks coverageStart coverageEnd = some s ∧
    ∀ i row, Early (callsOf chunks).outcomes i row → ∀ x, sampleOf row = some x → x ∈ s.samples
  loaded : ∃ r, loadCsvBytes chunks = some r ∧
    ∀ i row, Early (callsOf chunks).outcomes i row → ∀ t, analysisTime row = some t →
      analysisRow row t ∈ r.1

/-! ## The loops and the scans of a text -/

theorem loadCalls_eq (fails : Bool) (outcomes : List (Option Row)) :
    ∀ (rows : List AnalysisRow) (undecodable : Nat), loadCalls fails rows undecodable outcomes =
      if fails = true ∧ undecodableCount undecodable outcomes ≤ maxCorruptRows then none
      else some (loadScan rows undecodable outcomes) := by
  induction outcomes with
  | nil =>
    intro rows undecodable
    unfold loadCalls undecodableCount loadScan
    by_cases hstop : undecodable > maxCorruptRows
    · simp [hstop]
    · cases fails <;> simp [hstop]
  | cons outcome rest ih =>
    intro rows undecodable
    unfold loadCalls undecodableCount loadScan
    by_cases hstop : undecodable > maxCorruptRows
    · simp [hstop]
    · simp only [if_neg hstop]
      cases outcome with
      | none => exact ih rows (undecodable + 1)
      | some r =>
        cases ht : analysisTime r with
        | none =>
          simp only [ht]
          exact ih rows undecodable
        | some t =>
          simp only [ht]
          exact ih (rows ++ [analysisRow r t]) undecodable

theorem Collect.scanCalls_eq (fails : Bool) (outcomes : List (Option Row)) : ∀ s : Collect,
    s.scanCalls fails outcomes =
      if fails = true ∧ undecodableCount s.evidence.undecodableRows outcomes ≤ maxCorruptRows then
        none
      else some (s.scan outcomes) := by
  induction outcomes with
  | nil =>
    intro s
    unfold scanCalls undecodableCount scan
    by_cases hstop : s.evidence.undecodableRows > maxCorruptRows
    · simp [hstop]
    · cases fails <;> simp [hstop]
  | cons outcome rest ih =>
    intro s
    unfold scanCalls undecodableCount scan
    by_cases hstop : s.evidence.undecodableRows > maxCorruptRows
    · simp [hstop]
    · simp only [if_neg hstop]
      cases outcome with
      | none => exact ih _
      | some row =>
        have hrow := ih (s.addRow row)
        rw [(addRow_undecodable s row).1] at hrow
        exact hrow

theorem undecodableCount_le_iff (outcomes : List (Option Row)) : ∀ undecodable : Nat,
    undecodableCount undecodable outcomes ≤ maxCorruptRows ↔
      undecodable + outcomes.countP Option.isNone ≤ maxCorruptRows := by
  induction outcomes with
  | nil =>
    intro undecodable
    simp [undecodableCount]
  | cons outcome rest ih =>
    intro undecodable
    unfold undecodableCount
    by_cases hstop : undecodable > maxCorruptRows
    · rw [if_pos hstop]
      omega
    · rw [if_neg hstop]
      cases outcome with
      | none =>
        rw [List.countP_cons_of_pos rfl]
        simp only
        rw [ih]
        omega
      | some r =>
        rw [List.countP_cons_of_neg (by simp)]
        exact ih undecodable

/-- The scan reads every early row. -/
theorem mem_readRows (outcomes : List (Option Row)) : ∀ {undecodable i : Nat} {row : Row},
    outcomes[i]? = some (some row) →
      undecodable + (outcomes.take i).countP Option.isNone ≤ maxCorruptRows →
        row ∈ readRows undecodable outcomes := by
  induction outcomes with
  | nil =>
    intro undecodable i row hread
    simp at hread
  | cons outcome rest ih =>
    intro undecodable i row hread hbefore
    unfold readRows
    rw [if_neg (by omega)]
    cases i with
    | zero =>
      rw [List.getElem?_cons_zero, Option.some_inj] at hread
      subst hread
      exact List.mem_cons_self
    | succ i =>
      rw [List.getElem?_cons_succ] at hread
      rw [List.take_succ_cons] at hbefore
      cases outcome with
      | none =>
        rw [List.countP_cons_of_pos rfl] at hbefore
        exact ih hread (by omega)
      | some r =>
        rw [List.countP_cons_of_neg (by simp)] at hbefore
        exact List.mem_cons_of_mem _ (ih hread hbefore)

theorem callsOf_fails (chunks : List Bytes) :
    (callsOf chunks).fails = (Utf8.decodeChunks [] chunks).2 := by
  unfold callsOf
  cases h : (Utf8.decodeChunks [] chunks).2 <;> simp [h]

/-- The scans survive a file exactly if it is a text or they give up before the chunk that
is not. -/
theorem scanSurvives_iff (chunks : List Bytes) (coverageStart coverageEnd : Option Int) :
    ScanSurvives chunks coverageStart coverageEnd ↔
      (∃ text, chunks.flatten = Utf8.encode text) ∨
        maxCorruptRows < (callsOf chunks).outcomes.countP Option.isNone := by
  have hzero : (Collect.start coverageStart coverageEnd).evidence.undecodableRows = 0 := rfl
  have hload := loadCalls_eq (callsOf chunks).fails (callsOf chunks).outcomes [] 0
  have hscan := Collect.scanCalls_eq (callsOf chunks).fails (callsOf chunks).outcomes
    (Collect.start coverageStart coverageEnd)
  rw [hzero] at hscan
  simp only [undecodableCount_le_iff, Nat.zero_add] at hload hscan
  rw [callsOf_fails] at hload hscan
  rw [← Utf8.decodeChunks_eq_false_iff, ← Nat.not_le]
  constructor
  · intro h
    obtain ⟨r, hr, -⟩ := h.loaded
    unfold loadCsvBytes at hr
    rw [callsOf_fails, hload] at hr
    split_ifs at hr with hraise
    rw [not_and_or, Bool.not_eq_true] at hraise
    exact hraise
  · intro h
    have hgo : ¬ ((Utf8.decodeChunks [] chunks).2 = true ∧
        (callsOf chunks).outcomes.countP Option.isNone ≤ maxCorruptRows) := by
      rw [not_and_or, Bool.not_eq_true]
      exact h
    rw [if_neg hgo] at hload hscan
    constructor
    · refine ⟨_, by unfold collectBytes; rw [callsOf_fails, hscan], ?_⟩
      intro i row hearly x hx
      rw [(Collect.scan_eq (callsOf chunks).outcomes
        (Collect.start coverageStart coverageEnd) rfl).1]
      exact List.mem_append_right _ (List.mem_filterMap.mpr
        ⟨row, mem_readRows _ hearly.read (by rw [hzero, Nat.zero_add]; exact hearly.before), hx⟩)
    · refine ⟨_, by unfold loadCsvBytes; rw [callsOf_fails, hload], ?_⟩
      intro i row hearly t ht
      rw [loadScan_eq]
      refine List.mem_append_right _ (List.mem_filterMap.mpr
        ⟨row, mem_readRows _ hearly.read (by rw [Nat.zero_add]; exact hearly.before), ?_⟩)
      rw [ht]
      rfl

/-- A sample and a byte that is not UTF-8. -/
theorem garbled_raises :
    ¬ ScanSurvives [Utf8.encode "timestamp,gpu,power_usage\n100,0,250\n".toList ++ [0xFF]]
      none none := by
  intro h
  obtain ⟨r, hr, -⟩ := h.loaded
  have hraise : loadCsvBytes
      [Utf8.encode "timestamp,gpu,power_usage\n100,0,250\n".toList ++ [0xFF]] = none := by decide
  rw [hraise] at hr
  cases hr

end Monitored
end RocmTests

import RocmTests.Monitored.HipblasltLog

/-!
# The GEMM sweep and its validator agree

A sweep without a failed shape leaves a log that is accepted, and a failed shape
leaves a mark for which the log is rejected.
-/

namespace RocmTests
namespace Monitored
namespace Hipblaslt

open Text Text.Re Validation DmesgCategories
open Cudamemtest (isDecimal)
open Markers (isSpace strip)

variable {alnum : Char → Bool}

/-! ## The rows -/

theorem scanRows_append {ls ls' : List Txt} {n n' : Nat} {shapes shapes' : List Gemm}
    (h : scanRows alnum ls = some (n, shapes)) (h' : scanRows alnum ls' = some (n', shapes')) :
    scanRows alnum (ls ++ ls') = some (n + n', shapes ++ shapes') := by
  induction ls generalizing n shapes with
  | nil =>
    cases h
    rw [List.nil_append, h', Nat.zero_add, List.nil_append]
  | cons line ls ih =>
    rw [List.cons_append, scanRows]
    rw [scanRows] at h
    by_cases hrow : isDataRow alnum line = true
    · rw [if_pos hrow] at h ⊢
      cases hfields : fieldsOf line with
      | none =>
        rw [hfields] at h
        cases h
      | some fields =>
        rw [hfields] at h
        cases hrest : scanRows alnum ls with
        | none =>
          rw [hrest] at h
          cases h
        | some p =>
          rw [hrest] at h
          have heq := Option.some.inj h
          rw [Prod.mk.injEq] at heq
          rw [ih hrest]
          show some (p.1 + n' + 1, (shapeOf fields).toList ++ (p.2 ++ shapes')) = _
          rw [← heq.1, ← heq.2, List.append_assoc]
          congr 2
          omega
    · rw [if_neg hrow] at h ⊢
      exact ih h

theorem scanRows_skip {ls : List Txt} (h : ∀ t ∈ ls, isDataRow alnum t = false) :
    scanRows alnum ls = some (0, []) := by
  induction ls with
  | nil => rfl
  | cons line ls ih =>
    rw [scanRows, h line List.mem_cons_self]
    exact ih fun t ht => h t (List.mem_cons_of_mem _ ht)

/-- A result row states the shape. -/
def States (line : Txt) (g : Gemm) : Prop :=
  ∃ fields, fieldsOf line = some fields ∧ shapeOf fields = some g

theorem scanRows_row {line : Txt} {g : Gemm} (hrow : isDataRow alnum line = true)
    (h : States line g) : scanRows alnum [line] = some (1, [g]) := by
  obtain ⟨fields, hfields, hshape⟩ := h
  rw [scanRows, if_pos hrow, hfields, scanRows]
  show some (0 + 1, (shapeOf fields).toList ++ []) = _
  rw [hshape]
  rfl

theorem isDataRow_runningLine : isDataRow alnum runningLine = false := by
  have hline : runningLine = "  ".toList ++ ('R' :: runningLine.drop 3) := by decide
  rw [hline]
  exact isDataRow_eq_false (forall_of_all (by decide)) (by decide) (by decide) (by decide)

theorem isDataRow_summaryLine : isDataRow alnum (summaryLine totalShapes 0) = false := by
  have hline : summaryLine totalShapes 0 =
      "  ".toList ++ ('C' :: (summaryLine totalShapes 0).drop 3) := by decide
  rw [hline]
  exact isDataRow_eq_false (forall_of_all (by decide)) (by decide) (by decide) (by decide)

theorem isDataRow_of_isHeader {t : Txt} (h : isHeader alnum t = true) :
    isDataRow alnum t = false := by
  obtain ⟨z, rfl⟩ := head_of_isHeader h
  have hbracket : isDataRow alnum ([] ++ ('[' :: z)) = false :=
    isDataRow_eq_false (by simp) (by decide) (by decide) (by decide)
  exact hbracket

/-! ## The verdict -/

theorem fine_of_summary {ls : List Txt} (h : ∀ t ∈ ls, Fine alnum t) :
    ∀ t ∈ ls ++ [summaryLine totalShapes 0],
      IsLine t ∧ Calm (isWordChar alnum) t ∧ ¬ watchdogMark <:+: t ∧ ¬ warningMark <:+: t := by
  intro t ht
  rcases List.mem_append.mp ht with ht | ht
  · exact ⟨(h t ht).line, (h t ht).calm, (h t ht).watchdog, (h t ht).warning⟩
  · rw [List.mem_singleton.mp ht]
    exact ⟨isLine_of_decide (by decide), calm_summaryLine, by decide,
      by decide⟩

theorem searchFrom_summary {ls : List Txt} (h : ∀ t ∈ ls, Fine alnum t) :
    ∃ p m, searchFrom (isWordChar alnum) completedPattern []
      (unlines (ls ++ [summaryLine totalShapes 0])) = some (p, m) ∧
      m.group 1 = "19".toList ∧ m.group 2 = "19".toList ∧ m.group 3 = "0".toList := by
  have hbegins : BeginsWith (isWordChar alnum) completedPattern ('C' :: completedMark.tail) := by
    have hcons : completedMark = 'C' :: completedMark.tail := by decide
    rw [← hcons]
    exact (beginsWith_lit _).cat _
  have hquiet := quiet_of_not_completed (isWordChar alnum) (fun t ht => (h t ht).completed) []
  have hspaces : ∀ b y : Txt, Quiet (isWordChar alnum) completedPattern b [' ', ' '] y :=
    fun _ _ => hbegins.quiet_of_not_mem (by decide)
  have htext : unlines (ls ++ [summaryLine totalShapes 0]) =
      unlines ls ++ ([' ', ' '] ++ (summaryText ++ ['\n'])) := by
    have hline : summaryLine totalShapes 0 ++ ['\n'] = [' ', ' '] ++ (summaryText ++ ['\n']) := by
      decide
    rw [← hline]
    unfold unlines
    rw [List.flatMap_append, List.flatMap_cons, List.flatMap_nil, List.append_nil]
  have hne : summaryText ≠ [] := by decide
  rw [htext, searchFrom_quiet (hquiet _), searchFrom_quiet (hspaces _ _),
    searchFrom_takes hne takes_summary]
  exact ⟨_, _, rfl, rfl, rfl, rfl⟩

/-- A mark in the log is found by the pattern for it. -/
theorem findAll_ne_nil {s : String} {t : Txt} (h : s.toList <:+: t) (hne : s.toList ≠ []) :
    findAll (isWordChar alnum) (lit s) t ≠ [] := by
  intro hnil
  obtain ⟨p, q, rfl⟩ := h
  have hquiet := findAll_eq_nil_iff.mp hnil
  have hnone := hquiet p (s.toList ++ q) (List.append_assoc _ _ _) (by simp [hne])
  exact matchAt_eq_none_iff.mp hnone s.toList q (List.append_nil _) (matches_lit.mpr rfl)

theorem findAll_eq_nil {s : String} {t : Txt} (h : ¬ s.toList <:+: t) :
    findAll (isWordChar alnum) (lit s) t = [] := by
  rw [findAll_eq_nil_iff]
  intro u w huw hw
  rw [matchAt_eq_none_iff]
  intro m v hmv hm
  apply h
  rw [List.append_nil] at hmv
  exact ⟨u, v, by rw [huw, hmv, matches_lit.mp hm, List.append_assoc]⟩

/-- The log of a sweep in which every shape passed is accepted. -/
theorem accepts_of_fine {ls : List Txt} (hfine : ∀ t ∈ ls, Fine alnum t)
    (hscan : scanRows alnum ls = some (canonicalShapes.length, canonicalShapes)) :
    Accepts (validateHipblaslt alnum (logText (ls ++ [summaryLine totalShapes 0]))) := by
  have hall := fine_of_summary hfine
  have hlines : ∀ t ∈ ls ++ [summaryLine totalShapes 0], IsLine t :=
    fun t ht => (hall t ht).1
  have htext : logText (ls ++ [summaryLine totalShapes 0]) =
      unlines (ls ++ [summaryLine totalShapes 0]) :=
    logText_eq_unlines fun t ht => ⟨hlines t ht, ne_nil_of_calm (hall t ht).2.1⟩
  have hsummary : scanRows alnum [summaryLine totalShapes 0] = some (0, []) := by
    apply scanRows_skip
    intro t ht
    rw [List.mem_singleton.mp ht]
    exact isDataRow_summaryLine
  have hrows : scanRows alnum (splitlines (unlines (ls ++ [summaryLine totalShapes 0]))) =
      some (canonicalShapes.length, canonicalShapes) := by
    rw [splitlines_unlines hlines, scanRows_append hscan hsummary, List.append_nil]
    rfl
  have hne : unlines (ls ++ [summaryLine totalShapes 0]) ≠ [] := by
    unfold unlines
    rw [List.flatMap_append]
    simp
  have herr : findAll (isWordChar alnum) errPat (unlines (ls ++ [summaryLine totalShapes 0])) =
      [] :=
    findAll_eq_nil_iff.mpr (errPat_quiet_unlines (fun t ht => (hall t ht).2.1) [])
  have hmark : ∀ {mark : Txt}, '\n' ∉ mark → mark ≠ [] →
      (∀ t ∈ ls ++ [summaryLine totalShapes 0], ¬ mark <:+: t) →
      ¬ mark <:+: unlines (ls ++ [summaryLine totalShapes 0]) := by
    intro mark hnewline hmark hnone hinfix
    obtain ⟨t, ht, hinfix⟩ := infix_of_unlines hinfix hnewline hmark
    exact hnone t ht hinfix
  have hwatchdog : contains watchdogMark (unlines (ls ++ [summaryLine totalShapes 0])) = false := by
    by_contra h
    exact hmark (by decide) (by decide) (fun t ht => (hall t ht).2.2.1)
      (contains_eq_true_iff.mp (Bool.not_eq_false _ ▸ h))
  have hwarning : findAll (isWordChar alnum) shapeFailPattern
      (unlines (ls ++ [summaryLine totalShapes 0])) = [] := by
    exact findAll_eq_nil
      (hmark (by decide) (by decide) fun t ht => (hall t ht).2.2.2)
  obtain ⟨p, m, hsearch, hpassed, htotal, hfailed⟩ := searchFrom_summary hfine
  have hnineteen : parseInt "19".toList = some 19 := by decide
  have hzero : parseInt "0".toList = some 0 := by decide
  have hcheck : checkSummary 19 19 0 canonicalShapes.length canonicalShapes =
      ⟨passMessage canonicalShapes.length, false⟩ := by decide
  rw [htext]
  unfold validateHipblaslt
  rw [if_neg hne, hrows, herr, hwatchdog, hwarning, hsearch]
  simp only [List.length_nil, lt_irrefl, if_false, Bool.false_eq_true, Option.bind_eq_bind,
    Option.bind_some, hpassed, htotal, hfailed, hnineteen, hzero, hcheck]
  rfl

/-- The text bears the mark of a failed shape. -/
def Marked (t : Txt) : Prop := watchdogMark <:+: t ∨ warningMark <:+: t

/-- A log with the mark of a failed shape is not accepted. -/
theorem not_accepts_of_marked {ts : List Txt} {t : Txt} (ht : t ∈ ts) (h : Marked t) :
    ¬ Accepts (validateHipblaslt alnum (logText ts)) := by
  have hlog : ∀ {mark : Txt}, '\r' ∉ mark → '\n' ∉ mark → mark <:+: t → mark <:+: logText ts := by
    intro mark hr hn hmark
    obtain ⟨pre, post, rfl⟩ := List.append_of_mem ht
    rw [logText_eq, List.flatMap_append, List.flatMap_cons]
    exact (isInfix_logged hmark hr hn).trans ⟨_, _, List.append_assoc _ _ _⟩
  have hmarks : Marked (logText ts) := by
    rcases h with h | h
    · exact Or.inl (hlog (by decide) (by decide) h)
    · exact Or.inr (hlog (by decide) (by decide) h)
  have hne : logText ts ≠ [] := by
    intro hnil
    rw [hnil] at hmarks
    rcases hmarks with h | h
    · have hempty := List.infix_nil.mp h
      revert hempty
      decide
    · have hempty := List.infix_nil.mp h
      revert hempty
      decide
  intro haccepts
  unfold validateHipblaslt at haccepts
  rw [if_neg hne] at haccepts
  cases hscan : scanRows alnum (splitlines (logText ts)) with
  | none =>
    rw [hscan] at haccepts
    exact not_accepts_none haccepts
  | some p =>
    rw [hscan] at haccepts
    simp only [Option.bind_eq_bind, Option.bind_some] at haccepts
    split_ifs at haccepts with herr hwatchdog hwarning
    · exact not_accepts_failed haccepts
    · exact not_accepts_failed haccepts
    · exact not_accepts_failed haccepts
    · exfalso
      rcases hmarks with h | h
      · exact hwatchdog (contains_eq_true_iff.mpr h)
      · exact hwarning (List.length_pos_iff.mpr (findAll_ne_nil h (by decide)))
    · exfalso
      rcases hmarks with h | h
      · exact hwatchdog (contains_eq_true_iff.mpr h)
      · exact hwarning (List.length_pos_iff.mpr (findAll_ne_nil h (by decide)))

/-! ## One shape -/

theorem watchdogMark_isInfix (shapeNum : Nat) (g : Gemm) (timeout : Option Int) :
    watchdogMark <:+: watchdogLine shapeNum g timeout := by
  unfold watchdogLine
  generalize " — shape ".toList = x₁
  generalize " did not complete within --per-iter-watchdog ".toList = x₂
  generalize watchdogMark = mark
  refine ⟨"  ".toList, x₁ ++ showNat shapeNum ++ '/' :: showNat totalShapes ++ ' ' :: showShape g ++
    x₂ ++ Cudamemtest.showOption timeout ++ ['s'], ?_⟩
  simp only [List.append_assoc]

theorem marked_warningLine (shapeNum : Nat) (g : Gemm) (what : Txt) :
    Marked (warningLine shapeNum g what) := by
  right
  unfold warningLine
  generalize warningMark = mark
  refine ⟨"  ".toList, ' ' :: showNat shapeNum ++ '/' :: showNat totalShapes ++
    ' ' :: showShape g ++ ' ' :: what, ?_⟩
  simp only [List.append_assoc]

variable {e : Env}

/-- What a shape adds to the log: the mark of a failure, or its row, perhaps behind
a header. -/
theorem runShape_cases (alnum : Char → Bool) (e : Env) (g : Gemm) (shapeNum : Nat)
    (printHeader : Bool) :
    ((e.runShape alnum g shapeNum printHeader).1 = false ∧
      ∃ t ∈ (e.runShape alnum g shapeNum printHeader).2, Marked t) ∨
    ((e.runShape alnum g shapeNum printHeader).1 = true ∧ e.exitCode (shapeNum - 1) = 0 ∧
      ∃ header line, (e.runShape alnum g shapeNum printHeader).2 = header ++ [line] ∧
        dataLine alnum (e.output (shapeNum - 1)) = some line ∧
        ∀ t ∈ header, headerLine alnum (e.output (shapeNum - 1)) = some t) := by
  unfold Env.runShape
  simp only
  by_cases hwatchdog : e.exitCode (shapeNum - 1) = 124
  · rw [if_pos hwatchdog]
    exact Or.inl ⟨rfl, _, List.mem_cons_self, Or.inl (watchdogMark_isInfix _ _ _)⟩
  · rw [if_neg hwatchdog]
    by_cases herror : e.exitCode (shapeNum - 1) ≠ 0
    · rw [if_pos herror]
      exact Or.inl ⟨rfl, _, List.mem_cons_self, marked_warningLine _ _ _⟩
    · rw [if_neg herror]
      cases hdata : dataLine alnum (e.output (shapeNum - 1)) with
      | none =>
        exact Or.inl ⟨rfl, _, List.mem_append_right _ (List.mem_singleton_self _),
          marked_warningLine _ _ _⟩
      | some line =>
        refine Or.inr ⟨rfl, not_not.mp herror, _, line, rfl, rfl, ?_⟩
        intro t ht
        cases hheader : headerLine alnum (e.output (shapeNum - 1)) with
        | none =>
          rw [hheader] at ht
          cases ht
        | some line' =>
          rw [hheader] at ht
          simp only at ht
          split_ifs at ht
          · rw [List.mem_singleton.mp ht]
          · cases ht

/-! ## The run -/

/-- The output of the benchmark holds no mark of the harness and no error pattern. -/
def Silent (alnum : Char → Bool) (output : Txt) : Prop :=
  Unmarked output ∧ found alnum errPat output = false

/-- Where a shape succeeds with a result row, the row states the shape. -/
def Env.StatesShapes (alnum : Char → Bool) (e : Env) : Prop :=
  ∀ (k : Nat) (g : Gemm) (line : Txt), canonicalShapes[k]? = some g → e.exitCode k = 0 →
    dataLine alnum (e.output k) = some line → States line g

/-- The state after the shapes `done`. -/
structure Swept (alnum : Char → Bool) (done : List Gemm) (s : State) : Prop where
  shapeNum : s.shapeNum = done.length
  counted : s.passed + s.failed = done.length
  fine : s.failed = 0 → ∀ t ∈ s.log, Fine alnum t
  rows : s.failed = 0 → scanRows alnum s.log = some (done.length, done)
  marked : 0 < s.failed → ∃ t ∈ s.log, Marked t

theorem swept_start : Swept alnum [] Env.start where
  shapeNum := rfl
  counted := rfl
  fine := by
    intro _ t ht
    rw [List.mem_singleton.mp ht]
    exact fine_runningLine
  rows := by
    intro _
    apply scanRows_skip
    intro t ht
    rw [List.mem_singleton.mp ht]
    exact isDataRow_runningLine
  marked := fun h => absurd h (Nat.lt_irrefl 0)

/-- One shape. -/
theorem Swept.step {done : List Gemm} {s : State} (h : Swept alnum done s)
    (hsilent : Silent alnum (e.output s.shapeNum)) {g : Gemm} (printHeader : Bool)
    (hstates : e.exitCode s.shapeNum = 0 → ∀ line,
      dataLine alnum (e.output s.shapeNum) = some line → States line g) :
    Swept alnum (done ++ [g])
      { shapeNum := s.shapeNum + 1
        passed := if (e.runShape alnum g (s.shapeNum + 1) printHeader).1 then s.passed + 1
          else s.passed
        failed := if (e.runShape alnum g (s.shapeNum + 1) printHeader).1 then s.failed
          else s.failed + 1
        log := s.log ++ (e.runShape alnum g (s.shapeNum + 1) printHeader).2 } := by
  have hlen : (done ++ [g]).length = done.length + 1 := List.length_append
  have hnum := h.shapeNum
  have hcount := h.counted
  rcases runShape_cases alnum e g (s.shapeNum + 1) printHeader with
    ⟨hfailed, t, ht, hmark⟩ | ⟨hpassed, hcode, header, line, hlog, hdata, hheader⟩
  · rw [hfailed]
    refine ⟨?_, ?_, ?_, ?_, ?_⟩
    · show s.shapeNum + 1 = _
      omega
    · show s.passed + (s.failed + 1) = _
      omega
    · exact fun hzero => absurd hzero (Nat.succ_ne_zero s.failed)
    · exact fun hzero => absurd hzero (Nat.succ_ne_zero s.failed)
    · exact fun _ => ⟨t, List.mem_append_right _ ht, hmark⟩
  · rw [hpassed, hlog]
    simp only [Nat.add_sub_cancel] at hcode hdata hheader
    have hrow : isDataRow alnum line = true := List.find?_some hdata
    have hheaderRow : ∀ t ∈ header, isHeader alnum t = true :=
      fun t ht => List.find?_some (hheader t ht)
    have hfine : ∀ t ∈ header ++ [line], Fine alnum t := by
      intro t ht
      rcases List.mem_append.mp ht with ht | ht
      · exact fine_of_output (List.mem_of_find?_eq_some (hheader t ht)) hsilent.1 hsilent.2
          (Or.inl (hheaderRow t ht))
      · rw [List.mem_singleton.mp ht]
        exact fine_of_output (List.mem_of_find?_eq_some hdata) hsilent.1 hsilent.2 (Or.inr hrow)
    have hscan : scanRows alnum (header ++ [line]) = some (1, [g]) := by
      have hskip := scanRows_skip fun t ht => isDataRow_of_isHeader (hheaderRow t ht)
      exact scanRows_append hskip (scanRows_row hrow (hstates hcode line hdata))
    refine ⟨?_, ?_, ?_, ?_, ?_⟩
    · show s.shapeNum + 1 = _
      omega
    · show s.passed + 1 + s.failed = _
      omega
    · intro hzero t ht
      rcases List.mem_append.mp ht with ht | ht
      · exact h.fine hzero t ht
      · exact hfine t ht
    · intro hzero
      rw [hlen]
      exact scanRows_append (h.rows hzero) hscan
    · intro hpos
      obtain ⟨t, ht, hmark⟩ := h.marked hpos
      exact ⟨t, List.mem_append_left _ ht, hmark⟩

/-- One of the two loops. -/
theorem Swept.loop (hsilent : ∀ k < totalShapes, Silent alnum (e.output k))
    (hstates : e.StatesShapes alnum) (transB : Char) (first : Bool)
    (shapes : List (Int × Int × Int × Int)) (more : List Gemm) :
    ∀ {done : List Gemm} {s : State}, Swept alnum done s →
      canonicalShapes = done ++ (shapes.map (gemm transB) ++ more) →
      Swept alnum (done ++ shapes.map (gemm transB)) (e.loop alnum transB first s shapes) := by
  induction shapes with
  | nil =>
    intro done s h _
    rw [List.map_nil, List.append_nil]
    exact h
  | cons shape shapes ih =>
    intro done s h hcanonical
    rw [List.map_cons, List.cons_append] at hcanonical
    have hget : canonicalShapes[s.shapeNum]? = some (gemm transB shape) := by
      rw [hcanonical, h.shapeNum, List.getElem?_append_right (le_refl _), Nat.sub_self]
      rfl
    have hlt : s.shapeNum < totalShapes := by
      obtain ⟨hlt, _⟩ := List.getElem?_eq_some_iff.mp hget
      exact hlt
    have hsplit : canonicalShapes =
        (done ++ [gemm transB shape]) ++ (shapes.map (gemm transB) ++ more) := by
      rw [hcanonical, List.append_assoc]
      rfl
    have hstep := h.step (hsilent _ hlt) (first && s.shapeNum + 1 = 1)
      fun hcode line hline => hstates _ _ line hget hcode hline
    have hrest := ih hstep hsplit
    rw [List.append_assoc] at hrest
    exact hrest

/-- The sweep passes exactly if its log is accepted. -/
theorem run_iff_accepts (hsilent : ∀ k < totalShapes, Silent alnum (e.output k))
    (hstates : e.StatesShapes alnum) :
    (e.run alnum).1 = 0 ↔ Accepts (validateHipblaslt alnum (logText (e.run alnum).2)) := by
  have hnn := Swept.loop hsilent hstates 'N' true nnShapes (ntShapes.map (gemm 'T'))
    swept_start rfl
  have hnt := Swept.loop hsilent hstates 'T' false ntShapes [] hnn
    (List.append_nil _).symm
  unfold Env.run
  generalize e.loop alnum 'T' false (e.loop alnum 'N' true Env.start nnShapes) ntShapes = s at hnt
  have hcount : s.passed + s.failed = totalShapes := hnt.counted
  simp only
  by_cases hfailed : 0 < s.failed
  · rw [if_pos hfailed]
    obtain ⟨t, ht, hmark⟩ := hnt.marked hfailed
    exact iff_of_false (by decide) (not_accepts_of_marked (List.mem_append_left _ ht) hmark)
  · rw [if_neg hfailed]
    have hzero : s.failed = 0 := by omega
    have hpassed : s.passed = totalShapes := by omega
    rw [hzero, hpassed]
    exact iff_of_true rfl (accepts_of_fine (hnt.fine hzero) (hnt.rows hzero))

end Hipblaslt
end Monitored
end RocmTests

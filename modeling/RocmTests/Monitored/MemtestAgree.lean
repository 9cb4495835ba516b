import RocmTests.Monitored.MemtestErrors

/-!
# The memory test and its validator agree

The verdict on a log is expressed by the lines that the run wrote, and the lines
that the run wrote by the exit codes of its sub-tests.
-/

namespace RocmTests
namespace Monitored
namespace Cudamemtest

open Text Text.Re Validation DmesgCategories
open Markers (digitValue isSpace)

variable {alnum : Char → Bool}

/-! ## Reading the numbers back -/

/-- A numeral is read back or not read at all. -/
theorem parseInt_showNat (n : Nat) :
    parseInt (showNat n) = none ∨ parseInt (showNat n) = some (n : Int) := parseInt_showInt n

/-- What the loop over the ended sub-tests does with one of them. -/
def readEnded (p : Nat × Int) : Option (Int × Int) := do
  let testId ← parseInt (showNat p.1)
  let rc ← parseInt (showInt p.2)
  return (testId, rc)

def asRead (p : Nat × Int) : Int × Int := (p.1, p.2)

theorem readEnded_eq (p : Nat × Int) : readEnded p = none ∨ readEnded p = some (asRead p) := by
  unfold readEnded
  rcases parseInt_showNat p.1 with h | h
  · rw [h]
    exact Or.inl rfl
  · rw [h]
    rcases parseInt_showInt p.2 with h' | h'
    · rw [h']
      exact Or.inl rfl
    · rw [h']
      exact Or.inr rfl

theorem completed_log {entries : List Entry} (h : ∀ l ∈ entries, l.Ok) :
    completed alnum (log entries) = (entries.filterMap Entry.ended).mapM readEnded := by
  have hfind := congrArg (List.mapM fun g : Txt × Txt => do
    let testId ← parseInt g.1
    let rc ← parseInt g.2
    return (testId, rc)) (findAll_finished (isWordChar alnum) h)
  rw [List.mapM_map, List.mapM_map] at hfind
  exact hfind

theorem mapM_readEnded {ps : List (Nat × Int)} {done : List (Int × Int)}
    (h : ps.mapM readEnded = some done) : done = ps.map asRead := by
  induction ps generalizing done with
  | nil =>
    rw [List.mapM_nil] at h
    exact (Option.some.inj h).symm
  | cons p ps ih =>
    rw [List.mapM_cons] at h
    rcases readEnded_eq p with hp | hp
    · rw [hp] at h
      cases h
    · rw [hp] at h
      cases hps : ps.mapM readEnded with
      | none =>
        rw [hps] at h
        cases h
      | some rest =>
        rw [hps] at h
        rw [List.map_cons, ← ih hps]
        exact (Option.some.inj h).symm

theorem mapM_readEnded_some {ps : List (Nat × Int)}
    (h : ∀ p ∈ ps, readEnded p = some (asRead p)) : ps.mapM readEnded = some (ps.map asRead) := by
  induction ps with
  | nil => rfl
  | cons p ps ih =>
    rw [List.mapM_cons, h p List.mem_cons_self, ih fun q hq => h q (List.mem_cons_of_mem _ hq)]
    rfl

/-! ## The verdict -/

theorem log_ne_nil {entries : List Entry} {l : Entry} (hl : l ∈ entries)
    (hout : l.isOutput = false) : log entries ≠ [] := by
  obtain ⟨pre, post, rfl⟩ := List.append_of_mem hl
  rw [log_eq, List.flatMap_append, List.flatMap_cons, logged_harness hout]
  simp

/-- A coverage line that is accepted counts all sub-tests, and none of them failed. -/
theorem of_checkCoverage {entries : List Entry} {ran total : Int} (hok : ∀ l ∈ entries, l.Ok)
    (h : Accepts (checkCoverage alnum (log entries) ran total)) :
    ran = total ∧ ∀ p ∈ entries.filterMap Entry.ended, p.2 = 0 := by
  unfold checkCoverage at h
  split_ifs at h with hpos hless hmore
  · exact absurd h not_accepts_failed
  · exact absurd h not_accepts_failed
  · exact absurd h not_accepts_failed
  · refine ⟨by omega, ?_⟩
    cases hexpected : expectedOf total with
    | none =>
      rw [hexpected] at h
      exact absurd h not_accepts_failed
    | some expected =>
      rw [hexpected] at h
      cases hdone : completed alnum (log entries) with
      | none =>
        rw [hdone] at h
        exact absurd h not_accepts_none
      | some done =>
        rw [hdone] at h
        rw [completed_log hok] at hdone
        have hread := mapM_readEnded hdone
        intro p hp
        by_contra hrc
        have hany : (done.any fun p => p.2 ≠ 0) = true := by
          rw [List.any_eq_true]
          refine ⟨asRead p, ?_, decide_eq_true hrc⟩
          rw [hread]
          exact List.mem_map_of_mem hp
        have hbad : done.map Prod.fst ≠ expected ∨ (done.any fun p => p.2 ≠ 0) = true :=
          Or.inr hany
        simp only [Option.bind_eq_bind, Option.bind_some, if_pos hbad] at h
        exact absurd h not_accepts_failed

/-- A log that is accepted counts all sub-tests, and none of them failed. -/
theorem of_accepts {pre post : List Entry} {ran total : Nat} {rc : Int}
    (hok : ∀ l ∈ pre ++ .coverage ran total rc :: post, l.Ok)
    (hpre : ∀ l ∈ pre, l.isCoverage = false)
    (h : Accepts (validateCudamemtest alnum (log (pre ++ .coverage ran total rc :: post)))) :
    ran = total ∧
      ∀ p ∈ (pre ++ .coverage ran total rc :: post).filterMap Entry.ended, p.2 = 0 := by
  have hne : log (pre ++ .coverage ran total rc :: post) ≠ [] :=
    log_ne_nil (l := .coverage ran total rc) (List.mem_append_right pre List.mem_cons_self) rfl
  obtain ⟨p, m, hsearch, hran, htotal⟩ := searchFrom_coverage (isWordChar alnum) post ran total rc
    (fun l hl => hok l (List.mem_append_left _ hl)) hpre
  unfold validateCudamemtest validateMemtest at h
  rw [if_neg hne] at h
  simp only at h
  split_ifs at h
  · exact absurd h not_accepts_failed
  · exact absurd h not_accepts_failed
  · exact absurd h not_accepts_failed
  · rw [hsearch] at h
    simp only [hran, htotal] at h
    rcases parseInt_showNat ran with hr | hr
    · rw [hr] at h
      exact absurd h not_accepts_none
    · rcases parseInt_showNat total with ht | ht
      · rw [hr, ht] at h
        exact absurd h not_accepts_none
      · rw [hr, ht] at h
        obtain ⟨heq, hall⟩ := of_checkCoverage hok h
        exact ⟨by omega, hall⟩

theorem Progress.initial_ne {entries : List Entry} (h : Progress alnum entries) :
    ∀ l ∈ entries, l.initial ≠ 'F' ∧ l.isCoverage = false := by
  induction h with
  | start => simp
  | test _ _ ih =>
    intro l hl
    rcases List.mem_append.mp hl with hl | hl
    · exact ih l hl
    · simp only [List.mem_cons, List.not_mem_nil, or_false] at hl
      rcases hl with rfl | rfl
      · exact ⟨(by decide : (' ' : Char) ≠ 'F'), rfl⟩
      · exact ⟨(by decide : ('e' : Char) ≠ 'F'), rfl⟩

/-- The sub-tests in order, all with exit code zero. -/
def allPassed (includeBitFade : Bool) : List (Nat × Int) :=
  (subTests includeBitFade).map fun testNum => (testNum, 0)

theorem readEnded_allPassed (includeBitFade : Bool) :
    ∀ p ∈ allPassed includeBitFade, readEnded p = some (asRead p) := by
  cases includeBitFade <;> decide

theorem expectedOf_subTests (includeBitFade : Bool) :
    expectedOf ((subTests includeBitFade).length : Nat) =
      some (((allPassed includeBitFade).map asRead).map Prod.fst) := by
  cases includeBitFade <;> decide

theorem parseInt_total (includeBitFade : Bool) :
    parseInt (showNat (subTests includeBitFade).length) =
      some ((subTests includeBitFade).length : Int) := by
  cases includeBitFade <;> decide

/-- The log of a run in which every sub-test passed is accepted. -/
theorem accepts_of_progress {entries : List Entry} {includeBitFade : Bool}
    (hprogress : Progress alnum entries) (hok : ∀ l ∈ entries, l.Ok)
    (hended : entries.filterMap Entry.ended = allPassed includeBitFade) :
    Accepts (validateCudamemtest alnum (log (entries ++
      [.coverage (subTests includeBitFade).length (subTests includeBitFade).length 0]))) := by
  generalize hcov : Entry.coverage (subTests includeBitFade).length
    (subTests includeBitFade).length 0 = line
  have hout : line.isOutput = false := by rw [← hcov]; rfl
  have hall : ∀ l ∈ entries ++ [line], l.Ok ∧ l.initial ≠ 'F' := by
    intro l hl
    rcases List.mem_append.mp hl with hl | hl
    · exact ⟨hok l hl, (hprogress.initial_ne l hl).1⟩
    · rw [List.mem_singleton.mp hl, ← hcov]
      exact ⟨trivial, (by decide : ('R' : Char) ≠ 'F')⟩
  have hne : log (entries ++ [line]) ≠ [] :=
    log_ne_nil (List.mem_append_right entries (List.mem_singleton_self line)) hout
  have hhmm : found alnum hmmWatchdog (log (entries ++ [line])) = false :=
    hmmWatchdog_not_found fun l hl => (hall l hl).1
  have hwatchdog : found alnum memtestWatchdog (log (entries ++ [line])) = false :=
    memtestWatchdog_not_found (fun l hl => (hall l hl).1) fun l hl => (hall l hl).2
  have herr : findAll (isWordChar alnum) errPat (log (entries ++ [line])) = [] := by
    rw [← hcov]
    exact errPat_not_found hprogress _ _ _
  obtain ⟨p, m, hsearch, hran, htotal⟩ := searchFrom_coverage (isWordChar alnum) []
    (subTests includeBitFade).length (subTests includeBitFade).length 0 hok
    fun l hl => (hprogress.initial_ne l hl).2
  rw [hcov] at hsearch
  have hcompleted : completed alnum (log (entries ++ [line])) =
      some ((allPassed includeBitFade).map asRead) := by
    rw [completed_log fun l hl => (hall l hl).1, List.filterMap_append, hended, ← hcov]
    show (allPassed includeBitFade ++ []).mapM readEnded = _
    rw [List.append_nil]
    exact mapM_readEnded_some (readEnded_allPassed includeBitFade)
  have hzero : (((allPassed includeBitFade).map asRead).any fun p => p.2 ≠ 0) = false := by
    cases includeBitFade <;> decide
  have hpos : ¬ ((subTests includeBitFade).length : Int) ≤ 0 := by
    cases includeBitFade <;> decide
  unfold validateCudamemtest validateMemtest
  rw [if_neg hne, hhmm, hwatchdog, herr, hsearch]
  simp only [Bool.false_eq_true, if_false, List.length_nil, lt_irrefl, hran, htotal,
    parseInt_total, Option.bind_eq_bind, Option.bind_some]
  unfold checkCoverage
  rw [if_neg hpos, if_neg (lt_irrefl _), if_neg (lt_irrefl _), expectedOf_subTests, hcompleted]
  simp only [Option.bind_eq_bind, Option.bind_some, hzero, ne_eq, not_true_eq_false,
    Bool.false_eq_true, or_self, if_false]
  rfl

/-! ## The run -/

/-- The clock does not go backwards. -/
def Env.Monotonic (e : Env) : Prop := ∀ i, e.clock i ≤ e.clock (i + 1)

/-- The output of a sub-test holds no mark of a harness, and, as it stands in the
log before the tag of the next harness line, no error pattern. -/
def Silent (alnum : Char → Bool) (output : Txt) : Prop :=
  Unmarked output ∧ found alnum errPat (logged output ++ tag) = false

/-- The log after the sub-tests `done`. -/
structure Covers (alnum : Char → Bool) (done : List Nat) (s : State) : Prop where
  ran : s.ran = done.length
  ok : ∀ l ∈ s.log, l.Ok
  uncovered : ∀ l ∈ s.log, l.isCoverage = false
  tests : (s.log.filterMap Entry.ended).map Prod.fst = done
  passed : s.firstFailRc = 0 ↔ ∀ p ∈ s.log.filterMap Entry.ended, p.2 = 0
  progress : s.firstFailRc = 0 → Progress alnum s.log

theorem covers_start : Covers alnum [] Env.start where
  ran := rfl
  ok := by simp [Env.start]
  uncovered := by simp [Env.start]
  tests := rfl
  passed := by simp [Env.start]
  progress := fun _ => .start

variable {e : Env}

/-- One sub-test, with what the run writes about its failure. -/
theorem Covers.execute {done : List Nat} {s : State} (h : Covers alnum done s)
    (hclock : e.Monotonic) (hsilent : Silent alnum (e.output s.ran)) (testNum : Nat)
    {extra : List Entry} {code : Int}
    (hextra : ∀ l ∈ extra, l.Ok ∧ l.isCoverage = false ∧ l.ended = none)
    (hcode : code = 0 ↔ s.firstFailRc = 0 ∧ e.rc s.ran = 0) (hnone : code = 0 → extra = []) :
    Covers alnum (done ++ [testNum]) { e.execute s testNum with
      log := (e.execute s testNum).log ++ extra
      firstFailRc := code } := by
  have hdur : 0 ≤ e.clock (s.reads + 2) - e.clock (s.reads + 1) := by
    have hle := hclock (s.reads + 1)
    linarith
  have hnew : ∀ l ∈ [Entry.output (e.output s.ran),
      .finished testNum (e.clock (s.reads + 2) - e.clock (s.reads + 1)) (e.rc s.ran)],
      l.Ok ∧ l.isCoverage = false := by
    intro l hl
    simp only [List.mem_cons, List.not_mem_nil, or_false] at hl
    rcases hl with rfl | rfl
    · exact ⟨hsilent.1, rfl⟩
    · exact ⟨hdur, rfl⟩
  have hmem : ∀ l ∈ (e.execute s testNum).log ++ extra, l.Ok ∧ l.isCoverage = false := by
    intro l hl
    unfold Env.execute at hl
    rcases List.mem_append.mp hl with hl | hl
    · rcases List.mem_append.mp hl with hl | hl
      · exact ⟨h.ok l hl, h.uncovered l hl⟩
      · exact hnew l hl
    · exact ⟨(hextra l hl).1, (hextra l hl).2.1⟩
  have hended : ((e.execute s testNum).log ++ extra).filterMap Entry.ended =
      s.log.filterMap Entry.ended ++ [(testNum, e.rc s.ran)] := by
    have hnil : extra.filterMap Entry.ended = [] := by
      rw [List.filterMap_eq_nil_iff]
      exact fun l hl => (hextra l hl).2.2
    unfold Env.execute
    rw [List.filterMap_append, List.filterMap_append, hnil, List.append_nil]
    rfl
  refine ⟨?_, fun l hl => (hmem l hl).1, fun l hl => (hmem l hl).2, ?_, ?_, ?_⟩
  · show s.ran + 1 = (done ++ [testNum]).length
    rw [List.length_append, h.ran]
    rfl
  · rw [hended, List.map_append, h.tests]
    rfl
  · rw [hended, hcode, h.passed]
    simp only [List.mem_append, List.mem_singleton]
    constructor
    · intro hall p hp
      rcases hp with hp | rfl
      · exact hall.1 p hp
      · exact hall.2
    · exact fun hall => ⟨fun p hp => hall p (Or.inl hp), hall _ (Or.inr rfl)⟩
  · intro hzero
    rw [hnone hzero, List.append_nil]
    exact (h.progress (hcode.mp hzero).1).test hsilent.2

/-- The loop over the sub-tests that are left. -/
theorem Covers.loop (hclock : e.Monotonic) (rest : List Nat) :
    ∀ {done : List Nat} {s : State}, Covers alnum done s →
      (∀ k < (done ++ rest).length, Silent alnum (e.output k)) →
      ∃ done' rest', done ++ rest = done' ++ rest' ∧ Covers alnum done' (e.loop s rest) := by
  induction rest with
  | nil =>
    intro done s h _
    exact ⟨done, [], rfl, h⟩
  | cons testNum rest ih =>
    intro done s h hsilent
    rw [Env.loop]
    by_cases hdeadline : e.deadline ≤ e.clock s.reads
    · rw [if_pos hdeadline]
      exact ⟨done, testNum :: rest, rfl, h⟩
    · rw [if_neg hdeadline]
      have houtput : Silent alnum (e.output s.ran) := by
        apply hsilent
        rw [h.ran, List.length_append, List.length_cons]
        omega
      have hsplit : done ++ testNum :: rest = (done ++ [testNum]) ++ rest := by
        rw [List.append_assoc]
        rfl
      simp only
      by_cases hwatchdog : e.rc s.ran = 124
      · -- the watchdog ends the loop
        rw [if_pos hwatchdog]
        refine ⟨done ++ [testNum], rest, hsplit, ?_⟩
        apply h.execute hclock houtput testNum
        · simp [Entry.Ok, Entry.isCoverage, Entry.ended]
        · have hcode : (if (e.execute s testNum).firstFailRc = 0 then 1
              else (e.execute s testNum).firstFailRc) ≠ 0 := by
            split_ifs with hzero
            · decide
            · exact hzero
          constructor
          · exact fun hzero => absurd hzero hcode
          · intro hrc
            rw [hwatchdog] at hrc
            exact absurd hrc.2 (by decide)
        · split_ifs with hzero
          · exact fun hone => absurd hone (by decide)
          · exact fun hcode => absurd hcode hzero
      · rw [if_neg hwatchdog]
        rw [hsplit] at hsilent ⊢
        by_cases hfail : e.rc s.ran ≠ 0 ∧ (e.execute s testNum).firstFailRc = 0
        · -- the first failure is noted
          rw [if_pos hfail]
          apply ih _ hsilent
          apply h.execute hclock houtput testNum
          · simp [Entry.Ok, Entry.isCoverage, Entry.ended]
          · exact ⟨fun hrc => absurd hrc hfail.1, fun hrc => hrc.2⟩
          · exact fun hrc => absurd hrc hfail.1
        · rw [if_neg hfail]
          apply ih _ hsilent
          have hsame : e.execute s testNum = { e.execute s testNum with
              log := (e.execute s testNum).log ++ []
              firstFailRc := s.firstFailRc } := by
            rw [List.append_nil]
            rfl
          rw [hsame]
          apply h.execute hclock houtput testNum
          · simp
          · constructor
            · intro hzero
              refine ⟨hzero, ?_⟩
              by_contra hrc
              exact hfail ⟨hrc, hzero⟩
            · exact fun hrc => hrc.1
          · exact fun _ => rfl

/-- The exit code is zero exactly if all sub-tests ran and none failed. -/
theorem run_eq_zero_iff {s : State} {log : List Entry} (hduration : 1 ≤ e.duration)
    (hs : s = e.loop Env.start (subTests e.includeBitFade))
    (hran : s.ran ≤ (subTests e.includeBitFade).length)
    (hlog : log = s.log ++
      [.coverage s.ran (subTests e.includeBitFade).length s.firstFailRc]) :
    (e.run.1 = 0 ↔ s.ran = (subTests e.includeBitFade).length ∧ s.firstFailRc = 0) ∧
      ∃ post, e.run.2 = log ++ post ∧ (∀ l ∈ post, l.Ok ∧ l.ended = none) ∧
        (s.ran = (subTests e.includeBitFade).length → post = []) := by
  have hpos : ¬ e.duration < 1 := by omega
  unfold Env.run
  simp only [if_neg hpos]
  rw [← hs, ← hlog]
  by_cases hless : s.ran < (subTests e.includeBitFade).length
  · rw [if_pos hless]
    refine ⟨?_, _, rfl, by simp [Entry.Ok, Entry.ended], fun heq => absurd heq (by omega)⟩
    constructor
    · intro hzero
      simp only at hzero
      split_ifs at hzero with hfirst
      · exact absurd hzero (by decide)
      · exact absurd hzero hfirst
    · intro h
      exact absurd h.1 (by omega)
  · rw [if_neg hless]
    refine ⟨?_, [], (List.append_nil log).symm, by simp, fun _ => rfl⟩
    exact ⟨fun h => ⟨by omega, h⟩, fun h => h.2⟩

/-- The run passes exactly if its log is accepted. -/
theorem run_iff_accepts (hclock : e.Monotonic) (hduration : 1 ≤ e.duration)
    (hsilent : ∀ k < (subTests e.includeBitFade).length, Silent alnum (e.output k)) :
    e.run.1 = 0 ↔ Accepts (validateCudamemtest alnum (log e.run.2)) := by
  obtain ⟨done, rest, htests, hcovers⟩ :=
    Covers.loop hclock (subTests e.includeBitFade) covers_start hsilent
  rw [List.nil_append] at htests
  generalize hs : e.loop Env.start (subTests e.includeBitFade) = s at hcovers
  have hran : s.ran ≤ (subTests e.includeBitFade).length := by
    rw [htests, List.length_append, hcovers.ran]
    omega
  obtain ⟨hzero, post, hlog, hpost, hnone⟩ := run_eq_zero_iff hduration hs.symm hran rfl
  rw [hzero, hlog, List.append_assoc]
  have hok : ∀ l ∈ s.log ++ .coverage s.ran (subTests e.includeBitFade).length s.firstFailRc ::
      post, l.Ok := by
    intro l hl
    rcases List.mem_append.mp hl with hl | hl
    · exact hcovers.ok l hl
    · rcases List.mem_cons.mp hl with rfl | hl
      · trivial
      · exact (hpost l hl).1
  constructor
  · rintro ⟨hall, hfirst⟩
    have hrest : rest = [] := by
      rw [htests, List.length_append, hcovers.ran] at hall
      exact List.eq_nil_of_length_eq_zero (by omega)
    rw [hrest, List.append_nil] at htests
    have hended : s.log.filterMap Entry.ended = allPassed e.includeBitFade := by
      unfold allPassed
      rw [htests, ← hcovers.tests, List.map_map]
      conv_lhs => rw [← List.map_id (s.log.filterMap Entry.ended)]
      apply List.map_congr_left
      intro p hp
      exact Prod.ext rfl (hcovers.passed.mp hfirst p hp)
    rw [hnone hall, hall, hfirst]
    exact accepts_of_progress (hcovers.progress hfirst) hcovers.ok hended
  · intro haccepts
    obtain ⟨hall, hpassed⟩ := of_accepts hok hcovers.uncovered haccepts
    refine ⟨hall, hcovers.passed.mpr ?_⟩
    intro p hp
    apply hpassed p
    rw [List.filterMap_append]
    exact List.mem_append_left _ hp

end Cudamemtest
end Monitored
end RocmTests

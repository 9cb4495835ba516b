import RocmTests.Collections.FirstSuccess
import Mathlib.Data.Rat.Defs

/-!
# A command with retries

`retry_fixture` adds up how often the command of a test may run, from the marker of
the test and from the command line, and `RetryHelper.run` runs it.  The executor
answers the calls one after another.
-/

namespace RocmTests
namespace Plugins
namespace Retry

open FirstSuccess

structure ExecutionResult where
  exitCode : Int
  stdout : String
  stderr : String
deriving DecidableEq, Repr

def ExecutionResult.ok (result : ExecutionResult) : Bool := result.exitCode == 0

/-- What a run does outside its helper.  Without Allure a step is a line of the
debug log, and neither an attachment nor a tag is made. -/
inductive Effect where
  | step (title : String)
  | debug (line : String)
  | execute (command : String) (timeout : Option ℚ)
  | attach (content name : String)
  | tag (name : String)
  | warning (line : String)
deriving DecidableEq

/-- `step` of the Allure reporter. -/
def step (allure : Bool) (title : String) : Effect :=
  if allure then .step title else .debug s!"[step] {title}"

def attachText (allure : Bool) (content name : String) : List Effect :=
  if allure && content != "" then [.attach content name] else []

structure RetryHelper where
  maxAttempts : Nat
  testName : String
  positive : 1 ≤ maxAttempts

def RetryHelper.init (maxAttempts : Int) (testName : String) : RetryHelper where
  maxAttempts := (max 1 maxAttempts).toNat
  testName := testName
  positive := by omega

/-- A run that is over: what it did, whether it set `flaky`, what it returned. -/
structure Run where
  effects : List Effect
  flaky : Bool
  returned : Option ExecutionResult
deriving DecidableEq

section

variable (h : RetryHelper) (allure : Bool) (command : String) (timeout : Option ℚ)

/-- The loop from `attempt` on, with `n` attempts left; `answers` are what the
executor still has to say. -/
def attempts : (n attempt : Nat) → (answers : Nat → ExecutionResult) →
    (lastResult : Option ExecutionResult) → Run
  | 0, _, _, lastResult => ⟨[], false, lastResult⟩
  | n + 1, attempt, answers, _ =>
    let result := answers 0
    let opened := [step allure s!"Attempt {attempt}/{h.maxAttempts}", .execute command timeout]
    if result.ok then
      if 1 < attempt then
        ⟨opened ++ (.warning s!"FLAKY: {h.testName} passed on attempt {attempt}/{h.maxAttempts}" ::
          if allure then [.tag "flaky"] else []), true, some result⟩
      else ⟨opened, false, some result⟩
    else
      let output := if result.stderr = "" then result.stdout else result.stderr
      let failed := attachText allure output s!"attempt_{attempt}_output" ++
        [.warning (s!"Attempt {attempt}/{h.maxAttempts} failed " ++
          s!"(exit {result.exitCode}): {h.testName}")]
      let rest := attempts n (attempt + 1) (fun i => answers (i + 1)) (some result)
      ⟨opened ++ failed ++ rest.effects, rest.flaky, rest.returned⟩

def RetryHelper.run (answers : Nat → ExecutionResult) : Run :=
  attempts h allure command timeout h.maxAttempts 1 answers none

end

/-- `@pytest.mark.retry`, with its keyword argument `count` when it was given. -/
structure Mark where
  count : Option Int
deriving DecidableEq

/-- What the fixture asks the `request` of the test for. -/
structure Request where
  retryCount : Int
  closestMarker : Option Mark
  nodeid : String
deriving DecidableEq

def retryFixture (request : Request) : RetryHelper :=
  let markCount := match request.closestMarker with
    | some mark => mark.count.getD 0
    | none => 0
  .init (1 + max request.retryCount markCount) request.nodeid

/-! ## What the loop does -/

/-- The calls of the executor in a run. -/
def Run.executions (r : Run) : List (String × Option ℚ) :=
  r.effects.filterMap fun e => match e with
    | .execute command timeout => some (command, timeout)
    | _ => none

section

variable {h : RetryHelper} {allure : Bool} {command : String} {timeout : Option ℚ}
variable {n attempt : Nat} {answers : Nat → ExecutionResult} {lastResult : Option ExecutionResult}

theorem attempts_of_ok (hok : (answers 0).ok = true) :
    (attempts h allure command timeout (n + 1) attempt answers lastResult).executions =
        [(command, timeout)] ∧
      (attempts h allure command timeout (n + 1) attempt answers lastResult).returned =
        some (answers 0) ∧
      (attempts h allure command timeout (n + 1) attempt answers lastResult).flaky =
        decide (1 < attempt) := by
  cases allure <;> by_cases hlate : 1 < attempt <;>
    simp [attempts, hok, hlate, Run.executions, step]

theorem attempts_of_failed (hok : (answers 0).ok = false) :
    (attempts h allure command timeout (n + 1) attempt answers lastResult).executions =
        (command, timeout) ::
          (attempts h allure command timeout n (attempt + 1) (fun i => answers (i + 1))
            (some (answers 0))).executions ∧
      (attempts h allure command timeout (n + 1) attempt answers lastResult).returned =
        (attempts h allure command timeout n (attempt + 1) (fun i => answers (i + 1))
          (some (answers 0))).returned ∧
      (attempts h allure command timeout (n + 1) attempt answers lastResult).flaky =
        (attempts h allure command timeout n (attempt + 1) (fun i => answers (i + 1))
          (some (answers 0))).flaky := by
  cases allure <;> simp [attempts, hok, Run.executions, step, attachText, List.filterMap_append]

/-- With `n` attempts left the executor is called until its first success, or `n`
times. -/
theorem executions_attempts :
    ∀ (n attempt : Nat) (answers : Nat → ExecutionResult) (lastResult : Option ExecutionResult),
      (attempts h allure command timeout n attempt answers lastResult).executions =
        List.replicate (due (position ExecutionResult.ok answers) n).toNat (command, timeout) := by
  intro n
  induction n with
  | zero =>
    intro attempt answers lastResult
    have hdue : (due (position ExecutionResult.ok answers) (0 : Nat)).toNat = 0 := by
      have := due_le (position ExecutionResult.ok answers) (0 : Nat)
      omega
    rw [hdue]
    rfl
  | succ n ih =>
    intro attempt answers lastResult
    cases hok : (answers 0).ok with
    | true =>
      rw [(attempts_of_ok hok).1, position_of_good _ hok]
      have hdue : (due (some 1) (n + 1 : Nat)).toNat = 1 := by
        show (min ((1 : Nat) : Int) (n + 1 : Nat)).toNat = 1
        omega
      rw [hdue]
      rfl
    | false =>
      rw [(attempts_of_failed hok).1, ih, position_of_bad _ hok, Int.natCast_succ, due_map_succ]
      rw [Int.toNat_add (due_nonneg _ n) (by decide)]
      rfl

/-- The last call is the one whose result is returned. -/
theorem returned_attempts :
    ∀ (n attempt : Nat) (answers : Nat → ExecutionResult) (lastResult : Option ExecutionResult),
      1 ≤ n → (attempts h allure command timeout n attempt answers lastResult).returned =
        some (answers ((due (position ExecutionResult.ok answers) n).toNat - 1)) := by
  intro n
  induction n with
  | zero =>
    intro attempt answers lastResult hn
    omega
  | succ n ih =>
    intro attempt answers lastResult _
    cases hok : (answers 0).ok with
    | true =>
      rw [(attempts_of_ok hok).2.1, position_of_good _ hok]
      have hlast : (due (some 1) (n + 1 : Nat)).toNat - 1 = 0 := by
        show (min ((1 : Nat) : Int) (n + 1 : Nat)).toNat - 1 = 0
        omega
      rw [hlast]
    | false =>
      rw [(attempts_of_failed hok).2.1, position_of_bad _ hok, Int.natCast_succ, due_map_succ]
      rcases Nat.eq_zero_or_pos n with hn | hn
      · subst hn
        have hlast :
            (due (position ExecutionResult.ok fun i => answers (i + 1)) (0 : Nat) + 1).toNat - 1 =
              0 := by
          have := due_le (position ExecutionResult.ok fun i => answers (i + 1)) (0 : Nat)
          omega
        rw [hlast]
        rfl
      · rw [ih _ _ _ hn]
        have hpos := one_le_due ExecutionResult.ok (fun i => answers (i + 1)) hn
        congr 2
        omega

/-- A run is flaky when its first success is within the bound and is not the first
attempt of all. -/
theorem flaky_attempts :
    ∀ (n attempt : Nat) (answers : Nat → ExecutionResult) (lastResult : Option ExecutionResult),
      1 ≤ attempt → ((attempts h allure command timeout n attempt answers lastResult).flaky = true ↔
        ∃ k, position ExecutionResult.ok answers = some k ∧ k ≤ n ∧ 2 < attempt + k) := by
  intro n
  induction n with
  | zero =>
    intro attempt answers lastResult _
    constructor
    · intro hflaky
      cases hflaky
    · rintro ⟨k, hk, hle, -⟩
      have := one_le_position _ hk
      omega
  | succ n ih =>
    intro attempt answers lastResult hattempt
    cases hok : (answers 0).ok with
    | true =>
      rw [(attempts_of_ok hok).2.2, position_of_good _ hok, decide_eq_true_iff]
      simp only [Option.some.injEq, exists_eq_left']
      omega
    | false =>
      rw [(attempts_of_failed hok).2.2, ih _ _ _ (by omega), position_of_bad _ hok]
      constructor
      · rintro ⟨k, hk, hle, hlate⟩
        exact ⟨k + 1, by rw [hk]; rfl, by omega, by omega⟩
      · rintro ⟨k, hk, hle, hlate⟩
        obtain ⟨j, hj, rfl⟩ := Option.map_eq_some_iff.mp hk
        exact ⟨j, hj, by omega, by omega⟩

end

/-! ## The documented priority -/

/-- The retries a test is promised: those of its marker, or else those of the
command line. -/
def retries (retryCount : Int) : Option Nat → Int
  | some m => m
  | none => retryCount

/-- The fixture of a test whose marker, if it has one, gives a count. -/
def fixtureOf (retryCount : Int) (marker : Option Nat) (nodeid : String) : RetryHelper :=
  retryFixture ⟨retryCount, marker.map fun m => ⟨some m⟩, nodeid⟩

section

variable (command : String) (timeout : Option ℚ) (answers : Nat → ExecutionResult)

/-- A run makes `r` retries at most, and no call after a success. -/
structure Obeys (r : Int) (out : Run) : Prop where
  executions : (out.executions.length : Int) = due (position ExecutionResult.ok answers) (1 + r)
  call : ∀ e ∈ out.executions, e = (command, timeout)
  success : ∀ k, position ExecutionResult.ok answers = some k → (k : Int) ≤ 1 + r →
    out.returned = some (answers (k - 1))
  exhausted : (∀ k, position ExecutionResult.ok answers = some k → 1 + r < k) →
    out.returned = some (answers r.toNat)
  flaky : out.flaky = true ↔
    ∃ k, position ExecutionResult.ok answers = some k ∧ 1 < k ∧ (k : Int) ≤ 1 + r

/-- The larger of the two counts does no harm: there is one only, or the marker's
is the larger, or a success comes before the difference shows. -/
def Harmless (retryCount : Int) : Option Nat → Prop
  | some m => retryCount ≤ m ∨ ∃ k, position ExecutionResult.ok answers = some k ∧ k ≤ 1 + m
  | none => 0 ≤ retryCount

variable {command timeout answers}

/-- A helper keeps to its own number of attempts. -/
theorem run_obeys (h : RetryHelper) (allure : Bool) (r : Int) (hr : (h.maxAttempts : Int) = 1 + r) :
    Obeys command timeout answers r (h.run allure command timeout answers) := by
  have hpositive := h.positive
  have hexecutions : (h.run allure command timeout answers).executions = _ :=
    executions_attempts h.maxAttempts 1 answers none
  have hreturned : (h.run allure command timeout answers).returned = _ :=
    returned_attempts h.maxAttempts 1 answers none hpositive
  have hnonneg := due_nonneg (position ExecutionResult.ok answers) h.maxAttempts
  constructor
  · rw [hexecutions, List.length_replicate, hr] at *
    omega
  · intro e he
    rw [hexecutions] at he
    exact List.eq_of_mem_replicate he
  · intro k hk hle
    have hdue : due (position ExecutionResult.ok answers) h.maxAttempts = k := by
      rw [hk]
      show min (k : Int) h.maxAttempts = k
      omega
    rw [hreturned, hdue, Int.toNat_natCast]
  · intro hlate
    have hdue : due (position ExecutionResult.ok answers) h.maxAttempts = 1 + r := by
      cases hk : position ExecutionResult.ok answers with
      | none => exact hr
      | some k =>
        have := hlate k hk
        show min (k : Int) h.maxAttempts = 1 + r
        omega
    have hlast : (1 + r).toNat - 1 = r.toNat := by omega
    rw [hreturned, hdue, hlast]
  · rw [show (h.run allure command timeout answers).flaky = _ from rfl]
    refine (flaky_attempts h.maxAttempts 1 answers none (Nat.le_refl 1)).trans ?_
    constructor
    · rintro ⟨k, hk, hle, hlate⟩
      exact ⟨k, hk, by omega, by omega⟩
    · rintro ⟨k, hk, hlate, hle⟩
      exact ⟨k, hk, by omega, by omega⟩

theorem fixtureOf_maxAttempts (retryCount : Int) (marker : Option Nat) (nodeid : String) :
    ((fixtureOf retryCount marker nodeid).maxAttempts : Int) =
      1 + max retryCount (marker.getD 0 : Nat) := by
  cases marker with
  | none =>
    show ((max 1 (1 + max retryCount 0)).toNat : Int) = 1 + max retryCount 0
    omega
  | some m =>
    show ((max 1 (1 + max retryCount m)).toNat : Int) = 1 + max retryCount m
    omega

/-- A bound that the first success stays within may be moved. -/
theorem Obeys.of_early {r r' : Int} {out : Run} (h : Obeys command timeout answers r out) {k : Nat}
    (hk : position ExecutionResult.ok answers = some k) (hr : (k : Int) ≤ 1 + r)
    (hr' : (k : Int) ≤ 1 + r') : Obeys command timeout answers r' out := by
  obtain ⟨hexecutions, hcall, hsuccess, hexhausted, hflaky⟩ := h
  have hfirst : ∀ j, position ExecutionResult.ok answers = some j → j = k := by
    intro j hj
    rw [hk] at hj
    exact (Option.some.inj hj).symm
  refine ⟨?_, hcall, ?_, ?_, ?_⟩
  · rw [hexecutions, hk]
    show min (k : Int) (1 + r) = min (k : Int) (1 + r')
    omega
  · intro j hj _
    rw [hfirst j hj]
    exact hsuccess k hk hr
  · intro hlate
    have := hlate k hk
    omega
  · rw [hflaky]
    constructor
    · rintro ⟨j, hj, hlate, -⟩
      rw [hfirst j hj] at *
      exact ⟨k, hk, hlate, hr'⟩
    · rintro ⟨j, hj, hlate, -⟩
      rw [hfirst j hj] at *
      exact ⟨k, hk, hlate, hr⟩

/-- The counts are combined by their maximum and not by the documented priority. -/
theorem obeys_priority_iff (allure : Bool) (retryCount : Int) (marker : Option Nat)
    (nodeid : String) :
    Obeys command timeout answers (retries retryCount marker)
        ((fixtureOf retryCount marker nodeid).run allure command timeout answers) ↔
      Harmless answers retryCount marker := by
  have hattempts := fixtureOf_maxAttempts retryCount marker nodeid
  have hpositive := (fixtureOf retryCount marker nodeid).positive
  have hobeys : Obeys command timeout answers (max retryCount (marker.getD 0 : Nat))
      ((fixtureOf retryCount marker nodeid).run allure command timeout answers) :=
    run_obeys (fixtureOf retryCount marker nodeid) allure _ hattempts
  cases marker with
  | none =>
    constructor
    · intro hpromised
      have hsame := hobeys.executions.symm.trans hpromised.executions
      have hlower := one_le_due ExecutionResult.ok answers hpositive
      have hupper := due_le (position ExecutionResult.ok answers) (1 + retries retryCount none)
      rw [hattempts, hsame] at hlower
      show 0 ≤ retryCount
      have : (1 : Int) ≤ 1 + retryCount := Int.le_trans hlower hupper
      omega
    · intro hpos
      have hmax : max retryCount (none.getD 0 : Nat) = retryCount := Int.max_eq_left hpos
      rw [hmax] at hobeys
      exact hobeys
  | some m =>
    rw [Option.getD_some] at hobeys
    rcases Int.lt_or_le m retryCount with hlarger | hle
    · rw [Int.max_eq_left (Int.le_of_lt hlarger)] at hobeys
      constructor
      · intro hpromised
        refine Or.inr ?_
        have hsame := hobeys.executions.symm.trans hpromised.executions
        cases hk : position ExecutionResult.ok answers with
        | none =>
          rw [hk] at hsame
          have : 1 + retryCount = 1 + (m : Int) := hsame
          omega
        | some k =>
          rw [hk] at hsame
          have : min (k : Int) (1 + retryCount) = min (k : Int) (1 + (m : Int)) := hsame
          exact ⟨k, rfl, by omega⟩
      · rintro (hle | ⟨k, hk, hle⟩)
        · omega
        · exact hobeys.of_early hk (by omega) (show (k : Int) ≤ 1 + (m : Int) by omega)
    · rw [Int.max_eq_right hle] at hobeys
      exact ⟨fun _ => Or.inl hle, fun _ => hobeys⟩

/-- An executor whose first answer alone is a failure. -/
def failsOnce (i : Nat) : ExecutionResult := ⟨if i = 0 then 1 else 0, "", ""⟩

theorem not_obeys_marker :
    ¬ Obeys "true" none failsOnce (retries 1 (some 0))
      ((fixtureOf 1 (some 0) "test_once").run true "true" none failsOnce) := by
  intro hobeys
  have hcalls : (((fixtureOf 1 (some 0) "test_once").run true "true" none
      failsOnce).executions.length : Int) = 2 := by decide +kernel
  have hupper := due_le (position ExecutionResult.ok failsOnce) (1 + retries 1 (some 0))
  have hsame := hobeys.executions
  rw [hcalls] at hsame
  rw [← hsame] at hupper
  have : (2 : Int) ≤ 1 + 0 := hupper
  omega

end

end Retry
end Plugins
end RocmTests

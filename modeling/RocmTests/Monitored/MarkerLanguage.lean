import RocmTests.Monitored.HipblasltAgree
import RocmTests.Monitored.MemtestAgree

/-!
# Workloads and validators speak one language of marks

For the memory test and for the GEMM sweep, a zero exit code and an accepted log are
the same thing.
-/

namespace RocmTests
namespace Monitored

open Text Validation DmesgCategories

/-- Whatever the tools do, as long as their output speaks neither the harness's nor the
validator's language, a run passes exactly if its log is accepted. -/
theorem exitZero_iff_accepted (alnum : Char → Bool) :
    (∀ e : Cudamemtest.Env, e.Monotonic → 1 ≤ e.duration →
      (∀ k < (Cudamemtest.subTests e.includeBitFade).length,
        Cudamemtest.Silent alnum (e.output k)) →
      (e.run.1 = 0 ↔
        Accepts (Cudamemtest.validateCudamemtest alnum (Cudamemtest.log e.run.2)))) ∧
    (∀ e : Hipblaslt.Env, (∀ k < Hipblaslt.totalShapes, Hipblaslt.Silent alnum (e.output k)) →
      e.StatesShapes alnum →
      ((e.run alnum).1 = 0 ↔
        Accepts (Hipblaslt.validateHipblaslt alnum (logText (e.run alnum).2)))) :=
  ⟨fun _ hclock hduration hsilent => Cudamemtest.run_iff_accepts hclock hduration hsilent,
    fun _ hsilent hstates => Hipblaslt.run_iff_accepts hsilent hstates⟩

/-- No character beyond ASCII is alphanumeric. -/
def asciiOnly : Char → Bool := fun _ => false

/-- A memory test whose fourth sub-test fails. -/
def failingMemtest : Cudamemtest.Env where
  includeBitFade := true
  duration := 600
  watchdog := some 60
  clock := fun i => i
  rc := fun k => if k = 3 then 1 else 0
  output := fun _ => "Test finished with no errors".toList

/-- A sweep in which every shape passes. -/
def passingSweep : Hipblaslt.Env where
  watchdog := none
  exitCode := fun _ => 0
  output := fun k =>
    match Hipblaslt.canonicalShapes[k]? with
    | some g => "[0]:transA,transB,grouped_gemm,batch_count,m,n,k\n    ".toList ++ g.transA ++
        ',' :: g.transB ++ ",0,".toList ++ showInt g.batch ++ ',' :: showInt g.m ++
        ',' :: showInt g.n ++ ',' :: showInt g.k ++ ",1,22.5\n".toList
    | none => []

theorem exitZero_iff_accepted_sample :
    (failingMemtest.run.1 = 0 ↔ Accepts (Cudamemtest.validateCudamemtest asciiOnly
      (Cudamemtest.log failingMemtest.run.2))) ∧
    ((passingSweep.run asciiOnly).1 = 0 ↔ Accepts (Hipblaslt.validateHipblaslt asciiOnly
      (logText (passingSweep.run asciiOnly).2))) := by
  have hclock : failingMemtest.Monotonic := by
    intro i
    show (i : ℚ) ≤ ((i + 1 : Nat) : ℚ)
    exact_mod_cast Nat.le_succ i
  have houtput : Cudamemtest.Silent asciiOnly "Test finished with no errors".toList :=
    ⟨⟨by decide +kernel, by decide +kernel⟩, by decide +kernel⟩
  have hsweep : ∀ k < 19, (contains "[hipblaslt]".toList (passingSweep.output k) = false ∧
      contains Hipblaslt.completedMark (passingSweep.output k) = false) ∧
      found asciiOnly Hipblaslt.errPat (passingSweep.output k) = false := by decide +kernel
  have hrows : ∀ k < 19, ((Hipblaslt.dataLine asciiOnly (passingSweep.output k)).bind
      Hipblaslt.fieldsOf).bind Hipblaslt.shapeOf = Hipblaslt.canonicalShapes[k]? := by
    decide +kernel
  have hstates : passingSweep.StatesShapes asciiOnly := by
    intro k g line hget _ hline
    have hlt : k < 19 := (List.getElem?_eq_some_iff.mp hget).1
    have hrow := hrows k hlt
    rw [hline, hget, Option.bind_some] at hrow
    obtain ⟨fields, hfields, hshape⟩ := Option.bind_eq_some_iff.mp hrow
    exact ⟨fields, hfields, hshape⟩
  exact ⟨(exitZero_iff_accepted asciiOnly).1 failingMemtest hclock (by decide)
      fun _ _ => houtput,
    (exitZero_iff_accepted asciiOnly).2 passingSweep hsweep hstates⟩

/-- A memory test in which every sub-test passes and ends its output with a bare word. -/
def bareError : Cudamemtest.Env where
  includeBitFade := false
  duration := 600
  watchdog := none
  clock := fun i => i
  rc := fun _ => 0
  output := fun _ => "ERROR:".toList

/-- The word matches no error pattern in the output of the sub-test.  In the log the
tag of the harness completes the match, so the run passes and its log is rejected. -/
theorem bareError_rejected :
    bareError.Monotonic ∧ 1 ≤ bareError.duration ∧
    (∀ k, contains Cudamemtest.mark (bareError.output k) = false ∧
      contains Cudamemtest.hmmMark (bareError.output k) = false ∧
      found asciiOnly Cudamemtest.errPat (bareError.output k) = false ∧
      found asciiOnly Cudamemtest.errPat (logged (bareError.output k)) = false) ∧
    bareError.run.1 = 0 ∧
    ¬ Accepts (Cudamemtest.validateCudamemtest asciiOnly (Cudamemtest.log bareError.run.2)) := by
  have hclock : bareError.Monotonic := by
    intro i
    show (i : ℚ) ≤ ((i + 1 : Nat) : ℚ)
    exact_mod_cast Nat.le_succ i
  have hrejected : (Cudamemtest.validateCudamemtest asciiOnly
      (Cudamemtest.log bareError.run.2)).any (fun v => !v.failed) = false := by decide +kernel
  have houtput : contains Cudamemtest.mark "ERROR:".toList = false ∧
      contains Cudamemtest.hmmMark "ERROR:".toList = false ∧
      found asciiOnly Cudamemtest.errPat "ERROR:".toList = false ∧
      found asciiOnly Cudamemtest.errPat (logged "ERROR:".toList) = false := by decide +kernel
  refine ⟨hclock, by decide, fun _ => houtput, by decide +kernel, ?_⟩
  unfold Accepts
  rw [hrejected]
  exact Bool.false_ne_true

end Monitored
end RocmTests

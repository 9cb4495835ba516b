import RocmTests.Monitored.DmesgCategories
import RocmTests.Text.Numeral

/-!
# The layers of the validation

`validate_result` reads the log of a run and the kernel log of its window.  Each
layer may fail the run and adds to the message; no layer takes a failure back.
The validators of the single tests are a parameter here.
-/

namespace RocmTests
namespace Monitored
namespace Validation

open Text Text.Re DmesgCategories

structure ValidationResult where
  message : Txt
  failed : Bool
deriving DecidableEq

/-- What a validator returns does not fail the run.  `none` is an exception. -/
def Accepts (result : Option ValidationResult) : Prop := result.any (fun v => !v.failed) = true

theorem not_accepts_failed {text : Txt} : ¬ Accepts (some ⟨text, true⟩) := Bool.false_ne_true

theorem not_accepts_none : ¬ Accepts none := Bool.false_ne_true

/-! ## Files -/

/-- A file: its size, and what reading it gives.  An error holds the type and the
text of the exception. -/
structure LogFile where
  size : Nat
  content : Except Txt Txt

def readFailed : Txt := "_READ_FAILED:".toList

/-- `_read_log`. -/
def readLog (f : LogFile) : Txt :=
  match f.content with
  | .ok text => text
  | .error e => readFailed ++ ' ' :: e

def startsWith (t s : Txt) : Bool := s.isPrefixOf t

/-- `needle in t`. -/
def contains (needle : Txt) : Txt → Bool
  | [] => needle.isEmpty
  | c :: t => startsWith (c :: t) needle || contains needle t

theorem contains_eq_true_iff {needle t : Txt} : contains needle t = true ↔ needle <:+: t := by
  induction t with
  | nil =>
    rw [contains, List.isEmpty_iff, List.infix_nil]
  | cons c t ih =>
    rw [contains, Bool.or_eq_true, startsWith, List.isPrefixOf_iff_prefix, ih, List.infix_cons_iff]

/-! ## Patterns -/

def crashPatterns : Re :=
  alts [
    word (alts [lit "core dumped", lit "Aborted", lit "Segmentation fault", lit "Kernel panic",
      lit "general protection fault", lit "corrupted memory", lit "resetting device",
      lit "device not responding", lit "hardware error"]),
    cat [wordBoundary, lit "Call Trace:"],
    word (lit "EXIT_CODE=134"),
    lit "watchdog: BUG: soft lockup",
    lit "watchdog: CPU stuck"]

/-- `\bPASS \(`. -/
def passPattern : Re := cat [wordBoundary, lit "PASS ("]

/-! ## The validators -/

/-- The validators of the tests.  `registry` is `_VALIDATORS`. -/
structure Validators where
  registry : Txt → Option (LogFile → Int → ValidationResult)
  rvs : LogFile → Int → (expectedChecks expectedGpus checksPerGpu : Int) →
    (expectedActions : Option (List Txt)) → ValidationResult
  hmmMemtest : LogFile → Int → (expectedGpus : Int) → ValidationResult
  transferbench : LogFile → Int → (expectedGpus : Int) → ValidationResult

def rvsIetStress : Txt := "rvs_iet_stress".toList
def rvsTst : Txt := "rvs_tst".toList
def hmmCudaMemtest : Txt := "hmm_cuda_memtest".toList
def transferbenchName : Txt := "transferbench".toList

def rvsTstExpectedActions : List Txt := ["action_1".toList, "action_2".toList]

def rvsCountUnavailable : Txt :=
  "RVS GPU count unavailable; cannot validate per-GPU coverage".toList

/-- The choice of the validator's call in layer 2. -/
def callValidator (vs : Validators) (validator : LogFile → Int → ValidationResult) (testName : Txt)
    (log : LogFile) (exitCode : Int) (numGpus : Option Int) : ValidationResult :=
  match numGpus with
  | none => validator log exitCode
  | some n =>
    if testName = rvsIetStress ∨ testName = rvsTst then
      if n ≤ 0 then ⟨rvsCountUnavailable, true⟩
      else
        let checksPerGpu := if testName = rvsIetStress then 1 else 2
        vs.rvs log exitCode (n * checksPerGpu) n checksPerGpu
          (if testName = rvsTst then some rvsTstExpectedActions else none)
    else if testName = hmmCudaMemtest then vs.hmmMemtest log exitCode n
    else if testName = transferbenchName then vs.transferbench log exitCode n
    else validator log exitCode

/-! ## The layers -/

section

variable (alnum : Char → Bool)

/-- `f"{msg}; {note}" if msg else note`. -/
def annotate (msg note : Txt) : Txt := if msg = [] then note else msg ++ "; ".toList ++ note

def ValidationResult.fail (v : ValidationResult) (note : Txt) : ValidationResult :=
  ⟨annotate v.message note, true⟩

def countCrashes (text : Txt) : Nat :=
  ((splitlines text).filter (found alnum crashPatterns)).length

def crashNote (n : Nat) : Txt :=
  "crash/kernel indicator in output (".toList ++ showInt n ++ " matches)".toList

/-- Layer 1, on the text of a log that could be read. -/
def crashLayer (text : Txt) : ValidationResult :=
  if 0 < countCrashes alnum text then ⟨crashNote (countCrashes alnum text), true⟩ else ⟨[], false⟩

def flaggedNote (testName : Txt) : Txt := testName ++ " validator flagged failure".toList

/-- Layer 2 with the validator's answer. -/
def specificLayer (v : ValidationResult) (testName : Txt) (res : ValidationResult) :
    ValidationResult :=
  if res.failed then v.fail (if res.message = [] then flaggedNote testName else res.message)
  else if v.message = [] then { v with message := res.message }
  else v

def dmesgUnavailable : Txt :=
  "dmesg: snapshot unavailable; cannot validate kernel health for this workload".toList

def criticalNote (n : Nat) : Txt :=
  "dmesg: ".toList ++ showInt n ++
    " CRITICAL kernel event(s) (GPU reset / panic / lockup / fault) — see dmesg.log".toList

def infoNote (n : Nat) : Txt :=
  "dmesg: ".toList ++ showInt n ++ " kernel message(s) — see dmesg.log".toList

def unreadableNote (text : Txt) : Txt := "dmesg unreadable (".toList ++ text ++ [')']

/-- One of the two snapshots of the kernel log is missing. -/
def snapshotUnavailable (text : Txt) : Bool :=
  contains "[dmesg-delta] pretest snapshot unavailable".toList text ||
    contains "[dmesg-delta] posttest snapshot unavailable".toList text

/-- Layer 3. -/
def dmesgLayer (v : ValidationResult) (dmesg : Option LogFile) : ValidationResult :=
  match dmesg with
  | none => v
  | some f =>
    if f.size = 0 then v
    else
      let text := readLog f
      if startsWith text readFailed then v.fail (unreadableNote text)
      else if snapshotUnavailable text then v.fail dmesgUnavailable
      else if 0 < countLinesMatching alnum text .critical then
        v.fail (criticalNote (countLinesMatching alnum text .critical))
      else if 0 < countLinesMatching alnum text .info then
        { v with message := annotate v.message (infoNote (countLinesMatching alnum text .info)) }
      else v

def emptyNote (exitCode : Int) : Txt :=
  if exitCode ≠ 0 then "exit ".toList ++ showInt exitCode ++ " with no output".toList
  else "empty output; cannot confirm workload completion".toList

/-- Layer 4. -/
def emptyLayer (v : ValidationResult) (log : Option LogFile) (exitCode : Int) : ValidationResult :=
  if (log.map LogFile.size).getD 0 = 0 then
    ⟨if v.message = [] then emptyNote exitCode else v.message, true⟩
  else v

def exitNote (exitCode : Int) : Txt :=
  if exitCode < 0 then "killed by signal ".toList ++ showInt (-exitCode)
  else "exit ".toList ++ showInt exitCode

/-- Layer 5. -/
def exitLayer (v : ValidationResult) (exitCode : Int) : ValidationResult :=
  if exitCode ≠ 0 then
    ⟨if v.message = [] then exitNote exitCode else annotate (exitNote exitCode) v.message, true⟩
  else v

/-- The rewriting of the message at the end. -/
def closeMessage (v : ValidationResult) : ValidationResult :=
  let msg := if v.failed then
    subst (isWordChar alnum) passPattern "workload OK (".toList v.message else v.message
  ⟨if msg = [] then "PASS".toList else msg, v.failed⟩

/-- Layer 2. -/
def validatorLayer (vs : Validators) (v : ValidationResult) (testName : Txt)
    (log : Option LogFile) (exitCode : Int) (skipTestSpecific : Bool) (numGpus : Option Int) :
    ValidationResult :=
  match vs.registry testName, log with
  | some validator, some f =>
    if skipTestSpecific then v
    else specificLayer v testName (callValidator vs validator testName f exitCode numGpus)
  | _, _ => v

/-- The layers after the first. -/
def laterLayers (vs : Validators) (v : ValidationResult) (testName : Txt) (log : Option LogFile)
    (exitCode : Int) (dmesg : Option LogFile) (skipTestSpecific : Bool) (numGpus : Option Int) :
    ValidationResult :=
  let v := validatorLayer vs v testName log exitCode skipTestSpecific numGpus
  let v := dmesgLayer alnum v dmesg
  let v := emptyLayer v log exitCode
  closeMessage alnum (exitLayer v exitCode)

def logUnreadableNote (text : Txt) : Txt := "log unreadable (".toList ++ text ++ [')']

def validateResult (vs : Validators) (testName : Txt) (log : Option LogFile) (exitCode : Int)
    (dmesg : Option LogFile) (skipTestSpecific : Bool) (numGpus : Option Int) : ValidationResult :=
  match log with
  | none => laterLayers alnum vs ⟨[], false⟩ testName log exitCode dmesg skipTestSpecific numGpus
  | some f =>
    let text := readLog f
    if startsWith text readFailed then ⟨logUnreadableNote text, true⟩
    else
      laterLayers alnum vs (crashLayer alnum text) testName log exitCode dmesg skipTestSpecific
        numGpus

/-- `unsupported_reason_from_log`. -/
def unsupportedReasonFromLog (log : Option LogFile) (testName : Txt) : Txt :=
  let default := testName ++ ": unsupported on this device".toList
  match log with
  | none => default
  | some f =>
    if startsWith (readLog f) readFailed then default
    else
      (((splitlines (readLog f)).map Markers.strip).find? fun stripped =>
        contains "UNSUPPORTED:".toList stripped && "UNSUPPORTED:".length < stripped.length).getD
          default

/-! ## When no layer fails -/

/-- The kernel log holds nothing against the run. -/
def DmesgClean (dmesg : Option LogFile) : Prop :=
  ∀ f, dmesg = some f → f.size ≠ 0 →
    startsWith (readLog f) readFailed = false ∧ snapshotUnavailable (readLog f) = false ∧
      countLinesMatching alnum (readLog f) .critical = 0

/-- The test's own validator, if it is asked, has no objection. -/
def ValidatorAccepts (vs : Validators) (testName : Txt) (log : Option LogFile) (exitCode : Int)
    (skipTestSpecific : Bool) (numGpus : Option Int) : Prop :=
  ∀ validator f, vs.registry testName = some validator → log = some f →
    skipTestSpecific = false →
      (callValidator vs validator testName f exitCode numGpus).failed = false

/-- No layer fails the run: its log is there, readable, not empty and without signs
of a crash, the validator accepts it, the kernel log is clean, and it exited 0. -/
structure LayersPass (vs : Validators) (testName : Txt) (log : Option LogFile) (exitCode : Int)
    (dmesg : Option LogFile) (skipTestSpecific : Bool) (numGpus : Option Int) : Prop where
  console : ∃ f, log = some f ∧ f.size ≠ 0 ∧ startsWith (readLog f) readFailed = false ∧
    countCrashes alnum (readLog f) = 0
  validator : ValidatorAccepts vs testName log exitCode skipTestSpecific numGpus
  kernel : DmesgClean alnum dmesg
  exit : exitCode = 0

variable {alnum} {v : ValidationResult}

theorem crashLayer_failed (text : Txt) :
    (crashLayer alnum text).failed = false ↔ countCrashes alnum text = 0 := by
  simp only [crashLayer]
  by_cases h : 0 < countCrashes alnum text
  · rw [if_pos h]
    exact iff_of_false (by simp) (by omega)
  · rw [if_neg h]
    exact iff_of_true rfl (by omega)

theorem specificLayer_failed (testName : Txt) (res : ValidationResult) :
    (specificLayer v testName res).failed = false ↔ v.failed = false ∧ res.failed = false := by
  unfold specificLayer
  cases hres : res.failed with
  | true => simp [ValidationResult.fail]
  | false =>
    by_cases hmsg : v.message = []
    · simp [hmsg]
    · simp [hmsg]

theorem validatorLayer_failed (vs : Validators) (testName : Txt) (log : Option LogFile)
    (exitCode : Int) (skipTestSpecific : Bool) (numGpus : Option Int) :
    (validatorLayer vs v testName log exitCode skipTestSpecific numGpus).failed = false ↔
      v.failed = false ∧
        ValidatorAccepts vs testName log exitCode skipTestSpecific numGpus := by
  unfold validatorLayer ValidatorAccepts
  cases hreg : vs.registry testName with
  | none => simp
  | some validator =>
    cases log with
    | none => simp
    | some f =>
      cases skipTestSpecific with
      | true => simp
      | false => simp [specificLayer_failed]

theorem dmesgLayer_failed (dmesg : Option LogFile) :
    (dmesgLayer alnum v dmesg).failed = false ↔ v.failed = false ∧ DmesgClean alnum dmesg := by
  unfold dmesgLayer DmesgClean
  cases dmesg with
  | none => simp
  | some f =>
    by_cases hsize : f.size = 0
    · simp [hsize]
    · simp only [Option.some.injEq, forall_eq', ne_eq, hsize, not_false_eq_true,
        forall_const]
      cases hread : startsWith (readLog f) readFailed with
      | true => simp [ValidationResult.fail]
      | false =>
        cases hsnap : snapshotUnavailable (readLog f) with
        | true => simp [ValidationResult.fail]
        | false =>
          by_cases hcrit : countLinesMatching alnum (readLog f) .critical = 0
          · by_cases hinfo : countLinesMatching alnum (readLog f) .info = 0
            · simp [hcrit, hinfo]
            · simp [hcrit, Nat.pos_of_ne_zero hinfo]
          · simp [hcrit, Nat.pos_of_ne_zero hcrit, ValidationResult.fail]

theorem emptyLayer_failed (log : Option LogFile) (exitCode : Int) :
    (emptyLayer v log exitCode).failed = false ↔
      v.failed = false ∧ ∃ f, log = some f ∧ f.size ≠ 0 := by
  unfold emptyLayer
  cases log with
  | none => simp
  | some f =>
    by_cases hsize : f.size = 0
    · simp [hsize]
    · simp [hsize]

theorem exitLayer_failed (exitCode : Int) :
    (exitLayer v exitCode).failed = false ↔ v.failed = false ∧ exitCode = 0 := by
  unfold exitLayer
  by_cases h : exitCode = 0
  · simp [h]
  · simp [h]

theorem laterLayers_failed (vs : Validators) (testName : Txt) (log : Option LogFile)
    (exitCode : Int) (dmesg : Option LogFile) (skipTestSpecific : Bool) (numGpus : Option Int) :
    (laterLayers alnum vs v testName log exitCode dmesg skipTestSpecific numGpus).failed = false ↔
      (((v.failed = false ∧ ValidatorAccepts vs testName log exitCode skipTestSpecific numGpus) ∧
        DmesgClean alnum dmesg) ∧ ∃ f, log = some f ∧ f.size ≠ 0) ∧ exitCode = 0 := by
  show (exitLayer _ exitCode).failed = false ↔ _
  rw [exitLayer_failed, emptyLayer_failed, dmesgLayer_failed, validatorLayer_failed]

/-- The validation succeeds exactly if no layer fails. -/
theorem validateResult_failed (vs : Validators) (testName : Txt) (log : Option LogFile)
    (exitCode : Int) (dmesg : Option LogFile) (skipTestSpecific : Bool) (numGpus : Option Int) :
    (validateResult alnum vs testName log exitCode dmesg skipTestSpecific numGpus).failed = false ↔
      LayersPass alnum vs testName log exitCode dmesg skipTestSpecific numGpus := by
  unfold validateResult
  cases log with
  | none =>
    simp only [laterLayers_failed]
    constructor
    · intro h
      obtain ⟨⟨_, f, hf, _⟩, _⟩ := h
      cases hf
    · intro h
      obtain ⟨f, hf, _⟩ := h.console
      cases hf
  | some f =>
    by_cases hread : startsWith (readLog f) readFailed = true
    · simp only [if_pos hread]
      apply iff_of_false (by simp)
      intro h
      obtain ⟨g, hg, _, hread', _⟩ := h.console
      cases hg
      rw [hread] at hread'
      cases hread'
    · simp only [if_neg hread, laterLayers_failed, crashLayer_failed]
      constructor
      · intro h
        obtain ⟨⟨⟨⟨hcrash, hval⟩, hkernel⟩, g, hg, hsize⟩, hexit⟩ := h
        cases hg
        exact ⟨⟨f, rfl, hsize, Bool.eq_false_iff.mpr hread, hcrash⟩, hval, hkernel, hexit⟩
      · intro h
        obtain ⟨g, hg, hsize, _, hcrash⟩ := h.console
        cases hg
        exact ⟨⟨⟨⟨hcrash, h.validator⟩, h.kernel⟩, f, rfl, hsize⟩, h.exit⟩

end

end Validation
end Monitored
end RocmTests

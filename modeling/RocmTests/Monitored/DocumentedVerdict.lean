import RocmTests.Monitored.Validation
import RocmTests.Text.RegexRemove

/-!
# The documented verdict

What `validate_result` is documented to decide, in terms of the files themselves.
`_read_log` reports a file it cannot read by a text that begins with a sentinel, so a
file that was read and begins with it is taken for unreadable.
-/

namespace RocmTests
namespace Monitored
namespace Validation

open Text Text.Re DmesgCategories

section

variable (alnum : Char → Bool)

/-- The log was read, is not empty and shows no crash. -/
def LogOk (log : Option LogFile) : Prop :=
  ∃ f text, log = some f ∧ f.content = .ok text ∧ f.size ≠ 0 ∧
    ∀ line ∈ splitlines text, found alnum crashPatterns line = false

/-- A kernel log that is there and not empty was read, with both snapshots and without a
critical line. -/
def DmesgOk (dmesg : Option LogFile) : Prop :=
  ∀ f, dmesg = some f → f.size ≠ 0 →
    ∃ text, f.content = .ok text ∧ snapshotUnavailable text = false ∧
      ∀ line ∈ splitlines text, lineMatches alnum .critical line = false

structure Documented (vs : Validators) (testName : Txt) (log : Option LogFile) (exitCode : Int)
    (dmesg : Option LogFile) (skipTestSpecific : Bool) (numGpus : Option Int) : Prop where
  exit : exitCode = 0
  console : LogOk alnum log
  validator : ValidatorAccepts vs testName log exitCode skipTestSpecific numGpus
  kernel : DmesgOk alnum dmesg

/-- A file that was read and begins with the sentinel. -/
def Forged (f : LogFile) : Prop := ∃ text, f.content = .ok text ∧ startsWith text readFailed = true

/-- One of the two files is taken for unreadable although it was read. -/
def Misread (log dmesg : Option LogFile) : Prop :=
  (∃ f, log = some f ∧ Forged f) ∨ ∃ f, dmesg = some f ∧ f.size ≠ 0 ∧ Forged f

end

section

variable {alnum : Char → Bool}

theorem readLog_readable_iff (f : LogFile) : startsWith (readLog f) readFailed = false ↔
    (∃ text, f.content = .ok text) ∧ ¬ Forged f := by
  unfold readLog Forged
  cases hcontent : f.content with
  | ok text => simp
  | error e =>
    have hbegins : startsWith (readFailed ++ ' ' :: e) readFailed = true :=
      List.isPrefixOf_iff_prefix.mpr (List.prefix_append _ _)
    simp [hbegins]

theorem countCrashes_eq_zero_iff (text : Txt) : countCrashes alnum text = 0 ↔
    ∀ line ∈ splitlines text, found alnum crashPatterns line = false := by
  simp [countCrashes]

theorem countLinesMatching_eq_zero_iff (text : Txt) (pattern : LinePattern) :
    countLinesMatching alnum text pattern = 0 ↔
      ∀ line ∈ splitlines text, lineMatches alnum pattern line = false := by
  rw [countLinesMatching_eq, List.countP_eq_zero]
  simp

theorem console_iff (log : Option LogFile) :
    (∃ f, log = some f ∧ f.size ≠ 0 ∧ startsWith (readLog f) readFailed = false ∧
      countCrashes alnum (readLog f) = 0) ↔
      LogOk alnum log ∧ ¬ ∃ f, log = some f ∧ Forged f := by
  constructor
  · rintro ⟨f, rfl, hsize, hread, hcrash⟩
    obtain ⟨⟨text, htext⟩, hforged⟩ := (readLog_readable_iff f).mp hread
    have hlog : readLog f = text := by rw [readLog, htext]
    rw [hlog, countCrashes_eq_zero_iff] at hcrash
    refine ⟨⟨f, text, rfl, htext, hsize, hcrash⟩, ?_⟩
    rintro ⟨g, hg, hforged'⟩
    cases hg
    exact hforged hforged'
  · rintro ⟨⟨f, text, rfl, htext, hsize, hcrash⟩, hforged⟩
    have hlog : readLog f = text := by rw [readLog, htext]
    refine ⟨f, rfl, hsize, ?_, ?_⟩
    · exact (readLog_readable_iff f).mpr ⟨⟨text, htext⟩, fun h => hforged ⟨f, rfl, h⟩⟩
    · rw [hlog, countCrashes_eq_zero_iff]
      exact hcrash

theorem dmesgClean_iff (dmesg : Option LogFile) : DmesgClean alnum dmesg ↔
    DmesgOk alnum dmesg ∧ ¬ ∃ f, dmesg = some f ∧ f.size ≠ 0 ∧ Forged f := by
  have hfile {f : LogFile} {text : Txt} (htext : f.content = .ok text) :
      readLog f = text := by rw [readLog, htext]
  constructor
  · intro h
    constructor
    · intro f hf hsize
      obtain ⟨hread, hsnapshot, hcritical⟩ := h f hf hsize
      obtain ⟨⟨text, htext⟩, -⟩ := (readLog_readable_iff f).mp hread
      rw [hfile htext] at hsnapshot hcritical
      exact ⟨text, htext, hsnapshot, (countLinesMatching_eq_zero_iff text _).mp hcritical⟩
    · rintro ⟨f, hf, hsize, hforged⟩
      exact ((readLog_readable_iff f).mp (h f hf hsize).1).2 hforged
  · rintro ⟨hok, hforged⟩ f hf hsize
    obtain ⟨text, htext, hsnapshot, hcritical⟩ := hok f hf hsize
    refine ⟨(readLog_readable_iff f).mpr ⟨⟨text, htext⟩, fun h => hforged ⟨f, hf, hsize, h⟩⟩, ?_⟩
    rw [hfile htext, countLinesMatching_eq_zero_iff]
    exact ⟨hsnapshot, hcritical⟩

theorem layersPass_iff (vs : Validators) (testName : Txt) (log : Option LogFile) (exitCode : Int)
    (dmesg : Option LogFile) (skipTestSpecific : Bool) (numGpus : Option Int) :
    LayersPass alnum vs testName log exitCode dmesg skipTestSpecific numGpus ↔
      Documented alnum vs testName log exitCode dmesg skipTestSpecific numGpus ∧
        ¬ Misread log dmesg := by
  unfold Misread
  constructor
  · intro h
    obtain ⟨hlog, hforged⟩ := (console_iff log).mp h.console
    obtain ⟨hdmesg, hforged'⟩ := (dmesgClean_iff dmesg).mp h.kernel
    exact ⟨⟨h.exit, hlog, h.validator, hdmesg⟩, not_or.mpr ⟨hforged, hforged'⟩⟩
  · rintro ⟨h, hmisread⟩
    rw [not_or] at hmisread
    exact ⟨(console_iff log).mpr ⟨h.console, hmisread.1⟩, h.validator,
      (dmesgClean_iff dmesg).mpr ⟨h.kernel, hmisread.2⟩, h.exit⟩

/-- The verdict is the documented one exactly unless everything documented holds and a
file begins with the sentinel. -/
theorem verdict_documented_iff (vs : Validators) (testName : Txt) (log : Option LogFile)
    (exitCode : Int) (dmesg : Option LogFile) (skipTestSpecific : Bool) (numGpus : Option Int) :
    ((validateResult alnum vs testName log exitCode dmesg skipTestSpecific numGpus).failed = false ↔
        Documented alnum vs testName log exitCode dmesg skipTestSpecific numGpus) ↔
      (Documented alnum vs testName log exitCode dmesg skipTestSpecific numGpus →
        ¬ Misread log dmesg) := by
  rw [validateResult_failed, layersPass_iff]
  constructor
  · intro h hdocumented
    exact (h.mpr hdocumented).2
  · intro h
    exact ⟨fun hpass => hpass.1, fun hdocumented => ⟨hdocumented, h hdocumented⟩⟩

end

/-- A workload that logs the sentinel itself. -/
def sentinelLog : LogFile := ⟨22, .ok "_READ_FAILED: retried\n".toList⟩

/-- No test has a validator. -/
def noneRegistered : Validators where
  registry := fun _ => none
  rvs := fun _ _ _ _ _ _ => ⟨[], false⟩
  hmmMemtest := fun _ _ _ => ⟨[], false⟩
  transferbench := fun _ _ _ => ⟨[], false⟩

/-- The log was read, is not empty, shows no crash, and the run exited 0. -/
theorem sentinelLog_rejected :
    Documented (fun _ => false) noneRegistered [] (some sentinelLog) 0 none false none ∧
      (validateResult (fun _ => false) noneRegistered [] (some sentinelLog) 0 none false
        none).failed = true := by
  refine ⟨⟨rfl, ⟨sentinelLog, _, rfl, rfl, by decide, ?_⟩, ?_, ?_⟩, by decide⟩
  · decide
  · intro validator f h
    cases h
  · intro f h
    cases h

/-!
## The exit note

The last layer puts the exit code in front of whatever the layers before it have
said.  A log that cannot be read ends the validation before that layer.
-/

section

variable {alnum : Char → Bool} {v : ValidationResult}

theorem capital_not_mem_showInt (n : Int) : 'P' ∉ showInt n := by
  have hnat (k : Nat) : 'P' ∉ showNat k := by
    intro h
    exact absurd (isDigit_of_mem_showNat h) (by decide)
  cases n with
  | ofNat k => exact hnat k
  | negSucc k =>
    intro h
    rcases List.mem_cons.mp h with h | h
    · exact absurd h (by decide)
    · exact hnat (k + 1) h

theorem capital_not_mem_exitNote (exitCode : Int) : 'P' ∉ exitNote exitCode := by
  unfold exitNote
  split_ifs
  · rw [List.mem_append, not_or]
    exact ⟨by decide, capital_not_mem_showInt _⟩
  · rw [List.mem_append, not_or]
    exact ⟨by decide, capital_not_mem_showInt _⟩

theorem head_exitNote (exitCode : Int) :
    (exitNote exitCode).head? = some 'k' ∨ (exitNote exitCode).head? = some 'e' := by
  unfold exitNote
  split_ifs
  · exact .inl rfl
  · exact .inr rfl

/-- A match of `\bPASS \(` begins with its `P`. -/
theorem head_of_passPattern {b m w : Txt} (h : Matches (isWordChar alnum) passPattern b m w) :
    m.head? = some 'P' := by
  unfold passPattern at h
  rw [matches_cat_cons] at h
  obtain ⟨m₁, m₂, rfl, hbound, h⟩ := h
  rw [(matches_wordBoundary.mp hbound).1, matches_lit.mp h]
  rfl

/-- The rewriting at the end leaves the note in front. -/
theorem exitNote_isPrefix_closeMessage {exitCode : Int} (h : exitNote exitCode <+: v.message)
    (hfailed : v.failed = true) :
    exitNote exitCode <+: (closeMessage alnum v).message := by
  have hkept : exitNote exitCode <+:
      subst (isWordChar alnum) passPattern "workload OK (".toList v.message :=
    isPrefix_subst _ (fun _ _ _ hm => ⟨'P', head_of_passPattern hm,
      capital_not_mem_exitNote exitCode⟩) h
  unfold closeMessage
  simp only [if_pos hfailed]
  rw [if_neg]
  · exact hkept
  · intro hnil
    rw [hnil] at hkept
    rcases head_exitNote exitCode with hhead | hhead
    · rw [List.prefix_nil.mp hkept] at hhead
      cases hhead
    · rw [List.prefix_nil.mp hkept] at hhead
      cases hhead

theorem exitLayer_leads {exitCode : Int} (hexit : exitCode ≠ 0) :
    exitNote exitCode <+: (exitLayer v exitCode).message ∧
      (exitLayer v exitCode).failed = true := by
  unfold exitLayer
  rw [if_pos hexit]
  refine ⟨?_, rfl⟩
  show exitNote exitCode <+: if v.message = [] then _ else _
  by_cases hmsg : v.message = []
  · rw [if_pos hmsg]
  · rw [if_neg hmsg]
    unfold annotate
    split_ifs with hnote
    · rw [hnote]
      exact List.nil_prefix
    · rw [List.append_assoc]
      exact List.prefix_append _ _

theorem laterLayers_leads (vs : Validators) (testName : Txt) (log : Option LogFile)
    {exitCode : Int} (hexit : exitCode ≠ 0) (dmesg : Option LogFile) (skipTestSpecific : Bool)
    (numGpus : Option Int) :
    exitNote exitCode <+: (laterLayers alnum vs v testName log exitCode dmesg skipTestSpecific
      numGpus).message := by
  obtain ⟨hleads, hfailed⟩ := exitLayer_leads hexit
  exact exitNote_isPrefix_closeMessage hleads hfailed

/-- The log could not be read, or begins as if it could not. -/
def Unreadable (log : Option LogFile) : Prop :=
  ∃ f, log = some f ∧ startsWith (readLog f) readFailed = true

/-- A run that exits with another code than 0 has the exit note in front of its message
exactly unless its log is taken for unreadable. -/
theorem exitNote_leads_iff (alnum : Char → Bool) (vs : Validators) (testName : Txt)
    (log : Option LogFile) (exitCode : Int) (dmesg : Option LogFile) (skipTestSpecific : Bool)
    (numGpus : Option Int) :
    (exitCode ≠ 0 → exitNote exitCode <+:
        (validateResult alnum vs testName log exitCode dmesg skipTestSpecific numGpus).message) ↔
      (exitCode ≠ 0 → ¬ Unreadable log) := by
  refine imp_congr_right fun hexit => ?_
  unfold validateResult Unreadable
  cases log with
  | none =>
    refine iff_of_true (laterLayers_leads vs testName none hexit dmesg skipTestSpecific numGpus) ?_
    rintro ⟨f, hf, -⟩
    cases hf
  | some f =>
    by_cases hread : startsWith (readLog f) readFailed = true
    · simp only [if_pos hread]
      refine iff_of_false ?_ (not_not.mpr ⟨f, rfl, hread⟩)
      rintro ⟨rest, hrest⟩
      have hfirst := congrArg List.head? hrest
      rcases head_exitNote exitCode with hhead | hhead
      · rw [List.head?_append, hhead] at hfirst
        cases hfirst
      · rw [List.head?_append, hhead] at hfirst
        cases hfirst
    · simp only [if_neg hread]
      refine iff_of_true
        (laterLayers_leads vs testName (some f) hexit dmesg skipTestSpecific numGpus) ?_
      rintro ⟨g, hg, hg'⟩
      cases hg
      exact hread hg'

end

/-- A log whose disk fails. -/
def failingLog : LogFile := ⟨4096, .error "OSError: [Errno 5] Input/output error".toList⟩

/-- The message of a run that was killed does not say so. -/
theorem killed_without_note :
    ¬ exitNote (-9) <+: (validateResult (fun _ => false) noneRegistered [] (some failingLog) (-9)
      none false none).message := by
  decide

end Validation
end Monitored
end RocmTests

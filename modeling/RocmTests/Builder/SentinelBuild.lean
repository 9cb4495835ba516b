import Mathlib.Data.List.Infix
import RocmTests.Builder.CmakeCache
import RocmTests.Markers.GpuCount

/-!
# The QUDA and Kokkos build fixtures

Both suites configure, build and install an upstream project once, and a later
session takes the tree as it is when `CTestTestfile.cmake` is in it.  That file
comes from the configure step.  The Kokkos fixture also keeps the verdict of its
scan for `-fgpu-rdc` in a file beside it.

The commands and their logs are left out.  What can fail before the tree is
looked at (the architecture, the clone, the licence, the MPI runtime) is one
choice of the environment, `prepared`, and what can fail between that look and
the first step (the compilers, the log directory) is another, `ready`.
-/

namespace RocmTests
namespace Builder
namespace SentinelBuild

open Conc CmakeCache Markers

inductive Suite where
  | quda
  | kokkos
deriving DecidableEq, Repr

/-- How one of the three steps went, and whether the sentinel is among the files
it wrote. -/
structure StepRun where
  ended : Ended := .ok
  sentinel : Bool := false
  output : String := ""

/-- One session: its parameters and the choices of the environment. -/
structure Session where
  sourceDir : String
  gpuArch : String
  configLabel : String := ""
  prepared : Bool := true
  probe : Bool := true
  flagReads : Bool := true
  ready : Bool := true
  configure : StepRun := {}
  build : StepRun := {}
  install : StepRun := {}
  flagWrite : Write := .landed

/-- A build directory: the sentinel, the text of `rdc_flag.txt`, and as history
the output of the build when the last session that worked here completed all
three steps. -/
structure BuildDir where
  sentinel : Bool
  rdcFlag : Option String
  completed : Option String

def BuildDir.absent : BuildDir := ⟨false, none, none⟩

structure Built where
  buildDir : String
  installDir : String
  rdcFlagPresent : Bool
  buildLogPath : String

def buildDirOf : Suite → Session → String
  | .quda, s => s.sourceDir ++ "/quda_build-" ++ s.gpuArch ++ "-" ++ s.configLabel
  | .kokkos, s => s.sourceDir ++ "/kokkos_build-" ++ s.gpuArch

def installDirOf : Suite → Session → String
  | .quda, s => s.sourceDir ++ "/quda_install-" ++ s.gpuArch ++ "-" ++ s.configLabel
  | .kokkos, s => s.sourceDir ++ "/kokkos_install-" ++ s.gpuArch

/-- `_RDC_FLAG in build_output`. -/
def rdcFlagIn (output : String) : Bool := decide ("-fgpu-rdc".toList <:+: output.toList)

/-! ## The three steps -/

namespace BuildDir

def after (d : BuildDir) (r : StepRun) : BuildDir := { d with sentinel := d.sentinel || r.sentinel }

/-- `_write_text` of the flag file, and whether it returned. -/
def writeFlag (d : BuildDir) (value : String) : Write → Bool × BuildDir
  | .landed => (true, { d with rdcFlag := some value })
  | .lost => (true, d)
  | .torn => (true, { d with rdcFlag := some "" })
  | .interrupted => (false, d)

/-- `_read_text` of the flag file. -/
def readFlag (d : BuildDir) (reads : Bool) : String := if reads then d.rdcFlag.getD "" else ""

end BuildDir

/-- What a suite does between its build and its install. -/
def afterBuild : Suite → Session → BuildDir → Bool × BuildDir
  | .quda, _, d => (true, d)
  | .kokkos, s, d => d.writeFlag (if rdcFlagIn s.build.output then "1" else "0") s.flagWrite

/-- Configure, build and install, and whether all three returned. -/
def runSteps (suite : Suite) (s : Session) (d : BuildDir) : Bool × BuildDir :=
  let configured := { d with completed := none }.after s.configure
  if s.configure.ended = .ok then
    let built := configured.after s.build
    if s.build.ended = .ok then
      let recorded := afterBuild suite s built
      if recorded.1 then
        let installed := recorded.2.after s.install
        if s.install.ended = .ok then
          (true, { installed with completed := some s.build.output })
        else (false, installed)
      else (false, recorded.2)
    else (false, built)
  else (false, configured)

/-! ## The fixtures -/

def qudaBuild (s : Session) (d : BuildDir) : Option Built × BuildDir :=
  let result : Built := ⟨buildDirOf .quda s, installDirOf .quda s, false, ""⟩
  if s.prepared then
    if d.sentinel && s.probe then (some result, d)
    else if s.ready then
      let steps := runSteps .quda s d
      (if steps.1 then some result else none, steps.2)
    else (none, d)
  else (none, d)

def kokkosRdcBuild (s : Session) (d : BuildDir) : Option Built × BuildDir :=
  let dir := buildDirOf .kokkos s
  let result (present : Bool) : Built :=
    ⟨dir, installDirOf .kokkos s, present, dir ++ "/kokkos-build-verbose.log"⟩
  if s.prepared then
    if d.sentinel && s.probe then
      (some (result (strip (d.readFlag s.flagReads).toList == ['1'])), d)
    else if s.ready then
      let steps := runSteps .kokkos s d
      (if steps.1 then some (result (rdcFlagIn s.build.output)) else none, steps.2)
    else (none, d)
  else (none, d)

def buildFixture : Suite → Session → BuildDir → Option Built × BuildDir
  | .quda => qudaBuild
  | .kokkos => kokkosRdcBuild

/-- The trees of both suites. -/
abbrev Trees := Suite → String → BuildDir

/-- A session of a suite. -/
def runSession (suite : Suite) (s : Session) (fs : Trees) : Option Built × Trees :=
  let ran := buildFixture suite s (fs suite (buildDirOf suite s))
  (ran.1, Function.update fs suite (Function.update (fs suite) (buildDirOf suite s) ran.2))

/-! ## When the sentinel can be trusted -/

/-- The session goes past the check of the sentinel. -/
def WorksIn (s : Session) (d : BuildDir) : Prop :=
  s.prepared = true ∧ s.ready = true ∧ (d.sentinel && s.probe) = false

/-- The steps of the session leave a sentinel. -/
def LeavesSentinel (s : Session) (d : BuildDir) : Prop :=
  d.sentinel = true ∨ s.configure.sentinel = true ∨
    s.configure.ended = .ok ∧ (s.build.sentinel = true ∨
      s.build.ended = .ok ∧ s.install.sentinel = true)

/-- All steps of the session end well, and for Kokkos the verdict is kept. -/
structure Finishes (suite : Suite) (s : Session) : Prop where
  configure : s.configure.ended = .ok
  build : s.build.ended = .ok
  install : s.install.ended = .ok
  flag : suite = .kokkos → s.flagWrite = .landed

/-- The condition on one session. -/
structure Regular (suite : Suite) (s : Session) (d : BuildDir) : Prop where
  /-- A session that leaves the sentinel finishes. -/
  finishes : WorksIn s d → LeavesSentinel s d → Finishes suite s
  /-- A Kokkos session that takes the tree as it is can read the verdict. -/
  reads : suite = .kokkos → d.sentinel = true → s.flagReads = true

/-! ## Sessions keep the sentinel honest -/

section

variable {suite : Suite} {s : Session} {d : BuildDir}

/-- A tree with the sentinel is complete, and the Kokkos verdict is that of the
build that completed. -/
def Trusted (suite : Suite) (d : BuildDir) : Prop :=
  d.sentinel = true → ∃ output, d.completed = some output ∧
    (suite = .kokkos → d.rdcFlag = some (if rdcFlagIn output then "1" else "0"))

theorem writeFlag_sentinel (value : String) (w : Write) :
    (d.writeFlag value w).2.sentinel = d.sentinel := by
  cases w <;> rfl

theorem afterBuild_sentinel (suite : Suite) (s : Session) (d : BuildDir) :
    (afterBuild suite s d).2.sentinel = d.sentinel := by
  cases suite with
  | quda => rfl
  | kokkos => exact writeFlag_sentinel _ _

theorem leavesSentinel_of_runSteps (h : (runSteps suite s d).2.sentinel = true) :
    LeavesSentinel s d := by
  unfold LeavesSentinel
  unfold runSteps at h
  by_cases hconfigure : s.configure.ended = .ok
  · simp only [if_pos hconfigure] at h
    by_cases hbuild : s.build.ended = .ok
    · simp only [if_pos hbuild] at h
      split at h
      · split at h
        · simp only [BuildDir.after, afterBuild_sentinel, Bool.or_eq_true] at h
          tauto
        · simp only [BuildDir.after, afterBuild_sentinel, Bool.or_eq_true] at h
          tauto
      · simp only [BuildDir.after, afterBuild_sentinel, Bool.or_eq_true] at h
        tauto
    · simp only [if_neg hbuild, BuildDir.after, Bool.or_eq_true] at h
      tauto
  · simp only [if_neg hconfigure, BuildDir.after, Bool.or_eq_true] at h
    tauto

/-- Steps that all return have completed the tree. -/
theorem completed_of_runSteps (h : (runSteps suite s d).1 = true) :
    (runSteps suite s d).2.completed = some s.build.output := by
  unfold runSteps at h ⊢
  by_cases hconfigure : s.configure.ended = .ok
  · simp only [if_pos hconfigure] at h ⊢
    by_cases hbuild : s.build.ended = .ok
    · simp only [if_pos hbuild] at h ⊢
      split at h
      · rename_i hrecorded
        rw [if_pos hrecorded]
        split at h
        · rename_i hinstall
          rw [if_pos hinstall]
        · cases h
      · cases h
    · simp only [if_neg hbuild] at h
      cases h
  · simp only [if_neg hconfigure] at h
    cases h

theorem Finishes.runSteps_eq (h : Finishes suite s) :
    ∃ d', runSteps suite s d = (true, d') ∧ (suite = .kokkos →
      d'.rdcFlag = some (if rdcFlagIn s.build.output then "1" else "0")) := by
  unfold runSteps
  simp only [if_pos h.configure, if_pos h.build]
  cases suite with
  | quda =>
    simp only [afterBuild, if_true, if_pos h.install]
    exact ⟨_, rfl, fun hk => by cases hk⟩
  | kokkos =>
    have hflag := h.flag rfl
    simp only [afterBuild, hflag, BuildDir.writeFlag, if_true, if_pos h.install]
    exact ⟨_, rfl, fun _ => rfl⟩

theorem runSteps_trusted (h : LeavesSentinel s d → Finishes suite s) :
    Trusted suite (runSteps suite s d).2 := by
  intro hsentinel
  have hfinishes := h (leavesSentinel_of_runSteps hsentinel)
  obtain ⟨d', hrun, hflag⟩ := hfinishes.runSteps_eq (d := d)
  have hreturns : (runSteps suite s d).1 = true := by rw [hrun]
  refine ⟨s.build.output, completed_of_runSteps hreturns, fun hk => ?_⟩
  rw [hrun]
  exact hflag hk

theorem buildFixture_trusted (h : Trusted suite d) (hregular : Regular suite s d) :
    Trusted suite (buildFixture suite s d).2 := by
  have hsteps : s.prepared = true → s.ready = true → ¬ (d.sentinel && s.probe) = true →
      Trusted suite (runSteps suite s d).2 := fun hprepared hready hnot =>
    runSteps_trusted (hregular.finishes ⟨hprepared, hready, Bool.eq_false_iff.mpr hnot⟩)
  cases suite with
  | quda =>
    unfold buildFixture qudaBuild
    simp only
    split
    · split
      · exact h
      · split
        · exact hsteps ‹_› ‹_› ‹_›
        · exact h
    · exact h
  | kokkos =>
    unfold buildFixture kokkosRdcBuild
    simp only
    split
    · split
      · exact h
      · split
        · exact hsteps ‹_› ‹_› ‹_›
        · exact h
    · exact h

theorem readFlag_verdict {output : String} (hreads : s.flagReads = true)
    (hflag : d.rdcFlag = some (if rdcFlagIn output then "1" else "0")) :
    (strip (d.readFlag s.flagReads).toList == ['1']) = rdcFlagIn output := by
  rw [hreads]
  unfold BuildDir.readFlag
  rw [if_pos rfl, hflag]
  cases rdcFlagIn output with
  | true => decide
  | false => decide

/-- What a fixture returns stands in a tree that is complete. -/
theorem buildFixture_returns {r : Built} (h : Trusted suite d) (hregular : Regular suite s d)
    (hr : (buildFixture suite s d).1 = some r) :
    r.buildDir = buildDirOf suite s ∧ ∃ output,
      (buildFixture suite s d).2.completed = some output ∧
        (suite = .kokkos → r.rdcFlagPresent = rdcFlagIn output) := by
  cases suite with
  | quda =>
    unfold buildFixture qudaBuild at hr ⊢
    simp only at hr ⊢
    split at hr
    · split at hr
      · rename_i hprepared hsentinel
        cases hr
        obtain ⟨output, hcompleted, _⟩ := h (Bool.and_eq_true_iff.mp hsentinel).1
        rw [if_pos hprepared, if_pos hsentinel]
        exact ⟨rfl, output, hcompleted, fun hk => by cases hk⟩
      · split at hr
        · rename_i hprepared hsentinel hready
          rw [if_pos hprepared, if_neg hsentinel, if_pos hready]
          split at hr
          · rename_i hreturns
            cases hr
            exact ⟨rfl, _, completed_of_runSteps hreturns, fun hk => by cases hk⟩
          · cases hr
        · cases hr
    · cases hr
  | kokkos =>
    unfold buildFixture kokkosRdcBuild at hr ⊢
    simp only at hr ⊢
    split at hr
    · split at hr
      · rename_i hprepared hsentinel
        cases hr
        have hthere := (Bool.and_eq_true_iff.mp hsentinel).1
        obtain ⟨output, hcompleted, hflag⟩ := h hthere
        rw [if_pos hprepared, if_pos hsentinel]
        exact ⟨rfl, output, hcompleted, fun hk =>
          readFlag_verdict (hregular.reads rfl hthere) (hflag rfl)⟩
      · split at hr
        · rename_i hprepared hsentinel hready
          rw [if_pos hprepared, if_neg hsentinel, if_pos hready]
          split at hr
          · rename_i hreturns
            cases hr
            exact ⟨rfl, _, completed_of_runSteps hreturns, fun _ => rfl⟩
          · cases hr
        · cases hr
    · cases hr

end

theorem runSession_own (suite : Suite) (s : Session) (fs : Trees) :
    (runSession suite s fs).2 suite (buildDirOf suite s) =
      (buildFixture suite s (fs suite (buildDirOf suite s))).2 := by
  unfold runSession
  simp only [Function.update_self]

def start : Trees := fun _ _ => BuildDir.absent

theorem trusted_runSession {suite : Suite} {s : Session} {fs : Trees}
    (h : ∀ suite p, Trusted suite (fs suite p))
    (hregular : Regular suite s (fs suite (buildDirOf suite s))) (suite' : Suite) (p : String) :
    Trusted suite' ((runSession suite s fs).2 suite' p) := by
  unfold runSession
  by_cases hsuite : suite' = suite
  · subst hsuite
    by_cases hp : p = buildDirOf suite' s
    · subst hp
      simp only [Function.update_self]
      exact buildFixture_trusted (h _ _) hregular
    · simp only [Function.update_self, Function.update_of_ne hp]
      exact h _ _
  · simp only [Function.update_of_ne hsuite]
    exact h _ _

/-- Over every sequence of sessions each of which is `Regular` where it runs, a
fixture that returns a build directory returns one in which the three steps have
completed, and the Kokkos verdict is that of the build that completed. -/
theorem returned_tree_complete {fs : Trees}
    (h : Reached (fun l : Suite × Session => fun fs => (runSession l.1 l.2 fs).2)
      (fun fs l => Regular l.1 l.2 (fs l.1 (buildDirOf l.1 l.2))) start fs)
    (suite : Suite) (s : Session) (hregular : Regular suite s (fs suite (buildDirOf suite s)))
    (r : Built) (hr : (runSession suite s fs).1 = some r) :
    ∃ output, ((runSession suite s fs).2 suite r.buildDir).completed = some output ∧
      (suite = .kokkos → r.rdcFlagPresent = rdcFlagIn output) := by
  have htrusted : ∀ suite p, Trusted suite (fs suite p) := by
    refine h.invariant (I := fun fs => ∀ suite p, Trusted suite (fs suite p)) ?_ ?_
    · intro suite p hsentinel
      cases hsentinel
    · intro fs l hfs hl
      exact trusted_runSession hfs hl
  obtain ⟨hdir, output, hcompleted, hflag⟩ := buildFixture_returns (htrusted _ _) hregular hr
  refine ⟨output, ?_, hflag⟩
  rw [hdir, runSession_own]
  exact hcompleted

/-! ## Two sessions -/

def kokkosSession : Session :=
  { sourceDir := "/work/kokkos", gpuArch := "gfx942", configure := { sentinel := true },
    build := { output := "hipcc -fgpu-rdc" } }

def kokkosBuilt (rdcFlagPresent : Bool) : Built :=
  ⟨buildDirOf .kokkos kokkosSession, installDirOf .kokkos kokkosSession, rdcFlagPresent,
    buildDirOf .kokkos kokkosSession ++ "/kokkos-build-verbose.log"⟩

theorem kokkosSession_flag : rdcFlagIn kokkosSession.build.output = true := by
  show rdcFlagIn "hipcc -fgpu-rdc" = true
  unfold rdcFlagIn
  rw [decide_eq_true_iff]
  refine ⟨['h', 'i', 'p', 'c', 'c', ' '], [], ?_⟩
  simp

/-- A first session that completes, and one that stops after its configure step. -/
theorem kokkos_first_session {s : Session} (hprepared : s.prepared = true) (hready : s.ready = true)
    (hsentinel : s.configure.sentinel = true) (hconfigure : s.configure.ended = .ok) :
    (Finishes .kokkos s → kokkosRdcBuild s BuildDir.absent =
      (some ⟨buildDirOf .kokkos s, installDirOf .kokkos s, rdcFlagIn s.build.output,
          buildDirOf .kokkos s ++ "/kokkos-build-verbose.log"⟩,
        ⟨true, some (if rdcFlagIn s.build.output then "1" else "0"), some s.build.output⟩)) ∧
    (s.build.ended ≠ .ok → (kokkosRdcBuild s BuildDir.absent).2 = ⟨true, none, none⟩) := by
  constructor
  · intro hf
    simp only [kokkosRdcBuild, runSteps, afterBuild, BuildDir.writeFlag, BuildDir.after,
      BuildDir.absent, hprepared, hready, hf.configure, hf.build, hf.install, hf.flag rfl,
      hsentinel,
      Bool.false_and, Bool.or_true, Bool.true_or, if_true, Bool.false_eq_true, if_false]
  · intro hbuild
    simp only [kokkosRdcBuild, runSteps, BuildDir.after, BuildDir.absent, hprepared, hready,
      hconfigure, hsentinel, if_neg hbuild, Bool.false_and, Bool.or_true, Bool.true_or, if_true,
      Bool.false_eq_true, if_false]

/-- A session that finds the sentinel. -/
theorem kokkos_later_session {s : Session} {d : BuildDir} (hprepared : s.prepared = true)
    (hprobe : s.probe = true) (hreads : s.flagReads = true) (hsentinel : d.sentinel = true) :
    kokkosRdcBuild s d = (some ⟨buildDirOf .kokkos s, installDirOf .kokkos s,
      strip (d.rdcFlag.getD "").toList == ['1'],
      buildDirOf .kokkos s ++ "/kokkos-build-verbose.log"⟩, d) := by
  simp only [kokkosRdcBuild, BuildDir.readFlag, hprepared, hprobe, hreads, hsentinel, Bool.and_self,
    if_true]

theorem kokkosSession_finishes : Finishes .kokkos kokkosSession := ⟨rfl, rfl, rfl, fun _ => rfl⟩

theorem firstSession_tree : (runSession .kokkos kokkosSession start).2 .kokkos
    (buildDirOf .kokkos kokkosSession) = ⟨true, some "1", some kokkosSession.build.output⟩ := by
  have hfirst := (kokkos_first_session (s := kokkosSession) rfl rfl rfl rfl).1
    kokkosSession_finishes
  rw [kokkosSession_flag, if_pos rfl] at hfirst
  rw [runSession_own]
  exact congrArg Prod.snd hfirst

theorem returned_tree_complete_second_session :
    ∃ output, ((runSession .kokkos kokkosSession (runSession .kokkos kokkosSession start).2).2
        .kokkos (kokkosBuilt true).buildDir).completed = some output ∧
      (Suite.kokkos = .kokkos → (kokkosBuilt true).rdcFlagPresent = rdcFlagIn output) := by
  have hregular : ∀ d, Regular .kokkos kokkosSession d := fun d =>
    ⟨fun _ _ => kokkosSession_finishes, fun _ _ => rfl⟩
  refine returned_tree_complete (.step (l := (Suite.kokkos, kokkosSession)) .start (hregular _))
    .kokkos kokkosSession (hregular _) (kokkosBuilt true) ?_
  show (kokkosRdcBuild kokkosSession ((runSession .kokkos kokkosSession start).2 .kokkos
    (buildDirOf .kokkos kokkosSession))).1 = _
  rw [firstSession_tree, kokkos_later_session rfl rfl rfl rfl]
  have hone : (strip "1".toList == ['1']) = true := by decide
  rw [Option.getD_some, hone]
  rfl

/-- The build of the first session fails after its configure step. -/
def failedSession : Session := { kokkosSession with build := { ended := .failed } }

theorem failedSession_tree : (runSession .kokkos failedSession start).2 .kokkos
    (buildDirOf .kokkos kokkosSession) = ⟨true, none, none⟩ := by
  have hfirst := (kokkos_first_session (s := failedSession) rfl rfl rfl rfl).2 (by decide)
  have hdir : buildDirOf .kokkos kokkosSession = buildDirOf .kokkos failedSession := rfl
  rw [hdir, runSession_own]
  exact hfirst

/-- The second session returns the tree without a build ever having finished in
it, and reports that the flag is absent. -/
theorem returned_tree_incomplete :
    Reached (fun l : Suite × Session => fun fs => (runSession l.1 l.2 fs).2) (fun _ _ => True) start
        (runSession .kokkos failedSession start).2 ∧
      (runSession .kokkos kokkosSession (runSession .kokkos failedSession start).2).1 =
        some (kokkosBuilt false) ∧
      ((runSession .kokkos kokkosSession (runSession .kokkos failedSession start).2).2 .kokkos
        (kokkosBuilt false).buildDir).completed = none := by
  have hlater := kokkos_later_session (s := kokkosSession) (d := ⟨true, none, none⟩) rfl rfl rfl rfl
  refine ⟨.step (l := (Suite.kokkos, failedSession)) .start trivial, ?_, ?_⟩
  · show (kokkosRdcBuild kokkosSession ((runSession .kokkos failedSession start).2 .kokkos
      (buildDirOf .kokkos kokkosSession))).1 = _
    have hnone : (strip "".toList == ['1']) = false := by decide
    rw [failedSession_tree, hlater, Option.getD_none, hnone]
    rfl
  · show ((runSession .kokkos kokkosSession (runSession .kokkos failedSession start).2).2 .kokkos
      (buildDirOf .kokkos kokkosSession)).completed = none
    rw [runSession_own, failedSession_tree]
    exact congrArg (fun x => x.2.completed) hlater

end SentinelBuild
end Builder
end RocmTests

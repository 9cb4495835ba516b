import Mathlib.Data.List.Sort
import Mathlib.Data.Set.Function
import RocmTests.Conc.History

/-!
# The fingerprint cache of `cmake_build_dir`

One build directory over a sequence of calls.  A call compares two digests with
those stored in the directory and either returns at once, rebuilds in place or
rebuilds from scratch.  The digests are written after a build that succeeded and
are not removed before the next one starts.

Messages, the label and the upload of the sources are left out.  `Tree` stands
for the contents of the source and sync directories, `hash` for the SHA-256 of
the JSON text and `treeFp` for `source_tree_fingerprint`.
-/

namespace RocmTests
namespace Builder
namespace CmakeCache

open Conc

inductive CompilerMode where
  | auto
  | cxxHip
  | optionalAuto
  | optionalCxxHip
  | none
deriving DecidableEq, Repr

/-- What decides the outcome of a cmake run.  `gpuArch` is empty where there is
none. -/
structure Inputs (Tree : Type) where
  src : String
  rocmPath : String
  gpuArch : String
  gpuArchVar : String
  extraCmakeArgs : List String
  compilerMode : CompilerMode
  target : Option String
  tree : Tree
deriving DecidableEq

/-- The arguments of one call, with the session's ROCm path and GPU architecture. -/
structure Call (Tree : Type) where
  rocmPath : String
  sessionGpuArch : Option String
  src : String
  tree : Tree
  extraCmakeArgs : Option (List String) := none
  gpuArchVar : String := "GPU_ARCH"
  gpuArch : Option String := none
  artifact : Option String := none
  compilerMode : CompilerMode := .auto
  target : Option String := none
  tolerateBuildFailure : Bool := false

variable {Tree Digest : Type}

def Call.resolvedGpuArch (c : Call Tree) : Option String :=
  c.gpuArch.orElse fun _ => c.sessionGpuArch

def Call.inputs (c : Call Tree) : Inputs Tree where
  src := c.src
  rocmPath := c.rocmPath
  gpuArch := c.resolvedGpuArch.getD ""
  gpuArchVar := c.gpuArchVar
  extraCmakeArgs := c.extraCmakeArgs.getD []
  compilerMode := c.compilerMode
  target := c.target
  tree := c.tree

/-! ## Fingerprints -/

def sorted (xs : List String) : List String := xs.mergeSort fun a b => decide (a ≤ b)

def computeFingerprint (hash : List String → Digest) (keyInputs : List String) : Digest :=
  hash (sorted keyInputs)

/-- The inputs of the full digest. -/
def fullInputs (treeFp : Tree → String) (subdir : String) (i : Inputs Tree) : List String :=
  [i.rocmPath, i.gpuArch, i.src, subdir, treeFp i.tree] ++ sorted i.extraCmakeArgs

def structuralInputs (subdir : String) (i : Inputs Tree) : List String :=
  [i.rocmPath, i.gpuArch, i.src, subdir]

structure Fingerprint (Digest : Type) where
  structural : Digest
  full : Digest
deriving DecidableEq

def fingerprint (hash : List String → Digest) (treeFp : Tree → String) (subdir : String)
    (i : Inputs Tree) : Fingerprint Digest where
  structural := computeFingerprint hash (structuralInputs subdir i)
  full := computeFingerprint hash (fullInputs treeFp subdir i)

inductive CacheAction where
  | skip
  | incremental
  | wipe
deriving DecidableEq, Repr

def buildCacheAction [DecidableEq Digest] (stored : Option (Fingerprint Digest))
    (current : Fingerprint Digest) : CacheAction :=
  match stored with
  | none => .wipe
  | some s =>
    if s.structural ≠ current.structural then .wipe
    else if s.full ≠ current.full then .incremental
    else .skip

/-! ## The directory -/

/-- A cmake run: its commands and whether configure and build both ended well. -/
structure CmakeRun (Tree : Type) where
  inputs : Inputs Tree
  configureCmd : List String
  buildCmd : List String
  ok : Bool

/-- What a build directory holds: the fingerprint file, and the last cmake run as
history. -/
structure Dir (Tree Digest : Type) where
  stored : Option (Fingerprint Digest)
  lastRun : Option (CmakeRun Tree)

def Dir.fresh : Dir Tree Digest := ⟨none, none⟩

/-- How a command ends. -/
inductive Ended where
  | ok
  | failed
  | interrupted
deriving DecidableEq, Repr

/-- How the configure step ends.  A cache mismatch has it run a second time in a
directory that was removed, `wiped` telling whether the fingerprint went too. -/
inductive Configure where
  | once (e : Ended)
  | mismatch (wiped : Bool) (retry : Ended)
deriving DecidableEq, Repr

def Configure.ended : Configure → Ended
  | .once e => e
  | .mismatch _ retry => retry

def Configure.removes : Configure → Bool
  | .once _ => false
  | .mismatch wiped _ => wiped

/-- What becomes of the fingerprint file when it is written.  `torn` leaves a
text that is not valid JSON. -/
inductive Write where
  | landed
  | lost
  | torn
  | interrupted
deriving DecidableEq, Repr

/-- The choices the environment makes during one call. -/
structure Env where
  artifactExists : Bool := true
  readable : Bool := true
  wiped : Bool := true
  wipe : Ended := .ok
  clangpp : Option String := none
  prepare : Ended := .ok
  configure : Configure := .once .ok
  build : Ended := .ok
  artifactBuilt : Bool := true
  write : Write := .landed
  moduleDir : String := ""
  srcPath : String := ""
  buildPath : String := ""
  jobs : Nat := 1

inductive Result where
  | skipped
  | built
  | raised
deriving DecidableEq, Repr

/-! ## One call -/

def optionalCompiler : CompilerMode → Bool
  | .optionalAuto => true
  | .optionalCxxHip => true
  | _ => false

/-- The compiler flags, or `none` where the call fails for want of clang++. -/
def compilerArgs (remote : Bool) (c : Call Tree) (clangpp : Option String) :
    Option (List String) :=
  match c.compilerMode with
  | .none => some []
  | mode =>
    if !remote && clangpp.isNone && !optionalCompiler mode then none
    else if clangpp.isSome || !optionalCompiler mode then
      let path := clangpp.getD (c.rocmPath ++ "/lib/llvm/bin/clang++")
      some (["-DCMAKE_CXX_COMPILER=" ++ path] ++
        (if mode = .cxxHip ∨ mode = .optionalCxxHip then ["-DCMAKE_HIP_COMPILER=" ++ path] else []))
    else some []

def configureCmd (c : Call Tree) (e : Env) (compilerArgs : List String) : List String :=
  let arch := c.resolvedGpuArch.getD ""
  ["cmake", "-S", e.srcPath, "-B", e.buildPath, "-DROCM_PATH=" ++ c.rocmPath,
    "-DCMAKE_PREFIX_PATH=" ++ c.rocmPath] ++ compilerArgs ++
    (if arch = "" then [] else ["-D" ++ c.gpuArchVar ++ "=" ++ arch]) ++
    (c.extraCmakeArgs.getD [] ++ ["-DROCM_TEST_CMAKE_MODULE_DIR=" ++ e.moduleDir])

def buildCmd (c : Call Tree) (e : Env) : List String :=
  ["cmake", "--build", e.buildPath, "--parallel", toString e.jobs] ++
    (match c.target with
    | some target => ["--target", target]
    | none => []) ++
    (if c.tolerateBuildFailure then ["--", "-k"] else [])

namespace Dir

/-- A cmake run begins; it has not succeeded yet. -/
def beginRun (d : Dir Tree Digest) (c : Call Tree) (e : Env) (args : List String) :
    Dir Tree Digest :=
  { d with lastRun := some ⟨c.inputs, configureCmd c e args, buildCmd c e, false⟩ }

def succeed (d : Dir Tree Digest) : Dir Tree Digest :=
  { d with lastRun := d.lastRun.map fun r => { r with ok := true } }

def remove (d : Dir Tree Digest) (wiped : Bool) : Dir Tree Digest :=
  { d with stored := if wiped then none else d.stored }

def write (d : Dir Tree Digest) (fp : Fingerprint Digest) : Write → Dir Tree Digest
  | .landed => { d with stored := some fp }
  | .lost => d
  | .torn => { d with stored := none }
  | .interrupted => d

end Dir

/-- `cmake_build`, and whether it returned. -/
def cmakeBuild (c : Call Tree) (e : Env) (args : List String) (d : Dir Tree Digest) :
    Bool × Dir Tree Digest :=
  let configured := (d.beginRun c e args).remove e.configure.removes
  if e.configure.ended = .ok then
    match e.build with
    | .ok => (true, configured.succeed)
    | .failed => (c.tolerateBuildFailure && c.artifact.isSome && e.artifactBuilt, configured)
    | .interrupted => (false, configured)
  else (false, configured)

section

variable (hash : List String → Digest) (treeFp : Tree → String) (subdir : String) (remote : Bool)

/-- The part of `_build` after the cache check. -/
def runCmake (c : Call Tree) (e : Env) (d : Dir Tree Digest) : Result × Dir Tree Digest :=
  match compilerArgs remote c e.clangpp with
  | none => (.raised, d)
  | some args =>
    if e.prepare = .ok then
      let built := cmakeBuild c e args d
      if built.1 then
        if c.artifact.isSome then
          (if e.write = .interrupted then .raised else .built,
            built.2.write (fingerprint hash treeFp subdir c.inputs) e.write)
        else (.built, built.2)
      else (.raised, built.2)
    else (.raised, d)

variable [DecidableEq Digest]

/-- The cache check.  Without the artifact in place nothing is compared and cmake
runs in the directory as it is. -/
def cacheAction (c : Call Tree) (e : Env) (d : Dir Tree Digest) : CacheAction :=
  if c.artifact.isSome && e.artifactExists then
    buildCacheAction (if e.readable then d.stored else none)
      (fingerprint hash treeFp subdir c.inputs)
  else .incremental

/-- `cmake_build_dir._build`. -/
def build (c : Call Tree) (e : Env) (d : Dir Tree Digest) : Result × Dir Tree Digest :=
  match cacheAction hash treeFp subdir c e d with
  | .skip => (.skipped, d)
  | .wipe =>
    if e.wipe = .ok then runCmake hash treeFp subdir remote c e (d.remove e.wiped)
    else (.raised, d.remove e.wiped)
  | .incremental => runCmake hash treeFp subdir remote c e d

/-! ## What a skip relies on -/

/-- The last cmake run in the directory succeeded with the inputs of the call. -/
def UpToDate (d : Dir Tree Digest) (c : Call Tree) : Prop :=
  ∃ r, d.lastRun = some r ∧ r.ok = true ∧ r.inputs = c.inputs

/-- The inputs that reach the digest agree. -/
structure SameDigested (i j : Inputs Tree) : Prop where
  src : i.src = j.src
  rocmPath : i.rocmPath = j.rocmPath
  gpuArch : i.gpuArch = j.gpuArch
  tree : i.tree = j.tree
  extraCmakeArgs : i.extraCmakeArgs.Perm j.extraCmakeArgs

/-- The inputs that do not: the name of the architecture variable, the compiler
mode, the target, and the order of the extra arguments. -/
structure SameUndigested (i j : Inputs Tree) : Prop where
  gpuArchVar : i.gpuArchVar = j.gpuArchVar
  compilerMode : i.compilerMode = j.compilerMode
  target : i.target = j.target
  extraCmakeArgs : i.extraCmakeArgs = j.extraCmakeArgs

/-- Cmake runs and a fingerprint file is still there when it ends. -/
structure KeepsFile (c : Call Tree) (e : Env) (d : Dir Tree Digest) : Prop where
  stored : d.stored ≠ none
  runs : cacheAction hash treeFp subdir c e d ≠ .skip
  started : compilerArgs remote c e.clangpp ≠ none ∧ e.prepare = .ok
  notWiped : ¬ (cacheAction hash treeFp subdir c e d = .wipe ∧ e.wiped = true)
  notRemoved : e.configure.removes = false

/-- The call compares its fingerprint with a stored one. -/
structure Compares (c : Call Tree) (e : Env) (d : Dir Tree Digest) : Prop where
  artifact : c.artifact ≠ none
  found : e.artifactExists = true
  readable : e.readable = true
  stored : d.stored ≠ none

/-- Configure and build end well and the fingerprint is written anew. -/
structure Rewrites (c : Call Tree) (e : Env) : Prop where
  configure : e.configure.ended = .ok
  build : e.build = .ok
  artifact : c.artifact ≠ none
  write : e.write = .landed ∨ e.write = .torn

/-- The condition on one call. -/
structure Regular (c : Call Tree) (e : Env) (d : Dir Tree Digest) : Prop where
  /-- A cmake run that finds a fingerprint replaces it. -/
  rewrites : KeepsFile hash treeFp subdir remote c e d → Rewrites c e
  /-- No failed build is tolerated by a call that writes a fingerprint. -/
  notTolerated : c.artifact ≠ none → c.tolerateBuildFailure = true → e.build ≠ .failed
  /-- A call that is compared with the last run and agrees with it on what reaches the
  digest agrees on the rest as well. -/
  undigested : Compares c e d → ∀ r, d.lastRun = some r → SameDigested r.inputs c.inputs →
    SameUndigested r.inputs c.inputs

end

/-! ## The stored fingerprint -/

section

variable {hash : List String → Digest} {treeFp : Tree → String} {subdir : String} {remote : Bool}
  {fed : Set (Inputs Tree)} {c : Call Tree} {e : Env} {d : Dir Tree Digest}

/-- The stored fingerprint is that of the last run, which succeeded. -/
def Matches (hash : List String → Digest) (treeFp : Tree → String) (subdir : String)
    (fed : Set (Inputs Tree)) (d : Dir Tree Digest) : Prop :=
  ∀ fp, d.stored = some fp → ∃ r, d.lastRun = some r ∧ r.ok = true ∧ r.inputs ∈ fed ∧
    fp = fingerprint hash treeFp subdir r.inputs

theorem Matches.remove (h : Matches hash treeFp subdir fed d) (wiped : Bool) :
    Matches hash treeFp subdir fed (d.remove wiped) := by
  intro fp hfp
  cases wiped with
  | false => exact h fp hfp
  | true => cases hfp

theorem matches_of_stored_none (h : d.stored = none) : Matches hash treeFp subdir fed d := by
  intro fp hfp
  rw [h] at hfp
  cases hfp

theorem stored_cmakeBuild (args : List String) :
    (cmakeBuild c e args d).2.stored = if e.configure.removes then none else d.stored := by
  unfold cmakeBuild
  simp only
  split
  · split <;> rfl
  · rfl

/-- `cmake_build` returns after a run that succeeded or whose failure is
tolerated. -/
theorem cmakeBuild_returns {args : List String} (h : (cmakeBuild c e args d).1 = true) :
    e.configure.ended = .ok ∧
      (e.build = .ok ∧ (cmakeBuild c e args d).2.lastRun =
          some ⟨c.inputs, configureCmd c e args, buildCmd c e, true⟩ ∨
        e.build = .failed ∧ c.tolerateBuildFailure = true ∧ c.artifact ≠ none) := by
  unfold cmakeBuild at h ⊢
  by_cases hconfigure : e.configure.ended = .ok
  · refine ⟨hconfigure, ?_⟩
    simp only [if_pos hconfigure] at h ⊢
    cases hbuild : e.build with
    | ok => exact .inl ⟨rfl, rfl⟩
    | failed =>
      simp only [hbuild, Bool.and_eq_true, Option.isSome_iff_ne_none] at h
      exact .inr ⟨rfl, h.1.1, h.1.2⟩
    | interrupted => simp [hbuild] at h
  · simp [if_neg hconfigure] at h

theorem cmakeBuild_of_rewrites (args : List String) (h : Rewrites c e) :
    (cmakeBuild c e args d).1 = true := by
  unfold cmakeBuild
  simp only [if_pos h.configure, h.build]

/-- A cmake run that does not both end well and write the file must find none. -/
theorem Matches.runCmake (h : Matches hash treeFp subdir fed d) (hc : c.inputs ∈ fed)
    (hrewrites : d.stored ≠ none → compilerArgs remote c e.clangpp ≠ none ∧ e.prepare = .ok →
      e.configure.removes = false → Rewrites c e)
    (htolerated : c.artifact ≠ none → c.tolerateBuildFailure = true → e.build ≠ .failed) :
    Matches hash treeFp subdir fed (runCmake hash treeFp subdir remote c e d).2 := by
  unfold CmakeCache.runCmake
  cases hargs : compilerArgs remote c e.clangpp with
  | none => exact h
  | some args =>
    by_cases hprepare : e.prepare = .ok
    · have hgone : ¬ Rewrites c e → (cmakeBuild c e args d).2.stored = none := by
        intro hnot
        rw [stored_cmakeBuild]
        by_contra hsome
        cases hremoves : e.configure.removes with
        | true => simp [hremoves] at hsome
        | false =>
          rw [hremoves] at hsome
          exact hnot (hrewrites hsome ⟨by simp [hargs], hprepare⟩ hremoves)
      simp only [if_pos hprepare]
      by_cases hreturns : (cmakeBuild c e args d).1 = true
      · rw [if_pos hreturns]
        cases hartifact : c.artifact with
        | none => exact matches_of_stored_none (hgone fun hr => hr.artifact hartifact)
        | some artifact =>
          have hlost : e.write ≠ .landed → e.write ≠ .torn →
              (cmakeBuild c e args d).2.stored = none := fun hl ht =>
            hgone fun hr => hr.write.elim hl ht
          simp only [Option.isSome_some, if_true]
          cases hwrite : e.write with
          | landed =>
            intro fp hfp
            cases hfp
            obtain ⟨_, ⟨_, hrun⟩ | ⟨hfailed, htolerate, hsome⟩⟩ := cmakeBuild_returns hreturns
            · exact ⟨_, hrun, rfl, hc, rfl⟩
            · exact absurd hfailed (htolerated hsome htolerate)
          | lost => exact matches_of_stored_none (hlost (by simp [hwrite]) (by simp [hwrite]))
          | torn => exact matches_of_stored_none rfl
          | interrupted =>
            exact matches_of_stored_none (hlost (by simp [hwrite]) (by simp [hwrite]))
      · rw [if_neg hreturns]
        exact matches_of_stored_none
          (hgone fun hr => hreturns (cmakeBuild_of_rewrites args hr))
    · simp only [if_neg hprepare]
      exact h

theorem sorted_perm (xs : List String) : (sorted xs).Perm xs := List.mergeSort_perm xs _

theorem sameDigested_of_fullInputs {i j : Inputs Tree}
    (htree : treeFp i.tree = treeFp j.tree → i.tree = j.tree)
    (h : fullInputs treeFp subdir i = fullInputs treeFp subdir j) : SameDigested i j := by
  unfold fullInputs at h
  simp only [List.cons_append, List.nil_append, List.cons.injEq, true_and] at h
  obtain ⟨hrocm, harch, hsrc, htreeFp, hargs⟩ := h
  refine ⟨hsrc, hrocm, harch, htree htreeFp, ?_⟩
  exact (sorted_perm _).symm.trans (hargs ▸ sorted_perm _)

theorem inputs_eq {i j : Inputs Tree} (h : SameDigested i j) (h' : SameUndigested i j) : i = j := by
  cases i
  cases j
  obtain ⟨rfl, rfl, rfl, rfl, _⟩ := h
  obtain ⟨rfl, rfl, rfl, rfl⟩ := h'
  rfl

theorem runCmake_not_skipped :
    (runCmake hash treeFp subdir remote c e d).1 ≠ .skipped := by
  unfold runCmake
  split
  · simp
  · simp only
    split
    · split
      · split
        · split <;> simp
        · simp
      · simp
    · simp

variable [DecidableEq Digest]

/-- A skip has found the fingerprint of the call. -/
theorem stored_of_skip (h : cacheAction hash treeFp subdir c e d = .skip) :
    d.stored = some (fingerprint hash treeFp subdir c.inputs) := by
  unfold cacheAction at h
  split at h
  · cases hreadable : e.readable with
    | false => simp [hreadable, buildCacheAction] at h
    | true =>
      rw [hreadable, if_pos rfl] at h
      cases hstored : d.stored with
      | none => simp [hstored, buildCacheAction] at h
      | some fp =>
        rw [hstored] at h
        unfold buildCacheAction at h
        simp only at h
        split at h
        · cases h
        · rename_i hstructural
          split at h
          · cases h
          · rename_i hfull
            have heq : fp = fingerprint hash treeFp subdir c.inputs := by
              cases fp
              simp only [ne_eq, not_not] at hstructural hfull
              rw [hstructural, hfull]
            rw [heq]
  · cases h

theorem compares_of_skip (h : cacheAction hash treeFp subdir c e d = .skip) : Compares c e d := by
  have hstored := stored_of_skip h
  unfold cacheAction at h
  split at h
  · rename_i hfound
    rw [Bool.and_eq_true, Option.isSome_iff_ne_none] at hfound
    refine ⟨hfound.1, hfound.2, ?_, fun hnone => ?_⟩
    · cases hreadable : e.readable with
      | false => simp [hreadable, buildCacheAction] at h
      | true => rfl
    · rw [hstored] at hnone
      cases hnone
  · cases h

theorem cacheAction_of_skipped (h : (build hash treeFp subdir remote c e d).1 = .skipped) :
    cacheAction hash treeFp subdir c e d = .skip := by
  unfold CmakeCache.build at h
  cases haction : cacheAction hash treeFp subdir c e d with
  | skip => rfl
  | wipe =>
    rw [haction] at h
    simp only at h
    split at h
    · exact absurd h runCmake_not_skipped
    · cases h
  | incremental =>
    rw [haction] at h
    exact absurd h runCmake_not_skipped

theorem Matches.build (h : Matches hash treeFp subdir fed d) (hc : c.inputs ∈ fed)
    (hregular : Regular hash treeFp subdir remote c e d) :
    Matches hash treeFp subdir fed (build hash treeFp subdir remote c e d).2 := by
  unfold CmakeCache.build
  cases haction : cacheAction hash treeFp subdir c e d with
  | skip => exact h
  | wipe =>
    by_cases hwipe : e.wipe = .ok
    · simp only [if_pos hwipe]
      refine (h.remove e.wiped).runCmake hc ?_ hregular.notTolerated
      intro hstored hstarted hremoves
      refine hregular.rewrites ⟨?_, by simp [haction], hstarted, ?_, hremoves⟩
      · intro hnone
        exact hstored (by unfold Dir.remove; simp [hnone])
      · rintro ⟨_, hwiped⟩
        exact hstored (by unfold Dir.remove; simp [hwiped])
    · simp only [if_neg hwipe]
      exact h.remove e.wiped
  | incremental =>
    refine h.runCmake hc ?_ hregular.notTolerated
    intro hstored hstarted hremoves
    exact hregular.rewrites ⟨hstored, by simp [haction], hstarted, by simp [haction], hremoves⟩

end

/-- Over every sequence of calls each of which is `Regular` where it is made, a
call that returns through a skip finds a directory whose last cmake run succeeded
with exactly its inputs.  The digests are taken as injective on the inputs `fed`
to them. -/
theorem skip_upToDate [DecidableEq Digest] (hash : List String → Digest) (treeFp : Tree → String)
    (subdir : String) (remote : Bool) (fed : Set (Inputs Tree))
    (hdigest : ∀ i ∈ fed, ∀ j ∈ fed, computeFingerprint hash (fullInputs treeFp subdir i) =
      computeFingerprint hash (fullInputs treeFp subdir j) →
        fullInputs treeFp subdir i = fullInputs treeFp subdir j)
    (htree : ∀ i ∈ fed, ∀ j ∈ fed, treeFp i.tree = treeFp j.tree → i.tree = j.tree)
    {d : Dir Tree Digest}
    (h : Reached (fun l : Call Tree × Env => fun d => (build hash treeFp subdir remote l.1 l.2 d).2)
      (fun d l => l.1.inputs ∈ fed ∧ Regular hash treeFp subdir remote l.1 l.2 d) Dir.fresh d)
    (c : Call Tree) (e : Env) (hc : c.inputs ∈ fed)
    (hregular : Regular hash treeFp subdir remote c e d)
    (hskip : (build hash treeFp subdir remote c e d).1 = .skipped) : UpToDate d c := by
  have hmatches : Matches hash treeFp subdir fed d :=
    h.invariant (matches_of_stored_none rfl) fun d l hd hl => hd.build hl.1 hl.2
  have haction := cacheAction_of_skipped hskip
  obtain ⟨r, hr, hok, hfed, hfp⟩ := hmatches _ (stored_of_skip haction)
  have hfull := congrArg Fingerprint.full hfp
  have hdigested : SameDigested r.inputs c.inputs :=
    sameDigested_of_fullInputs (htree _ hfed _ hc) (hdigest _ hc _ hfed hfull).symm
  have hundigested := hregular.undigested (compares_of_skip haction) r hr hdigested
  exact ⟨r, hr, hok, inputs_eq hdigested hundigested⟩

/-! ## A directory with one build, and one with a failed rebuild -/

/-- A call for the sources `tree`. -/
def rcclCall (tree : String) : Call String :=
  { rocmPath := "/opt/rocm", sessionGpuArch := some "gfx942", src := "/src/rccl-tests", tree,
    artifact := some "all_reduce_perf" }

def clangEnv : Env := { clangpp := some "/opt/rocm/lib/llvm/bin/clang++" }

def afterFirstBuild : Dir String (List String) :=
  (build id id "rccl" false (rcclCall "v1") clangEnv Dir.fresh).2

theorem afterFirstBuild_eq : afterFirstBuild =
    ⟨some (fingerprint id id "rccl" (rcclCall "v1").inputs),
      some ⟨(rcclCall "v1").inputs,
        configureCmd (rcclCall "v1") clangEnv
          ["-DCMAKE_CXX_COMPILER=/opt/rocm/lib/llvm/bin/clang++"],
        buildCmd (rcclCall "v1") clangEnv, true⟩⟩ := rfl

theorem cacheAction_of_stored {Tree Digest : Type} [DecidableEq Digest]
    {hash : List String → Digest} {treeFp : Tree → String} {subdir : String} {c : Call Tree}
    {e : Env} {d : Dir Tree Digest} (hartifact : c.artifact.isSome = true)
    (hexists : e.artifactExists = true) (hreadable : e.readable = true)
    (hstored : d.stored = some (fingerprint hash treeFp subdir c.inputs)) :
    cacheAction hash treeFp subdir c e d = .skip := by
  unfold cacheAction
  rw [hartifact, hexists, hreadable, hstored]
  simp [buildCacheAction]

theorem skip_upToDate_second_call : UpToDate afterFirstBuild (rcclCall "v1") := by
  have hskip : cacheAction id id "rccl" (rcclCall "v1") clangEnv afterFirstBuild = .skip :=
    cacheAction_of_stored rfl rfl rfl (by rw [afterFirstBuild_eq])
  refine skip_upToDate id id "rccl" false {(rcclCall "v1").inputs} ?_ ?_
    (.step (l := (rcclCall "v1", clangEnv)) .start ⟨rfl, ?_⟩) (rcclCall "v1") clangEnv rfl ?_ ?_
  · rintro i rfl j rfl _
    rfl
  · rintro i rfl j rfl _
    rfl
  · refine ⟨fun h => absurd rfl h.stored, fun _ h => ?_, fun _ r hr => ?_⟩
    · cases h
    · cases hr
  · refine ⟨fun h => absurd hskip h.runs, fun _ h => ?_, fun _ r hr _ => ?_⟩
    · cases h
    · cases hr
      exact ⟨rfl, rfl, rfl, rfl⟩
  · show (build id id "rccl" false (rcclCall "v1") clangEnv afterFirstBuild).1 = .skipped
    unfold build
    rw [hskip]

/-- The rebuild for the sources `v2` fails. -/
def afterFailedRebuild : Dir String (List String) :=
  (build id id "rccl" false (rcclCall "v2") { clangEnv with build := .failed } afterFirstBuild).2

theorem digests_differ :
    computeFingerprint id (fullInputs id "rccl" (rcclCall "v1").inputs) ≠
      computeFingerprint id (fullInputs id "rccl" (rcclCall "v2").inputs) := by
  intro h
  have hperm : (fullInputs id "rccl" (rcclCall "v1").inputs).Perm
      (fullInputs id "rccl" (rcclCall "v2").inputs) :=
    (sorted_perm _).symm.trans ((congrArg (List.Perm · _) h).mpr (sorted_perm _))
  have hmem := hperm.mem_iff (a := "v1")
  simp [fullInputs, sorted, Call.inputs, rcclCall, Call.resolvedGpuArch] at hmem

theorem afterFailedRebuild_eq : afterFailedRebuild =
    { afterFirstBuild with lastRun := some ⟨(rcclCall "v2").inputs,
        configureCmd (rcclCall "v2") clangEnv
          ["-DCMAKE_CXX_COMPILER=/opt/rocm/lib/llvm/bin/clang++"],
        buildCmd (rcclCall "v2") clangEnv, false⟩ } := by
  have haction : cacheAction id id "rccl" (rcclCall "v2") { clangEnv with build := .failed }
      afterFirstBuild = .incremental := by
    have hfull : (fingerprint id id "rccl" (rcclCall "v1").inputs).full ≠
        (fingerprint id id "rccl" (rcclCall "v2").inputs).full := digests_differ
    show buildCacheAction (some (fingerprint id id "rccl" (rcclCall "v1").inputs))
      (fingerprint id id "rccl" (rcclCall "v2").inputs) = .incremental
    have hstructural : (fingerprint id id "rccl" (rcclCall "v1").inputs).structural =
        (fingerprint id id "rccl" (rcclCall "v2").inputs).structural := rfl
    simp only [buildCacheAction, hstructural, ne_eq, not_true_eq_false, if_false, hfull,
      not_false_eq_true, if_true]
  unfold afterFailedRebuild build
  rw [haction]
  rfl

/-- The two sources, and digests that tell them apart. -/
def twoVersions : Set (Inputs String) := {(rcclCall "v1").inputs, (rcclCall "v2").inputs}

/-- The sources go back to `v1`, and the call is satisfied with what the failed
build of `v2` left. -/
theorem skip_after_failed_rebuild :
    (∀ i ∈ twoVersions, ∀ j ∈ twoVersions, computeFingerprint id (fullInputs id "rccl" i) =
      computeFingerprint id (fullInputs id "rccl" j) →
        fullInputs id "rccl" i = fullInputs id "rccl" j) ∧
      Reached (fun l : Call String × Env => fun d => (build id id "rccl" false l.1 l.2 d).2)
        (fun _ l => l.1.inputs ∈ twoVersions) Dir.fresh afterFailedRebuild ∧
      (build id id "rccl" false (rcclCall "v1") clangEnv afterFailedRebuild).1 = .skipped ∧
      ¬ UpToDate afterFailedRebuild (rcclCall "v1") := by
  refine ⟨?_, ?_, ?_, ?_⟩
  · rintro i (rfl | rfl) j (rfl | rfl) h
    · rfl
    · exact absurd h digests_differ
    · exact absurd h.symm digests_differ
    · rfl
  · have hfirst : Reached (fun l : Call String × Env => fun d =>
        (build id id "rccl" false l.1 l.2 d).2) (fun _ l => l.1.inputs ∈ twoVersions) Dir.fresh
        afterFirstBuild := .step (l := (rcclCall "v1", clangEnv)) .start (Or.inl rfl)
    exact hfirst.step (l := (rcclCall "v2", { clangEnv with build := .failed })) (Or.inr rfl)
  · have hskip : cacheAction id id "rccl" (rcclCall "v1") clangEnv afterFailedRebuild = .skip :=
      cacheAction_of_stored rfl rfl rfl (by rw [afterFailedRebuild_eq, afterFirstBuild_eq])
    unfold build
    rw [hskip]
  · rintro ⟨r, hr, hok, _⟩
    rw [afterFailedRebuild_eq] at hr
    cases hr
    cases hok

end CmakeCache
end Builder
end RocmTests

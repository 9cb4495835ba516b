import RocmTests.Conc.Fallible
import RocmTests.Text.Find

/-!
# The candidate loop of the provisioner

`provision_framework` tries one wheel after another.  Whether a test fails or is
skipped is read off the error text of the result: three prefixes make it fail.
A wheel that installs and does not pass its validation gives such a text where it is
the last candidate; before the last, the loop only goes on.

A candidate comes with the outcome of each remote step it may take, and a step that
raises has an exception as its outcome.  The provision log is written without error.
-/

namespace RocmTests
namespace Provisioning
namespace Candidates

open Conc Text

/-- An exception: whether it is a `RuntimeError`, and its message. -/
structure Raised where
  runtime : Bool
  message : Txt
deriving DecidableEq

/-- What the validation snippet printed: its JSON, and the fields the messages show as
they are rendered. -/
structure Metadata where
  json : Txt
  torchVersion : Option Txt := none
  torchHip : Option Txt := none
  cudaAvailable : Option Txt := none
  versionMatches : Option Txt := none

structure Validation where
  ok : Bool
  metadata : Metadata

structure FrameworkProvisionResult where
  ok : Bool
  framework : Txt
  nodeLabel : Txt
  logPath : Txt
  error : Txt := []

/-! ## The verdict -/

def runtimeIncompatible : Txt := "Framework ROCm runtime incompatible".toList
def validationFailed : Txt := "Framework validation failed".toList
def invalidSpec : Txt := "Invalid framework install spec".toList

def FrameworkProvisionResult.shouldFailTest (r : FrameworkProvisionResult) : Bool :=
  [runtimeIncompatible, validationFailed, invalidSpec].any fun p => p.isPrefixOf r.error

def invalidKernelImageMarkers : List Txt :=
  ["device kernel image is invalid".toList, "hipErrorInvalidImage".toList,
    "hipErrorInvalidKernelFile".toList, "invalid kernel file".toList]

/-- `_metadata_has_invalid_kernel_image`. -/
def hasInvalidKernelImage (m : Metadata) : Bool :=
  invalidKernelImageMarkers.any fun marker => (indexOf marker m.json).isSome

/-- `_validation_metadata_detail`. -/
def metadataDetail (m : Metadata) : Txt :=
  let rendered := [("torch", m.torchVersion), ("torch_hip", m.torchHip),
    ("cuda_available", m.cudaAvailable), ("version_matches", m.versionMatches)].filterMap
      fun x => x.2.bind fun value =>
        if value = [] then none else some (x.1.toList ++ '=' :: value)
  if rendered = [] then [] else " (".toList ++ ", ".toList.intercalate rendered ++ ")".toList

/-- The node, the log, the ISA and the ROCm version (as `repr` shows it) that the
messages name. -/
structure Site where
  nodeLabel : Txt
  logPath : Txt
  isaString : Txt
  rocmHint : Txt

def validationFailureMessage (site : Site) (m : Metadata) : Txt :=
  let logDetail := if site.logPath = [] then [] else "; see ".toList ++ site.logPath
  if hasInvalidKernelImage m then
    let isaDetail := if site.isaString = [] then [] else ", isa=".toList ++ site.isaString
    runtimeIncompatible ++ (" on ".toList ++ site.nodeLabel ++
      ": device smoke kernel failed with ".toList ++
      "hipErrorInvalidImage after the framework installed successfully".toList ++
      metadataDetail m ++ isaDetail ++ ". ".toList ++
      "The GPU code object in the selected wheel does not match this device ISA or ".toList ++
      "firmware; dependent tests must FAIL rather than SKIP".toList ++ logDetail)
  else
    validationFailed ++ (" on ".toList ++ site.nodeLabel ++ metadataDetail m ++ logDetail)

/-! ## One candidate -/

/-- The outcomes of `_fallback_newer_rocm`. -/
structure FallbackSteps where
  versions : Except Raised (List Txt)
  companions : Except Raised Unit
  lockEnter : Except Raised Unit
  readMetadata : Except Raised Bool
  reuse : Except Raised Validation
  install : Except Raised Unit
  validate : Except Raised Validation
  writeMetadata : Except Raised Unit
  lockExit : Except Raised Unit

/-- A normalised spec and the outcomes of its steps.  `torch` is empty when no version
is pinned.  `readMetadata` answers whether the managed environment has a record with
this fingerprint. -/
structure Candidate where
  index : Txt
  torch : Txt
  companionsPinned : Bool
  host : Except Raised Validation
  selectPrimary : Except Raised Txt
  companions : Except Raised Unit
  readMetadata : Except Raised Bool
  reuse : Except Raised Validation
  lockEnter : Except Raised Unit
  readMetadataLocked : Except Raised Bool
  reuseLocked : Except Raised Validation
  install : Except Raised Unit
  validate : Except Raised Validation
  fallback : FallbackSteps
  writeMetadata : Except Raised Unit
  lockExit : Except Raised Unit

section

variable (site : Site)

/-- The result of a success, whichever interpreter it is about. -/
def success : FrameworkProvisionResult :=
  { ok := true, framework := "pytorch".toList, nodeLabel := site.nodeLabel,
    logPath := site.logPath }

def verdict (m : Metadata) : FrameworkProvisionResult :=
  { ok := false, framework := "pytorch".toList, nodeLabel := site.nodeLabel,
    logPath := site.logPath, error := validationFailureMessage site m }

/-- `with _remote_lock(..)`.  The lock is given up whatever the block ended with, and
an exception of that replaces it. -/
def withLock {α : Type} (enter exit : Except Raised Unit) (block : Except Raised α) :
    Except Raised α :=
  enter.bind fun _ => exit.bind fun _ => block

/-- Is there a managed environment with this fingerprint that passes validation? -/
def reusable (readMetadata : Except Raised Bool) (reuse : Except Raised Validation) :
    Except Raised Bool :=
  readMetadata.bind fun found => if found then reuse.map (·.ok) else .ok false

/-- The with-block of `_fallback_newer_rocm`. -/
def fallbackLocked (f : FallbackSteps) : Except Raised (Option FrameworkProvisionResult) :=
  (reusable f.readMetadata f.reuse).bind fun reused =>
    if reused then .ok (some (success site))
    else f.install.bind fun _ => f.validate.bind fun validated =>
      if validated.ok then f.writeMetadata.bind fun _ => .ok (some (success site))
      else .ok none

def fallbackNewerRocm (torch : Txt) (f : FallbackSteps) :
    Except Raised (Option FrameworkProvisionResult) :=
  f.versions.bind fun versions =>
    if (versions.filter (· ≠ torch)).isEmpty then .ok none
    else f.companions.bind fun _ =>
      match withLock f.lockEnter f.lockExit (fallbackLocked site f) with
      | .error e => if e.runtime then .ok none else .error e
      | .ok r => .ok r

/-- `_provision_pip` up to the lock: the version selected, and whether the managed
environment is reused. -/
def prepare (c : Candidate) : Except Raised (Txt × Bool) :=
  (if c.torch ≠ [] then .ok c.torch else c.selectPrimary).bind fun latest =>
    if latest = [] then
      .error ⟨true, "No installable torch candidate found for ROCm hint ".toList ++
        site.rocmHint ++ " from ".toList ++ c.index⟩
    else (if c.companionsPinned then .ok () else c.companions).bind fun _ =>
      (reusable c.readMetadata c.reuse).map fun reused => (latest, reused)

/-- The with-block up to the validation of what was installed; `none` when the managed
environment became available while waiting. -/
def installLocked (c : Candidate) : Except Raised (Option Validation) :=
  (reusable c.readMetadataLocked c.reuseLocked).bind fun reused =>
    if reused then .ok none
    else c.install.bind fun _ => c.validate.map some

/-- What the with-block makes of the validation. -/
def conclude (c : Candidate) (latest : Txt) (allowNext : Bool) (validated : Validation) :
    Except Raised (Option FrameworkProvisionResult) :=
  if validated.ok then c.writeMetadata.map fun _ => some (success site)
  else if hasInvalidKernelImage validated.metadata then
    if c.torch ≠ [] then .ok (some (verdict site validated.metadata))
    else (fallbackNewerRocm site latest c.fallback).map fun recovered =>
      match recovered with
      | some r => some r
      | none => if allowNext then none else some (verdict site validated.metadata)
  else .ok (if allowNext then none else some (verdict site validated.metadata))

def provisionPip (c : Candidate) (allowNext : Bool) :
    Except Raised (Option FrameworkProvisionResult) :=
  (prepare site c).bind fun x =>
    if x.2 then .ok (some (success site))
    else withLock c.lockEnter c.lockExit
      ((installLocked c).bind fun installed =>
        match installed with
        | none => .ok (some (success site))
        | some validated => conclude site c x.1 allowNext validated)

/-! ## The loop -/

/-- The `for` of `provision_framework`.  The host's validation is kept from the first
candidate for which it did not raise. -/
def candidateLoop (host : Option Validation) (lastError : Option Raised) :
    List Candidate → Except Raised FrameworkProvisionResult
  | [] => .error (lastError.getD
      ⟨true, "No framework provisioning candidates were generated".toList⟩)
  | c :: cs =>
    match host.elim c.host .ok with
    | .error e => candidateLoop none (some e) cs
    | .ok existing =>
      if existing.ok then .ok (success site)
      else
        match provisionPip site c (!cs.isEmpty) with
        | .error e => candidateLoop (some existing) (some e) cs
        | .ok (some r) => .ok r
        | .ok none => candidateLoop (some existing) lastError cs

/-- The result of the outer handler. -/
def failure (e : Raised) : FrameworkProvisionResult :=
  { ok := false, framework := "pytorch".toList, nodeLabel := site.nodeLabel,
    logPath := site.logPath
    error := "pytorch provisioning failed on ".toList ++ (site.nodeLabel ++ ": ".toList ++
      e.message ++ "; see ".toList ++ site.logPath) }

/-- `provision_framework`.  `discovery` is the outcome of everything before the loop. -/
def provisionFramework (discovery : Except Raised Unit) (cs : List Candidate) :
    FrameworkProvisionResult :=
  match discovery.bind fun _ => candidateLoop site none none cs with
  | .ok r => r
  | .error e => failure site e

/-! ## Turns of the loop -/

/-- The evaluation of one candidate: what is known of the host then, and whether there
are candidates after it. -/
structure Turn where
  host : Option Validation
  cand : Candidate
  allowNext : Bool

def Turn.existing (t : Turn) : Except Raised Validation := t.host.elim t.cand.host .ok

inductive Ending where
  | raised (e : Raised)
  | goneOn
  | returned (r : FrameworkProvisionResult)

def Turn.ending (t : Turn) : Ending :=
  match t.existing with
  | .error e => .raised e
  | .ok existing =>
    if existing.ok then .returned (success site)
    else
      match provisionPip site t.cand t.allowNext with
      | .error e => .raised e
      | .ok (some r) => .returned r
      | .ok none => .goneOn

def turns (host : Option Validation) : List Candidate → List Turn
  | [] => []
  | c :: cs =>
    let t : Turn := ⟨host, c, !cs.isEmpty⟩
    t :: match t.ending site with
      | .raised _ => turns t.existing.toOption cs
      | .goneOn => turns t.existing.toOption cs
      | .returned _ => []

/-- The candidates that are evaluated. -/
def evaluated (discovery : Except Raised Unit) (cs : List Candidate) : List Turn :=
  match discovery with
  | .error _ => []
  | .ok _ => turns site none cs

/-- The candidate's install completed and what was installed did not validate. -/
def Turn.InstalledBroken (t : Turn) : Prop :=
  ∃ existing latest validated, t.existing = .ok existing ∧ existing.ok = false ∧
    prepare site t.cand = .ok (latest, false) ∧ t.cand.lockEnter = .ok () ∧
      installLocked t.cand = .ok (some validated) ∧ validated.ok = false

def Turn.Succeeded (t : Turn) : Prop := ∃ r, t.ending site = .returned r ∧ r.ok = true

def Turn.Raises (t : Turn) : Prop := ∃ e, t.ending site = .raised e

/-- A wheel that installs but does not work fails the test, unless some candidate
succeeds. -/
def BrokenWheelFails (discovery : Except Raised Unit) (cs : List Candidate) : Prop :=
  (∃ t ∈ evaluated site discovery cs, t.InstalledBroken site) →
    (∀ t ∈ evaluated site discovery cs, ¬ t.Succeeded site) →
      (provisionFramework site discovery cs).shouldFailTest = true

/-! ## What a turn can end with -/

theorem shouldFailTest_verdict (m : Metadata) : (verdict site m).shouldFailTest = true := by
  apply List.any_eq_true.mpr
  unfold verdict validationFailureMessage
  by_cases h : hasInvalidKernelImage m = true
  · refine ⟨runtimeIncompatible, List.mem_cons_self, ?_⟩
    simp only [h, if_true]
    exact List.isPrefixOf_iff_prefix.mpr (List.prefix_append _ _)
  · refine ⟨validationFailed, List.mem_cons_of_mem _ List.mem_cons_self, ?_⟩
    simp only [h, if_false, Bool.false_eq_true]
    exact List.isPrefixOf_iff_prefix.mpr (List.prefix_append _ _)

/-- A success or a verdict. -/
def Settled (r : FrameworkProvisionResult) : Prop := r.ok = true ∨ r.shouldFailTest = true

theorem settled_of_withLock {enter exit : Except Raised Unit}
    {block : Except Raised (Option FrameworkProvisionResult)} {x : Option FrameworkProvisionResult}
    (h : withLock enter exit block = .ok x) : block = .ok x := by
  unfold withLock at h
  cases enter with
  | error e => cases h
  | ok u =>
    cases exit with
    | error e => cases h
    | ok u => exact h

variable {site}

theorem fallbackLocked_ok {f : FallbackSteps} {r : FrameworkProvisionResult}
    (h : fallbackLocked site f = .ok (some r)) : r = success site := by
  obtain ⟨reused, _, h⟩ := Fallible.bind_eq_ok.mp h
  cases reused with
  | true =>
    cases h
    rfl
  | false =>
    obtain ⟨_, _, h⟩ := Fallible.bind_eq_ok.mp h
    obtain ⟨validated, _, h⟩ := Fallible.bind_eq_ok.mp h
    by_cases hok : validated.ok = true
    · rw [if_pos hok] at h
      obtain ⟨_, _, h⟩ := Fallible.bind_eq_ok.mp h
      cases h
      rfl
    · rw [if_neg hok] at h
      cases h

/-- The fallback recovers or says nothing. -/
theorem fallbackNewerRocm_ok {torch : Txt} {f : FallbackSteps} {r : FrameworkProvisionResult}
    (h : fallbackNewerRocm site torch f = .ok (some r)) : r = success site := by
  obtain ⟨versions, _, h⟩ := Fallible.bind_eq_ok.mp h
  by_cases hnone : (versions.filter (· ≠ torch)).isEmpty = true
  · rw [if_pos hnone] at h
    cases h
  · rw [if_neg hnone] at h
    obtain ⟨_, _, h⟩ := Fallible.bind_eq_ok.mp h
    cases hlock : withLock f.lockEnter f.lockExit (fallbackLocked site f) with
    | error e =>
      rw [hlock] at h
      cases hr : e.runtime <;> simp [hr] at h
    | ok x =>
      rw [hlock] at h
      cases h
      exact fallbackLocked_ok (settled_of_withLock hlock)

theorem conclude_settled {c : Candidate} {latest : Txt} {allowNext : Bool} {v : Validation}
    {r : FrameworkProvisionResult} (h : conclude site c latest allowNext v = .ok (some r)) :
    Settled r := by
  unfold conclude at h
  by_cases hok : v.ok = true
  · rw [if_pos hok] at h
    obtain ⟨_, _, h⟩ := Fallible.map_eq_ok.mp h
    cases h
    exact Or.inl rfl
  · rw [if_neg hok] at h
    by_cases himage : hasInvalidKernelImage v.metadata = true
    · rw [if_pos himage] at h
      by_cases hpinned : c.torch ≠ []
      · rw [if_pos hpinned] at h
        cases h
        exact Or.inr (shouldFailTest_verdict site v.metadata)
      · rw [if_neg hpinned] at h
        obtain ⟨recovered, hfallback, h⟩ := Fallible.map_eq_ok.mp h
        cases recovered with
        | some r' =>
          cases h
          rw [fallbackNewerRocm_ok hfallback]
          exact Or.inl rfl
        | none =>
          cases allowNext with
          | true => cases h
          | false =>
            cases h
            exact Or.inr (shouldFailTest_verdict site v.metadata)
    · rw [if_neg himage] at h
      cases allowNext with
      | true => cases h
      | false =>
        cases h
        exact Or.inr (shouldFailTest_verdict site v.metadata)

/-- The last candidate never goes on. -/
theorem conclude_last {c : Candidate} {latest : Txt} {v : Validation} :
    conclude site c latest false v ≠ .ok none := by
  intro h
  unfold conclude at h
  by_cases hok : v.ok = true
  · rw [if_pos hok] at h
    obtain ⟨_, _, h⟩ := Fallible.map_eq_ok.mp h
    cases h
  · rw [if_neg hok] at h
    by_cases himage : hasInvalidKernelImage v.metadata = true
    · rw [if_pos himage] at h
      by_cases hpinned : c.torch ≠ []
      · rw [if_pos hpinned] at h
        cases h
      · rw [if_neg hpinned] at h
        obtain ⟨recovered, _, h⟩ := Fallible.map_eq_ok.mp h
        cases recovered <;> cases h
    · rw [if_neg himage] at h
      cases h

/-- A candidate that ends in a result or goes on: the environment is there already, or
something was installed and validated. -/
theorem provisionPip_ok {c : Candidate} {allowNext : Bool} {x : Option FrameworkProvisionResult}
    (h : provisionPip site c allowNext = .ok x) :
    x = some (success site) ∨ ∃ latest v, conclude site c latest allowNext v = .ok x := by
  obtain ⟨⟨latest, reused⟩, _, h⟩ := Fallible.bind_eq_ok.mp h
  cases reused with
  | true =>
    cases h
    exact Or.inl rfl
  | false =>
    obtain ⟨installed, _, h⟩ := Fallible.bind_eq_ok.mp (settled_of_withLock h)
    cases installed with
    | none =>
      cases h
      exact Or.inl rfl
    | some v => exact Or.inr ⟨latest, v, h⟩

/-- How a turn ends that raises nothing. -/
theorem ending_cases {t : Turn} (h : ∀ e, t.ending site ≠ .raised e) :
    t.ending site = .returned (success site) ∨
      ∃ x, provisionPip site t.cand t.allowNext = .ok x ∧
        t.ending site = x.elim .goneOn .returned := by
  unfold Turn.ending at h ⊢
  cases hexisting : t.existing with
  | error e =>
    simp only [hexisting] at h
    exact absurd rfl (h e)
  | ok existing =>
    simp only [hexisting] at h ⊢
    by_cases hok : existing.ok = true
    · exact Or.inl (if_pos hok)
    · rw [if_neg hok] at h ⊢
      cases hpip : provisionPip site t.cand t.allowNext with
      | error e =>
        rw [hpip] at h
        exact absurd rfl (h e)
      | ok x => cases x with
        | none => exact Or.inr ⟨none, rfl, rfl⟩
        | some r => exact Or.inr ⟨some r, rfl, rfl⟩

theorem ending_settled {t : Turn} {r : FrameworkProvisionResult}
    (h : t.ending site = .returned r) : Settled r := by
  rcases ending_cases (by rw [h]; exact fun e he => by cases he) with heq | ⟨x, hpip, heq⟩
  · rw [h] at heq
    cases heq
    exact Or.inl rfl
  · rw [h] at heq
    cases x with
    | none => cases heq
    | some r' =>
      cases heq
      rcases provisionPip_ok hpip with hsuccess | ⟨latest, v, hconclude⟩
      · rw [Option.some.inj hsuccess]
        exact Or.inl rfl
      · exact conclude_settled hconclude

theorem ending_last {t : Turn} (hlast : t.allowNext = false) : t.ending site ≠ .goneOn := by
  intro h
  rcases ending_cases (by rw [h]; exact fun e he => by cases he) with heq | ⟨x, hpip, heq⟩
  · rw [h] at heq
    cases heq
  · rw [h] at heq
    cases x with
    | some r => cases heq
    | none =>
      rw [hlast] at hpip
      rcases provisionPip_ok hpip with hsuccess | ⟨latest, v, hconclude⟩
      · cases hsuccess
      · exact conclude_last hconclude

/-! ## What the loop ends with -/

/-- One iteration, in terms of how the turn ends. -/
theorem candidateLoop_cons (host : Option Validation) (lastError : Option Raised) (c : Candidate)
    (cs : List Candidate) :
    candidateLoop site host lastError (c :: cs) =
      match (⟨host, c, !cs.isEmpty⟩ : Turn).ending site with
      | .raised e => candidateLoop site
          (⟨host, c, !cs.isEmpty⟩ : Turn).existing.toOption (some e) cs
      | .goneOn => candidateLoop site
          (⟨host, c, !cs.isEmpty⟩ : Turn).existing.toOption lastError cs
      | .returned r => .ok r := by
  rw [candidateLoop]
  unfold Turn.ending Turn.existing
  cases host.elim c.host .ok with
  | error e => rfl
  | ok existing =>
    by_cases hok : existing.ok = true
    · simp only [hok, if_true]
    · simp only [hok, if_false, Bool.false_eq_true]
      cases provisionPip site c (!cs.isEmpty) with
      | error e => rfl
      | ok x => cases x <;> rfl

variable (site) in
/-- The result is what the last turn returned, or that turn raised and the result is an
exception. -/
def EndsWith (result : Except Raised FrameworkProvisionResult) (ts : List Turn) : Prop :=
  (∃ r, result = .ok r ∧ ∃ t ∈ ts.getLast?, t.ending site = .returned r) ∨
    ((∃ e, result = .error e) ∧ (∀ t ∈ ts.getLast?, t.Raises site) ∧
      ∀ t ∈ ts, ∀ r, t.ending site ≠ .returned r)

/-- A turn before that does not return, and raises when it is the last. -/
theorem EndsWith.cons {result : Except Raised FrameworkProvisionResult} {ts : List Turn} {t : Turn}
    (h : EndsWith site result ts) (hno : ∀ r, t.ending site ≠ .returned r)
    (hlast : ts = [] → t.Raises site) : EndsWith site result (t :: ts) := by
  rcases h with ⟨r, hloop, t', hmem, hr⟩ | ⟨herr, hraise, hall⟩
  · refine Or.inl ⟨r, hloop, t', ?_, hr⟩
    rw [List.getLast?_cons, hmem]
    rfl
  · refine Or.inr ⟨herr, ?_, List.forall_mem_cons.mpr ⟨hno, hall⟩⟩
    intro t' ht'
    cases ts with
    | nil =>
      obtain rfl := Option.some.inj ht'
      exact hlast rfl
    | cons u us =>
      rw [List.getLast?_cons_cons] at ht'
      exact hraise t' ht'

/-- The loop ends with its last turn. -/
theorem candidateLoop_ends (cs : List Candidate) :
    ∀ (host : Option Validation) (lastError : Option Raised),
      EndsWith site (candidateLoop site host lastError cs) (turns site host cs) := by
  induction cs with
  | nil =>
    intro host lastError
    exact Or.inr ⟨⟨_, rfl⟩, fun t ht => absurd ht (Option.not_mem_none t),
      fun t ht => absurd ht List.not_mem_nil⟩
  | cons c cs ih =>
    intro host lastError
    rw [candidateLoop_cons, turns]
    generalize ht : (⟨host, c, !cs.isEmpty⟩ : Turn) = t
    cases hend : t.ending site with
    | raised e =>
      exact (ih _ (some e)).cons (fun r h => by rw [hend] at h; cases h) fun _ => ⟨e, hend⟩
    | goneOn =>
      refine (ih _ lastError).cons (fun r h => by rw [hend] at h; cases h) fun hnil => ?_
      -- a candidate that goes on is not the last
      cases cs with
      | nil => exact absurd hend (ending_last (by rw [← ht]; rfl))
      | cons d ds =>
        rw [turns] at hnil
        cases hnil
    | returned r =>
      exact Or.inl ⟨r, rfl, t, rfl, hend⟩

end

/-! ## When the verdict survives -/

section

variable (site : Site) (discovery : Except Raised Unit) (cs : List Candidate)

/-- The text of the outer handler has none of the prefixes. -/
theorem shouldFailTest_failure (e : Raised) : (failure site e).shouldFailTest = false := rfl

theorem provisionFramework_ends :
    (∃ t ∈ (evaluated site discovery cs).getLast?,
      t.ending site = .returned (provisionFramework site discovery cs)) ∨
    ((provisionFramework site discovery cs).shouldFailTest = false ∧
      (∀ t ∈ (evaluated site discovery cs).getLast?, t.Raises site) ∧
      ∀ t ∈ evaluated site discovery cs, ∀ r, t.ending site ≠ .returned r) := by
  cases discovery with
  | error e =>
    refine Or.inr ⟨shouldFailTest_failure site e, ?_, ?_⟩
    · intro t ht
      cases ht
    · intro t ht
      cases ht
  | ok u =>
    have hresult : ∀ x, candidateLoop site none none cs = x →
        provisionFramework site (.ok u) cs =
          (match x with
            | .ok r => r
            | .error e => failure site e) := by
      rintro x rfl
      rfl
    rcases candidateLoop_ends cs none none with ⟨r, hloop, hturn⟩ | ⟨⟨e, hloop⟩, hlast, hno⟩
    · rw [hresult _ hloop]
      exact Or.inl hturn
    · rw [hresult _ hloop]
      exact Or.inr ⟨shouldFailTest_failure site e, hlast, hno⟩

/-- The verdict reaches the test exactly when the last candidate evaluated does not
raise, or there was none to reach it. -/
theorem brokenWheelFails_iff : BrokenWheelFails site discovery cs ↔
    (∀ t ∈ (evaluated site discovery cs).getLast?, ¬ t.Raises site) ∨
      ∀ t ∈ evaluated site discovery cs, ¬ t.InstalledBroken site := by
  constructor
  · intro h
    by_contra hnot
    obtain ⟨hlast, hbroken⟩ := not_or.mp hnot
    push Not at hlast hbroken
    obtain ⟨t, ht, e, hraise⟩ := hlast
    rcases provisionFramework_ends site discovery cs with ⟨t', ht', hreturned⟩ | ⟨hskip, _, hno⟩
    · rw [ht] at ht'
      obtain rfl := Option.some.inj ht'
      rw [hreturned] at hraise
      cases hraise
    · have hfails := h hbroken fun t' ht' ⟨r, hr, _⟩ => hno t' ht' r hr
      rw [hskip] at hfails
      cases hfails
  · intro h hbroken hfailed
    rcases provisionFramework_ends site discovery cs with ⟨t, ht, hreturned⟩ | ⟨_, hlast, _⟩
    · rcases ending_settled hreturned with hok | hfail
      · exact absurd ⟨_, hreturned, hok⟩ (hfailed t (List.mem_of_getLast? ht))
      · exact hfail
    · obtain ⟨t, ht, hinstalled⟩ := hbroken
      rcases h with hquiet | hnone
      · cases hl : (evaluated site discovery cs).getLast? with
        | none =>
          rw [List.getLast?_eq_none_iff.mp hl] at ht
          cases ht
        | some u => exact absurd (hlast u hl) (hquiet u hl)
      · exact absurd hinstalled (hnone t ht)

end

/-! ### An index that has no wheel

The wheel of the first index installs and fails its validation; on the second index
there is no version to select. -/

section

def brokenValidation : Validation := { ok := false, metadata := { json := [] } }

def brokenCandidate : Candidate where
  index := "https://repo.radeon.com".toList
  torch := []
  companionsPinned := false
  host := .ok brokenValidation
  selectPrimary := .ok "2.9".toList
  companions := .ok ()
  readMetadata := .ok false
  reuse := .ok brokenValidation
  lockEnter := .ok ()
  readMetadataLocked := .ok false
  reuseLocked := .ok brokenValidation
  install := .ok ()
  validate := .ok brokenValidation
  fallback :=
    { versions := .ok [], companions := .ok (), lockEnter := .ok ()
      readMetadata := .ok false, reuse := .ok brokenValidation, install := .ok ()
      validate := .ok brokenValidation, writeMetadata := .ok (), lockExit := .ok () }
  writeMetadata := .ok ()
  lockExit := .ok ()

def emptyIndexCandidate : Candidate :=
  { brokenCandidate with index := "https://download.pytorch.org".toList, selectPrimary := .ok [] }

def exampleSite : Site :=
  { nodeLabel := "node1".toList, logPath := "provision.log".toList
    isaString := "gfx942".toList, rocmHint := "'7.0'".toList }

theorem emptyIndex_skips :
    ¬ BrokenWheelFails exampleSite (.ok ()) [brokenCandidate, emptyIndexCandidate] := by
  intro h
  have hskip : (provisionFramework exampleSite (.ok ())
      [brokenCandidate, emptyIndexCandidate]).shouldFailTest = false := by
    decide
  have hturns : evaluated exampleSite (.ok ()) [brokenCandidate, emptyIndexCandidate] =
      [⟨none, brokenCandidate, true⟩, ⟨some brokenValidation, emptyIndexCandidate, false⟩] := rfl
  have hfails := h
    ⟨_, by rw [hturns]; exact List.mem_cons_self, brokenValidation, "2.9".toList,
      brokenValidation, rfl, rfl, rfl, rfl, rfl, rfl⟩
    (by
      rw [hturns]
      intro t ht ⟨r, hr, _⟩
      rcases List.mem_cons.mp ht with rfl | ht
      · cases hr
      · rcases List.mem_singleton.mp ht with rfl
        cases hr)
  rw [hskip] at hfails
  cases hfails

end

end Candidates
end Provisioning
end RocmTests

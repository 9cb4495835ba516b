import Mathlib.Logic.Function.Basic
import RocmTests.Conc.History
import RocmTests.Text.Numeral

/-!
# Polling a remote background process

`poll` asks the node twice: whether the process is still there, and then which exit code
it left in a file.  The process may end between the two commands, `stop` may be at work,
and a command that fails has the answer of one that found nothing.
-/

namespace RocmTests
namespace Executors
namespace ProcessPoll

open Text Conc
open Markers (isSpace strip)

abbrev ExitCode := Fin 256

/-- The shell that leads the session: it runs the command, opens the file for the exit code
and writes it there. -/
inductive Life where
  | running
  | recording (code : ExitCode)
  | recorded (code : ExitCode)
  | ended (code : Option ExitCode)
deriving DecidableEq

namespace Life

def gone : Life → Bool
  | ended _ => true
  | _ => false

/-- The exit code that has been recorded. -/
def code : Life → Option ExitCode
  | recorded c => some c
  | ended c => c
  | _ => none

/-- The end of the shell, whatever it had come to. -/
def die (life : Life) : Life := .ended life.code

end Life

/-- Where the answer of `is_alive` came from. -/
inductive Source where
  | node
  | handle
  | failure
deriving DecidableEq

/-- How far a caller of `poll` is: it has been told that the process is gone, and it has
the output of `cat`. -/
inductive Caller where
  | idle
  | answered (source : Source)
  | got (source : Source) (out : Txt)
deriving DecidableEq

inductive Stopper where
  | no
  | killing
  | reading
  | removing (exitCode : Int)
  | returning (exitCode : Int)
  | done
deriving DecidableEq

/-- A handle, with the node it is about. -/
structure State where
  life : Life
  rcFile : Option Txt
  remotePid : Option Int
  stopResult : Option Int
  stopper : Stopper
  callers : Nat → Caller

def start (remotePid : Option Int) : State where
  life := .running
  rcFile := none
  remotePid := remotePid
  stopResult := none
  stopper := .no
  callers := fun _ => .idle

/-! ## The commands -/

/-- `_control`, by whether the command came through; the commands end with zero. -/
def control (ok : Bool) (out : Txt) : Int × Txt :=
  if ok then (0, out) else (-1, [])

/-- `kill -0 pid && echo A || echo D`. -/
def killZero (life : Life) : Txt :=
  if life.gone then "D\n".toList else "A\n".toList

/-- `cat rc_file || true`. -/
def cat (file : Option Txt) : Txt := file.getD []

def endsWith (t s : Txt) : Bool := s.isSuffixOf t

/-- What `echo $?` writes. -/
def rcLine (code : ExitCode) : Txt := showNat code ++ ['\n']

namespace State

def isAlive (s : State) (ok : Bool) : Bool :=
  if s.stopResult.isSome || s.remotePid.isNone then false
  else endsWith (strip (control ok (killZero s.life)).2) ['A']

/-- Where `is_alive` has its answer from. -/
def source (s : State) (ok : Bool) : Source :=
  if s.stopResult.isSome || s.remotePid.isNone then .handle
  else if ok then .node else .failure

end State

/-- `_read_rc` on the output of `cat`. -/
def readRc (out : Txt) : Int :=
  let line := if strip out ≠ [] then (splitlines (strip out)).getLastD [] else []
  match parseInt line with
  | some code => code
  | none => -1

/-! ## Steps -/

inductive Step where
  | exits (code : ExitCode)
  | writes
  | leaves
  | dies
  | check (caller : Nat) (ok : Bool)
  | fetch (caller : Nat) (ok : Bool)
  | answer (caller : Nat)
  | stop
  | kill (delivered : Bool)
  | read (ok : Bool)
  | remove (ok : Bool)
  | result

namespace State

def setCaller (s : State) (caller : Nat) (c : Caller) : State :=
  { s with callers := Function.update s.callers caller c }

/-- One step; a step that cannot be taken leaves everything as it is. -/
def next (l : Step) (s : State) : State :=
  match l with
  | .exits code =>
    match s.life with
    | .running => { s with life := .recording code, rcFile := some [] }
    | _ => s
  | .writes =>
    match s.life with
    -- the file may have been removed since it was opened
    | .recording code =>
      { s with life := .recorded code, rcFile := s.rcFile.map fun _ => rcLine code }
    | _ => s
  | .leaves =>
    match s.life with
    | .recorded code => { s with life := .ended (some code) }
    | _ => s
  | .dies => { s with life := s.life.die }
  | .check caller ok =>
    match s.callers caller with
    | .idle => if s.isAlive ok then s else s.setCaller caller (.answered (s.source ok))
    | _ => s
  | .fetch caller ok =>
    match s.callers caller with
    | .answered source => s.setCaller caller (.got source (control ok (cat s.rcFile)).2)
    | _ => s
  | .answer caller =>
    match s.callers caller with
    | .got _ _ => s.setCaller caller .idle
    | _ => s
  | .stop =>
    match s.stopper with
    | .no => { s with stopper := if s.remotePid.isSome then .killing else .reading }
    | _ => s
  | .kill delivered =>
    match s.stopper with
    | .killing =>
      { s with stopper := .reading, life := if delivered then s.life.die else s.life }
    | _ => s
  | .read ok =>
    match s.stopper with
    | .reading => { s with stopper := .removing (readRc (control ok (cat s.rcFile)).2) }
    | _ => s
  | .remove ok =>
    match s.stopper with
    | .removing code =>
      { s with stopper := .returning code, rcFile := if ok then none else s.rcFile }
    | _ => s
  | .result =>
    match s.stopper with
    | .returning code => { s with stopper := .done, stopResult := some code }
    | _ => s

end State

/-! ## The truth -/

/-- What `poll` returns other than `None` is the exit code of a process that has ended, if it
recorded one. -/
def Truthful (s : State) : Step → Prop
  | .answer caller =>
    match s.callers caller with
    | .got _ out => s.life.gone = true ∧ ∀ code ∈ s.life.code, readRc out = code.val
    | _ => True
  | _ => True

instance (s : State) (l : Step) : Decidable (Truthful s l) := by
  unfold Truthful
  split
  · split <;> infer_instance
  · infer_instance

def TellsTheTruth (remotePid : Option Int) (steps : List Step) : Prop :=
  Steps State.next Truthful (start remotePid) steps

instance (remotePid : Option Int) (steps : List Step) :
    Decidable (TellsTheTruth remotePid steps) := Steps.decidable State.next Truthful _ steps

/-- The node has said that the process is gone, or it is gone by now; and if there is an exit
code, `cat` has shown it. -/
def Informed (s : State) : Step → Prop
  | .answer caller =>
    match s.callers caller with
    | .got source out =>
      (source = .node ∨ s.life.gone = true) ∧ (s.life.code.isSome = true → out ≠ [])
    | _ => True
  | _ => True

/-! ## What the commands show -/

theorem isAlive_node {s : State} {ok : Bool} (h : s.source ok = .node)
    (halive : s.isAlive ok = false) : s.life.gone = true := by
  unfold State.source at h
  unfold State.isAlive at halive
  split at h
  · cases h
  · next hsend =>
    rw [if_neg hsend] at halive
    cases ok with
    | false => cases h
    | true =>
      unfold killZero at halive
      cases hgone : s.life.gone with
      | true => rfl
      | false =>
        rw [hgone] at halive
        revert halive
        decide

theorem readRc_nil : readRc [] = -1 := by decide

theorem readRc_rcLine (code : ExitCode) : readRc (rcLine code) = code.val := by
  have hdigit : ∀ c ∈ showNat code, isSpace c = false :=
    fun c hc => isSpace_of_isDigit (isDigit_of_mem_showNat hc)
  have hstrip : strip (rcLine code) = showNat code := by
    have hpad : strip ([] ++ (showNat code ++ ['\n'])) = strip (showNat code) :=
      strip_pad (fun c hc => absurd hc List.not_mem_nil)
        (fun c hc => by rw [List.mem_singleton.mp hc]; decide)
    rw [rcLine]
    exact hpad.trans (strip_eq_self hdigit)
  have hlines := splitlines_line (isLine_of_isSpace hdigit) (showNat_ne_nil code)
  have hparse : parseInt (showNat code) = some (code.val : Int) :=
    parseInt_of_lt (n := code.val) (by omega)
  unfold readRc
  rw [hstrip, if_pos (showNat_ne_nil code), hlines]
  show (match parseInt (showNat code) with | some code => code | none => -1) = _
  rw [hparse]

/-! ## What a step can do -/

/-- What the file for the exit code can hold, or has held. -/
def Written (life : Life) (out : Txt) : Prop :=
  out = [] ∨ ∃ code ∈ life.code, out = rcLine code

/-- A process that has ended stays as it is, and a code is recorded once. -/
structure Grows (life life' : Life) : Prop where
  gone : life.gone = true → life' = life
  code : ∀ c ∈ life.code, c ∈ life'.code

theorem Grows.refl (life : Life) : Grows life life := ⟨fun _ => rfl, fun _ hc => hc⟩

theorem grows_die (life : Life) : Grows life life.die := by
  cases life with
  | ended c => exact Grows.refl _
  | running => exact ⟨fun h => (by cases h), fun c hc => (by cases hc)⟩
  | recording _ => exact ⟨fun h => (by cases h), fun c hc => (by cases hc)⟩
  | recorded _ => exact ⟨fun h => (by cases h), fun c hc => hc⟩

theorem Written.grows {life life' : Life} {out : Txt} (hw : Written life out)
    (h : Grows life life') : Written life' out :=
  hw.imp id fun ⟨code, hcode, hout⟩ => ⟨code, h.code code hcode, hout⟩

theorem written_control {life : Life} {out : Txt} (hw : Written life out) (ok : Bool) :
    Written life (control ok out).2 := by
  cases ok with
  | false => exact Or.inl rfl
  | true => exact hw

/-- What a caller knows is so. -/
def Knows (life : Life) : Caller → Prop
  | .idle => True
  | .answered source => source = .node → life.gone = true
  | .got source out => (source = .node → life.gone = true) ∧ Written life out

theorem Knows.grows {life life' : Life} {c : Caller} (hc : Knows life c) (h : Grows life life') :
    Knows life' c := by
  have hgone (hg : life.gone = true) : life'.gone = true := by rw [h.gone hg, hg]
  cases c with
  | idle => trivial
  | answered source => exact fun hs => hgone (hc hs)
  | got source out => exact ⟨fun hs => hgone (hc.1 hs), hc.2.grows h⟩

structure Inv (s : State) : Prop where
  file : Written s.life (cat s.rcFile)
  callers : ∀ k, Knows s.life (s.callers k)

variable {s : State}

theorem inv_start (remotePid : Option Int) : Inv (start remotePid) :=
  ⟨Or.inl rfl, fun _ => trivial⟩

theorem Inv.setCaller (hs : Inv s) (k : Nat) {c : Caller} (hc : Knows s.life c) :
    Inv (s.setCaller k c) := by
  refine ⟨hs.file, fun j => ?_⟩
  show Knows s.life (Function.update s.callers k c j)
  by_cases hj : j = k
  · rw [hj, Function.update_self]
    exact hc
  · rw [Function.update_of_ne hj]
    exact hs.callers j

/-- A step that the callers have no part in. -/
theorem Inv.outside (hs : Inv s) {s' : State} (hlife : Grows s.life s'.life)
    (hfile : Written s'.life (cat s'.rcFile)) (hcallers : s'.callers = s.callers) : Inv s' :=
  ⟨hfile, fun k => by rw [hcallers]; exact (hs.callers k).grows hlife⟩

/-- The process goes its way. -/
theorem Inv.life (hs : Inv s) {life : Life} (hlife : Grows s.life life) :
    Inv { s with life := life } :=
  hs.outside hlife (hs.file.grows hlife) rfl

/-- A step of `stop` that changes nothing at the node. -/
theorem Inv.handle (hs : Inv s) (stopper : Stopper) (stopResult : Option Int) :
    Inv { s with stopper := stopper, stopResult := stopResult } :=
  ⟨hs.file, hs.callers⟩

theorem inv_next (hs : Inv s) (l : Step) : Inv (s.next l) := by
  cases l with
  | exits code =>
    simp only [State.next]
    split
    · next hlife =>
      have hgrows : Grows s.life (.recording code) := by
        rw [hlife]
        exact ⟨fun h => (by cases h), fun c hc => (by cases hc)⟩
      exact hs.outside hgrows (Or.inl rfl) rfl
    · exact hs
  | writes =>
    simp only [State.next]
    split
    · next code hlife =>
      have hgrows : Grows s.life (.recorded code) := by
        rw [hlife]
        exact ⟨fun h => (by cases h), fun c hc => (by cases hc)⟩
      refine hs.outside hgrows ?_ rfl
      show Written _ (cat (s.rcFile.map fun _ => rcLine code))
      cases s.rcFile with
      | none => exact Or.inl rfl
      | some _ => exact Or.inr ⟨code, rfl, rfl⟩
    · exact hs
  | leaves =>
    simp only [State.next]
    split
    · next code hlife =>
      refine hs.life ?_
      rw [hlife]
      exact ⟨fun h => (by cases h), fun c hc => hc⟩
    · exact hs
  | dies => exact hs.life (grows_die s.life)
  | check k ok =>
    simp only [State.next]
    split
    · cases halive : s.isAlive ok with
      | true => exact hs
      | false => exact hs.setCaller k fun hsource => isAlive_node hsource halive
    · exact hs
  | fetch k ok =>
    simp only [State.next]
    split
    · next source hk =>
      have hknows := hs.callers k
      rw [hk] at hknows
      exact hs.setCaller k ⟨hknows, written_control hs.file ok⟩
    · exact hs
  | answer k =>
    simp only [State.next]
    split
    · exact hs.setCaller k trivial
    · exact hs
  | stop =>
    simp only [State.next]
    split
    · exact hs.handle _ s.stopResult
    · exact hs
  | kill delivered =>
    simp only [State.next]
    split
    · refine (hs.handle .reading s.stopResult).life ?_
      cases delivered with
      | false => exact Grows.refl _
      | true => exact grows_die _
    · exact hs
  | read ok =>
    simp only [State.next]
    split
    · exact hs.handle _ s.stopResult
    · exact hs
  | remove ok =>
    simp only [State.next]
    split
    · refine hs.outside (Grows.refl _) ?_ rfl
      cases ok with
      | false => exact hs.file
      | true => exact Or.inl rfl
    · exact hs
  | result =>
    simp only [State.next]
    split
    · exact hs.handle .done _
    · exact hs

/-! ## When `poll` tells the truth -/

theorem truthful_iff_informed (hs : Inv s) (l : Step) : Truthful s l ↔ Informed s l := by
  cases l with
  | answer k =>
    have hknows := hs.callers k
    unfold Truthful Informed
    simp only
    cases hk : s.callers k with
    | got source out =>
      rw [hk] at hknows
      obtain ⟨hsource, hout⟩ := hknows
      simp only
      constructor
      · intro ⟨hgone, hcode⟩
        refine ⟨Or.inr hgone, fun hsome hnil => ?_⟩
        obtain ⟨code, hc⟩ := Option.isSome_iff_exists.mp hsome
        have hread := hcode code hc
        rw [hnil, readRc_nil] at hread
        omega
      · intro ⟨hgone, hcode⟩
        refine ⟨hgone.elim hsource id, fun code hc => ?_⟩
        rcases hout with hnil | ⟨code', hc', hout⟩
        · exact absurd hnil (hcode (by rw [Option.mem_def.mp hc]; rfl))
        · rw [hout, readRc_rcLine, Option.mem_unique hc hc']
    | _ => exact Iff.rfl
  | _ => exact Iff.rfl

/-- `poll` tells the truth in exactly the runs in which, at each answer, the node had said that
the process is gone or it is gone by then, and `cat` had shown the code if there is one. -/
theorem tellsTheTruth_iff (remotePid : Option Int) (steps : List Step) :
    TellsTheTruth remotePid steps ↔ Steps State.next Informed (start remotePid) steps :=
  steps_congr (fun _ l hs => truthful_iff_informed hs l) (fun _ l hs _ => inv_next hs l) steps
    (inv_start remotePid)

/-- A liveness check that fails is an exit code for a process that is running. -/
theorem failedCheck_isExit :
    ¬ TellsTheTruth (some 4711) [.check 0 false, .fetch 0 true, .answer 0] := by decide

end ProcessPoll
end Executors
end RocmTests

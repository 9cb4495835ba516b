import Mathlib.Algebra.Order.Ring.Rat
import RocmTests.Conc.Prog

/-!
# What the worker processes share

Everything two workers can see of each other is under `output/.gpu-locks/`:
one lock file and one `.info` sidecar per (node, GPU), and one registry of
pending requests per node.  `OsState` is that directory together with the
monotonic clock and the process table.  `OsOp` lists the atomic accesses
`GpuFileLock` and `PendingAcquisitionTracker` make to it.

A lock file is held by at most one lock object.  `flock` is
`FileLock.acquire(timeout=0)`, the only form the node pool and the tracker use,
and `none` is its `Timeout`.  The registry accesses run under the meta-lock, so
each is atomic; `metaTimeout` is the case where the meta-lock is not obtained
within its 0.5 s and the tracker swallows the error.
-/

namespace RocmTests
namespace Nodes

open Conc

/-- Node label as it appears in file names: blanks, slashes and colons become
underscores. -/
def safeLabel (label : String) : String :=
  String.ofList (label.toList.map fun c => if c = ' ' ∨ c = '/' ∨ c = ':' then '_' else c)

/-- The stem of `<safe_label>_gpu<index>.lock` and of its `.info` sidecar. -/
structure LockFile where
  safe : String
  gpuIndex : Int
deriving DecidableEq, Repr

def lockFile (nodeLabel : String) (gpuIndex : Int) : LockFile := ⟨safeLabel nodeLabel, gpuIndex⟩

/-- The lock object that holds a lock file, and the process it lives in. -/
structure Holder where
  pid : Nat
  id : Nat
deriving DecidableEq, Repr

/-- Contents of a `.info` sidecar.  The acquisition timestamp is left out: no
code reads it back. -/
structure Info where
  testId : String
  pid : Nat
  nodeLabel : String
  gpuIndex : Int
deriving DecidableEq, Repr

/-- One entry of the pending registry.  The JSON has `count` and `timeout_at`
only.  `waitsFor` is a history field: the node and GPU that an
`acquire_specific_slot` caller waits for.  No operation reads it. -/
structure Pending where
  count : Int
  timeoutAt : ℚ
  waitsFor : Option (String × Int)
deriving DecidableEq, Repr

structure OsState where
  holder : LockFile → Option Holder
  info : LockFile → Option Info
  pending : String → List (Nat × Pending)
  clock : ℚ
  dead : Nat → Bool
  nextId : Nat

inductive OsOp where
  | flock (f : LockFile)
  | funlock (f : LockFile) (id : Nat)
  | writeInfo (f : LockFile) (i : Info)
  | removeInfo (f : LockFile)
  | readInfo (f : LockFile)
  | pidExists (pid : Nat)
  | monotonic
  | addPending (safe : String) (e : Pending)
  | dropPending (safe : String) (req : Nat)
  | livePending (safe : String) (now : ℚ)

abbrev OsOp.Resp : OsOp → Type
  | .flock _ => Option Nat
  | .funlock _ _ => Unit
  | .writeInfo _ _ => Unit
  | .removeInfo _ => Unit
  | .readInfo _ => Option Info
  | .pidExists _ => Bool
  | .monotonic => ℚ
  | .addPending _ _ => Nat
  | .dropPending _ _ => Unit
  | .livePending _ _ => Option (List Int)

abbrev OsProg := Prog OsOp OsOp.Resp

namespace Os

abbrev flock (f : LockFile) : OsProg (Option Nat) := Prog.perform (OsOp.flock f)
abbrev funlock (f : LockFile) (id : Nat) : OsProg Unit := Prog.perform (OsOp.funlock f id)
abbrev writeInfo (f : LockFile) (i : Info) : OsProg Unit := Prog.perform (OsOp.writeInfo f i)
abbrev removeInfo (f : LockFile) : OsProg Unit := Prog.perform (OsOp.removeInfo f)
abbrev readInfo (f : LockFile) : OsProg (Option Info) := Prog.perform (OsOp.readInfo f)
abbrev pidExists (pid : Nat) : OsProg Bool := Prog.perform (OsOp.pidExists pid)
abbrev monotonic : OsProg ℚ := Prog.perform OsOp.monotonic
abbrev addPending (safe : String) (e : Pending) : OsProg Nat :=
  Prog.perform (OsOp.addPending safe e)
abbrev dropPending (safe : String) (req : Nat) : OsProg Unit :=
  Prog.perform (OsOp.dropPending safe req)
abbrev livePending (safe : String) (now : ℚ) : OsProg (Option (List Int)) :=
  Prog.perform (OsOp.livePending safe now)

end Os

structure OsChoice where
  elapsed : ℚ := 0
  metaTimeout : Bool := false
deriving DecidableEq, Repr

namespace OsState

def start : OsState :=
  { holder := fun _ => none, info := fun _ => none, pending := fun _ => [],
    clock := 0, dead := fun _ => false, nextId := 0 }

/-- Entries whose deadline has not passed at `now`. -/
def liveAt (now : ℚ) (entries : List (Nat × Pending)) : List (Nat × Pending) :=
  entries.filter fun x => decide (now < x.2.timeoutAt)

/-- One access by process `pid`. -/
def exec (pid : Nat) : (o : OsOp) → OsChoice → OsState → o.Resp × OsState
  | .flock f, _, s =>
    match s.holder f with
    | some _ => ((none : Option Nat), s)
    | none =>
      ((some s.nextId : Option Nat),
        { s with
          holder := Function.update s.holder f (some ⟨pid, s.nextId⟩)
          nextId := s.nextId + 1 })
  | .funlock f id, _, s =>
    -- Only the object that holds the file can give it up.
    ((), if s.holder f = some ⟨pid, id⟩ then
      { s with holder := Function.update s.holder f none } else s)
  | .writeInfo f i, _, s => ((), { s with info := Function.update s.info f (some i) })
  | .removeInfo f, _, s => ((), { s with info := Function.update s.info f none })
  | .readInfo f, _, s => (s.info f, s)
  | .pidExists q, _, s => (!s.dead q, s)
  | .monotonic, ch, s =>
    -- The clock never runs backwards.
    (s.clock + max 0 ch.elapsed, { s with clock := s.clock + max 0 ch.elapsed })
  | .addPending safe e, ch, s =>
    (s.nextId, if ch.metaTimeout then { s with nextId := s.nextId + 1 } else
      { s with
        pending := Function.update s.pending safe (s.pending safe ++ [(s.nextId, e)])
        nextId := s.nextId + 1 })
  | .dropPending safe req, ch, s =>
    ((), if ch.metaTimeout then s else
      { s with
        pending := Function.update s.pending safe
          ((s.pending safe).filter fun x => decide (x.1 ≠ req)) })
  | .livePending safe now, ch, s =>
    -- Expired entries are pruned from the file on every read.
    if ch.metaTimeout then ((none : Option (List Int)), s) else
      ((some ((liveAt now (s.pending safe)).map (·.2.count)) : Option (List Int)),
        { s with pending := Function.update s.pending safe (liveAt now (s.pending safe)) })

theorem flock_held {pid : Nat} {f : LockFile} {c : OsChoice} {s : OsState} {h : Holder}
    (hf : s.holder f = some h) :
    exec pid (.flock f) c s = ((none : Option Nat), s) := by
  simp only [exec, hf]

theorem flock_free {pid : Nat} {f : LockFile} {c : OsChoice} {s : OsState}
    (hf : s.holder f = none) :
    exec pid (.flock f) c s = ((some s.nextId : Option Nat),
      { s with
        holder := Function.update s.holder f (some ⟨pid, s.nextId⟩)
        nextId := s.nextId + 1 }) := by
  simp only [exec, hf]

theorem livePending_read {pid : Nat} {safe : String} {now : ℚ} {c : OsChoice} {s : OsState}
    (hc : c.metaTimeout = false) :
    exec pid (.livePending safe now) c s =
      ((some ((liveAt now (s.pending safe)).map (·.2.count)) : Option (List Int)),
        { s with pending := Function.update s.pending safe (liveAt now (s.pending safe)) }) := by
  simp only [exec, hc, Bool.false_eq_true, if_false]

/-- The kernel frees every lock of a process that dies. -/
def die (pid : Nat) (s : OsState) : OsState :=
  { s with
    holder := fun f => (s.holder f).filter fun h => decide (h.pid ≠ pid)
    dead := Function.update s.dead pid true }

end OsState

end Nodes
end RocmTests

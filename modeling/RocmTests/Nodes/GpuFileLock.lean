import RocmTests.Nodes.Os

/-!
# Cross-process GPU lock

`GpuFileLock` couples a lock file with a sidecar that names the holder.
`acquire` takes the lock and then writes the sidecar; `release` drops the lock
and then removes the sidecar.  The four are separate accesses.
-/

namespace RocmTests
namespace Nodes

open Conc

/-- A lock object.  `id` is set once the file is held. -/
structure GpuFileLock where
  nodeLabel : String
  gpuIndex : Int
  id : Nat
deriving DecidableEq, Repr

/-- `RuntimeError` raised by `acquire` on a filelock timeout. -/
inductive LockError where
  | timedOut (nodeLabel : String) (gpuIndex : Int)
deriving DecidableEq, Repr

namespace GpuFileLock

def file (l : GpuFileLock) : LockFile := lockFile l.nodeLabel l.gpuIndex

/-- `GpuFileLock(node_label, gpu_index).acquire(timeout=0.0, test_id)`. -/
def acquire (pid : Nat) (nodeLabel : String) (gpuIndex : Int) (testId : String) :
    OsProg (Except LockError GpuFileLock) := do
  match ← Os.flock (lockFile nodeLabel gpuIndex) with
  | none => pure (.error (.timedOut nodeLabel gpuIndex))
  | some id => do
    (if testId ≠ "" then
      Os.writeInfo (lockFile nodeLabel gpuIndex) ⟨testId, pid, nodeLabel, gpuIndex⟩
    else pure ())
    pure (.ok ⟨nodeLabel, gpuIndex, id⟩)

def release (l : GpuFileLock) : OsProg Unit := do
  Os.funlock l.file l.id
  Os.removeInfo l.file

/-- `False` when the sidecar is absent or names a process that is gone. -/
def holderIsAlive (nodeLabel : String) (gpuIndex : Int) : OsProg Bool := do
  match ← Os.readInfo (lockFile nodeLabel gpuIndex) with
  | none => pure false
  | some i => Os.pidExists i.pid

/-- The records of every sidecar among the listed files. -/
def readAllHolders (files : List LockFile) (s : OsState) : List Info := files.filterMap s.info

end GpuFileLock

end Nodes
end RocmTests

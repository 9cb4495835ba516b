import RocmTests.Nodes.NodePool

/-!
# Worker processes sharing the GPUs

Any number of processes, each with its own pool over the same topology and any
number of threads.  A thread makes one call after another; which call comes next
is a choice of the schedule.  The one rule a client keeps is that a slot passed
to `release` is live and has not been passed to `release` before, which is what
the fixtures and the manual allocator do.

A process can die between any two actions.  Its locks are freed and its memory
is gone; the registry entries it wrote stay until they expire.
-/

namespace RocmTests
namespace Nodes

open Conc Gpu

abbrev NodeSlot.file (slot : NodeSlot) : LockFile := slot.fileLock.file

abbrev NodeSlot.token (slot : NodeSlot) : LockFile × Nat := (slot.file, slot.fileLock.id)

/-- `alloc (pid, label)` is the process's allocator of the node.  `live` holds
the slots returned and not yet given back, `claimed` those of them passed to
`release`. -/
structure PoolState where
  os : OsState
  alloc : Nat × String → GpuAllocator
  poolLock : Nat → Option Nat
  live : Nat → List NodeSlot
  claimed : Nat → List NodeSlot
  resting : Nat × Nat → Bool

structure PoolChoice where
  os : OsChoice := {}
  call : Call := .release []

namespace PoolState

def freshAlloc (T : Topology) (x : Nat × String) : GpuAllocator :=
  GpuAllocator.init ((T.gpus x.2).getD []) T.headroomGb

/-- No lock is held; the sidecars, the registry and the clock are whatever an
earlier session left. -/
def start (T : Topology) (os : OsState) : PoolState :=
  { os := { os with holder := fun _ => none }, alloc := freshAlloc T, poolLock := fun _ => none,
    live := fun _ => [],
    claimed := fun _ => [], resting := fun _ => true }

def setAlloc (s : PoolState) (pid : Nat) (label : String) (a : GpuAllocator) : PoolState :=
  { s with alloc := Function.update s.alloc (pid, label) a }

/-- `slot` ends: its process no longer holds it. -/
def retire (s : PoolState) (pid : Nat) (slot : NodeSlot) : PoolState :=
  { s with
    live := Function.update s.live pid ((s.live pid).filter fun x => decide (x ≠ slot))
    claimed := Function.update s.claimed pid ((s.claimed pid).filter fun x => decide (x ≠ slot)) }

/-- The slots may be passed to `release`. -/
def Releasable (s : PoolState) (pid : Nat) (slots : List NodeSlot) : Prop :=
  slots.Nodup ∧ ∀ slot ∈ slots, slot ∈ s.live pid ∧ slot ∉ s.claimed pid

instance (s : PoolState) (pid : Nat) (slots : List NodeSlot) : Decidable (s.Releasable pid slots) :=
  inferInstanceAs (Decidable (_ ∧ _))

def exec (t : Nat × Nat) : (o : PoolOp) → PoolChoice → PoolState → Option (o.Resp × PoolState)
  | .os o, ch, s => some ((OsState.exec t.1 o ch.os s.os).1,
      { s with os := (OsState.exec t.1 o ch.os s.os).2 })
  | .lockPool, _, s =>
    if s.poolLock t.1 = none then
      some ((), { s with poolLock := Function.update s.poolLock t.1 (some t.2) })
    else none
  | .unlockPool, _, s => some ((), { s with poolLock := Function.update s.poolLock t.1 none })
  | .allocate label v, _, s =>
    match (s.alloc (t.1, label)).allocate v with
    | .error e => some (Except.error e, s)
    | .ok x => some (Except.ok x.1, s.setAlloc t.1 label x.2)
  | .allocateSpecific label i, _, s =>
    match (s.alloc (t.1, label)).allocateSpecific i with
    | .error e => some (Except.error e, s)
    | .ok x => some (Except.ok x.1, s.setAlloc t.1 label x.2)
  | .deallocate label gpu none, _, s =>
    some ((), s.setAlloc t.1 label ((s.alloc (t.1, label)).release gpu))
  | .deallocate label gpu (some slot), _, s =>
    some ((), (s.setAlloc t.1 label ((s.alloc (t.1, label)).release gpu)).retire t.1 slot)
  | .deliver _ slots, _, s =>
    some ((), { s with live := Function.update s.live t.1 (s.live t.1 ++ slots) })
  | .rest, _, s => some ((), { s with resting := Function.update s.resting t true })
  | .wake, _, s => some ((), { s with resting := Function.update s.resting t false })
  | .nextCall, ch, s =>
    match ch.call with
    | .release slots =>
      if s.Releasable t.1 slots then
        some (Call.release slots,
          { s with
            claimed := Function.update s.claimed t.1 (s.claimed t.1 ++ slots)
            resting := Function.update s.resting t false })
      else none
    | call => some (call, { s with resting := Function.update s.resting t false })

def die (T : Topology) (pid : Nat) (s : PoolState) : PoolState :=
  { os := s.os.die pid
    alloc := fun x => if x.1 = pid then freshAlloc T x else s.alloc x
    poolLock := Function.update s.poolLock pid none
    live := Function.update s.live pid []
    claimed := Function.update s.claimed pid []
    resting := fun t => decide (t.1 = pid) || s.resting t }

theorem mem_update_append (slotsOf : Nat → List NodeSlot) (pid : Nat) (slots : List NodeSlot)
    (p : Nat) (slot : NodeSlot) :
    slot ∈ Function.update slotsOf pid (slotsOf pid ++ slots) p ↔
      slot ∈ slotsOf p ∨ (p = pid ∧ slot ∈ slots) := by
  by_cases hp : p = pid
  · subst hp
    simp
  · simp [hp]

theorem mem_update_filter (slotsOf : Nat → List NodeSlot) (pid : Nat) (slot : NodeSlot)
    (p : Nat) (b : NodeSlot) :
    b ∈ Function.update slotsOf pid ((slotsOf pid).filter fun x => decide (x ≠ slot)) p ↔
      b ∈ slotsOf p ∧ ¬ (p = pid ∧ b = slot) := by
  by_cases hp : p = pid
  · subst hp
    simp
  · simp [hp]

theorem mem_retire_live (s : PoolState) (pid : Nat) (slot : NodeSlot) (p : Nat) (b : NodeSlot) :
    b ∈ (s.retire pid slot).live p ↔ b ∈ s.live p ∧ ¬ (p = pid ∧ b = slot) :=
  mem_update_filter s.live pid slot p b

theorem mem_retire_claimed (s : PoolState) (pid : Nat) (slot : NodeSlot) (p : Nat) (b : NodeSlot) :
    b ∈ (s.retire pid slot).claimed p ↔ b ∈ s.claimed p ∧ ¬ (p = pid ∧ b = slot) :=
  mem_update_filter s.claimed pid slot p b

theorem mem_die_live (T : Topology) (s : PoolState) (pid p : Nat) (slot : NodeSlot) :
    slot ∈ (s.die T pid).live p ↔ p ≠ pid ∧ slot ∈ s.live p := by
  by_cases hp : p = pid
  · simp [die, hp]
  · simp [die, hp]

theorem die_holder (T : Topology) (s : PoolState) (pid : Nat) (f : LockFile) (p id : Nat) :
    (s.die T pid).os.holder f = some ⟨p, id⟩ ↔ s.os.holder f = some ⟨p, id⟩ ∧ p ≠ pid := by
  simp only [die, OsState.die, Option.filter_eq_some_iff, decide_eq_true_eq]

end PoolState

/-- A thread is a (process, thread) pair; a fault is the death of a process. -/
def pools (T : Topology) : System where
  Tid := Nat × Nat
  Op := PoolOp
  Resp := PoolOp.Resp
  State := PoolState
  Choice := PoolChoice
  exec := PoolState.exec
  Fault := Nat
  fault := PoolState.die T
  kills := fun pid t => decide (t.1 = pid)

def poolsStart (T : Topology) (os : OsState) : (pools T).Config :=
  ⟨PoolState.start T os, fun t => Pool.worker T t.1⟩

end Nodes
end RocmTests

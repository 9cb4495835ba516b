import RocmTests.Nodes.NodePool

/-!
# Which actions each part of a method performs

Slots become live only at the `deliver` that ends a round, and the registry is
read only by the priority check of `acquire_slot`.  Everything else a method does
is `Inner`, which is what the results about the number of slots delivered and
about the priority check need to know of it.
-/

namespace RocmTests
namespace Nodes

open Conc Gpu

/-- Neither a delivery, nor a look at the registry, nor the start of a call. -/
def Inner : PoolOp → Prop
  | .os (.livePending _ _) => False
  | .deliver _ _ => False
  | .nextCall => False
  | _ => True

namespace Pool

theorem acquire_inner (pid : Nat) (label : String) (i : Int) (testId : String) :
    Performs Inner (inOs (GpuFileLock.acquire pid label i testId)) := by
  refine Performs.act trivial fun b => ?_
  cases b with
  | none => exact Performs.ret
  | some id =>
    show Performs Inner (inOs (Prog.bind (if testId ≠ "" then Os.writeInfo _ _ else pure ()) _))
    by_cases hid : testId ≠ ""
    · rw [if_pos hid]
      exact Performs.act trivial fun _ => Performs.ret
    · rw [if_neg hid]
      exact Performs.ret

theorem releaseLock_inner (l : GpuFileLock) : Performs Inner (inOs l.release) :=
  Performs.act trivial fun _ => Performs.act trivial fun _ => Performs.ret

theorem holderIsAlive_inner (label : String) (i : Int) :
    Performs Inner (inOs (GpuFileLock.holderIsAlive label i)) := by
  refine Performs.act trivial fun b => ?_
  cases b with
  | none => exact Performs.ret
  | some info => exact Performs.act trivial fun _ => Performs.ret

theorem pause_inner : Performs Inner pause :=
  Performs.act trivial fun _ => Performs.act trivial fun _ => Performs.ret

theorem poll_inner {β : Type} (deadline : ℚ) (e : PoolError) :
    Performs Inner
      (Prog.bind (inOs Os.monotonic) fun now =>
        if deadline ≤ now then pure (.inr (.error e) : Unit ⊕ Except PoolError β)
        else Prog.bind pause fun _ => pure (.inl ())) := by
  refine Performs.act trivial fun now => ?_
  show Performs Inner (if deadline ≤ now then _ else _)
  by_cases hd : deadline ≤ now
  · rw [if_pos hd]; exact Performs.ret
  · rw [if_neg hd]; exact pause_inner.bind fun _ => Performs.ret

theorem releaseAll_inner (label : String) (gpus : List GpuInfo) :
    Performs Inner (releaseAll label gpus) :=
  Performs.forEach fun _ => Performs.act trivial fun _ => Performs.ret

theorem rollback_inner (label : String) (acquired : List NodeSlot) :
    Performs Inner (rollback label acquired) :=
  Performs.forEach fun slot =>
    (releaseLock_inner slot.fileLock).bind fun _ => Performs.act trivial fun _ => Performs.ret

theorem deregisterAll_inner (regs : List (String × Nat)) : Performs Inner (deregisterAll regs) :=
  Performs.forEach fun _ => Performs.act trivial fun _ => Performs.ret

theorem registerAll_inner (count : Int) (timeoutAt : ℚ) :
    ∀ (specs : List NodeSpec) (regs : List (String × Nat)),
      Performs Inner (registerAll count timeoutAt specs regs) := by
  intro specs
  induction specs with
  | nil => intro regs; exact Performs.ret
  | cons spec specs ih => intro regs; exact Performs.act trivial fun _ => ih _

variable (T : Topology) (pid : Nat)

theorem takeGpus_inner (spec : NodeSpec) (v : ℚ) (testId : String) :
    ∀ (n : Nat) (acquired : List NodeSlot),
      Performs Inner (takeGpus T pid spec v testId n acquired) := by
  intro n
  induction n with
  | zero => intro acquired; exact Performs.ret
  | succ n ih =>
    intro acquired
    refine Performs.act trivial fun b => ?_
    cases b with
    | error e => exact Performs.ret
    | ok gpu =>
      refine (acquire_inner pid spec.label gpu.index testId).bind fun lock => ?_
      cases lock with
      | error e => exact Performs.act trivial fun _ => Performs.ret
      | ok lock => exact ih _

theorem tryNode_inner (spec : NodeSpec) (count : Int) (v : ℚ) (testId : String) :
    Performs Inner (tryNode T pid spec count v testId) := by
  refine (takeGpus_inner T pid spec v testId _ []).bind fun b => ?_
  cases b with
  | ok acquired => exact Performs.ret
  | error acquired => exact (rollback_inner spec.label acquired).bind fun _ => Performs.ret

theorem takeIndices_inner (spec : NodeSpec) (testId : String) :
    ∀ (indices : List Int) (acquired : List NodeSlot),
      Performs Inner (takeIndices T pid spec testId indices acquired) := by
  intro indices
  induction indices with
  | nil => intro acquired; exact Performs.ret
  | cons i indices ih =>
    intro acquired
    refine Performs.act trivial fun b => ?_
    cases b with
    | error e => exact Performs.ret
    | ok gpu =>
      refine (acquire_inner pid spec.label i testId).bind fun lock => ?_
      cases lock with
      | error e =>
        refine Performs.act trivial fun _ => ?_
        exact (holderIsAlive_inner spec.label i).bind fun _ => Performs.ret
      | ok lock => exact ih _

theorem tryAcquireIndexSet_inner (spec : NodeSpec) (indices : List Int) (testId : String) :
    Performs Inner (tryAcquireIndexSet T pid spec indices testId) := by
  refine (takeIndices_inner T pid spec testId indices []).bind fun b => ?_
  cases b with
  | ok acquired => exact Performs.ret
  | error acquired => exact (rollback_inner spec.label acquired).bind fun _ => Performs.ret

theorem release_inner (slots : List NodeSlot) : Performs Inner (release T slots) := by
  refine Performs.forEach fun slot => ?_
  cases T.gpus slot.nodeSpec.label with
  | none => exact releaseLock_inner slot.fileLock
  | some gpus => exact Performs.act trivial fun _ => releaseLock_inner slot.fileLock

end Pool

end Nodes
end RocmTests

import RocmTests.Conc.System
import RocmTests.Gpu.Allocator
import RocmTests.Markers.GpuCount
import RocmTests.Nodes.GpuFileLock
import RocmTests.Nodes.PendingTracker

/-!
# The node pool

`NodePool` hands out (node, GPU) pairs.  A slot is taken in two layers: the index
leaves the allocator's `available` set, which only this process sees, and the
lock file is taken, which all processes see.  The four ways to acquire one do
this in the same order, under `_pool_lock`, and differ in how they undo a partial
result.

The methods are programs over `PoolOp`.  An allocator method is one action: the
source runs each under the allocator's own condition variable.  The parts of the
pool that never change after construction are its `Topology`.
-/

namespace RocmTests
namespace Nodes

open Conc Gpu Markers

structure NodeSpec where
  hostname : String
  username : Option String := none
  password : Option String := none
  sshKey : Option String := none
  gpuArch : Option String := none
  label : String := "localhost"
deriving DecidableEq, Repr

/-- One acquired (node, GPU) pair.  `ssh` refers to the session object of the
node, `none` for a node without one. -/
structure NodeSlot where
  nodeSpec : NodeSpec
  gpuInfo : GpuInfo
  fileLock : GpuFileLock
  ssh : Option Nat
deriving DecidableEq, Repr

structure MultiGpuSlots where
  slots : List NodeSlot
  nodeSpec : NodeSpec
deriving DecidableEq, Repr

/-- The pair no two live slots may share. -/
def NodeSlot.key (slot : NodeSlot) : String × Int := (slot.nodeSpec.label, slot.gpuInfo.index)

def MultiGpuSlots.gpuIndices (multi : MultiGpuSlots) : List Int :=
  multi.slots.map (·.gpuInfo.index)

/-- What `NodePool.__init__` fixes.  `gpus label` is the `_pool` of the node's
allocator, `none` when detection failed and the node has none. -/
structure Topology where
  nodeSpecs : List NodeSpec
  gpus : String → Option (List GpuInfo)
  headroomGb : ℚ
  sshSessions : String → Option Nat

namespace Topology

def indices (T : Topology) (label : String) : List Int :=
  ((T.gpus label).getD []).map GpuInfo.index

/-- `_has_vram_capacity`. -/
def hasVramCapacity (T : Topology) (vramRequiredGb : ℚ) (count : Int)
    (nodeLabel : Option String) : Bool :=
  decide (vramRequiredGb ≤ 0) ||
    T.nodeSpecs.any fun spec =>
      (nodeLabel.isNone || nodeLabel == some spec.label) &&
        match T.gpus spec.label with
        | none => false
        | some gpus =>
          decide (count ≤ ((gpus.filter fun g => g.fits T.headroomGb vramRequiredGb).length : Int))

/-- The nodes `acquire_slots` considers.  An empty label counts as no label. -/
def candidateSpecs (T : Topology) (nodeLabel : Option String) : List NodeSpec :=
  match nodeLabel with
  | none => T.nodeSpecs
  | some label =>
    if label = "" then T.nodeSpecs else T.nodeSpecs.filter fun s => decide (s.label = label)

/-- First node whose allocator has every listed index. -/
def ownerOf (T : Topology) (gpuIndices : List Int) : Option NodeSpec :=
  T.nodeSpecs.find? fun spec =>
    match T.gpus spec.label with
    | none => false
    | some gpus => gpuIndices.all fun i => decide (i ∈ gpus.map GpuInfo.index)

end Topology

/-- The `RuntimeError`s and `ValueError`s the pool raises. -/
inductive PoolError where
  | noCapacity (vramRequiredGb : ℚ) (count : Int) (nodeLabel : Option String)
  | noSlot (waitTimeoutSecs : ℚ)
  | noSlots (count : Int) (waitTimeoutSecs : ℚ)
  | indexNotFound (gpuIndex : Int)
  | indexNotAcquired (gpuIndex : Int) (waitTimeoutSecs : ℚ)
  | noOwner (gpuIndices : List Int)
  | indicesNotAcquired (gpuIndices : List Int) (waitTimeoutSecs : ℚ)
  | badCount (e : GpuCountError)
deriving DecidableEq

/-- Which method a slot came from. -/
inductive AcquirePath where
  | slot
  | slots
  | specificSlot
  | specificSlots
deriving DecidableEq

/-- A call a client makes on its pool. -/
inductive Call where
  | acquireSlot (vramRequiredGb waitTimeoutSecs : ℚ) (testId : String)
  | acquireSlots (count : Int) (nodeLabel : Option String) (vramRequiredGb waitTimeoutSecs : ℚ)
      (testId : String)
  | acquireSpecificSlot (gpuIndex : Int) (waitTimeoutSecs : ℚ) (testId : String)
  | acquireSpecificSlots (gpuIndices : List Int) (waitTimeoutSecs : ℚ) (testId : String)
  | acquireMultiNode (gpuCountPerNode : Scalar) (vramRequiredGb waitTimeoutSecs : ℚ)
      (testId : String)
  | release (slots : List NodeSlot)

/-- `deallocate` is `alloc.release(gpu)`; it names the slot that ends there when
it is the release of one.  `deliver` marks the `return` that makes slots live.
`rest` and `wake` enclose the pauses: the poll sleeps and the time between two
calls. -/
inductive PoolOp where
  | os (o : OsOp)
  | lockPool
  | unlockPool
  | allocate (label : String) (vramRequiredGb : ℚ)
  | allocateSpecific (label : String) (gpuIndex : Int)
  | deallocate (label : String) (gpu : GpuInfo) (retired : Option NodeSlot)
  | deliver (path : AcquirePath) (slots : List NodeSlot)
  | rest
  | wake
  | nextCall

abbrev PoolOp.Resp : PoolOp → Type
  | .os o => o.Resp
  | .lockPool => Unit
  | .unlockPool => Unit
  | .allocate _ _ => Except AllocError GpuInfo
  | .allocateSpecific _ _ => Except AllocError GpuInfo
  | .deallocate _ _ _ => Unit
  | .deliver _ _ => Unit
  | .rest => Unit
  | .wake => Unit
  | .nextCall => Call

abbrev PoolProg := Prog PoolOp PoolOp.Resp

namespace Pool

def inOs {α : Type} (p : OsProg α) : PoolProg α := Prog.mapOp PoolOp.os (fun _ b => b) p

abbrev lockPool : PoolProg Unit := Prog.perform PoolOp.lockPool
abbrev unlockPool : PoolProg Unit := Prog.perform PoolOp.unlockPool
abbrev allocate (label : String) (vramRequiredGb : ℚ) : PoolProg (Except AllocError GpuInfo) :=
  Prog.perform (PoolOp.allocate label vramRequiredGb)
abbrev allocateSpecific (label : String) (gpuIndex : Int) :
    PoolProg (Except AllocError GpuInfo) :=
  Prog.perform (PoolOp.allocateSpecific label gpuIndex)
abbrev deallocate (label : String) (gpu : GpuInfo) (retired : Option NodeSlot) : PoolProg Unit :=
  Prog.perform (PoolOp.deallocate label gpu retired)
abbrev deliver (path : AcquirePath) (slots : List NodeSlot) : PoolProg Unit :=
  Prog.perform (PoolOp.deliver path slots)
abbrev rest : PoolProg Unit := Prog.perform PoolOp.rest
abbrev wake : PoolProg Unit := Prog.perform PoolOp.wake
abbrev nextCall : PoolProg Call := Prog.perform PoolOp.nextCall

/-- `time.sleep` and `_slot_released.wait`.  Neither does anything but let time
pass: a waiter that is woken polls again as one that times out does. -/
def pause : PoolProg Unit := do
  rest
  wake

/-! ## One GPU from any node -/

section AcquireSlot

variable (T : Topology) (pid : Nat)

/-- The priority check: does some node's tracker ask this caller to yield? -/
def yieldCheck : List NodeSpec → PoolProg Bool
  | [] => pure false
  | spec :: specs => do
    let yielded ← inOs (PendingAcquisitionTracker.shouldYield spec.label (T.indices spec.label))
    if yielded then pure true else yieldCheck specs

def releaseAll (label : String) (gpus : List GpuInfo) : PoolProg Unit :=
  Prog.forEach (fun gpu => deallocate label gpu none) gpus

def newSlot (spec : NodeSpec) (gpu : GpuInfo) (lock : GpuFileLock) : NodeSlot :=
  ⟨spec, gpu, lock, T.sshSessions spec.label⟩

/-- The inner `while`: try every GPU of one node.  A GPU whose lock is held
elsewhere stays allocated, so that the next `allocate` picks another, and is
given back when the scan ends. -/
def scanNode (spec : NodeSpec) (vramRequiredGb : ℚ) (testId : String) :
    PoolProg (Option NodeSlot) := do
  let (skipped, foundSlot) ← Prog.iter (fun skipped => do
    match ← allocate spec.label vramRequiredGb with
    | .error _ => pure (.inr (skipped, none))
    | .ok gpu =>
      match ← inOs (GpuFileLock.acquire pid spec.label gpu.index testId) with
      | .ok lock =>
        releaseAll spec.label skipped
        pure (.inr (skipped, some (newSlot T spec gpu lock)))
      | .error _ => pure (.inl (skipped ++ [gpu]))) ([] : List GpuInfo)
  releaseAll spec.label skipped
  pure foundSlot

def scanNodes (vramRequiredGb : ℚ) (testId : String) :
    List NodeSpec → PoolProg (Option NodeSlot)
  | [] => pure none
  | spec :: specs =>
    match T.gpus spec.label with
    | none => scanNodes vramRequiredGb testId specs
    | some _ => do
      match ← scanNode T pid spec vramRequiredGb testId with
      | some slot => pure (some slot)
      | none => scanNodes vramRequiredGb testId specs

/-- The `with self._pool_lock` block of `acquire_slot`. -/
def slotRound (vramRequiredGb : ℚ) (testId : String) : PoolProg (Option NodeSlot) := do
  lockPool
  let foundSlot ← scanNodes T pid vramRequiredGb testId T.nodeSpecs
  deliver .slot foundSlot.toList
  unlockPool
  pure foundSlot

def acquireSlot (vramRequiredGb waitTimeoutSecs : ℚ) (testId : String) :
    PoolProg (Except PoolError NodeSlot) :=
  if T.hasVramCapacity vramRequiredGb 1 none then do
    let start ← inOs Os.monotonic
    Prog.iter (fun _ => do
      let yielded ← yieldCheck T T.nodeSpecs
      let foundSlot ← (if yielded then pure none else slotRound T pid vramRequiredGb testId)
      match foundSlot with
      | some slot => pure (.inr (.ok slot))
      | none =>
        let now ← inOs Os.monotonic
        if start + waitTimeoutSecs ≤ now then
          pure (.inr (.error (.noSlot waitTimeoutSecs)))
        else do
          pause
          pure (.inl ())) ()
  else pure (.error (.noCapacity vramRequiredGb 1 none))

end AcquireSlot

/-! ## Several GPUs of one node -/

section AcquireSlots

variable (T : Topology) (pid : Nat)

/-- `for _ in range(count)`.  `error` is a `RuntimeError` with what had been
acquired by then; the GPU whose lock failed has been given back. -/
def takeGpus (spec : NodeSpec) (vramRequiredGb : ℚ) (testId : String) :
    Nat → List NodeSlot → PoolProg (Except (List NodeSlot) (List NodeSlot))
  | 0, acquired => pure (.ok acquired)
  | n + 1, acquired => do
    match ← allocate spec.label vramRequiredGb with
    | .error _ => pure (.error acquired)
    | .ok gpu =>
      match ← inOs (GpuFileLock.acquire pid spec.label gpu.index testId) with
      | .error _ =>
        deallocate spec.label gpu none
        pure (.error acquired)
      | .ok lock => takeGpus spec vramRequiredGb testId n (acquired ++ [newSlot T spec gpu lock])

/-- Undo a partial acquisition: drop each lock, then give the GPU back. -/
def rollback (label : String) (acquired : List NodeSlot) : PoolProg Unit :=
  Prog.forEach (fun slot => do
    inOs slot.fileLock.release
    deallocate label slot.gpuInfo none) acquired

def tryNode (spec : NodeSpec) (count : Int) (vramRequiredGb : ℚ) (testId : String) :
    PoolProg (List NodeSlot) := do
  match ← takeGpus T pid spec vramRequiredGb testId count.toNat [] with
  | .ok acquired => pure acquired
  | .error acquired =>
    rollback spec.label acquired
    pure []

def tryNodes (count : Int) (vramRequiredGb : ℚ) (testId : String) :
    List NodeSpec → PoolProg (Option MultiGpuSlots)
  | [] => pure none
  | spec :: specs =>
    match T.gpus spec.label with
    | none => tryNodes count vramRequiredGb testId specs
    | some _ => do
      match ← tryNode T pid spec count vramRequiredGb testId with
      | [] => tryNodes count vramRequiredGb testId specs
      | acquired => pure (some ⟨acquired, spec⟩)

def slotsRound (count : Int) (nodeLabel : Option String) (vramRequiredGb : ℚ) (testId : String) :
    PoolProg (Option MultiGpuSlots) := do
  lockPool
  let found ← tryNodes T pid count vramRequiredGb testId (T.candidateSpecs nodeLabel)
  deliver .slots (found.toList.flatMap (·.slots))
  unlockPool
  pure found

/-- `regs[label] = req`, which keeps the position of a label already there. -/
def dictSet (regs : List (String × Nat)) (label : String) (req : Nat) : List (String × Nat) :=
  if regs.any (fun x => decide (x.1 = label)) then
    regs.map fun x => if x.1 = label then (label, req) else x
  else regs ++ [(label, req)]

/-- Register on every candidate node.  `tracker_regs` is a dict, so a repeated
label keeps the last request only. -/
def registerAll (count : Int) (timeoutAt : ℚ) :
    List NodeSpec → List (String × Nat) → PoolProg (List (String × Nat))
  | [], regs => pure regs
  | spec :: specs, regs => do
    let reqId ← inOs (PendingAcquisitionTracker.register spec.label count timeoutAt none)
    registerAll count timeoutAt specs (dictSet regs spec.label reqId)

def deregisterAll (regs : List (String × Nat)) : PoolProg Unit :=
  Prog.forEach (fun x => inOs (PendingAcquisitionTracker.deregister x.1 x.2)) regs

def acquireSlots (count : Int) (nodeLabel : Option String) (vramRequiredGb waitTimeoutSecs : ℚ)
    (testId : String) : PoolProg (Except PoolError MultiGpuSlots) :=
  if T.hasVramCapacity vramRequiredGb count nodeLabel then do
    let start ← inOs Os.monotonic
    let regs ← registerAll count (start + waitTimeoutSecs) (T.candidateSpecs nodeLabel) []
    let result ← Prog.iter (fun _ => do
      match ← slotsRound T pid count nodeLabel vramRequiredGb testId with
      | some multi => pure (.inr (.ok multi))
      | none =>
        let now ← inOs Os.monotonic
        if start + waitTimeoutSecs ≤ now then
          pure (.inr (.error (.noSlots count waitTimeoutSecs)))
        else do
          pause
          pure (.inl ())) ()
    deregisterAll regs
    pure result
  else pure (.error (.noCapacity vramRequiredGb count nodeLabel))

end AcquireSlots

/-! ## Pinned GPUs -/

section AcquireSpecific

variable (T : Topology) (pid : Nat)

/-- One round of `acquire_specific_slot`.  `holderGone` is the retry that skips
the deadline check. -/
inductive Attempt where
  | taken (slot : NodeSlot)
  | unavailable
  | holderGone

def specificRound (spec : NodeSpec) (gpuIndex : Int) (testId : String) : PoolProg Attempt := do
  lockPool
  match ← allocateSpecific spec.label gpuIndex with
  | .error _ =>
    unlockPool
    pure .unavailable
  | .ok gpu =>
    match ← inOs (GpuFileLock.acquire pid spec.label gpuIndex testId) with
    | .ok lock =>
      deliver .specificSlot [newSlot T spec gpu lock]
      unlockPool
      pure (.taken (newSlot T spec gpu lock))
    | .error _ =>
      deallocate spec.label gpu none
      let alive ← inOs (GpuFileLock.holderIsAlive spec.label gpuIndex)
      unlockPool
      pure (if alive then .unavailable else .holderGone)

def acquireSpecificSlot (gpuIndex : Int) (waitTimeoutSecs : ℚ) (testId : String) :
    PoolProg (Except PoolError NodeSlot) :=
  match T.ownerOf [gpuIndex] with
  | none => pure (.error (.indexNotFound gpuIndex))
  | some spec => do
    let start ← inOs Os.monotonic
    let reqId ← inOs (PendingAcquisitionTracker.register spec.label 1 (start + waitTimeoutSecs)
      (some (spec.label, gpuIndex)))
    let result ← Prog.iter (fun _ => do
      match ← specificRound T pid spec gpuIndex testId with
      | .taken slot => pure (.inr (.ok slot))
      | .holderGone => pure (.inl ())
      | .unavailable =>
        let now ← inOs Os.monotonic
        if start + waitTimeoutSecs ≤ now then
          pure (.inr (.error (.indexNotAcquired gpuIndex waitTimeoutSecs)))
        else do
          pause
          pure (.inl ())) ()
    inOs (PendingAcquisitionTracker.deregister spec.label reqId)
    pure result

/-- The `for` of `_try_acquire_index_set`.  `error` is its `break`, with what had
been acquired by then.  The liveness probe there only decides whether to log. -/
def takeIndices (spec : NodeSpec) (testId : String) :
    List Int → List NodeSlot → PoolProg (Except (List NodeSlot) (List NodeSlot))
  | [], acquired => pure (.ok acquired)
  | idx :: indices, acquired => do
    match ← allocateSpecific spec.label idx with
    | .error _ => pure (.error acquired)
    | .ok gpu =>
      match ← inOs (GpuFileLock.acquire pid spec.label idx testId) with
      | .error _ =>
        deallocate spec.label gpu none
        let _ ← inOs (GpuFileLock.holderIsAlive spec.label idx)
        pure (.error acquired)
      | .ok lock => takeIndices spec testId indices (acquired ++ [newSlot T spec gpu lock])

def tryAcquireIndexSet (spec : NodeSpec) (gpuIndices : List Int) (testId : String) :
    PoolProg (Option (List NodeSlot)) := do
  match ← takeIndices T pid spec testId gpuIndices [] with
  | .ok acquired => pure (some acquired)
  | .error acquired =>
    rollback spec.label acquired
    pure none

def specificSlotsRound (spec : NodeSpec) (gpuIndices : List Int) (testId : String) :
    PoolProg (Option (List NodeSlot)) := do
  lockPool
  let slots ← tryAcquireIndexSet T pid spec gpuIndices testId
  deliver .specificSlots (slots.getD [])
  unlockPool
  pure slots

def acquireSpecificSlots (gpuIndices : List Int) (waitTimeoutSecs : ℚ) (testId : String) :
    PoolProg (Except PoolError MultiGpuSlots) :=
  match T.ownerOf gpuIndices with
  | none => pure (.error (.noOwner gpuIndices))
  | some spec => do
    let start ← inOs Os.monotonic
    let reqId ← inOs (PendingAcquisitionTracker.register spec.label gpuIndices.length
      (start + waitTimeoutSecs) none)
    let result ← Prog.iter (fun _ => do
      match ← specificSlotsRound T pid spec gpuIndices testId with
      | some slots => pure (.inr (.ok ⟨slots, spec⟩))
      | none =>
        let now ← inOs Os.monotonic
        if start + waitTimeoutSecs ≤ now then
          pure (.inr (.error (.indicesNotAcquired gpuIndices waitTimeoutSecs)))
        else do
          pause
          pure (.inl ())) ()
    inOs (PendingAcquisitionTracker.deregister spec.label reqId)
    pure result

end AcquireSpecific

/-! ## All nodes, and release -/

section MultiNode

variable (T : Topology) (pid : Nat)

/-- GPUs asked of one node: all of its pool, or `int(gpu_count_per_node)`. -/
def countOn (gpuCountPerNode : Scalar) (spec : NodeSpec) : Except GpuCountError Int :=
  match gpuCountPerNode with
  | .str s =>
    if isAll s then .ok ((T.gpus spec.label).getD []).length else Scalar.toInt (.str s)
  | x => x.toInt

/-- The loop of `acquire_multi_node`.  An exception leaves it at once, and
`result` is lost with it. -/
def acquireEach (gpuCountPerNode : Scalar) (vramRequiredGb waitTimeoutSecs : ℚ)
    (testId : String) :
    List NodeSpec → List MultiGpuSlots → PoolProg (Except PoolError (List MultiGpuSlots))
  | [], result => pure (.ok result)
  | spec :: specs, result =>
    match countOn T gpuCountPerNode spec with
    | .error e => pure (.error (.badCount e))
    | .ok count => do
      match ← acquireSlots T pid count (some spec.label) vramRequiredGb waitTimeoutSecs testId with
      | .error e => pure (.error e)
      | .ok slots =>
        acquireEach gpuCountPerNode vramRequiredGb waitTimeoutSecs testId specs (result ++ [slots])

def acquireMultiNode (gpuCountPerNode : Scalar) (vramRequiredGb waitTimeoutSecs : ℚ)
    (testId : String) : PoolProg (Except PoolError (List MultiGpuSlots)) :=
  acquireEach T pid gpuCountPerNode vramRequiredGb waitTimeoutSecs testId T.nodeSpecs []

/-- `release` works outside `_pool_lock`: the index first, then the lock. -/
def release (slots : List NodeSlot) : PoolProg Unit :=
  Prog.forEach (fun slot => do
    (match T.gpus slot.nodeSpec.label with
    | none => pure ()
    | some _ => deallocate slot.nodeSpec.label slot.gpuInfo (some slot))
    inOs slot.fileLock.release) slots

def runCall : Call → PoolProg Unit
  | .acquireSlot v w testId => do
    let _ ← acquireSlot T pid v w testId
  | .acquireSlots n label v w testId => do
    let _ ← acquireSlots T pid n label v w testId
  | .acquireSpecificSlot i w testId => do
    let _ ← acquireSpecificSlot T pid i w testId
  | .acquireSpecificSlots is w testId => do
    let _ ← acquireSpecificSlots T pid is w testId
  | .acquireMultiNode n v w testId => do
    let _ ← acquireMultiNode T pid n v w testId
  | .release slots => release T slots

/-- A thread of a worker process makes one call after another. -/
def worker : PoolProg Unit :=
  Prog.iter (fun _ => do
    let call ← nextCall
    runCall T pid call
    rest
    pure (.inl ())) ()

end MultiNode

end Pool

end Nodes
end RocmTests

import RocmTests.Nodes.PoolSystem

/-!
# What a thread of the pool owns

`Held` is a thread's share of the pool: whether it has `_pool_lock`, the indices
it has taken out of `available` and not yet turned into slots, the indices it
knows to be in `available` because it put them there under `_pool_lock`, the lock
files it holds itself, and the slots it is about to release.  `poolActions` says
how each action moves these.
-/

namespace RocmTests
namespace Nodes

open Conc Gpu

@[ext] structure Held where
  rest : Bool
  pool : Bool
  mem : Set (String × Int)
  free : Set (String × Int)
  locks : Set (LockFile × Nat)
  rel : List NodeSlot

namespace Held

/-- Between two calls, and while asleep inside one. -/
def idle : Held := ⟨true, false, ∅, ∅, ∅, []⟩

def busy : Held := ⟨false, false, ∅, ∅, ∅, []⟩

/-- Inside `_pool_lock` with the given slots complete but not yet returned. -/
def holding (free : Set (String × Int)) (slots : List NodeSlot) : Held :=
  ⟨false, true, {x | ∃ s ∈ slots, s.key = x}, free, {x | ∃ s ∈ slots, s.token = x}, []⟩

theorem holding_append (free : Set (String × Int)) (slots : List NodeSlot) (slot : NodeSlot) :
    holding free (slots ++ [slot]) = { holding free slots with
      mem := insert slot.key (holding free slots).mem
      locks := insert slot.token (holding free slots).locks } := by
  refine Held.ext rfl rfl ?_ rfl ?_ rfl
  · ext x
    simp [holding, or_and_right, exists_or, or_comm, eq_comm]
  · ext x
    simp [holding, or_and_right, exists_or, or_comm, eq_comm]

theorem holding_deliver (free : Set (String × Int)) (slots : List NodeSlot) :
    { holding free slots with
      mem := (holding free slots).mem \ {x | ∃ s ∈ slots, s.key = x}
      locks := (holding free slots).locks \ {x | ∃ s ∈ slots, s.token = x} } =
        holding free [] := by
  refine Held.ext rfl rfl ?_ rfl ?_ rfl
  · simp [holding]
  · simp [holding]

end Held

/-- A slot as the pool builds it: its lock is the one of its node and GPU, and
the GPU is one of the node's allocator. -/
structure NodeSlot.Sound (T : Topology) (slot : NodeSlot) : Prop where
  file : slot.file = lockFile slot.key.1 slot.key.2
  alloc : ∃ gpus, T.gpus slot.nodeSpec.label = some gpus
  index : slot.key.2 ∈ T.indices slot.key.1

/-- Slots that one `return` may make live together. -/
structure Deliverable (T : Topology) (slots : List NodeSlot) (r : Held) : Prop where
  sound : ∀ slot ∈ slots, slot.Sound T
  files : (slots.map NodeSlot.file).Nodup
  mem : ∀ slot ∈ slots, slot.key ∈ r.mem
  locks : ∀ slot ∈ slots, slot.token ∈ r.locks

def lockActions : Actions OsOp OsOp.Resp Held where
  pre
    | .flock _, r => r.rest = false
    | .funlock f id, r => (f, id) ∈ r.locks
    | _, _ => True
  post
    | .flock f, r, b, r' =>
      (b = none ∧ r' = r) ∨ ∃ id, b = some id ∧ r' = { r with locks := insert (f, id) r.locks }
    | .funlock f id, r, _, r' => r' = { r with locks := r.locks \ {(f, id)} }
    | _, r, _, r' => r' = r

/-- Taking one index out of `available`. -/
def Took (T : Topology) (label : String) (r : Held) (b : Except AllocError GpuInfo)
    (r' : Held) : Prop :=
  match b with
  | .error _ => r' = r
  | .ok gpu => gpu.index ∈ T.indices label ∧ (label, gpu.index) ∉ r.mem ∧
      r' = { r with
        mem := insert (label, gpu.index) r.mem
        free := r.free \ {(label, gpu.index)} }

def poolActions (T : Topology) : Actions PoolOp PoolOp.Resp Held where
  pre
    | .os o, r => lockActions.pre o r
    | .lockPool, r => r.rest = false ∧ r.pool = false
    | .unlockPool, r => r.pool = true ∧ r.mem = ∅
    | .allocate _ _, r => r.pool = true
    | .allocateSpecific _ _, r => r.pool = true
    | .deallocate label gpu none, r =>
      r.pool = true ∧ ((label, gpu.index) ∈ r.mem ∨ (label, gpu.index) ∈ r.free)
    | .deallocate label gpu (some slot), r =>
      r.rest = false ∧ label = slot.nodeSpec.label ∧ gpu = slot.gpuInfo ∧
        ∃ slots, r.rel = slot :: slots
    | .deliver _ slots, r => r.pool = true ∧ Deliverable T slots r
    | .rest, r => r.pool = false ∧ r.locks = ∅
    | .wake, _ => True
    | .nextCall, r => r.rel = []
  post
    | .os o, r, b, r' => lockActions.post o r b r'
    | .lockPool, r, _, r' => r' = { r with pool := true }
    | .unlockPool, r, _, r' => r' = { r with pool := false, free := ∅ }
    | .allocate label _, r, b, r' => Took T label r b r'
    | .allocateSpecific label i, r, b, r' =>
      Took T label r b r' ∧ ∀ gpu, b = Except.ok gpu → gpu.index = i
    | .deallocate label gpu none, r, _, r' =>
      r' = { r with
        mem := r.mem \ {(label, gpu.index)}
        free := insert (label, gpu.index) r.free }
    | .deallocate _ _ (some slot), r, _, r' =>
      r' = { r with rel := r.rel.tail, locks := insert slot.token r.locks }
    | .deliver _ slots, r, _, r' =>
      r' = { r with
        mem := r.mem \ {x | ∃ s ∈ slots, s.key = x}
        locks := r.locks \ {x | ∃ s ∈ slots, s.token = x} }
    | .rest, r, _, r' => r' = { r with rest := true }
    | .wake, r, _, r' => r' = { r with rest := false }
    | .nextCall, r, b, r' =>
      match b with
      | .release slots =>
        (∀ slot ∈ slots, ∃ gpus, T.gpus slot.nodeSpec.label = some gpus) ∧
          r' = { r with rest := false, rel := slots }
      | _ => r' = { r with rest := false }

namespace Pool

theorem inOs_owns {T : Topology} {α : Type} {p : OsProg α} {Q : α → Held → Prop} {r : Held}
    (h : Safe lockActions p Q r) : Safe (poolActions T) (inOs p) Q r := by
  refine Safe.mapOp ?_ ?_ h
  · intro o r ho; exact ho
  · intro o r b r' hb; exact hb

/-! ## The lock file and the tracker -/

/-- `acquire` ends with the lock file held or with nothing changed. -/
theorem acquire_owns (pid : Nat) (label : String) (i : Int) (testId : String) {r : Held}
    (hrest : r.rest = false) :
    Safe lockActions (GpuFileLock.acquire pid label i testId)
      (fun b r' => match b with
        | .error _ => r' = r
        | .ok l => l.file = lockFile label i ∧
            r' = { r with locks := insert (l.file, l.id) r.locks }) r := by
  refine .act hrest fun b r' hb => ?_
  rcases hb with ⟨rfl, rfl⟩ | ⟨id, rfl, rfl⟩
  · exact .ret rfl
  · show Safe _ (Prog.bind (if testId ≠ "" then Os.writeInfo _ _ else pure ()) _) _ _
    by_cases hid : testId ≠ ""
    · rw [if_pos hid]
      refine .act trivial fun _ r' hr' => ?_
      have hsame : r' = { r with locks := insert (lockFile label i, id) r.locks } := hr'
      exact .ret ⟨rfl, hsame⟩
    · rw [if_neg hid]
      exact .ret ⟨rfl, rfl⟩

theorem release_owns (l : GpuFileLock) {r : Held} (h : (l.file, l.id) ∈ r.locks) :
    Safe lockActions l.release (fun _ r' => r' = { r with locks := r.locks \ {(l.file, l.id)} })
      r := by
  refine .act h fun _ r₁ h₁ => .act trivial fun _ r₂ h₂ => .ret ?_
  have hsame : r₂ = r₁ := h₂
  rw [hsame]
  exact h₁

theorem holderIsAlive_owns (label : String) (i : Int) (r : Held) :
    Safe lockActions (GpuFileLock.holderIsAlive label i) (fun _ r' => r' = r) r := by
  refine .act trivial fun b r₁ h₁ => ?_
  have hsame : r₁ = r := h₁
  subst hsame
  cases b with
  | none => exact .ret rfl
  | some info => exact Safe.perform trivial fun _ _ h => h

/-- A probe gives up every lock it takes. -/
theorem trueAvailableCount_owns (label : String) :
    ∀ (indices : List Int) (n : Nat) {r : Held}, r.rest = false → r.locks = ∅ →
      Safe lockActions (PendingAcquisitionTracker.trueAvailableCount label n indices)
        (fun _ r' => r' = r) r := by
  intro indices
  induction indices with
  | nil => intro n r _ _; exact .ret rfl
  | cons i rest ih =>
    intro n r hrest hlocks
    refine .act hrest fun b r' hb => ?_
    rcases hb with ⟨rfl, rfl⟩ | ⟨id, rfl, rfl⟩
    · exact ih n hrest hlocks
    · refine .act (Set.mem_insert _ _) fun _ r' hr' => ?_
      have hset : insert (lockFile label i, id) r.locks \ {(lockFile label i, id)} = r.locks := by
        rw [hlocks]
        simp
      have hback : r' = r := by
        rw [show r' = _ from hr', hset]
      subst hback
      exact ih (n + 1) hrest hlocks

theorem shouldYield_owns (label : String) (indices : List Int) {r : Held} (hrest : r.rest = false)
    (hlocks : r.locks = ∅) :
    Safe lockActions (PendingAcquisitionTracker.shouldYield label indices)
      (fun _ r' => r' = r) r := by
  have hmax : Safe lockActions (PendingAcquisitionTracker.maxPendingCount label)
      (fun _ r' => r' = r) r := by
    refine .act trivial fun now r₁ h₁ => ?_
    refine .act trivial fun b r₂ h₂ => ?_
    have hsame : r₂ = r := h₂.trans h₁
    cases b with
    | none => exact .ret hsame
    | some counts => exact .ret hsame
  refine hmax.bind fun m r' hr' => ?_
  subst hr'
  show Safe _ (if m ≤ 1 then _ else _) _ _
  by_cases hm : m ≤ 1
  · rw [if_pos hm]; exact .ret rfl
  · rw [if_neg hm]
    by_cases hlen : (indices.length : Int) < m
    · rw [if_pos hlen]; exact .ret rfl
    · rw [if_neg hlen]
      refine (trueAvailableCount_owns label indices 0 hrest hlocks).bind fun _ r₁ h₁ => ?_
      exact .ret h₁

theorem yieldCheck_owns (T : Topology) {r : Held} (hrest : r.rest = false) (hlocks : r.locks = ∅) :
    ∀ specs : List NodeSpec, Safe (poolActions T) (yieldCheck T specs) (fun _ r' => r' = r) r := by
  intro specs
  induction specs with
  | nil => exact .ret rfl
  | cons spec specs ih =>
    refine (inOs_owns (shouldYield_owns spec.label _ hrest hlocks)).bind fun yielded r' hr' => ?_
    subst hr'
    cases yielded with
    | true => exact .ret rfl
    | false => exact ih

theorem pause_owns (T : Topology) : Safe (poolActions T) pause (fun _ r => r = Held.busy)
    Held.busy := by
  refine .act ⟨rfl, rfl⟩ fun _ r₁ h₁ => .act trivial fun _ r₂ h₂ => .ret ?_
  have hrest : r₁ = { Held.busy with rest := true } := h₁
  have hwake : r₂ = { r₁ with rest := false } := h₂
  rw [hwake, hrest]
  rfl

/-! ## Giving GPUs back -/

def keysOf (label : String) (gpus : List GpuInfo) : Set (String × Int) :=
  {x | ∃ g ∈ gpus, (label, g.index) = x}

theorem keysOf_cons (label : String) (g : GpuInfo) (gpus : List GpuInfo) :
    keysOf label (g :: gpus) = insert (label, g.index) (keysOf label gpus) := by
  ext x
  simp [keysOf, eq_comm]

theorem keysOf_append (label : String) (gpus : List GpuInfo) (g : GpuInfo) :
    keysOf label (gpus ++ [g]) = insert (label, g.index) (keysOf label gpus) := by
  ext x
  simp [keysOf, or_and_right, exists_or, eq_comm, or_comm]

/-- The GPUs may be released a second time: after the first they are known to be
free. -/
theorem releaseAll_owns (T : Topology) (label : String) :
    ∀ (gpus : List GpuInfo) {r : Held}, r.pool = true →
      (∀ x ∈ keysOf label gpus, x ∈ r.mem ∨ x ∈ r.free) →
      Safe (poolActions T) (releaseAll label gpus)
        (fun _ r' => r' = { r with
          mem := r.mem \ keysOf label gpus
          free := r.free ∪ keysOf label gpus }) r := by
  intro gpus
  induction gpus with
  | nil =>
    intro r _ _
    refine .ret ?_
    simp [keysOf]
  | cons g gpus ih =>
    intro r hpool hkeys
    rw [keysOf_cons] at hkeys ⊢
    refine .act ⟨hpool, hkeys _ (Set.mem_insert _ _)⟩ fun _ r₁ h₁ => ?_
    have hr₁ : r₁ = { r with
        mem := r.mem \ {(label, g.index)}
        free := insert (label, g.index) r.free } := h₁
    subst hr₁
    refine Safe.mono (ih hpool ?_) fun _ r₂ h₂ => ?_
    · intro x hx
      by_cases hxg : x = (label, g.index)
      · exact Or.inr (Set.mem_insert_iff.mpr (Or.inl hxg))
      · rcases hkeys x (Set.mem_insert_of_mem _ hx) with hm | hf
        · exact Or.inl ⟨hm, hxg⟩
        · exact Or.inr (Set.mem_insert_of_mem _ hf)
    · rw [h₂]
      simp [Set.sdiff_sdiff, Set.insert_union, Set.union_insert, Set.singleton_union]

end Pool

end Nodes
end RocmTests

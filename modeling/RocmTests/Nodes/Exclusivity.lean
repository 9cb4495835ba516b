import RocmTests.Nodes.PoolLocks
import RocmTests.Nodes.PoolMethods

/-!
# GPU exclusivity

The invariant of the whole system has four independent parts: the indices, the
lock files, the slots under release and the resting threads.  Each part has one
lemma per kind of action that concerns it, and a frame lemma for the others.

From it follow the three facts the pool is for.  No two live slots name the same
(node, GPU).  Outside `_pool_lock` an allocator's `available` is the node's pool
less the live slots.  While a process rests its lock files are those of its live
slots.
-/

namespace RocmTests
namespace Nodes

open Conc Gpu

structure ReleaseInv (s : PoolState) (res : Nat × Nat → Held) : Prop where
  rel : ∀ t, ∀ slot ∈ (res t).rel, slot ∈ s.live t.1 ∧ slot ∈ s.claimed t.1
  relInj : ∀ t u slot, t.1 = u.1 → slot ∈ (res t).rel → slot ∈ (res u).rel → t = u
  relNodup : ∀ t, (res t).rel.Nodup

structure RestInv (s : PoolState) (res : Nat × Nat → Held) : Prop where
  rest : ∀ t, s.resting t = (res t).rest
  idle : ∀ t, (res t).rest = true → (res t).pool = false ∧ (res t).locks = ∅

structure PoolInv (T : Topology) (s : PoolState) (res : Nat × Nat → Held) : Prop where
  index : IndexInv T s res
  lock : LockInv T s res
  release : ReleaseInv s res
  rest : RestInv s res

/-! ## Slots under release, and resting threads -/

namespace ReleaseInv

variable {s : PoolState} {res : Nat × Nat → Held} {t : Nat × Nat}

theorem frame (h : ReleaseInv s res) {s' : PoolState} {r : Held}
    (hlive : ∀ p, ∀ slot ∈ s.live p, slot ∈ s'.live p) (hclaimed : s'.claimed = s.claimed)
    (hrel : r.rel = (res t).rel) : ReleaseInv s' (Function.update res t r) where
  rel u slot hs := by
    rw [update_field Held.rel hrel] at hs
    obtain ⟨hl, hc⟩ := h.rel u slot hs
    rw [hclaimed]
    exact ⟨hlive _ slot hl, hc⟩
  relInj u v slot hpid hu hv := by
    rw [update_field Held.rel hrel] at hu hv
    exact h.relInj u v slot hpid hu hv
  relNodup u := by
    rw [update_field Held.rel hrel]
    exact h.relNodup u

theorem claim (h : ReleaseInv s res) {slots : List NodeSlot} (hslots : s.Releasable t.1 slots)
    (resting : Nat × Nat → Bool) (rest : Bool) :
    ReleaseInv { s with
        claimed := Function.update s.claimed t.1 (s.claimed t.1 ++ slots)
        resting := resting }
      (Function.update res t { res t with rest := rest, rel := slots }) where
  rel u slot hs := by
    by_cases hu : u = t
    · subst hu
      rw [Function.update_self] at hs
      refine ⟨(hslots.2 slot hs).1, ?_⟩
      exact (PoolState.mem_update_append s.claimed u.1 slots u.1 slot).mpr (Or.inr ⟨rfl, hs⟩)
    · rw [Function.update_of_ne hu] at hs
      obtain ⟨hl, hc⟩ := h.rel u slot hs
      exact ⟨hl, (PoolState.mem_update_append s.claimed t.1 slots u.1 slot).mpr (Or.inl hc)⟩
  relInj u v slot hpid hu hv := by
    have hfresh : ∀ w, w ≠ t → w.1 = t.1 → slot ∈ slots → slot ∉ (res w).rel := by
      intro w _ hp hs hw
      have hclaimed := (h.rel w slot hw).2
      rw [hp] at hclaimed
      exact (hslots.2 slot hs).2 hclaimed
    by_cases hut : u = t
    · by_cases hvt : v = t
      · rw [hut, hvt]
      · rw [hut, Function.update_self] at hu
        rw [Function.update_of_ne hvt] at hv
        exact absurd hv (hfresh v hvt (by rw [← hpid, hut]) hu)
    · rw [Function.update_of_ne hut] at hu
      by_cases hvt : v = t
      · rw [hvt, Function.update_self] at hv
        exact absurd hu (hfresh u hut (by rw [hpid, hvt]) hv)
      · rw [Function.update_of_ne hvt] at hv
        exact h.relInj u v slot hpid hu hv
  relNodup u := by
    by_cases hu : u = t
    · subst hu
      rw [Function.update_self]
      exact hslots.1
    · rw [Function.update_of_ne hu]
      exact h.relNodup u

theorem retire (h : ReleaseInv s res) {slot : NodeSlot} {slots : List NodeSlot}
    (hrel : (res t).rel = slot :: slots) (alloc : Nat × String → GpuAllocator)
    (locks : Set (LockFile × Nat)) :
    ReleaseInv (({ s with alloc := alloc } : PoolState).retire t.1 slot)
      (Function.update res t { res t with rel := slots, locks := locks }) := by
  have hsub : ∀ u b, b ∈ (Function.update res t
      { res t with rel := slots, locks := locks } u).rel → b ∈ (res u).rel := by
    intro u b hb
    by_cases hu : u = t
    · subst hu
      rw [Function.update_self] at hb
      rw [hrel]
      exact List.mem_cons_of_mem _ hb
    · rwa [Function.update_of_ne hu] at hb
  have hslot : slot ∈ (res t).rel := by
    rw [hrel]
    exact List.mem_cons_self
  have hnodup := h.relNodup t
  rw [hrel] at hnodup
  have hne : ∀ u b, b ∈ (Function.update res t
      { res t with rel := slots, locks := locks } u).rel → u.1 = t.1 → b ≠ slot := by
    intro u b hb hp hsame
    subst hsame
    have hut := h.relInj u t b hp (hsub u b hb) hslot
    subst hut
    rw [Function.update_self] at hb
    exact (List.nodup_cons.mp hnodup).1 hb
  refine ⟨?_, ?_, ?_⟩
  · intro u b hb
    obtain ⟨hl, hc⟩ := h.rel u b (hsub u b hb)
    have hother : ¬ (u.1 = t.1 ∧ b = slot) := fun hsame => hne u b hb hsame.1 hsame.2
    exact ⟨(PoolState.mem_retire_live _ _ _ _ _).mpr ⟨hl, hother⟩,
      (PoolState.mem_retire_claimed _ _ _ _ _).mpr ⟨hc, hother⟩⟩
  · intro u v b hpid hu hv
    exact h.relInj u v b hpid (hsub u b hu) (hsub v b hv)
  · intro u
    by_cases hu : u = t
    · subst hu
      rw [Function.update_self]
      exact (List.nodup_cons.mp hnodup).2
    · rw [Function.update_of_ne hu]
      exact h.relNodup u

theorem die (h : ReleaseInv s res) (T : Topology) (pid : Nat) :
    ReleaseInv (s.die T pid) fun u => if u.1 = pid then Held.idle else res u := by
  have hrel : ∀ u b, b ∈ (if u.1 = pid then Held.idle else res u).rel →
      u.1 ≠ pid ∧ b ∈ (res u).rel := by
    intro u b hb
    by_cases hu : u.1 = pid
    · rw [if_pos hu] at hb
      cases hb
    · rw [if_neg hu] at hb
      exact ⟨hu, hb⟩
  refine ⟨?_, ?_, ?_⟩
  · intro u b hb
    obtain ⟨hu, hold⟩ := hrel u b hb
    simpa [PoolState.die, hu] using h.rel u b hold
  · intro u v b hpid hu hv
    exact h.relInj u v b hpid (hrel u b hu).2 (hrel v b hv).2
  · intro u
    by_cases hu : u.1 = pid
    · rw [if_pos hu]
      exact List.nodup_nil
    · rw [if_neg hu]
      exact h.relNodup u

end ReleaseInv

namespace RestInv

variable {s : PoolState} {res : Nat × Nat → Held} {t : Nat × Nat}

theorem set (h : RestInv s res) {s' : PoolState} {r : Held}
    (hrest : s'.resting = Function.update s.resting t r.rest)
    (hidle : r.rest = true → r.pool = false ∧ r.locks = ∅) :
    RestInv s' (Function.update res t r) where
  rest u := by
    rw [hrest]
    by_cases hu : u = t
    · subst hu
      rw [Function.update_self, Function.update_self]
    · rw [Function.update_of_ne hu, Function.update_of_ne hu]
      exact h.rest u
  idle u hu := by
    by_cases hut : u = t
    · subst hut
      rw [Function.update_self] at hu ⊢
      exact hidle hu
    · rw [Function.update_of_ne hut] at hu ⊢
      exact h.idle u hu

/-- A step that leaves the thread resting or not as it was. -/
theorem frame (h : RestInv s res) {s' : PoolState} {r : Held} (hrest : s'.resting = s.resting)
    (hsame : r.rest = (res t).rest)
    (hidle : (res t).rest = true → r.pool = (res t).pool ∧ r.locks ⊆ (res t).locks) :
    RestInv s' (Function.update res t r) := by
  refine h.set ?_ fun hr => ?_
  · rw [hrest, hsame, ← h.rest t, Function.update_eq_self]
  · rw [hsame] at hr
    obtain ⟨hpool, hlocks⟩ := h.idle t hr
    obtain ⟨hp, hl⟩ := hidle hr
    rw [hlocks] at hl
    exact ⟨by rw [hp, hpool], Set.subset_empty_iff.mp hl⟩

end RestInv

/-! ## One action and one death -/

namespace PoolInv

variable {T : Topology} {s : PoolState} {res : Nat × Nat → Held} {t : Nat × Nat}

theorem start (T : Topology) (os : OsState) :
    PoolInv T (PoolState.start T os) fun _ => Held.idle where
  index := IndexInv.start T os
  lock := LockInv.start T os
  release := ⟨fun _ _ hs => (by cases hs), fun _ _ _ _ hs => (by cases hs),
    fun _ => List.nodup_nil⟩
  rest := ⟨fun _ => rfl, fun _ _ => ⟨rfl, rfl⟩⟩

/-- An access that leaves every lock file as it was. -/
theorem frame_os (h : PoolInv T s res) {os : OsState} (hos : os.holder = s.os.holder) :
    PoolInv T { s with os := os } (Function.update res t (res t)) where
  index := h.index.frame rfl rfl rfl rfl rfl rfl
  lock := h.lock.frame hos rfl rfl
  release := h.release.frame (fun _ _ hs => hs) rfl rfl
  rest := h.rest.frame rfl rfl fun _ => ⟨rfl, subset_rfl⟩

theorem flock_ok (h : PoolInv T s res) (hrest : (res t).rest = false) {f : LockFile}
    {ch : OsChoice} {b : Option Nat} {os : OsState}
    (hexec : OsState.exec t.1 (.flock f) ch s.os = (b, os)) :
    ∃ r, lockActions.post (.flock f) (res t) b r ∧
      PoolInv T { s with os := os } (Function.update res t r) := by
  cases hf : s.os.holder f with
  | some holder =>
    rw [OsState.flock_held hf] at hexec
    cases hexec
    exact ⟨res t, Or.inl ⟨rfl, rfl⟩, h.frame_os rfl⟩
  | none =>
    rw [OsState.flock_free hf] at hexec
    cases hexec
    refine ⟨_, Or.inr ⟨s.os.nextId, rfl, rfl⟩, ?_⟩
    exact {
      index := h.index.frame rfl rfl rfl rfl rfl rfl
      lock := h.lock.flock hf _ _
      release := h.release.frame (fun _ _ hs => hs) rfl rfl
      rest := h.rest.frame rfl rfl fun hr => by rw [hrest] at hr; cases hr }

theorem funlock_ok (h : PoolInv T s res) {f : LockFile} {id : Nat}
    (hid : (f, id) ∈ (res t).locks) {ch : OsChoice} {b : Unit} {os : OsState}
    (hexec : OsState.exec t.1 (.funlock f id) ch s.os = (b, os)) :
    PoolInv T { s with os := os }
      (Function.update res t { res t with locks := (res t).locks \ {(f, id)} }) := by
  have hheld := (h.lock.locks t f id hid).1
  simp only [OsState.exec, hheld, if_true] at hexec
  cases hexec
  exact {
    index := h.index.frame rfl rfl rfl rfl rfl rfl
    lock := h.lock.funlock hid
    release := h.release.frame (fun _ _ hs => hs) rfl rfl
    rest := h.rest.frame rfl rfl fun _ => ⟨rfl, Set.sdiff_subset⟩ }

theorem os_ok (h : PoolInv T s res) {o : OsOp} (hpre : lockActions.pre o (res t)) {ch : OsChoice}
    {b : o.Resp} {os : OsState} (hexec : OsState.exec t.1 o ch s.os = (b, os)) :
    ∃ r, lockActions.post o (res t) b r ∧
      PoolInv T { s with os := os } (Function.update res t r) := by
  have hframe : os.holder = s.os.holder → PoolInv T { s with os := os }
      (Function.update res t (res t)) := h.frame_os
  cases o with
  | flock f => exact h.flock_ok hpre hexec
  | funlock f id => exact ⟨_, rfl, h.funlock_ok hpre hexec⟩
  | writeInfo f i => cases hexec; exact ⟨res t, rfl, hframe rfl⟩
  | removeInfo f => cases hexec; exact ⟨res t, rfl, hframe rfl⟩
  | readInfo f => cases hexec; exact ⟨res t, rfl, hframe rfl⟩
  | pidExists q => cases hexec; exact ⟨res t, rfl, hframe rfl⟩
  | monotonic => cases hexec; exact ⟨res t, rfl, hframe rfl⟩
  | addPending safe e =>
    cases hexec
    refine ⟨res t, rfl, hframe ?_⟩
    by_cases hc : ch.metaTimeout = true <;> simp [hc]
  | dropPending safe req =>
    cases hexec
    refine ⟨res t, rfl, hframe ?_⟩
    by_cases hc : ch.metaTimeout = true <;> simp [hc]
  | livePending safe now =>
    refine ⟨res t, rfl, hframe ?_⟩
    have hos : os = (OsState.exec t.1 (.livePending safe now) ch s.os).2 := by rw [hexec]
    rw [hos]
    by_cases hc : ch.metaTimeout = true <;> simp [OsState.exec, hc]

/-- A successful allocation, by either method. -/
theorem take_ok (h : PoolInv T s res) (hpool : (res t).pool = true) {label : String}
    {gpu : GpuInfo} {a : GpuAllocator} (havail : gpu.index ∈ (s.alloc (t.1, label)).available)
    (ha : a = { s.alloc (t.1, label) with
      available := (s.alloc (t.1, label)).available.erase gpu.index }) :
    ∃ r, Took T label (res t) (.ok gpu) r ∧
      PoolInv T (s.setAlloc t.1 label a) (Function.update res t r) := by
  subst ha
  obtain ⟨hidx, hnew⟩ := h.index.available_new (x := (label, gpu.index)) havail
  refine ⟨_, ⟨hidx, hnew, rfl⟩, ?_⟩
  exact {
    index := h.index.take (x := (label, gpu.index)) hpool havail
    lock := h.lock.frame rfl rfl rfl
    release := h.release.frame (fun _ _ hs => hs) rfl rfl
    rest := h.rest.frame rfl rfl fun _ => ⟨rfl, subset_rfl⟩ }

theorem giveBack_ok (h : PoolInv T s res) (hpool : (res t).pool = true) {label : String}
    {gpu : GpuInfo} (hx : (label, gpu.index) ∈ (res t).mem ∨ (label, gpu.index) ∈ (res t).free) :
    PoolInv T (s.setAlloc t.1 label ((s.alloc (t.1, label)).release gpu))
      (Function.update res t { res t with
        mem := (res t).mem \ {(label, gpu.index)}
        free := insert (label, gpu.index) (res t).free }) where
  index := h.index.giveBack (x := (label, gpu.index)) hpool rfl hx
  lock := h.lock.frame rfl rfl rfl
  release := h.release.frame (fun _ _ hs => hs) rfl rfl
  rest := h.rest.frame rfl rfl fun _ => ⟨rfl, subset_rfl⟩

theorem same (h : PoolInv T s res) : PoolInv T s (Function.update res t (res t)) := by
  rwa [Function.update_eq_self]

theorem retire_ok (h : PoolInv T s res) {slot : NodeSlot} {slots : List NodeSlot}
    (hbusy : (res t).rest = false) (hrel : (res t).rel = slot :: slots) :
    PoolInv T ((s.setAlloc t.1 slot.key.1
        ((s.alloc (t.1, slot.key.1)).release slot.gpuInfo)).retire t.1 slot)
      (Function.update res t { res t with
        rel := slots
        locks := insert slot.token (res t).locks }) := by
  have hslot : slot ∈ s.live t.1 := by
    refine (h.release.rel t slot ?_).1
    rw [hrel]
    exact List.mem_cons_self
  obtain ⟨hsound, hheld⟩ := h.lock.live t.1 slot hslot
  have hinj : ∀ b ∈ s.live t.1, b.key = slot.key → b = slot := by
    intro b hb hkey
    have hfile : b.file = slot.file := by
      rw [(h.lock.live t.1 b hb).1.file, hsound.file, hkey]
    exact h.lock.liveInj t.1 b hb slot hslot hfile
  exact {
    index := h.index.retire hslot hsound.index hinj rfl rfl rfl
    lock := h.lock.retire hslot _ _
    release := h.release.retire hrel _ _
    rest := h.rest.frame rfl rfl fun hr => by rw [hbusy] at hr; cases hr }

theorem lockPool_ok (h : PoolInv T s res) (hrest : (res t).rest = false) {ch : PoolChoice}
    {b : Unit} {s' : PoolState} (hexec : PoolState.exec t .lockPool ch s = some (b, s')) :
    PoolInv T s' (Function.update res t { res t with pool := true }) := by
  by_cases hfree : s.poolLock t.1 = none
  · simp only [PoolState.exec, hfree, if_true] at hexec
    cases hexec
    exact {
      index := h.index.lockPool hfree
      lock := h.lock.frame rfl rfl rfl
      release := h.release.frame (fun _ _ hs => hs) rfl rfl
      rest := h.rest.frame rfl rfl fun hr => by rw [hrest] at hr; cases hr }
  · simp only [PoolState.exec, hfree, if_false] at hexec
    cases hexec

theorem unlockPool_ok (h : PoolInv T s res) (hpool : (res t).pool = true)
    (hmem : (res t).mem = ∅) :
    PoolInv T { s with poolLock := Function.update s.poolLock t.1 none }
      (Function.update res t { res t with pool := false, free := ∅ }) where
  index := h.index.unlockPool hpool hmem
  lock := h.lock.frame rfl rfl rfl
  release := h.release.frame (fun _ _ hs => hs) rfl rfl
  rest := h.rest.frame rfl rfl fun hr => by
    have hidle := (h.rest.idle t hr).1
    rw [hpool] at hidle
    cases hidle

theorem deliver_ok (h : PoolInv T s res) (hpool : (res t).pool = true) {slots : List NodeSlot}
    (hslots : Deliverable T slots (res t)) :
    PoolInv T { s with live := Function.update s.live t.1 (s.live t.1 ++ slots) }
      (Function.update res t { res t with
        mem := (res t).mem \ {x | ∃ slot ∈ slots, slot.key = x}
        locks := (res t).locks \ {x | ∃ slot ∈ slots, slot.token = x} }) where
  index := h.index.deliver hpool hslots.mem _
  lock := h.lock.deliver hslots _
  release := h.release.frame (fun p slot hs =>
    (PoolState.mem_update_append s.live t.1 slots p slot).mpr (Or.inl hs)) rfl rfl
  rest := h.rest.frame rfl rfl fun _ => ⟨rfl, Set.sdiff_subset⟩

/-- The thread goes to rest, or starts again. -/
theorem resting_ok (h : PoolInv T s res) (rest : Bool)
    (hidle : rest = true → (res t).pool = false ∧ (res t).locks = ∅) :
    PoolInv T { s with resting := Function.update s.resting t rest }
      (Function.update res t { res t with rest := rest }) where
  index := h.index.frame rfl rfl rfl rfl rfl rfl
  lock := h.lock.frame rfl rfl rfl
  release := h.release.frame (fun _ _ hs => hs) rfl rfl
  rest := h.rest.set rfl hidle

/-- A call to `release` claims its slots; any other call only wakes the thread. -/
theorem nextCall_ok (h : PoolInv T s res) {ch : PoolChoice} {b : Call} {s' : PoolState}
    (hexec : PoolState.exec t .nextCall ch s = some (b, s')) :
    ∃ r, (poolActions T).post .nextCall (res t) b r ∧
      PoolInv T s' (Function.update res t r) := by
  have hwoken := h.resting_ok (t := t) false fun hr => by cases hr
  cases hcall : ch.call with
  | release slots =>
    by_cases hslots : s.Releasable t.1 slots
    · simp only [PoolState.exec, hcall, hslots, if_true] at hexec
      cases hexec
      refine ⟨_, ⟨fun slot hs => ?_, rfl⟩, ?_⟩
      · exact (h.lock.live t.1 slot (hslots.2 slot hs).1).1.alloc
      · exact {
          index := h.index.frame rfl rfl rfl rfl rfl rfl
          lock := h.lock.frame rfl rfl rfl
          release := h.release.claim hslots _ _
          rest := h.rest.set rfl fun hr => by cases hr }
    · simp only [PoolState.exec, hcall, hslots, if_false] at hexec
      cases hexec
  | acquireSlot v w testId =>
    simp only [PoolState.exec, hcall] at hexec
    cases hexec
    exact ⟨_, rfl, hwoken⟩
  | acquireSlots n label v w testId =>
    simp only [PoolState.exec, hcall] at hexec
    cases hexec
    exact ⟨_, rfl, hwoken⟩
  | acquireSpecificSlot i w testId =>
    simp only [PoolState.exec, hcall] at hexec
    cases hexec
    exact ⟨_, rfl, hwoken⟩
  | acquireSpecificSlots is w testId =>
    simp only [PoolState.exec, hcall] at hexec
    cases hexec
    exact ⟨_, rfl, hwoken⟩
  | acquireMultiNode n v w testId =>
    simp only [PoolState.exec, hcall] at hexec
    cases hexec
    exact ⟨_, rfl, hwoken⟩

theorem act_ok (h : PoolInv T s res) {o : PoolOp} (hpre : (poolActions T).pre o (res t))
    {ch : PoolChoice} {b : o.Resp} {s' : PoolState}
    (hexec : PoolState.exec t o ch s = some (b, s')) :
    ∃ r, (poolActions T).post o (res t) b r ∧ PoolInv T s' (Function.update res t r) := by
  cases o with
  | os o =>
    cases hexec
    exact h.os_ok hpre rfl
  | lockPool => exact ⟨_, rfl, h.lockPool_ok hpre.1 hexec⟩
  | unlockPool =>
    cases hexec
    exact ⟨_, rfl, h.unlockPool_ok hpre.1 hpre.2⟩
  | allocate label v =>
    cases ha : (s.alloc (t.1, label)).allocate v with
    | error e =>
      simp only [PoolState.exec, ha] at hexec
      cases hexec
      exact ⟨res t, rfl, h.same⟩
    | ok x =>
      simp only [PoolState.exec, ha] at hexec
      cases hexec
      have hok : (s.alloc (t.1, label)).allocate v = .ok (x.1, x.2) := ha
      obtain ⟨_, havail, heq⟩ := GpuAllocator.allocate_ok hok
      exact h.take_ok hpre havail heq
  | allocateSpecific label i =>
    cases ha : (s.alloc (t.1, label)).allocateSpecific i with
    | error e =>
      simp only [PoolState.exec, ha] at hexec
      cases hexec
      exact ⟨res t, ⟨rfl, fun gpu hgpu => by cases hgpu⟩, h.same⟩
    | ok x =>
      simp only [PoolState.exec, ha] at hexec
      cases hexec
      have hok : (s.alloc (t.1, label)).allocateSpecific i = .ok (x.1, x.2) := ha
      obtain ⟨_, hidx, havail, heq⟩ := GpuAllocator.allocateSpecific_ok hok
      subst hidx
      obtain ⟨r, htook, hinv⟩ := h.take_ok hpre havail heq
      exact ⟨r, ⟨htook, fun gpu hgpu => by cases hgpu; rfl⟩, hinv⟩
  | deallocate label gpu retired =>
    cases retired with
    | none =>
      obtain ⟨hpool, hx⟩ := hpre
      cases hexec
      exact ⟨_, rfl, h.giveBack_ok hpool hx⟩
    | some slot =>
      obtain ⟨hbusy, rfl, rfl, slots, hrel⟩ := hpre
      cases hexec
      refine ⟨_, rfl, ?_⟩
      rw [hrel]
      exact h.retire_ok hbusy hrel
  | deliver path slots =>
    cases hexec
    exact ⟨_, rfl, h.deliver_ok hpre.1 hpre.2⟩
  | rest =>
    cases hexec
    exact ⟨_, rfl, h.resting_ok true fun _ => hpre⟩
  | wake =>
    cases hexec
    exact ⟨_, rfl, h.resting_ok false fun hr => by cases hr⟩
  | nextCall => exact h.nextCall_ok hexec

theorem die_ok (h : PoolInv T s res) (pid : Nat) :
    PoolInv T (s.die T pid) fun u => if u.1 = pid then Held.idle else res u where
  index := h.index.die pid
  lock := h.lock.die pid
  release := h.release.die T pid
  rest := by
    refine ⟨fun u => ?_, fun u hu => ?_⟩
    · by_cases hp : u.1 = pid
      · simp [PoolState.die, hp, Held.idle]
      · simpa [PoolState.die, hp] using h.rest.rest u
    · by_cases hp : u.1 = pid
      · rw [if_pos hp]
        exact ⟨rfl, rfl⟩
      · rw [if_neg hp] at hu ⊢
        exact h.rest.idle u hu

end PoolInv

theorem pools_fault_ok {T : Topology} {s : PoolState} {res : Nat × Nat → Held} (pid : Nat)
    (h : PoolInv T s res) :
    ∃ res', (∀ t, (pools T).kills pid t = false → res' t = res t) ∧
    PoolInv T (s.die T pid) res' := by
  refine ⟨fun u => if u.1 = pid then Held.idle else res u, fun u hu => ?_, h.die_ok pid⟩
  have hne : u.1 ≠ pid := of_decide_eq_false hu
  exact if_neg hne

/-- The pool's invariant is kept by every thread and by every death. -/
def poolOwnership (T : Topology) : Ownership (pools T) where
  R := Held
  actions _ := poolActions T
  Inv := PoolInv T
  act_ok hinv hpre hexec := hinv.act_ok hpre hexec
  fault_ok pid hinv := pools_fault_ok pid hinv

theorem poolsStart_holds (T : Topology) (os : OsState) :
    (poolOwnership T).Holds (poolsStart T os) :=
  ⟨fun _ => Held.idle, PoolInv.start T os, fun t => Pool.worker_owns T t.1⟩

/-! ## What the pool guarantees -/

/-- No thread of the process is in the middle of a call. -/
def PoolState.Quiet (s : PoolState) (p : Nat) : Prop := ∀ th, s.resting (p, th) = true

/-- `missing` is about a process outside its `_pool_lock`. -/
structure Accounted (T : Topology) (s : PoolState) : Prop where
  exclusive : ∀ p q, ∀ a ∈ s.live p, ∀ b ∈ s.live q, a.key = b.key → p = q ∧ a = b
  once : ∀ p, (s.live p).Nodup
  missing : ∀ p, s.poolLock p = none → ∀ label, ∀ i ∈ T.indices label,
    i ∉ (s.alloc (p, label)).available ↔ ∃ slot ∈ s.live p, slot.key = (label, i)
  within : ∀ p label, ∀ i ∈ (s.alloc (p, label)).available, i ∈ T.indices label
  locked : ∀ p, ∀ slot ∈ s.live p, s.os.holder slot.file = some ⟨p, slot.fileLock.id⟩
  stray : ∀ p f id, s.os.holder f = some ⟨p, id⟩ →
    (∃ slot ∈ s.live p, slot.token = (f, id)) ∨ ∃ th, s.resting (p, th) = false
  unlocked : ∀ p, s.Quiet p → s.poolLock p = none

theorem PoolInv.accounted {T : Topology} {s : PoolState} {res : Nat × Nat → Held}
    (h : PoolInv T s res) : Accounted T s where
  exclusive p q a ha b hb hkey := by
    obtain ⟨hsa, hla⟩ := h.lock.live p a ha
    obtain ⟨hsb, hlb⟩ := h.lock.live q b hb
    have hfile : a.file = b.file := by rw [hsa.file, hsb.file, hkey]
    rw [hfile, hlb] at hla
    have hpid : q = p := (Holder.mk.inj (Option.some.inj hla)).1
    subst hpid
    exact ⟨rfl, h.lock.liveInj q a ha b hb hfile⟩
  once p := List.Nodup.of_map _ (h.lock.liveNodup p)
  missing p hfree label i hi := by
    have hnone : ∀ th, (label, i) ∉ (res (p, th)).mem := by
      intro th hin
      have hpool := (h.index.pool (p, th)).mp (h.index.mem _ _ hin).1
      have hlocked : s.poolLock p = some th := hpool
      rw [hfree] at hlocked
      cases hlocked
    have havail := h.index.available p (label, i)
    constructor
    · intro hout
      by_contra hno
      refine hout (havail.mpr ⟨hi, hnone, fun slot hs hkey => hno ⟨slot, hs, hkey⟩⟩)
    · rintro ⟨slot, hs, hkey⟩ hin
      exact (havail.mp hin).2.2 slot hs hkey
  within p label i hi := ((h.index.available p (label, i)).mp hi).1
  locked p slot hs := (h.lock.live p slot hs).2
  stray p f id hf := by
    rcases h.lock.accounted f p id hf with hlive | ⟨th, hth⟩
    · exact Or.inl hlive
    · refine Or.inr ⟨th, ?_⟩
      rw [h.rest.rest]
      by_contra hrest
      have hidle := (h.rest.idle (p, th) (by simpa using hrest)).2
      rw [hidle] at hth
      exact hth
  unlocked p hquiet := by
    cases hlock : s.poolLock p with
    | none => rfl
    | some th =>
      have hpool := (h.index.pool (p, th)).mpr hlock
      have hrest := h.rest.rest (p, th)
      rw [hquiet th] at hrest
      have hidle := (h.rest.idle (p, th) hrest.symm).1
      rw [hpool] at hidle
      cases hidle

/-- A quiet process is determined by its live slots. -/
theorem Accounted.restored {T : Topology} {s s' : PoolState} (h : Accounted T s)
    (h' : Accounted T s') {p : Nat} (hq : s.Quiet p) (hq' : s'.Quiet p)
    (hlive : ∀ slot, slot ∈ s'.live p ↔ slot ∈ s.live p) :
    (∀ label, (s'.alloc (p, label)).available = (s.alloc (p, label)).available) ∧
      ∀ f id, s'.os.holder f = some ⟨p, id⟩ ↔ s.os.holder f = some ⟨p, id⟩ := by
  have hheld : ∀ {u : PoolState}, Accounted T u → u.Quiet p → ∀ f id,
      u.os.holder f = some ⟨p, id⟩ ↔ ∃ slot ∈ u.live p, slot.token = (f, id) := by
    intro u hu hquiet f id
    constructor
    · intro hf
      rcases hu.stray p f id hf with hslot | ⟨th, hth⟩
      · exact hslot
      · rw [hquiet th] at hth
        cases hth
    · rintro ⟨slot, hs, htoken⟩
      obtain ⟨rfl, rfl⟩ := Prod.mk.inj htoken
      exact hu.locked p slot hs
  constructor
  · intro label
    ext i
    by_cases hi : i ∈ T.indices label
    · have hmiss := h.missing p (h.unlocked p hq) label i hi
      have hmiss' := h'.missing p (h'.unlocked p hq') label i hi
      have hiff : i ∉ (s'.alloc (p, label)).available ↔ i ∉ (s.alloc (p, label)).available := by
        rw [hmiss, hmiss']
        simp only [hlive]
      exact not_iff_not.mp hiff
    · exact iff_of_false (fun hin => hi (h'.within p label i hin))
        fun hin => hi (h.within p label i hin)
  · intro f id
    rw [hheld h hq, hheld h' hq']
    simp only [hlive]

/-- In every reachable state the slots, the allocators and the lock files agree,
and a process that was quiet before and is quiet after some calls that gave it no
slot and took none from it has the allocators and the locks it had. -/
theorem pools_accounted (T : Topology) (os : OsState) (c : (pools T).Config)
    (hreach : System.Reachable (poolsStart T os) c) :
    Accounted T c.st ∧
      ∀ c', System.Reachable c c' → ∀ p, c.st.Quiet p → c'.st.Quiet p →
        (∀ slot, slot ∈ c'.st.live p ↔ slot ∈ c.st.live p) →
          (∀ label, (c'.st.alloc (p, label)).available = (c.st.alloc (p, label)).available) ∧
            ∀ f id, c'.st.os.holder f = some ⟨p, id⟩ ↔ c.st.os.holder f = some ⟨p, id⟩ := by
  have hholds := Ownership.reachable (poolsStart_holds T os) hreach
  obtain ⟨res, hinv, _⟩ := id hholds
  refine ⟨PoolInv.accounted hinv, fun c' hreach' p hq hq' hlive => ?_⟩
  obtain ⟨res', hinv', _⟩ := Ownership.reachable hholds hreach'
  exact (PoolInv.accounted hinv).restored (PoolInv.accounted hinv') hq hq' hlive

/-- One local node with two GPUs. -/
def twoGpus : Topology :=
  { nodeSpecs := [{ hostname := "localhost" }]
    gpus := fun label =>
      if label = "localhost" then some [⟨0, "gfx942", 65536, 0⟩, ⟨1, "gfx942", 65536, 0⟩] else none
    headroomGb := 0
    sshSessions := fun _ => none }

/-- Process 0 takes a GPU; process 1 then finds the first lock held, skips that
GPU and takes the other. -/
def skipSchedule : List (pools twoGpus).Event :=
  (List.replicate 14 ((0, 0) : Nat × Nat) ++ List.replicate 19 ((1, 0) : Nat × Nat)).map
    fun t => .run t ({ call := .acquireSlot 0 10 "test" } : PoolChoice)

theorem skip_run :
    ((System.run (poolsStart twoGpus OsState.start) skipSchedule).map fun c =>
      ((c.st.live 0).map NodeSlot.key, (c.st.live 1).map NodeSlot.key, c.st.resting (1, 0))) =
        some ([("localhost", 0)], [("localhost", 1)], true) := by
  decide

theorem pools_accounted_skip :
    ∃ c : (pools twoGpus).Config, (c.st.live 0).map NodeSlot.key = [("localhost", 0)] ∧
      (c.st.live 1).map NodeSlot.key = [("localhost", 1)] ∧ Accounted twoGpus c.st := by
  obtain ⟨c, hc, hst⟩ := Option.map_eq_some_iff.mp skip_run
  refine ⟨c, congrArg Prod.fst hst, congrArg (fun x => x.2.1) hst, ?_⟩
  exact (pools_accounted twoGpus OsState.start c ⟨skipSchedule, hc⟩).1

end Nodes
end RocmTests

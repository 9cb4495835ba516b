import RocmTests.Conc.Seq
import RocmTests.Nodes.PoolActions
import RocmTests.Nodes.PoolMethods

/-!
# Is `acquire_multi_node` all-or-nothing?

One process runs `acquire_multi_node` while the rest of the world does as it
likes: the environment decides at every access whether a lock is held elsewhere,
what the clock says and what the other files hold.  What the process owns is its
`available` sets and its lock files.

`acquire_slots` restores both when it raises, and when it returns it has taken at
least one GPU.  `acquire_multi_node` calls it once per node and does not undo the
earlier nodes when a later one raises.
-/

namespace RocmTests
namespace Nodes
namespace MultiNode

open Conc Gpu Markers Pool

/-- `delivered` is a history of the slots `acquire_slots` has returned. -/
structure ProcState where
  available : String → Finset Int
  locks : LockFile → Option Nat
  nextId : Nat
  delivered : List NodeSlot

/-- The environment's part in one access. -/
structure Env where
  busy : Bool := false
  info : Option Info := none
  alive : Bool := true
  now : ℚ := 0
  live : Option (List Int) := none

namespace ProcState

def alloc (T : Topology) (s : ProcState) (label : String) : GpuAllocator :=
  ⟨(T.gpus label).getD [], s.available label, T.headroomGb⟩

def setAvailable (s : ProcState) (label : String) (available : Finset Int) : ProcState :=
  { s with available := Function.update s.available label available }

/-- A lock file can be taken when nobody has it, in this process or elsewhere. -/
def osExec : (o : OsOp) → Env → ProcState → o.Resp × ProcState
  | .flock f, e, s =>
    if e.busy = true ∨ s.locks f ≠ none then ((none : Option Nat), s)
    else ((some s.nextId : Option Nat),
      { s with
        locks := Function.update s.locks f (some s.nextId)
        nextId := s.nextId + 1 })
  | .funlock f id, _, s =>
    ((), if s.locks f = some id then { s with locks := Function.update s.locks f none } else s)
  | .writeInfo _ _, _, s => ((), s)
  | .removeInfo _, _, s => ((), s)
  | .readInfo _, e, s => (e.info, s)
  | .pidExists _, e, s => (e.alive, s)
  | .monotonic, e, s => (e.now, s)
  | .addPending _ _, _, s => (s.nextId, { s with nextId := s.nextId + 1 })
  | .dropPending _ _, _, s => ((), s)
  | .livePending _ _, e, s => (e.live, s)

def exec (T : Topology) : (o : PoolOp) → Env → ProcState → Option (o.Resp × ProcState)
  | .os o, e, s => some (osExec o e s)
  | .lockPool, _, s => some ((), s)
  | .unlockPool, _, s => some ((), s)
  | .allocate label v, _, s =>
    match (s.alloc T label).allocate v with
    | .error e => some (Except.error e, s)
    | .ok x => some (Except.ok x.1, s.setAvailable label x.2.available)
  | .allocateSpecific label i, _, s =>
    match (s.alloc T label).allocateSpecific i with
    | .error e => some (Except.error e, s)
    | .ok x => some (Except.ok x.1, s.setAvailable label x.2.available)
  | .deallocate label gpu _, _, s =>
    some ((), s.setAvailable label ((s.alloc T label).release gpu).available)
  | .deliver _ slots, _, s => some ((), { s with delivered := s.delivered ++ slots })
  | .rest, _, s => some ((), s)
  | .wake, _, s => some ((), s)
  | .nextCall, _, _ => none

/-- The slots returned between two states. -/
def since (base s : ProcState) : List NodeSlot := s.delivered.drop base.delivered.length

/-- Every allocator and every lock file of the process is as it was. -/
def Unchanged (base s : ProcState) : Prop := s.available = base.available ∧ s.locks = base.locks

end ProcState

/-- The process's state in terms of where the call found it, what the call owns
and the slots it has returned. -/
structure SoloInv (base s : ProcState) (r : Held) : Prop where
  rel : r.rel = []
  history : base.delivered <+: s.delivered
  available : ∀ x : String × Int, x.2 ∈ s.available x.1 ↔ x.2 ∈ base.available x.1 ∧ x ∉ r.mem ∧
    ∀ slot ∈ base.since s, slot.key ≠ x
  mem : ∀ x ∈ r.mem, x.2 ∈ base.available x.1 ∧ ∀ slot ∈ base.since s, slot.key ≠ x
  free : ∀ x ∈ r.free, x.2 ∈ s.available x.1
  keys : ∀ slot ∈ base.since s, slot.key.2 ∈ base.available slot.key.1
  locks : ∀ f id, s.locks f = some id ↔ base.locks f = some id ∨ (f, id) ∈ r.locks ∨
    ∃ slot ∈ base.since s, slot.token = (f, id)
  apart : ∀ f id, (f, id) ∈ r.locks → base.locks f = none ∧
    ∀ slot ∈ base.since s, slot.file ≠ f

namespace SoloInv

variable {T : Topology} {base s : ProcState} {r : Held}

theorem start (base : ProcState) : SoloInv base base Held.busy := by
  have hnil : base.since base = [] := by simp [ProcState.since]
  refine ⟨rfl, List.prefix_rfl, ?_, ?_, ?_, ?_, ?_, ?_⟩
  · intro x; simp [hnil, Held.busy]
  · intro x hx; exact absurd hx (Set.notMem_empty x)
  · intro x hx; exact absurd hx (Set.notMem_empty x)
  · intro slot hs; rw [hnil] at hs; cases hs
  · intro f id; simp [hnil, Held.busy]
  · intro f id hf; exact absurd hf (Set.notMem_empty _)

/-- A step that touches neither the allocators nor the locks. -/
theorem frame (h : SoloInv base s r) {s' : ProcState} {r' : Held} (ha : s'.available = s.available)
    (hl : s'.locks = s.locks) (hd : s'.delivered = s.delivered) (hmem : r'.mem = r.mem)
    (hlocks : r'.locks = r.locks) (hfree : r'.free ⊆ r.free) (hrel : r'.rel = r.rel) :
    SoloInv base s' r' := by
  have hsince : base.since s' = base.since s := by rw [ProcState.since, hd, ProcState.since]
  refine ⟨by rw [hrel, h.rel], by rw [hd]; exact h.history, ?_, ?_, ?_, ?_, ?_, ?_⟩
  · intro x; rw [ha, hmem, hsince]; exact h.available x
  · intro x hx; rw [hmem] at hx; rw [hsince]; exact h.mem x hx
  · intro x hx; rw [ha]; exact h.free x (hfree hx)
  · rw [hsince]; exact h.keys
  · intro f id; rw [hl, hlocks, hsince]; exact h.locks f id
  · intro f id hf; rw [hlocks] at hf; rw [hsince]; exact h.apart f id hf

theorem flock (h : SoloInv base s r) {f : LockFile} (hfree : s.locks f = none) (id : Nat)
    (n : Nat) :
    SoloInv base { s with locks := Function.update s.locks f (some id), nextId := n }
      { r with locks := insert (f, id) r.locks } := by
  have hnone : ∀ j, ¬ (base.locks f = some j ∨ (f, j) ∈ r.locks ∨
      ∃ slot ∈ base.since s, slot.token = (f, j)) := by
    intro j hj
    have hheld := (h.locks f j).mpr hj
    rw [hfree] at hheld
    cases hheld
  refine ⟨h.rel, h.history, h.available, h.mem, h.free, h.keys, ?_, ?_⟩
  · intro g j
    show Function.update s.locks f (some id) g = some j ↔ _
    by_cases hgf : g = f
    · subst hgf
      rw [Function.update_self]
      constructor
      · intro hj
        rw [Option.some.inj hj]
        exact Or.inr (Or.inl (Set.mem_insert _ _))
      · rintro (hb | hr | hs)
        · exact absurd (Or.inl hb) (hnone j)
        · rcases Set.mem_insert_iff.mp hr with hnew | hold
          · rw [(Prod.mk.inj hnew).2]
          · exact absurd (Or.inr (Or.inl hold)) (hnone j)
        · exact absurd (Or.inr (Or.inr hs)) (hnone j)
    · rw [Function.update_of_ne hgf, h.locks g j]
      have hne : (g, j) ≠ (f, id) := fun hsame => hgf (Prod.mk.inj hsame).1
      simp only [Set.mem_insert_iff, hne, false_or]
      exact Iff.rfl
  · intro g j hg
    rcases Set.mem_insert_iff.mp hg with hnew | hold
    · obtain ⟨rfl, rfl⟩ := Prod.mk.inj hnew
      refine ⟨?_, fun slot hs hsame => ?_⟩
      · cases hb : base.locks g with
        | none => rfl
        | some k => exact absurd (Or.inl hb) (hnone k)
      · refine hnone slot.fileLock.id (Or.inr (Or.inr ⟨slot, hs, ?_⟩))
        rw [NodeSlot.token, hsame]
    · exact h.apart g j hold

theorem funlock (h : SoloInv base s r) {f : LockFile} {id : Nat} (hid : (f, id) ∈ r.locks) :
    s.locks f = some id ∧ SoloInv base { s with locks := Function.update s.locks f none }
      { r with locks := r.locks \ {(f, id)} } := by
  have hheld : s.locks f = some id := (h.locks f id).mpr (Or.inr (Or.inl hid))
  obtain ⟨hbase, hslots⟩ := h.apart f id hid
  refine ⟨hheld, h.rel, h.history, h.available, h.mem, h.free, h.keys, ?_, ?_⟩
  · intro g j
    show Function.update s.locks f none g = some j ↔ _
    by_cases hgf : g = f
    · subst hgf
      rw [Function.update_self]
      constructor
      · intro hj; cases hj
      · rintro (hb | ⟨hr, hne⟩ | ⟨slot, hs, htoken⟩)
        · rw [hbase] at hb; cases hb
        · have hj := (h.locks g j).mpr (Or.inr (Or.inl hr))
          rw [hheld] at hj
          rw [Option.some.inj hj] at hne
          exact absurd (Set.mem_singleton _) hne
        · exact absurd (Prod.mk.inj htoken).1 (hslots slot hs)
    · rw [Function.update_of_ne hgf, h.locks g j]
      have hne : (g, j) ≠ (f, id) := fun hsame => hgf (Prod.mk.inj hsame).1
      simp only [Set.mem_sdiff, Set.mem_singleton_iff, hne, not_false_eq_true, and_true]
      exact Iff.rfl
  · intro g j hg
    exact h.apart g j hg.1

theorem take (h : SoloInv base s r) {label : String} {i : Int} (hi : i ∈ s.available label) :
    SoloInv base (s.setAvailable label ((s.available label).erase i))
      { r with mem := insert (label, i) r.mem, free := r.free \ {(label, i)} } := by
  have havail : ∀ x : String × Int,
      x.2 ∈ Function.update s.available label ((s.available label).erase i) x.1 ↔
        x.2 ∈ s.available x.1 ∧ x ≠ (label, i) := by
    intro x
    by_cases hx : x.1 = label
    · rw [hx, Function.update_self]
      simp [Prod.ext_iff, hx, and_comm]
    · rw [Function.update_of_ne hx]
      simp [Prod.ext_iff, hx]
  have hfacts := (h.available (label, i)).mp hi
  refine ⟨h.rel, h.history, ?_, ?_, ?_, h.keys, h.locks, h.apart⟩
  · intro x
    refine Iff.trans (havail x) ?_
    rw [h.available x]
    simp only [Set.mem_insert_iff, not_or]
    constructor
    · rintro ⟨⟨hb, hm, hs⟩, hne⟩; exact ⟨hb, ⟨hne, hm⟩, hs⟩
    · rintro ⟨hb, ⟨hne, hm⟩, hs⟩; exact ⟨⟨hb, hm, hs⟩, hne⟩
  · intro x hx
    rcases Set.mem_insert_iff.mp hx with rfl | hold
    · exact ⟨hfacts.1, hfacts.2.2⟩
    · exact h.mem x hold
  · intro x hx
    exact (havail x).mpr ⟨h.free x hx.1, hx.2⟩

theorem giveBack (h : SoloInv base s r) {label : String} {i : Int}
    (hx : (label, i) ∈ r.mem ∨ (label, i) ∈ r.free) :
    SoloInv base (s.setAvailable label (insert i (s.available label)))
      { r with mem := r.mem \ {(label, i)}, free := insert (label, i) r.free } := by
  have havail : ∀ x : String × Int,
      x.2 ∈ Function.update s.available label (insert i (s.available label)) x.1 ↔
        x.2 ∈ s.available x.1 ∨ x = (label, i) := by
    intro x
    by_cases hlabel : x.1 = label
    · rw [hlabel, Function.update_self]
      simp [Prod.ext_iff, hlabel, or_comm]
    · rw [Function.update_of_ne hlabel]
      simp [Prod.ext_iff, hlabel]
  have hfacts : i ∈ base.available label ∧ ∀ slot ∈ base.since s, slot.key ≠ (label, i) := by
    rcases hx with hm | hf
    · exact h.mem _ hm
    · have hin := (h.available (label, i)).mp (h.free _ hf)
      exact ⟨hin.1, hin.2.2⟩
  refine ⟨h.rel, h.history, ?_, ?_, ?_, h.keys, h.locks, h.apart⟩
  · intro x
    refine Iff.trans (havail x) ?_
    rw [h.available x]
    by_cases hsame : x = (label, i)
    · subst hsame
      simp only [or_true, true_iff]
      exact ⟨hfacts.1, fun hin => hin.2 rfl, hfacts.2⟩
    · simp only [hsame, or_false, Set.mem_sdiff, Set.mem_singleton_iff, not_false_eq_true,
        and_true]
      exact Iff.rfl
  · intro x hin
    exact h.mem x hin.1
  · intro x hin
    rcases Set.mem_insert_iff.mp hin with rfl | hold
    · exact (havail _).mpr (Or.inr rfl)
    · exact (havail x).mpr (Or.inl (h.free x hold))

theorem since_deliver (h : SoloInv base s r) (slots : List NodeSlot) :
    base.since { s with delivered := s.delivered ++ slots } = base.since s ++ slots := by
  have hlen := h.history.length_le
  show (s.delivered ++ slots).drop base.delivered.length = s.delivered.drop _ ++ slots
  exact List.drop_append_of_le_length hlen

theorem deliver (h : SoloInv base s r) {slots : List NodeSlot} (hd : Deliverable T slots r) :
    SoloInv base { s with delivered := s.delivered ++ slots } { r with
      mem := r.mem \ {x | ∃ slot ∈ slots, slot.key = x}
      locks := r.locks \ {x | ∃ slot ∈ slots, slot.token = x} } := by
  have hsince := h.since_deliver slots
  refine ⟨h.rel, h.history.trans (List.prefix_append _ _), ?_, ?_, h.free, ?_, ?_, ?_⟩
  · intro x
    rw [hsince]
    refine Iff.trans (h.available x) ?_
    simp only [Set.mem_sdiff, Set.mem_ofPred_eq, List.mem_append, not_and, not_not]
    constructor
    · rintro ⟨hb, hm, hs⟩
      refine ⟨hb, fun hin => absurd hin hm, fun slot hslot => ?_⟩
      rcases hslot with hold | hnew
      · exact hs slot hold
      · intro hkey
        have hin := hd.mem slot hnew
        rw [hkey] at hin
        exact hm hin
    · rintro ⟨hb, hm, hs⟩
      refine ⟨hb, fun hin => ?_, fun slot hslot => hs slot (Or.inl hslot)⟩
      obtain ⟨slot, hnew, hkey⟩ := hm hin
      exact hs slot (Or.inr hnew) hkey
  · intro x hx
    rw [hsince]
    obtain ⟨hb, hs⟩ := h.mem x hx.1
    refine ⟨hb, fun slot hslot => ?_⟩
    rcases List.mem_append.mp hslot with hold | hnew
    · exact hs slot hold
    · exact fun hkey => hx.2 ⟨slot, hnew, hkey⟩
  · intro slot hslot
    rw [hsince] at hslot
    rcases List.mem_append.mp hslot with hold | hnew
    · exact h.keys slot hold
    · exact (h.mem _ (hd.mem slot hnew)).1
  · intro f id
    rw [hsince]
    refine Iff.trans (h.locks f id) ?_
    simp only [Set.mem_sdiff, Set.mem_ofPred_eq, List.mem_append]
    constructor
    · rintro (hb | hr | ⟨slot, hs, htoken⟩)
      · exact Or.inl hb
      · by_cases hin : ∃ slot ∈ slots, slot.token = (f, id)
        · obtain ⟨slot, hs, htoken⟩ := hin
          exact Or.inr (Or.inr ⟨slot, Or.inr hs, htoken⟩)
        · exact Or.inr (Or.inl ⟨hr, hin⟩)
      · exact Or.inr (Or.inr ⟨slot, Or.inl hs, htoken⟩)
    · rintro (hb | ⟨hr, _⟩ | ⟨slot, hs | hs, htoken⟩)
      · exact Or.inl hb
      · exact Or.inr (Or.inl hr)
      · exact Or.inr (Or.inr ⟨slot, hs, htoken⟩)
      · refine Or.inr (Or.inl ?_)
        rw [← htoken]
        exact hd.locks slot hs
  · intro f id hf
    obtain ⟨hb, hs⟩ := h.apart f id hf.1
    refine ⟨hb, fun slot hslot => ?_⟩
    rw [hsince] at hslot
    rcases List.mem_append.mp hslot with hold | hnew
    · exact hs slot hold
    · intro hsame
      have hmine := (h.locks f id).mpr (Or.inr (Or.inl hf.1))
      have htheirs := (h.locks _ _).mpr (Or.inr (Or.inl (hd.locks slot hnew)))
      rw [hsame, hmine] at htheirs
      refine hf.2 ⟨slot, hnew, ?_⟩
      rw [NodeSlot.token, hsame, ← Option.some.inj htheirs]

theorem os_ok (h : SoloInv base s r) {o : OsOp} (hpre : lockActions.pre o r) (e : Env) :
    ∃ r', lockActions.post o r (ProcState.osExec o e s).1 r' ∧
      SoloInv base (ProcState.osExec o e s).2 r' := by
  have hframe : ∀ n, SoloInv base { s with nextId := n } r := fun n =>
    h.frame rfl rfl rfl rfl rfl subset_rfl rfl
  cases o with
  | flock f =>
    by_cases hbusy : e.busy = true ∨ s.locks f ≠ none
    · simp only [ProcState.osExec, hbusy, if_true]
      exact ⟨r, Or.inl ⟨rfl, rfl⟩, h⟩
    · simp only [ProcState.osExec, hbusy, if_false]
      have hfree : s.locks f = none := by
        by_contra hheld
        exact hbusy (Or.inr hheld)
      exact ⟨_, Or.inr ⟨s.nextId, rfl, rfl⟩, h.flock hfree _ _⟩
  | funlock f id =>
    obtain ⟨hheld, hinv⟩ := h.funlock hpre
    simp only [ProcState.osExec, hheld, if_true]
    exact ⟨_, rfl, hinv⟩
  | writeInfo f i => exact ⟨r, rfl, h⟩
  | removeInfo f => exact ⟨r, rfl, h⟩
  | readInfo f => exact ⟨r, rfl, h⟩
  | pidExists q => exact ⟨r, rfl, h⟩
  | monotonic => exact ⟨r, rfl, h⟩
  | addPending safe entry => exact ⟨r, rfl, hframe _⟩
  | dropPending safe req => exact ⟨r, rfl, h⟩
  | livePending safe now => exact ⟨r, rfl, h⟩

/-- A successful allocation, by either method. -/
theorem take_ok (h : SoloInv base s r) {label : String} {gpu : GpuInfo} {a : GpuAllocator}
    (hpool : gpu ∈ (s.alloc T label).pool) (havail : gpu.index ∈ (s.alloc T label).available)
    (ha : a = { s.alloc T label with available := (s.alloc T label).available.erase gpu.index }) :
    ∃ r', Took T label r (.ok gpu) r' ∧ SoloInv base (s.setAvailable label a.available) r' := by
  subst ha
  have hidx : gpu.index ∈ T.indices label := List.mem_map_of_mem hpool
  have hnew : (label, gpu.index) ∉ r.mem := ((h.available (label, gpu.index)).mp havail).2.1
  exact ⟨_, ⟨hidx, hnew, rfl⟩, h.take havail⟩

theorem act_ok (h : SoloInv base s r) {o : PoolOp} (hpre : (poolActions T).pre o r) {e : Env}
    {b : o.Resp} {s' : ProcState} (hexec : ProcState.exec T o e s = some (b, s')) :
    ∃ r', (poolActions T).post o r b r' ∧ SoloInv base s' r' := by
  cases o with
  | os o =>
    have hpair : ProcState.osExec o e s = (b, s') := Option.some.inj hexec
    have hos := h.os_ok hpre e
    rw [hpair] at hos
    exact hos
  | lockPool =>
    cases hexec
    exact ⟨_, rfl, h.frame rfl rfl rfl rfl rfl subset_rfl rfl⟩
  | unlockPool =>
    cases hexec
    exact ⟨_, rfl, h.frame rfl rfl rfl rfl rfl (Set.empty_subset _) rfl⟩
  | allocate label v =>
    cases ha : (s.alloc T label).allocate v with
    | error e =>
      simp only [ProcState.exec, ha] at hexec
      cases hexec
      exact ⟨r, rfl, h⟩
    | ok x =>
      simp only [ProcState.exec, ha] at hexec
      cases hexec
      have hok : (s.alloc T label).allocate v = .ok (x.1, x.2) := ha
      obtain ⟨hpool, havail, heq⟩ := GpuAllocator.allocate_ok hok
      exact h.take_ok hpool havail heq
  | allocateSpecific label i =>
    cases ha : (s.alloc T label).allocateSpecific i with
    | error e =>
      simp only [ProcState.exec, ha] at hexec
      cases hexec
      exact ⟨r, ⟨rfl, fun gpu hgpu => by cases hgpu⟩, h⟩
    | ok x =>
      simp only [ProcState.exec, ha] at hexec
      cases hexec
      have hok : (s.alloc T label).allocateSpecific i = .ok (x.1, x.2) := ha
      obtain ⟨hpool, hidx, havail, heq⟩ := GpuAllocator.allocateSpecific_ok hok
      subst hidx
      obtain ⟨r', htook, hinv⟩ := h.take_ok hpool havail heq
      exact ⟨r', ⟨htook, fun gpu hgpu => by cases hgpu; rfl⟩, hinv⟩
  | deallocate label gpu retired =>
    cases retired with
    | none =>
      cases hexec
      exact ⟨_, rfl, h.giveBack hpre.2⟩
    | some slot =>
      obtain ⟨_, _, _, slots, hrel⟩ := hpre
      rw [h.rel] at hrel
      cases hrel
  | deliver path slots =>
    cases hexec
    exact ⟨_, rfl, h.deliver hpre.2⟩
  | rest =>
    cases hexec
    exact ⟨_, rfl, h.frame rfl rfl rfl rfl rfl subset_rfl rfl⟩
  | wake =>
    cases hexec
    exact ⟨_, rfl, h.frame rfl rfl rfl rfl rfl subset_rfl rfl⟩
  | nextCall => cases hexec

/-- A call that ends owning nothing has changed the process exactly when it has
returned slots. -/
theorem unchanged_iff (h : SoloInv base s Held.busy) :
    base.Unchanged s ↔ base.since s = [] := by
  constructor
  · intro hsame
    by_contra hne
    obtain ⟨slot, slots, hsince⟩ := List.exists_cons_of_ne_nil hne
    have hslot : slot ∈ base.since s := by
      rw [hsince]
      exact List.mem_cons_self
    have hin := h.keys slot hslot
    rw [← hsame.1] at hin
    exact ((h.available slot.key).mp hin).2.2 slot hslot rfl
  · intro hnil
    constructor
    · funext label
      ext i
      have hiff := h.available (label, i)
      rw [hnil] at hiff
      simpa [Held.busy] using hiff
    · funext f
      ext id
      have hiff := h.locks f id
      rw [hnil] at hiff
      simpa [Held.busy] using hiff

end SoloInv

/-! ## The slots a call returns -/

/-- Only `deliver` adds to the history. -/
def deliverActions : Actions PoolOp PoolOp.Resp (List NodeSlot) where
  pre _ _ := True
  post
    | .deliver _ slots, d, _, d' => d' = d ++ slots
    | _, d, _, d' => d' = d

theorem osExec_delivered (o : OsOp) (e : Env) (s : ProcState) :
    (ProcState.osExec o e s).2.delivered = s.delivered := by
  cases o with
  | flock f => by_cases hbusy : e.busy = true ∨ s.locks f ≠ none <;> simp [ProcState.osExec, hbusy]
  | funlock f id => by_cases hid : s.locks f = some id <;> simp [ProcState.osExec, hid]
  | writeInfo f i => rfl
  | removeInfo f => rfl
  | readInfo f => rfl
  | pidExists q => rfl
  | monotonic => rfl
  | addPending safe entry => rfl
  | dropPending safe req => rfl
  | livePending safe now => rfl

theorem deliver_act_ok {T : Topology} {o : PoolOp} {e : Env} {s s' : ProcState} {b : o.Resp}
    (hexec : ProcState.exec T o e s = some (b, s')) :
    deliverActions.post o s.delivered b s'.delivered := by
  cases o with
  | os o =>
    have hpair : ProcState.osExec o e s = (b, s') := Option.some.inj hexec
    have hsame := osExec_delivered o e s
    rw [hpair] at hsame
    exact hsame
  | allocate label v =>
    cases ha : (s.alloc T label).allocate v with
    | error e => simp only [ProcState.exec, ha] at hexec; cases hexec; rfl
    | ok x => simp only [ProcState.exec, ha] at hexec; cases hexec; rfl
  | allocateSpecific label i =>
    cases ha : (s.alloc T label).allocateSpecific i with
    | error e => simp only [ProcState.exec, ha] at hexec; cases hexec; rfl
    | ok x => simp only [ProcState.exec, ha] at hexec; cases hexec; rfl
  | nextCall => cases hexec
  | lockPool => cases hexec; rfl
  | unlockPool => cases hexec; rfl
  | deallocate label gpu retired => cases hexec; rfl
  | deliver path slots => cases hexec; rfl
  | rest => cases hexec; rfl
  | wake => cases hexec; rfl

theorem inner_delivers {α : Type} {p : PoolProg α} (h : Performs Inner p) (d : List NodeSlot) :
    Safe deliverActions p (fun _ d' => d' = d) d := by
  refine Performs.safe (I := fun d' => d' = d) h (fun _ _ _ _ => trivial) ?_ rfl
  intro o d₁ b d₂ ho hd hpost
  subst hd
  match o, ho with
  | .os (.flock _), _ => exact hpost
  | .os (.funlock _ _), _ => exact hpost
  | .os (.writeInfo _ _), _ => exact hpost
  | .os (.removeInfo _), _ => exact hpost
  | .os (.readInfo _), _ => exact hpost
  | .os (.pidExists _), _ => exact hpost
  | .os .monotonic, _ => exact hpost
  | .os (.addPending _ _), _ => exact hpost
  | .os (.dropPending _ _), _ => exact hpost
  | .lockPool, _ => exact hpost
  | .unlockPool, _ => exact hpost
  | .allocate _ _, _ => exact hpost
  | .allocateSpecific _ _, _ => exact hpost
  | .deallocate _ _ _, _ => exact hpost
  | .rest, _ => exact hpost
  | .wake, _ => exact hpost

/-- What `acquire_slots` has delivered when it ends: nothing when it raises, a
non-empty list when it returns. -/
def Delivers (d : List NodeSlot) (b : Except PoolError MultiGpuSlots) (d' : List NodeSlot) : Prop :=
  match b with
  | .error _ => d' = d
  | .ok multi => multi.slots ≠ [] ∧ d' = d ++ multi.slots

theorem tryNodes_delivers (T : Topology) (pid : Nat) (count : Int) (v : ℚ) (testId : String)
    (d : List NodeSlot) :
    ∀ specs : List NodeSpec, Safe deliverActions (tryNodes T pid count v testId specs)
      (fun b d' => d' = d ∧ ∀ multi ∈ b, multi.slots ≠ []) d := by
  intro specs
  induction specs with
  | nil => exact .ret ⟨rfl, fun _ h => by cases h⟩
  | cons spec specs ih =>
    rw [tryNodes]
    cases hg : T.gpus spec.label with
    | none => exact ih
    | some gpus =>
      refine (inner_delivers (tryNode_inner T pid spec count v testId) d).bind
        fun acquired d' hd' => ?_
      subst hd'
      cases acquired with
      | nil => exact ih
      | cons slot slots =>
        refine .ret ⟨rfl, fun multi hm => ?_⟩
        rw [← Option.some.inj hm]
        exact List.cons_ne_nil _ _

theorem slotsRound_delivers (T : Topology) (pid : Nat) (count : Int) (nodeLabel : Option String)
    (v : ℚ) (testId : String) (d : List NodeSlot) :
    Safe deliverActions (slotsRound T pid count nodeLabel v testId)
      (fun b d' => match b with
        | none => d' = d
        | some multi => multi.slots ≠ [] ∧ d' = d ++ multi.slots) d := by
  refine .act trivial fun _ d₁ h₁ => ?_
  rw [show d₁ = d from h₁]
  refine (tryNodes_delivers T pid count v testId d _).bind fun b d₂ h₂ => ?_
  obtain ⟨rfl, hne⟩ := h₂
  refine .act trivial fun _ d₃ h₃ => .act trivial fun _ d₄ h₄ => .ret ?_
  have hd₃ : d₃ = d₂ ++ b.toList.flatMap (·.slots) := h₃
  have hd₄ : d₄ = d₃ := h₄
  rw [hd₄, hd₃]
  cases b with
  | none => simp
  | some multi => exact ⟨hne multi rfl, by simp⟩

theorem acquireSlots_delivers (T : Topology) (pid : Nat) (count : Int) (nodeLabel : Option String)
    (v w : ℚ) (testId : String) (d : List NodeSlot) :
    Safe deliverActions (acquireSlots T pid count nodeLabel v w testId) (Delivers d) d := by
  unfold acquireSlots
  by_cases hcap : T.hasVramCapacity v count nodeLabel
  · rw [if_pos hcap]
    refine .act trivial fun start d₁ h₁ => ?_
    rw [show d₁ = d from h₁]
    refine (inner_delivers (registerAll_inner count _ _ []) d).bind fun regs d₂ h₂ => ?_
    subst h₂
    refine Safe.bind (Q := Delivers d₂) ?_ fun result d₃ h₃ => ?_
    · refine Safe.iter (fun _ d' => d' = d₂) rfl fun _ d' hd' => ?_
      subst hd'
      refine (slotsRound_delivers T pid count nodeLabel v testId d').bind fun found d₄ h₄ => ?_
      cases found with
      | some multi => exact .ret h₄
      | none =>
        rw [show d₄ = d' from h₄]
        refine .act trivial fun now d₅ h₅ => ?_
        rw [show d₅ = d' from h₅]
        show Safe _ (if start + w ≤ now then _ else _) _ _
        by_cases hd : start + w ≤ now
        · rw [if_pos hd]
          exact .ret rfl
        · rw [if_neg hd]
          exact (inner_delivers pause_inner d').bind fun _ d₆ h₆ => .ret h₆
    · refine (inner_delivers (deregisterAll_inner regs) d₃).bind fun _ d₆ h₆ => .ret ?_
      rw [h₆]
      exact h₃
  · rw [if_neg hcap]
    exact .ret rfl

/-- One run of `acquire_slots` by itself. -/
theorem acquireSlots_run {T : Topology} {pid : Nat} {count : Int} {nodeLabel : Option String}
    {v w : ℚ} {testId : String} {es rest : List Env} {s s' : ProcState}
    {b : Except PoolError MultiGpuSlots}
    (h : runSeq (ProcState.exec T) es (acquireSlots T pid count nodeLabel v w testId) s =
      some (b, rest, s')) : Delivers s.delivered b s'.delivered := by
  have hact : ∀ {o : PoolOp} {e : Env} {s : ProcState} {b : o.Resp} {s' : ProcState}
      {r : List NodeSlot}, s.delivered = r → deliverActions.pre o r →
        ProcState.exec T o e s = some (b, s') →
          ∃ r', deliverActions.post o r b r' ∧ s'.delivered = r' := by
    intro o e s b s' r hr _ hexec
    subst hr
    exact ⟨_, deliver_act_ok hexec, rfl⟩
  obtain ⟨d, hd, heq⟩ := runSeq_owned (I := fun s r => s.delivered = r) hact rfl
    (acquireSlots_delivers T pid count nodeLabel v w testId s.delivered) h
  rw [heq]
  exact hd

/-! ## The outcomes of the nodes -/

section Outcomes

variable (T : Topology) (pid : Nat) (n : Scalar) (v w : ℚ) (testId : String)

/-- Whether each node's acquisition succeeded, in order, up to the first that did
not. -/
def nodeOutcomes : List NodeSpec → List Env → ProcState → List Bool
  | [], _, _ => []
  | spec :: specs, es, s =>
    match countOn T n spec with
    | .error _ => [false]
    | .ok count =>
      match runSeq (ProcState.exec T) es
        (acquireSlots T pid count (some spec.label) v w testId) s with
      | some (.ok _, rest, s') => true :: nodeOutcomes specs rest s'
      | some (.error _, _, _) => [false]
      | none => []

/-- The first node fails before anything is taken, or no node fails. -/
def FirstOrNone (outcomes : List Bool) : Prop :=
  outcomes.head? = some false ∨ ∀ o ∈ outcomes, o = true

instance (outcomes : List Bool) : Decidable (FirstOrNone outcomes) :=
  inferInstanceAs (Decidable (_ ∨ _))

variable {T pid n v w testId}

theorem nodeOutcomes_last {specs : List NodeSpec} {es : List Env} {s : ProcState} {tl : List Bool}
    (h : nodeOutcomes T pid n v w testId specs es s = false :: tl) : tl = [] := by
  cases specs with
  | nil => cases h
  | cons spec specs =>
    rw [nodeOutcomes] at h
    cases hc : countOn T n spec with
    | error e =>
      simp only [hc] at h
      cases h
      rfl
    | ok count =>
      simp only [hc] at h
      cases hr : runSeq (ProcState.exec T) es
          (acquireSlots T pid count (some spec.label) v w testId) s with
      | none => simp only [hr] at h; cases h
      | some x =>
        obtain ⟨b, rest, s'⟩ := x
        cases b with
        | ok multi => simp only [hr] at h; cases h
        | error e => simp only [hr] at h; cases h; rfl

theorem firstOrNone_iff {specs : List NodeSpec} {es : List Env} {s : ProcState} :
    FirstOrNone (nodeOutcomes T pid n v w testId specs es s) ↔
      (false ∈ nodeOutcomes T pid n v w testId specs es s →
        true ∉ nodeOutcomes T pid n v w testId specs es s) := by
  cases hout : nodeOutcomes T pid n v w testId specs es s with
  | nil => simp [FirstOrNone]
  | cons o tl =>
    cases o with
    | false => simp [FirstOrNone, nodeOutcomes_last hout]
    | true =>
      simp only [FirstOrNone, List.head?_cons, Option.some.injEq, Bool.true_eq_false, false_or,
        List.mem_cons, true_or, not_true_eq_false, imp_false]
      constructor
      · intro hall hin
        exact Bool.noConfusion (hall false hin)
      · intro hno o ho
        cases o with
        | true => rfl
        | false => exact absurd ho hno

/-- The loop raises exactly when some node failed, and has returned slots for the
nodes that did not. -/
theorem acquireEach_run :
    ∀ {specs : List NodeSpec} {es rest : List Env} {s s' : ProcState}
      {result : List MultiGpuSlots} {b : Except PoolError (List MultiGpuSlots)},
      runSeq (ProcState.exec T) es (acquireEach T pid n v w testId specs result) s =
        some (b, rest, s') →
      ((∃ e, b = .error e) ↔ false ∈ nodeOutcomes T pid n v w testId specs es s) ∧
        ∃ slots, s'.delivered = s.delivered ++ slots ∧
          (slots = [] ↔ true ∉ nodeOutcomes T pid n v w testId specs es s) := by
  intro specs
  induction specs with
  | nil =>
    intro es rest s s' result b h
    rw [acquireEach, Prog.pure_eq, runSeq_ret] at h
    cases h
    exact ⟨by simp [nodeOutcomes], [], by simp [nodeOutcomes]⟩
  | cons spec specs ih =>
    intro es rest s s' result b h
    rw [acquireEach] at h
    rw [nodeOutcomes]
    cases hc : countOn T n spec with
    | error e =>
      simp only [hc, Prog.pure_eq, runSeq_ret] at h
      cases h
      exact ⟨by simp, [], by simp⟩
    | ok count =>
      simp only [hc, Prog.bind_eq] at h
      rw [runSeq_bind] at h
      obtain ⟨⟨b₁, rest₁, s₁⟩, hrun, h⟩ := Option.bind_eq_some_iff.mp h
      have hd := acquireSlots_run hrun
      simp only [hrun]
      cases b₁ with
      | error e =>
        simp only [Prog.pure_eq, runSeq_ret] at h
        cases h
        have hsame : s'.delivered = s.delivered := hd
        exact ⟨by simp, [], by simp [hsame]⟩
      | ok multi =>
        obtain ⟨hne, hd₁⟩ := hd
        obtain ⟨herr, slots, hslots, _⟩ := ih h
        refine ⟨?_, multi.slots ++ slots, ?_, ?_⟩
        · simpa using herr
        · rw [hslots, hd₁, List.append_assoc]
        · simp [hne]

variable (T pid n v w testId)

/-- A call leaves the process as it found it whenever it raises, exactly when the
failing node, if there is one, is the first. -/
theorem acquireMultiNode_restores_iff (es rest : List Env) (s s' : ProcState)
    (b : Except PoolError (List MultiGpuSlots))
    (hrun : runSeq (ProcState.exec T) es (acquireMultiNode T pid n v w testId) s =
      some (b, rest, s')) :
    ((∃ e, b = .error e) → s.Unchanged s') ↔
      FirstOrNone (nodeOutcomes T pid n v w testId T.nodeSpecs es s) := by
  obtain ⟨herr, slots, hslots, hnone⟩ := acquireEach_run hrun
  obtain ⟨r, hr, hinv⟩ := runSeq_owned (I := SoloInv s)
    (fun h hpre hexec => h.act_ok hpre hexec) (SoloInv.start s)
    (acquireEach_owns T pid n v w testId T.nodeSpecs []) hrun
  subst hr
  have hsince : s.since s' = slots := by
    rw [ProcState.since, hslots, List.drop_left]
  rw [hinv.unchanged_iff, hsince, hnone, herr, firstOrNone_iff]

end Outcomes

/-- Two nodes of one GPU each. -/
def twoNodes : Topology :=
  { nodeSpecs := [{ hostname := "10.0.0.1", label := "HOST_IDX_1" },
      { hostname := "10.0.0.2", label := "HOST_IDX_2" }]
    gpus := fun label =>
      if label = "HOST_IDX_1" ∨ label = "HOST_IDX_2" then some [⟨0, "gfx942", 65536, 0⟩] else none
    headroomGb := 0
    sshSessions := fun _ => none }

def fresh : ProcState :=
  { available := fun label => (twoNodes.indices label).toFinset
    locks := fun _ => none
    nextId := 0
    delivered := [] }

/-- The first node's GPU is free, the second's is held elsewhere and the clock
has passed the deadline when it is looked at again. -/
def secondBusy : List Env :=
  List.replicate 10 ({} : Env) ++ List.replicate 6 ({ busy := true } : Env) ++
    List.replicate 5 ({ now := 60 } : Env)

/-- The call raised and the first node's GPU is still taken. -/
def leaked (x : Except PoolError (List MultiGpuSlots) × List Env × ProcState) : Bool :=
  (match x.1 with
    | .error _ => true
    | .ok _ => false) &&
    decide ((0 : Int) ∉ x.2.2.available "HOST_IDX_1") &&
    (x.2.2.locks (lockFile "HOST_IDX_1" 0)).isSome

theorem secondBusy_run :
    ((runSeq (ProcState.exec twoNodes) secondBusy
      (acquireMultiNode twoNodes 1 (.int 1) 0 30 "test") fresh).map leaked) = some true := by
  decide +kernel

theorem acquireMultiNode_restores_iff_secondBusy :
    ∃ b rest s', runSeq (ProcState.exec twoNodes) secondBusy
        (acquireMultiNode twoNodes 1 (.int 1) 0 30 "test") fresh = some (b, rest, s') ∧
      (((∃ e, b = .error e) → fresh.Unchanged s') ↔
        FirstOrNone (nodeOutcomes twoNodes 1 (.int 1) 0 30 "test" twoNodes.nodeSpecs secondBusy
          fresh)) := by
  obtain ⟨⟨b, rest, s'⟩, hrun, _⟩ := Option.map_eq_some_iff.mp secondBusy_run
  exact ⟨b, rest, s', hrun, acquireMultiNode_restores_iff twoNodes 1 (.int 1) 0 30 "test"
    secondBusy rest fresh s' b hrun⟩

theorem acquireMultiNode_leaks :
    ∃ b rest s', runSeq (ProcState.exec twoNodes) secondBusy
        (acquireMultiNode twoNodes 1 (.int 1) 0 30 "test") fresh = some (b, rest, s') ∧
      (∃ e, b = .error e) ∧ ¬ fresh.Unchanged s' := by
  obtain ⟨⟨b, rest, s'⟩, hrun, hleak⟩ := Option.map_eq_some_iff.mp secondBusy_run
  simp only [leaked, Bool.and_eq_true, decide_eq_true_eq] at hleak
  obtain ⟨⟨hraised, hout⟩, _⟩ := hleak
  refine ⟨b, rest, s', hrun, ?_, fun hsame => ?_⟩
  · cases b with
    | error e => exact ⟨e, rfl⟩
    | ok multis => cases hraised
  · rw [hsame.1] at hout
    exact hout (by decide)

end MultiNode
end Nodes
end RocmTests

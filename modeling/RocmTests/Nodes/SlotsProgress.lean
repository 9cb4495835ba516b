import Mathlib.Data.Finset.Card
import RocmTests.Nodes.MultiNode

/-!
# Does a round of `acquire_slots` find what is there?

The worker's own `available` set does not show which GPUs other workers hold, so
the allocator proposes the GPUs in its order of preference whether or not their
lock files are free.  `acquire_slot` keeps a GPU whose lock it did not get out of
`available` until the scan ends and so steps over it.  `acquire_slots` gives it
back and gives the node up.

One round runs with the lock files of the other processes fixed.
-/

namespace RocmTests
namespace Nodes
namespace SlotsProgress

open Conc Gpu Pool MultiNode

section

variable (T : Topology) (foreign : LockFile → Bool)

/-- One action while the other processes hold the lock files of `foreign`. -/
def exec (o : PoolOp) (s : ProcState) : Option (o.Resp × ProcState) :=
  ProcState.exec T o
    (match o with
      | .os (.flock f) => { busy := foreign f }
      | _ => {}) s

/-- The GPUs of a node that are in `_available` and satisfy the VRAM filter. -/
def eligible (s : ProcState) (v : ℚ) (label : String) : List GpuInfo :=
  (s.alloc T label).candidates v

def lockHeld (s : ProcState) (label : String) (gpu : GpuInfo) : Bool :=
  foreign (lockFile label gpu.index) || (s.locks (lockFile label gpu.index)).isSome

/-- The lock file of the GPU is free as well. -/
def obtainable (s : ProcState) (v : ℚ) (label : String) : List GpuInfo :=
  (eligible T s v label).filter fun gpu => !lockHeld foreign s label gpu

def indexSet (gpus : List GpuInfo) : Finset Int := (gpus.map GpuInfo.index).toFinset

/-- The node has `count` GPUs to give. -/
def Able (s : ProcState) (v : ℚ) (count : Int) (spec : NodeSpec) : Prop :=
  count ≤ ((indexSet (obtainable T foreign s v spec.label)).card : Int)

/-- The `n` most preferred of the GPUs exist and have a free lock: every one whose
lock is held comes after at least `n` others. -/
def FirstFree (s : ProcState) (label : String) (gpus : List GpuInfo) (n : Nat) : Prop :=
  n ≤ (indexSet gpus).card ∧ ∀ gpu ∈ gpus, lockHeld foreign s label gpu = true →
    n ≤ (indexSet (gpus.filter fun g => g.before gpu)).card

/-- What the round should return: `count` distinct eligible GPUs of one of the
nodes it considers. -/
structure Grants (s : ProcState) (v : ℚ) (count : Int) (nodeLabel : Option String)
    (multi : MultiGpuSlots) : Prop where
  node : multi.nodeSpec ∈ T.candidateSpecs nodeLabel
  count : (multi.slots.length : Int) = count
  distinct : multi.gpuIndices.Nodup
  slots : ∀ slot ∈ multi.slots,
    slot.nodeSpec = multi.nodeSpec ∧ slot.gpuInfo ∈ eligible T s v multi.nodeSpec.label

end

/-! ## One allocation -/

section

variable {T : Topology} {foreign : LockFile → Bool} {s : ProcState} {v : ℚ} {label : String}

theorem mem_indexSet {gpus : List GpuInfo} {i : Int} :
    i ∈ indexSet gpus ↔ ∃ g ∈ gpus, g.index = i := by
  rw [indexSet, List.mem_toFinset, List.mem_map]

theorem eligible_take (i : Int) :
    eligible T (s.setAvailable label ((s.available label).erase i)) v label =
      (eligible T s v label).filter fun g => decide (g.index ≠ i) := by
  have havail : (s.setAvailable label ((s.available label).erase i)).available label =
      (s.available label).erase i := Function.update_self ..
  unfold eligible
  rw [← GpuAllocator.candidates_erase]
  unfold ProcState.alloc
  rw [havail]

/-- The preferred GPU before the rest: their number goes down by one with it. -/
theorem card_without {gpus : List GpuInfo} {m : GpuInfo} (hm : m ∈ gpus) :
    (indexSet gpus).card =
      (indexSet (gpus.filter fun g => decide (g.index ≠ m.index))).card + 1 := by
  have hset : indexSet gpus =
      insert m.index (indexSet (gpus.filter fun g => decide (g.index ≠ m.index))) := by
    ext i
    rw [Finset.mem_insert, mem_indexSet, mem_indexSet]
    constructor
    · intro ⟨g, hg, hi⟩
      by_cases hne : i = m.index
      · exact Or.inl hne
      · exact Or.inr ⟨g, List.mem_filter.mpr ⟨hg, by simpa [hi] using hne⟩, hi⟩
    · intro h
      cases h with
      | inl h => exact ⟨m, hm, h.symm⟩
      | inr h =>
        obtain ⟨g, hg, hi⟩ := h
        exact ⟨g, (List.mem_filter.mp hg).1, hi⟩
  rw [hset, Finset.card_insert_of_notMem]
  intro h
  obtain ⟨g, hg, hi⟩ := mem_indexSet.mp h
  exact absurd hi (of_decide_eq_true (List.mem_filter.mp hg).2)

theorem firstFree_zero {gpus : List GpuInfo} : FirstFree foreign s label gpus 0 :=
  ⟨Nat.zero_le _, fun _ _ _ => Nat.zero_le _⟩

theorem not_firstFree_nil {n : Nat} : ¬ FirstFree foreign s label [] (n + 1) :=
  fun h => absurd h.1 (Nat.not_succ_le_zero n)

theorem not_firstFree_of_held {gpus : List GpuInfo} {m : GpuInfo} {n : Nat}
    (hm : GpuAllocator.preferred gpus = some m) (hheld : lockHeld foreign s label m = true) :
    ¬ FirstFree foreign s label gpus (n + 1) := by
  intro h
  have hle := h.2 m (GpuAllocator.preferred_mem hm) hheld
  have hnone : gpus.filter (fun g => g.before m) = [] :=
    List.filter_eq_nil_iff.mpr (GpuAllocator.preferred_least hm)
  rw [hnone] at hle
  exact Nat.not_succ_le_zero n hle

/-- Taking the preferred GPU, whose lock is free, leaves one less to take. -/
theorem firstFree_succ {gpus : List GpuInfo} {m : GpuInfo} {n : Nat} {s' : ProcState}
    (hm : GpuAllocator.preferred gpus = some m) (hfree : lockHeld foreign s label m = false)
    (hsame : ∀ g : GpuInfo, g.index ≠ m.index →
      lockHeld foreign s' label g = lockHeld foreign s label g) :
    FirstFree foreign s label gpus (n + 1) ↔
      FirstFree foreign s' label (gpus.filter fun g => decide (g.index ≠ m.index)) n := by
  have hmem := GpuAllocator.preferred_mem hm
  have hleast := GpuAllocator.preferred_least hm
  -- of a GPU whose lock is held, the preferred one stands before it
  have hbefore : ∀ g ∈ gpus, lockHeld foreign s label g = true → g.index ≠ m.index ∧
      (indexSet (gpus.filter fun h => h.before g)).card =
        (indexSet ((gpus.filter fun h : GpuInfo => decide (h.index ≠ m.index)).filter
          fun h => h.before g)).card + 1 := by
    intro g hg hheld
    have hne : g.index ≠ m.index := by
      intro heq
      rw [lockHeld, heq] at hheld
      rw [lockHeld, hheld] at hfree
      cases hfree
    refine ⟨hne, ?_⟩
    have hmg : m.before g = true := by
      have hlow := hleast g hg
      rw [GpuAllocator.before_iff] at hlow ⊢
      omega
    have hbefore : m ∈ gpus.filter fun h => h.before g := List.mem_filter.mpr ⟨hmem, hmg⟩
    rw [card_without hbefore, List.filter_filter, List.filter_filter]
    simp only [Bool.and_comm]
  unfold FirstFree
  rw [card_without hmem, Nat.succ_le_succ_iff]
  constructor
  · intro h
    refine ⟨h.1, fun g hg hheld => ?_⟩
    obtain ⟨hg, hne⟩ := List.mem_filter.mp hg
    rw [hsame g (of_decide_eq_true hne)] at hheld
    have hle := h.2 g hg hheld
    have hcard := (hbefore g hg hheld).2
    omega
  · intro h
    refine ⟨h.1, fun g hg hheld => ?_⟩
    obtain ⟨hne, hcard⟩ := hbefore g hg hheld
    have hle := h.2 g (List.mem_filter.mpr ⟨hg, decide_eq_true hne⟩) (by rwa [hsame g hne])
    omega

end

/-! ## The loop over one node -/

section

variable {T : Topology} {foreign : LockFile → Bool} {pid : Nat} {s : ProcState} {v : ℚ}
  {testId : String}

/-- The process's state with the lock of a GPU. -/
def locked (s : ProcState) (f : LockFile) : ProcState :=
  { s with
    locks := Function.update s.locks f (some s.nextId)
    nextId := s.nextId + 1 }

theorem acquire_held {label : String} {gpu : GpuInfo}
    (h : lockHeld foreign s label gpu = true) :
    evaluate (exec T foreign) (inOs (GpuFileLock.acquire pid label gpu.index testId)) s =
      some (.error (.timedOut label gpu.index), s) := by
  have hbusy : foreign (lockFile label gpu.index) = true ∨
      s.locks (lockFile label gpu.index) ≠ none := by
    rwa [lockHeld, Bool.or_eq_true, Option.isSome_iff_ne_none] at h
  have hflock : exec T foreign (.os (.flock (lockFile label gpu.index))) s =
      some ((none : Option Nat), s) := congrArg some (if_pos hbusy)
  exact (evaluate_perform hflock).trans rfl

theorem acquire_free {label : String} {gpu : GpuInfo}
    (h : lockHeld foreign s label gpu = false) :
    evaluate (exec T foreign) (inOs (GpuFileLock.acquire pid label gpu.index testId)) s =
      some (.ok ⟨label, gpu.index, s.nextId⟩, locked s (lockFile label gpu.index)) := by
  have hbusy : ¬ (foreign (lockFile label gpu.index) = true ∨
      s.locks (lockFile label gpu.index) ≠ none) := by
    rw [← Option.isSome_iff_ne_none, ← Bool.or_eq_true, Bool.not_eq_true]
    exact h
  have hflock : exec T foreign (.os (.flock (lockFile label gpu.index))) s =
      some ((some s.nextId : Option Nat), locked s (lockFile label gpu.index)) :=
    congrArg some (if_neg hbusy)
  refine (evaluate_perform hflock).trans ?_
  by_cases hid : testId = ""
  · subst hid
    rfl
  · show evaluate _ (Prog.mapOp _ _ (Prog.bind (if testId ≠ "" then _ else _) _)) _ = _
    rw [if_pos hid]
    rfl

theorem lockHeld_locked {label : String} {i : Int} {gpu : GpuInfo} (h : gpu.index ≠ i) :
    lockHeld foreign (locked s (lockFile label i)) label gpu = lockHeld foreign s label gpu := by
  have hne : lockFile label gpu.index ≠ lockFile label i :=
    fun heq => h (LockFile.mk.inj heq).2
  show (_ || (Function.update s.locks _ _ _).isSome) = _
  rw [Function.update_of_ne hne]
  rfl

theorem allocate_some {label : String} {m : GpuInfo}
    (h : GpuAllocator.preferred (eligible T s v label) = some m) :
    exec T foreign (.allocate label v) s =
      some (.ok m, s.setAvailable label ((s.available label).erase m.index)) := by
  have halloc : (s.alloc T label).allocate v =
      .ok (m, { s.alloc T label with available := (s.available label).erase m.index }) := by
    unfold GpuAllocator.allocate
    rw [show GpuAllocator.preferred ((s.alloc T label).candidates v) = some m from h]
    rfl
  unfold exec ProcState.exec
  simp only [halloc]

theorem allocate_none {label : String} (h : eligible T s v label = []) :
    exec T foreign (.allocate label v) s = some (.error (.noAvailableGpu v), s) := by
  have halloc : (s.alloc T label).allocate v = .error (.noAvailableGpu v) := by
    unfold GpuAllocator.allocate
    rw [show (s.alloc T label).candidates v = [] from h]
    rfl
  unfold exec ProcState.exec
  simp only [halloc]

variable (foreign) in
/-- What `takeGpus` adds to the slots it was given. -/
structure Taken (s : ProcState) (spec : NodeSpec) (gpus : List GpuInfo) (n : Nat)
    (new : List NodeSlot) : Prop where
  count : new.length = n
  distinct : (new.map fun slot => slot.gpuInfo.index).Nodup
  slots : ∀ slot ∈ new, slot.nodeSpec = spec ∧ slot.gpuInfo ∈ gpus ∧
    lockHeld foreign s spec.label slot.gpuInfo = false

theorem Taken.cons {spec : NodeSpec} {gpus : List GpuInfo} {m : GpuInfo} {n : Nat} {s' : ProcState}
    {new : List NodeSlot} {slot : NodeSlot} (hm : m ∈ gpus)
    (hfree : lockHeld foreign s spec.label m = false) (hslot : slot.gpuInfo = m)
    (hspec : slot.nodeSpec = spec)
    (hsame : ∀ g : GpuInfo, g.index ≠ m.index →
      lockHeld foreign s' spec.label g = lockHeld foreign s spec.label g)
    (h : Taken foreign s' spec (gpus.filter fun g => decide (g.index ≠ m.index)) n new) :
    Taken foreign s spec gpus (n + 1) (slot :: new) := by
  have hother : ∀ x ∈ new, x.gpuInfo.index ≠ m.index := by
    intro x hx
    exact of_decide_eq_true (List.mem_filter.mp (h.slots x hx).2.1).2
  refine ⟨by rw [List.length_cons, h.count], ?_, fun x hx => ?_⟩
  · rw [List.map_cons, List.nodup_cons]
    refine ⟨fun hmem => ?_, h.distinct⟩
    obtain ⟨x, hx, heq⟩ := List.mem_map.mp hmem
    rw [hslot] at heq
    exact hother x hx heq
  · rcases List.mem_cons.mp hx with rfl | hx
    · rw [hslot]
      exact ⟨hspec, hm, hfree⟩
    · obtain ⟨hspec, hgpu, hheld⟩ := h.slots x hx
      rw [hsame _ (hother x hx)] at hheld
      exact ⟨hspec, (List.mem_filter.mp hgpu).1, hheld⟩

variable (T foreign pid v testId)

/-- One node: the loop takes its number of GPUs exactly when the first ones are
free. -/
theorem takeGpus_evaluate (spec : NodeSpec) (n : Nat) :
    ∀ (s : ProcState) (acquired : List NodeSlot), ∃ b s',
      evaluate (exec T foreign) (takeGpus T pid spec v testId n acquired) s = some (b, s') ∧
      (FirstFree foreign s spec.label (eligible T s v spec.label) n →
        ∃ new, b = .ok (acquired ++ new) ∧
          Taken foreign s spec (eligible T s v spec.label) n new) ∧
      (¬ FirstFree foreign s spec.label (eligible T s v spec.label) n →
        ∃ part, b = .error part) := by
  induction n with
  | zero =>
    intro s acquired
    refine ⟨.ok acquired, s, rfl, fun _ => ⟨[], by rw [List.append_nil], ?_⟩,
      fun h => absurd firstFree_zero h⟩
    exact ⟨rfl, List.nodup_nil, fun _ hx => absurd hx List.not_mem_nil⟩
  | succ n ih =>
    intro s acquired
    cases hm : GpuAllocator.preferred (eligible T s v spec.label) with
    | none =>
      have hnil := GpuAllocator.preferred_eq_none.mp hm
      refine ⟨.error acquired, s, evaluate_perform (allocate_none hnil), fun h => ?_,
        fun _ => ⟨acquired, rfl⟩⟩
      rw [hnil] at h
      exact absurd h not_firstFree_nil
    | some m =>
      rw [takeGpus]
      obtain ⟨t, ht⟩ : ∃ t,
        t = s.setAvailable spec.label ((s.available spec.label).erase m.index) := ⟨_, rfl⟩
      have halloc : exec T foreign (.allocate spec.label v) s = some (.ok m, t) := by
        rw [ht]
        exact allocate_some hm
      have hlocks : ∀ g, lockHeld foreign t spec.label g = lockHeld foreign s spec.label g := by
        rw [ht]
        exact fun g => rfl
      by_cases hheld : lockHeld foreign s spec.label m = true
      · have hheld' : lockHeld foreign t spec.label m = true := by rwa [hlocks]
        refine ⟨.error acquired, _, (evaluate_perform halloc).trans
          ((evaluate_bind_of (acquire_held hheld')).trans rfl), fun h => ?_,
          fun _ => ⟨acquired, rfl⟩⟩
        exact absurd h (not_firstFree_of_held hm hheld)
      · have hfree : lockHeld foreign s spec.label m = false := Bool.eq_false_iff.mpr hheld
        have hfree' : lockHeld foreign t spec.label m = false := by rwa [hlocks]
        have hsame : ∀ g : GpuInfo, g.index ≠ m.index →
            lockHeld foreign (locked t (lockFile spec.label m.index)) spec.label g =
              lockHeld foreign s spec.label g := by
          intro g hg
          rw [lockHeld_locked hg, hlocks]
        have hrest : eligible T (locked t (lockFile spec.label m.index)) v spec.label =
            (eligible T s v spec.label).filter fun g => decide (g.index ≠ m.index) := by
          rw [ht]
          exact eligible_take m.index
        obtain ⟨b, s', hrun, hok, herror⟩ := ih (locked t (lockFile spec.label m.index))
          (acquired ++ [newSlot T spec m ⟨spec.label, m.index, t.nextId⟩])
        refine ⟨b, s', (evaluate_perform halloc).trans
          ((evaluate_bind_of (acquire_free hfree')).trans hrun), fun h => ?_, fun h => ?_⟩
        · rw [firstFree_succ hm hfree hsame, ← hrest] at h
          obtain ⟨new, rfl, hnew⟩ := hok h
          rw [hrest] at hnew
          refine ⟨newSlot T spec m ⟨spec.label, m.index, t.nextId⟩ :: new, ?_,
            hnew.cons (GpuAllocator.preferred_mem hm) hfree rfl rfl hsame⟩
          rw [List.append_assoc, List.singleton_append]
        · rw [firstFree_succ hm hfree hsame, ← hrest] at h
          exact herror h

theorem rollback_evaluate (label : String) (slots : List NodeSlot) :
    ∀ s, ∃ s', evaluate (exec T foreign) (rollback label slots) s = some ((), s') := by
  induction slots with
  | nil => exact fun s => ⟨s, rfl⟩
  | cons slot slots ih =>
    intro s
    obtain ⟨t, ht⟩ : ∃ t, evaluate (exec T foreign) (Prog.bind (inOs slot.fileLock.release)
        fun _ => deallocate label slot.gpuInfo none) s = some ((), t) := ⟨_, rfl⟩
    obtain ⟨s', hs'⟩ := ih t
    exact ⟨s', (evaluate_bind_of ht).trans hs'⟩

theorem tryNode_evaluate (spec : NodeSpec) (count : Int) (s : ProcState) : ∃ acquired s',
    evaluate (exec T foreign) (tryNode T pid spec count v testId) s = some (acquired, s') ∧
    (FirstFree foreign s spec.label (eligible T s v spec.label) count.toNat →
      Taken foreign s spec (eligible T s v spec.label) count.toNat acquired) ∧
    (¬ FirstFree foreign s spec.label (eligible T s v spec.label) count.toNat → acquired = []) := by
  obtain ⟨b, t, hrun, hok, herror⟩ := takeGpus_evaluate T foreign pid v testId spec
    count.toNat s []
  by_cases h : FirstFree foreign s spec.label (eligible T s v spec.label) count.toNat
  · obtain ⟨new, rfl, hnew⟩ := hok h
    exact ⟨new, t, (evaluate_bind_of hrun).trans rfl, fun _ => hnew, fun hno => absurd h hno⟩
  · obtain ⟨part, rfl⟩ := herror h
    obtain ⟨s', hs'⟩ := rollback_evaluate T foreign spec.label part t
    exact ⟨[], s', (evaluate_bind_of hrun).trans ((evaluate_bind_of hs').trans rfl),
      fun hyes => absurd hyes h, fun _ => rfl⟩

variable {T foreign pid v testId}

/-- A node that is given up is left as it was. -/
theorem tryNode_unchanged {spec : NodeSpec} {gpus : List GpuInfo}
    (hspec : T.gpus spec.label = some gpus) {count : Int} {s s' : ProcState}
    (h : evaluate (exec T foreign) (tryNode T pid spec count v testId) s = some ([], s')) :
    s.Unchanged s' := by
  obtain ⟨es, hrun⟩ := runSeq_of_evaluate h
  have hstart : SoloInv s s (Held.holding ∅ []) :=
    (SoloInv.start s).frame rfl rfl rfl (by simp [Held.holding, Held.busy])
      (by simp [Held.holding, Held.busy]) (Set.empty_subset _) rfl
  obtain ⟨r, ⟨_, F, rfl⟩, hinv⟩ := runSeq_owned (I := SoloInv s)
    (fun h hpre hexec => h.act_ok hpre hexec) hstart
    (tryNode_owns pid ⟨gpus, hspec⟩ count v testId ∅) hrun
  have hbusy : SoloInv s s' Held.busy :=
    hinv.frame rfl rfl rfl (by simp [Held.holding, Held.busy])
      (by simp [Held.holding, Held.busy]) (Set.empty_subset _) rfl
  have hact : ∀ {o : PoolOp} {s : ProcState} {b : o.Resp} {s' : ProcState} {r : List NodeSlot},
      s.delivered = r → deliverActions.pre o r → exec T foreign o s = some (b, s') →
        ∃ r', deliverActions.post o r b r' ∧ s'.delivered = r' := by
    intro o s b s' r hr _ hexec
    subst hr
    exact ⟨_, deliver_act_ok hexec, rfl⟩
  obtain ⟨d, hd, hsame⟩ := runSeq_owned (I := fun s r => s.delivered = r)
    (fun hr hpre hexec => hact hr hpre hexec) rfl
    (inner_delivers (tryNode_inner T pid spec count v testId) s.delivered) hrun
  apply hbusy.unchanged_iff.mpr
  rw [ProcState.since, hsame, hd, List.drop_length]

theorem eligible_of_unchanged {base : ProcState} (h : base.Unchanged s) (label : String) :
    eligible T s v label = eligible T base v label := by
  unfold eligible ProcState.alloc
  rw [h.1]

theorem firstFree_of_unchanged {base : ProcState} (h : base.Unchanged s) (label : String)
    (gpus : List GpuInfo) (n : Nat) :
    FirstFree foreign s label gpus n ↔ FirstFree foreign base label gpus n := by
  unfold FirstFree lockHeld
  rw [h.2]

theorem taken_of_unchanged {base : ProcState} (h : base.Unchanged s) {spec : NodeSpec}
    {gpus : List GpuInfo} {n : Nat} {new : List NodeSlot} (ht : Taken foreign s spec gpus n new) :
    Taken foreign base spec gpus n new := by
  refine ⟨ht.count, ht.distinct, fun slot hslot => ?_⟩
  have hfacts := ht.slots slot hslot
  unfold lockHeld at hfacts ⊢
  rwa [h.2] at hfacts

variable (T foreign v) in
/-- What the loop over the nodes comes back with. -/
structure Searched (base : ProcState) (n : Nat) (specs : List NodeSpec)
    (found : Option MultiGpuSlots) : Prop where
  taken : ∀ multi ∈ found, multi.nodeSpec ∈ specs ∧
    FirstFree foreign base multi.nodeSpec.label (eligible T base v multi.nodeSpec.label) n ∧
    Taken foreign base multi.nodeSpec (eligible T base v multi.nodeSpec.label) n multi.slots
  passed : found = none → ∀ spec ∈ specs,
    ¬ FirstFree foreign base spec.label (eligible T base v spec.label) n

theorem Searched.skip {base : ProcState} {n : Nat} {spec : NodeSpec} {specs : List NodeSpec}
    {found : Option MultiGpuSlots} (h : Searched T foreign v base n specs found)
    (hno : ¬ FirstFree foreign base spec.label (eligible T base v spec.label) n) :
    Searched T foreign v base n (spec :: specs) found where
  taken := by
    intro multi hmulti
    obtain ⟨hmem, hfacts⟩ := h.taken multi hmulti
    exact ⟨List.mem_cons_of_mem _ hmem, hfacts⟩
  passed := by
    intro hfound x hx
    rcases List.mem_cons.mp hx with rfl | hx
    · exact hno
    · exact h.passed hfound x hx

/-- A node the topology does not know has no GPUs to take. -/
theorem not_firstFree_of_unknown {base : ProcState} {label : String} (hg : T.gpus label = none)
    {n : Nat} (hn : 0 < n) : ¬ FirstFree foreign base label (eligible T base v label) n := by
  have hnil : eligible T base v label = [] := by
    unfold eligible GpuAllocator.candidates ProcState.alloc
    rw [hg]
    rfl
  obtain ⟨m, rfl⟩ := Nat.exists_eq_succ_of_ne_zero (Nat.pos_iff_ne_zero.mp hn)
  rw [hnil]
  exact not_firstFree_nil

variable (T foreign pid v testId) in
/-- The nodes in order: the first whose first GPUs are free is taken. -/
theorem tryNodes_evaluate {count : Int} (hcount : 1 ≤ count) (base : ProcState)
    (specs : List NodeSpec) : ∀ s, base.Unchanged s → ∃ found s',
      evaluate (exec T foreign) (tryNodes T pid count v testId specs) s = some (found, s') ∧
      Searched T foreign v base count.toNat specs found := by
  have hpos : 0 < count.toNat := by omega
  induction specs with
  | nil =>
    intro s _
    exact ⟨none, s, rfl, fun _ h => absurd h (Option.not_mem_none _),
      fun _ _ h => absurd h List.not_mem_nil⟩
  | cons spec specs ih =>
    intro s hs
    rw [tryNodes]
    cases hg : T.gpus spec.label with
    | none =>
      obtain ⟨found, s', hrun, hfound⟩ := ih s hs
      exact ⟨found, s', hrun, hfound.skip (not_firstFree_of_unknown hg hpos)⟩
    | some gpus =>
      obtain ⟨acquired, t, hrun, hok, herror⟩ :=
        tryNode_evaluate T foreign pid v testId spec count s
      rw [eligible_of_unchanged hs, firstFree_of_unchanged hs] at hok herror
      by_cases h : FirstFree foreign base spec.label (eligible T base v spec.label) count.toNat
      · have htaken := taken_of_unchanged hs (hok h)
        cases acquired with
        | nil =>
          have hlen := htaken.count
          rw [List.length_nil] at hlen
          omega
        | cons slot slots =>
          refine ⟨some ⟨slot :: slots, spec⟩, t, (evaluate_bind_of hrun).trans rfl, ?_, ?_⟩
          · intro multi hmulti
            obtain rfl := Option.some.inj hmulti
            exact ⟨List.mem_cons_self, h, htaken⟩
          · intro hno
            cases hno
      · obtain rfl := herror h
        have hback := tryNode_unchanged hg hrun
        obtain ⟨found, s', hrun', hfound⟩ := ih t ⟨hback.1.trans hs.1, hback.2.trans hs.2⟩
        exact ⟨found, s', (evaluate_bind_of hrun).trans hrun', hfound.skip h⟩

end

/-! ## The round -/

section

variable (T : Topology) (foreign : LockFile → Bool) (pid : Nat) (s : ProcState) (v : ℚ)
  (testId : String) {count : Int} (nodeLabel : Option String)

theorem able_of_taken {spec : NodeSpec} {new : List NodeSlot} (hcount : 1 ≤ count)
    (h : Taken foreign s spec (eligible T s v spec.label) count.toNat new) :
    Able T foreign s v count spec := by
  have hsub : (new.map fun slot => slot.gpuInfo.index).toFinset ⊆
      indexSet (obtainable T foreign s v spec.label) := by
    intro i hi
    obtain ⟨slot, hslot, rfl⟩ := List.mem_map.mp (List.mem_toFinset.mp hi)
    obtain ⟨_, hgpu, hfree⟩ := h.slots slot hslot
    refine mem_indexSet.mpr ⟨slot.gpuInfo, List.mem_filter.mpr ⟨hgpu, ?_⟩, rfl⟩
    rw [hfree]
    rfl
  have hcard := Finset.card_le_card hsub
  rw [List.toFinset_card_of_nodup h.distinct, List.length_map, h.count] at hcard
  unfold Able
  omega

/-- A round returns what it should, whenever it can, exactly when on some node
the preferred GPUs are the free ones, or no node has enough. -/
theorem slotsRound_progress_iff (hcount : 1 ≤ count) : ∃ found s',
    evaluate (exec T foreign) (slotsRound T pid count nodeLabel v testId) s = some (found, s') ∧
    (((∃ multi ∈ found, Grants T s v count nodeLabel multi) ↔
        ∃ spec ∈ T.candidateSpecs nodeLabel, Able T foreign s v count spec) ↔
      ((∃ spec ∈ T.candidateSpecs nodeLabel, Able T foreign s v count spec) →
        ∃ spec ∈ T.candidateSpecs nodeLabel,
          FirstFree foreign s spec.label (eligible T s v spec.label) count.toNat)) := by
  obtain ⟨found, t, hrun, hfound⟩ := tryNodes_evaluate T foreign pid v testId hcount s
    (T.candidateSpecs nodeLabel) s ⟨rfl, rfl⟩
  have hround : ∃ s', evaluate (exec T foreign) (slotsRound T pid count nodeLabel v testId) s =
      some (found, s') := ⟨_, (evaluate_bind_of hrun).trans rfl⟩
  obtain ⟨s', hround⟩ := hround
  refine ⟨found, s', hround, ?_⟩
  cases found with
  | none =>
    have hno : ¬ ∃ spec ∈ T.candidateSpecs nodeLabel,
        FirstFree foreign s spec.label (eligible T s v spec.label) count.toNat := by
      rintro ⟨spec, hspec, h⟩
      exact hfound.passed rfl spec hspec h
    simp [hno]
  | some multi =>
    obtain ⟨hspec, hfirst, htaken⟩ := hfound.taken multi rfl
    have hgrants : Grants T s v count nodeLabel multi := by
      refine ⟨hspec, ?_, htaken.distinct, fun slot hslot => ?_⟩
      · rw [htaken.count]
        omega
      · have hfacts := htaken.slots slot hslot
        exact ⟨hfacts.1, hfacts.2.1⟩
    have hable := able_of_taken T foreign s v hcount htaken
    exact iff_of_true (iff_of_true ⟨multi, rfl, hgrants⟩ ⟨_, hspec, hable⟩)
      fun _ => ⟨_, hspec, hfirst⟩

end

/-- One node of two GPUs, both in `available`. -/
def oneNode : Topology :=
  { nodeSpecs := [{ hostname := "localhost" }]
    gpus := fun _ => some [⟨0, "gfx942", 65536, 0⟩, ⟨1, "gfx942", 65536, 0⟩]
    headroomGb := 0
    sshSessions := fun _ => none }

def bothAvailable : ProcState :=
  { available := fun _ => {0, 1}
    locks := fun _ => none
    nextId := 0
    delivered := [] }

/-- Another worker has the first GPU. -/
def firstHeld (f : LockFile) : Bool := decide (f.gpuIndex = 0)

theorem slotsRound_progress_iff_firstHeld : ∃ found s',
    evaluate (exec oneNode firstHeld) (slotsRound oneNode 1 1 none 0 "test") bothAvailable =
      some (found, s') ∧
    (((∃ multi ∈ found, Grants oneNode bothAvailable 0 1 none multi) ↔
        ∃ spec ∈ oneNode.candidateSpecs none, Able oneNode firstHeld bothAvailable 0 1 spec) ↔
      ((∃ spec ∈ oneNode.candidateSpecs none, Able oneNode firstHeld bothAvailable 0 1 spec) →
        ∃ spec ∈ oneNode.candidateSpecs none,
          FirstFree firstHeld bothAvailable spec.label
            (eligible oneNode bothAvailable 0 spec.label) (1 : Int).toNat)) :=
  slotsRound_progress_iff oneNode firstHeld 1 bothAvailable 0 "test" none (by decide)

theorem firstHeld_able :
    ∃ spec ∈ oneNode.candidateSpecs none, Able oneNode firstHeld bothAvailable 0 1 spec := by
  refine ⟨{ hostname := "localhost" }, List.mem_cons_self, ?_⟩
  unfold Able
  decide

theorem firstHeld_run :
    (evaluate (exec oneNode firstHeld) (slotsRound oneNode 1 1 none 0 "test")
      bothAvailable).map (fun x => x.1) = some none := by
  decide

/-- The second GPU is free and the round returns nothing. -/
theorem slotsRound_stops_at_held : ∃ found s',
    evaluate (exec oneNode firstHeld) (slotsRound oneNode 1 1 none 0 "test") bothAvailable =
      some (found, s') ∧
    ¬ ((∃ multi ∈ found, Grants oneNode bothAvailable 0 1 none multi) ↔
      ∃ spec ∈ oneNode.candidateSpecs none, Able oneNode firstHeld bothAvailable 0 1 spec) := by
  obtain ⟨⟨found, s'⟩, hrun, hfound⟩ := Option.map_eq_some_iff.mp firstHeld_run
  have hnone : found = none := hfound
  refine ⟨found, s', hrun, fun hiff => ?_⟩
  obtain ⟨multi, hmulti, _⟩ := hiff.mpr firstHeld_able
  rw [hnone] at hmulti
  cases hmulti

end SlotsProgress
end Nodes
end RocmTests

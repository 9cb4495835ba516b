import RocmTests.Nodes.SlotScan

/-!
# The VRAM check before the first round

`_has_vram_capacity` counts the GPUs of a node that could ever satisfy a request,
and an acquisition that no node can satisfy raises before it waits.  `allocate`
applies the same filter to what is available at the moment.  The two agree where
every GPU is available and every lock file is free.

A requirement that is not positive passes the check unseen.
-/

namespace RocmTests
namespace Nodes
namespace VramCapacity

open Conc Gpu Pool MultiNode SlotsProgress SlotScan

/-- No other process holds a lock file. -/
def nobody : LockFile → Bool := fun _ => false

section

variable (T : Topology)

/-- Some of the pool is available and every lock file is free. -/
structure Idle (s : ProcState) : Prop where
  available : ∀ label, s.available label ⊆ (T.indices label).toFinset
  locks : ∀ f, s.locks f = none

def allAvailable : ProcState :=
  { available := fun label => (T.indices label).toFinset
    locks := fun _ => none
    nextId := 0
    delivered := [] }

variable (pid : Nat) (v : ℚ) (testId : String)

/-- One round of `acquire_slot` returns a slot. -/
def SlotRoundGrants (s : ProcState) : Prop :=
  ∃ slot s', Ends (exec T nobody) (slotRound T pid v testId) s (some slot) s'

/-- One round of `acquire_slots` returns its slots. -/
def SlotsRoundGrants (count : Int) (nodeLabel : Option String) (s : ProcState) : Prop :=
  ∃ multi s', Ends (exec T nobody) (slotsRound T pid count nodeLabel v testId) s (some multi) s'

end

/-! ## When a round grants -/

section

variable {T : Topology} {pid : Nat} {v : ℚ} {testId : String} {s : ProcState} {count : Int}
  {nodeLabel : Option String} {label : String}

theorem allAvailable_idle : Idle T (allAvailable T) := ⟨fun _ => Finset.Subset.refl _, fun _ => rfl⟩

theorem Idle.free (h : Idle T s) (label : String) (gpu : GpuInfo) :
    lockHeld nobody s label gpu = false := by
  unfold lockHeld nobody
  rw [h.locks]
  rfl

/-- Where no lock is held a node can give as many GPUs as are eligible. -/
theorem Idle.firstFree_iff (h : Idle T s) {gpus : List GpuInfo} {n : Nat} :
    FirstFree nobody s label gpus n ↔ n ≤ (indexSet gpus).card := by
  refine ⟨fun hfirst => hfirst.1, fun hle => ⟨hle, fun gpu _ hheld => ?_⟩⟩
  rw [h.free label gpu] at hheld
  cases hheld

theorem Idle.obtainable_eq (h : Idle T s) :
    obtainable T nobody s v label = eligible T s v label := by
  refine List.filter_eq_self.mpr fun gpu _ => ?_
  rw [h.free label gpu]
  rfl

theorem card_pos_iff {gpus : List GpuInfo} : 1 ≤ (indexSet gpus).card ↔ gpus ≠ [] := by
  rw [Nat.one_le_iff_ne_zero, Finset.card_ne_zero]
  constructor
  · rintro ⟨i, hi⟩ rfl
    exact absurd hi (Finset.notMem_empty i)
  · intro h
    obtain ⟨gpu, hgpu⟩ := List.exists_mem_of_ne_nil gpus h
    exact ⟨gpu.index, mem_indexSet.mpr ⟨gpu, hgpu, rfl⟩⟩

theorem slotsRound_searched (T : Topology) (pid : Nat) (s : ProcState) (v : ℚ) (testId : String)
    (nodeLabel : Option String) (hcount : 1 ≤ count) : ∃ found s',
      Ends (exec T nobody) (slotsRound T pid count nodeLabel v testId) s found s' ∧
      SlotsProgress.Searched T nobody v s count.toNat (T.candidateSpecs nodeLabel) found := by
  obtain ⟨found, t, hrun, hfound⟩ := tryNodes_evaluate T nobody pid v testId hcount s
    (T.candidateSpecs nodeLabel) s ⟨rfl, rfl⟩
  exact ⟨found, _, Ends.of_evaluate ((evaluate_bind_of hrun).trans rfl), hfound⟩

variable (pid v testId nodeLabel) in
theorem slotsRoundGrants_iff (hcount : 1 ≤ count) (h : Idle T s) :
    SlotsRoundGrants T pid v testId count nodeLabel s ↔
      ∃ spec ∈ T.candidateSpecs nodeLabel,
        count.toNat ≤ (indexSet (eligible T s v spec.label)).card := by
  obtain ⟨found, t, hrun, hfound⟩ := slotsRound_searched T pid s v testId nodeLabel hcount
  constructor
  · intro ⟨multi, s', hgrant⟩
    obtain ⟨rfl, _⟩ := hgrant.unique hrun
    obtain ⟨hspec, hfirst, _⟩ := hfound.taken multi rfl
    exact ⟨multi.nodeSpec, hspec, hfirst.1⟩
  · intro ⟨spec, hspec, hle⟩
    cases found with
    | none => exact absurd (h.firstFree_iff.mpr hle) (hfound.passed rfl spec hspec)
    | some multi => exact ⟨multi, t, hrun⟩

variable (pid v testId) in
theorem slotRoundGrants_iff (h : Idle T s) :
    SlotRoundGrants T pid v testId s ↔
      ∃ spec ∈ T.nodeSpecs, 1 ≤ (indexSet (eligible T s v spec.label)).card := by
  obtain ⟨found, t, hrun, hfound⟩ := slotRound_searched T nobody pid s v testId
  have hsome : found.isSome = true ↔
      ∃ spec ∈ T.nodeSpecs, 1 ≤ (indexSet (eligible T s v spec.label)).card := by
    simp only [hfound.isSome_iff, card_pos_iff, h.obtainable_eq]
  rw [← hsome]
  constructor
  · intro ⟨slot, s', hgrant⟩
    obtain ⟨rfl, _⟩ := hgrant.unique hrun
    rfl
  · intro hfoundSome
    obtain ⟨slot, rfl⟩ := Option.isSome_iff_exists.mp hfoundSome
    exact ⟨slot, _, hrun⟩

/-! ## What the check counts -/

/-- What is eligible now would be eligible with everything available. -/
theorem card_le_allAvailable (h : Idle T s) (label : String) :
    (indexSet (eligible T s v label)).card ≤
      (indexSet (eligible T (allAvailable T) v label)).card := by
  refine Finset.card_le_card fun i hi => ?_
  obtain ⟨gpu, hgpu, rfl⟩ := mem_indexSet.mp hi
  obtain ⟨hpool, havail, hfits⟩ := mem_eligible.mp hgpu
  exact mem_indexSet.mpr ⟨gpu, mem_eligible.mpr ⟨hpool, h.available label havail, hfits⟩, rfl⟩

theorem eligible_allAvailable (hv : v ≠ 0) (label : String) :
    eligible T (allAvailable T) v label =
      ((T.gpus label).getD []).filter fun gpu => gpu.fits T.headroomGb v := by
  refine List.filter_congr fun gpu hgpu => ?_
  have hin : gpu.index ∈ ((allAvailable T).alloc T label).available :=
    List.mem_toFinset.mpr (List.mem_map.mpr ⟨gpu, hgpu, rfl⟩)
  have hheadroom : ((allAvailable T).alloc T label).headroomGb = T.headroomGb := rfl
  rw [decide_eq_true hin, decide_eq_false hv, Bool.true_and, Bool.false_or, hheadroom]

/-- Distinct indices: the check counts GPUs, `allocate` takes indices. -/
theorem card_allAvailable (hdistinct : (T.indices label).Nodup) (hv : v ≠ 0) :
    (indexSet (eligible T (allAvailable T) v label)).card =
      (((T.gpus label).getD []).filter fun gpu => gpu.fits T.headroomGb v).length := by
  rw [eligible_allAvailable hv, indexSet, List.toFinset_card_of_nodup, List.length_map]
  exact hdistinct.sublist (List.Sublist.map _ List.filter_sublist)

theorem mem_candidateSpecs (hlabel : nodeLabel ≠ some "") {spec : NodeSpec} :
    spec ∈ T.candidateSpecs nodeLabel ↔
      spec ∈ T.nodeSpecs ∧ (nodeLabel.isNone || nodeLabel == some spec.label) = true := by
  cases nodeLabel with
  | none => simp [Topology.candidateSpecs]
  | some label =>
    have hne : ¬ label = "" := fun h => hlabel (congrArg some h)
    have hspecs : T.candidateSpecs (some label) =
        T.nodeSpecs.filter fun s => decide (s.label = label) := if_neg hne
    rw [hspecs, List.mem_filter, decide_eq_true_iff, Option.isNone_some, Bool.false_or,
      beq_iff_eq, Option.some.injEq, eq_comm (a := label)]

variable (v) in
theorem hasVramCapacity_iff (hdistinct : ∀ spec ∈ T.nodeSpecs, (T.indices spec.label).Nodup)
    (hcount : 1 ≤ count) (hlabel : nodeLabel ≠ some "") :
    T.hasVramCapacity v count nodeLabel = true ↔ v ≤ 0 ∨ ∃ spec ∈ T.candidateSpecs nodeLabel,
      count.toNat ≤ (indexSet (eligible T (allAvailable T) v spec.label)).card := by
  by_cases hv : v ≤ 0
  · refine iff_of_true ?_ (Or.inl hv)
    rw [Topology.hasVramCapacity, decide_eq_true hv, Bool.true_or]
  · have hne : v ≠ 0 := fun h => hv (le_of_eq h)
    rw [Topology.hasVramCapacity, decide_eq_false hv, Bool.false_or, List.any_eq_true,
      or_iff_right hv]
    refine exists_congr fun spec => ?_
    rw [mem_candidateSpecs hlabel, Bool.and_eq_true, and_assoc]
    refine and_congr_right fun hspec => and_congr_right fun _ => ?_
    rw [card_allAvailable (hdistinct spec hspec) hne]
    cases T.gpus spec.label with
    | none =>
      refine iff_of_false Bool.false_ne_true fun hle => ?_
      have hzero : count.toNat ≤ 0 := hle
      omega
    | some gpus =>
      rw [decide_eq_true_iff, Option.getD_some]
      omega

end

/-! ## The check and the rounds -/

section

variable {T : Topology} {pid : Nat} {v w : ℚ} {testId : String} {count : Int}
  {nodeLabel : Option String}

/-- The call raises before its first access exactly when the check fails. -/
theorem acquireSlots_raises_iff :
    acquireSlots T pid count nodeLabel v w testId =
        .ret (.error (.noCapacity v count nodeLabel)) ↔
      ¬ T.hasVramCapacity v count nodeLabel = true := by
  unfold acquireSlots
  by_cases h : T.hasVramCapacity v count nodeLabel = true
  · rw [if_pos h]
    exact iff_of_false (fun heq => by cases heq) (not_not_intro h)
  · rw [if_neg h]
    exact iff_of_true rfl h

theorem acquireSlot_raises_iff :
    acquireSlot T pid v w testId = .ret (.error (.noCapacity v 1 none)) ↔
      ¬ T.hasVramCapacity v 1 none = true := by
  unfold acquireSlot
  by_cases h : T.hasVramCapacity v 1 none = true
  · rw [if_pos h]
    exact iff_of_false (fun heq => by cases heq) (not_not_intro h)
  · rw [if_neg h]
    exact iff_of_true rfl h

/-- With everything available a round grants if it does so in any idle state. -/
theorem exists_idle_iff {specs : List NodeSpec} {n : Nat} :
    (∃ s, Idle T s ∧ ∃ spec ∈ specs, n ≤ (indexSet (eligible T s v spec.label)).card) ↔
      ∃ spec ∈ specs, n ≤ (indexSet (eligible T (allAvailable T) v spec.label)).card := by
  constructor
  · intro ⟨s, hs, spec, hspec, hle⟩
    exact ⟨spec, hspec, hle.trans (card_le_allAvailable hs spec.label)⟩
  · exact fun h => ⟨allAvailable T, allAvailable_idle, h⟩

end

/-- For a requirement that is positive, the check passes exactly when a round that
finds every GPU available and every lock file free succeeds, and the call raises
before it waits exactly when no idle state lets a round succeed. -/
theorem failFast_agrees (T : Topology) (pid : Nat) (v w : ℚ) (testId : String) {count : Int}
    {nodeLabel : Option String} (hcount : 1 ≤ count) (hlabel : nodeLabel ≠ some "")
    (hdistinct : ∀ spec ∈ T.nodeSpecs, (T.indices spec.label).Nodup) :
    (T.hasVramCapacity v count nodeLabel = true ↔
      v ≤ 0 ∨ SlotsRoundGrants T pid v testId count nodeLabel (allAvailable T)) ∧
    (acquireSlots T pid count nodeLabel v w testId =
        .ret (.error (.noCapacity v count nodeLabel)) ↔
      0 < v ∧ ∀ s, Idle T s → ¬ SlotsRoundGrants T pid v testId count nodeLabel s) ∧
    (acquireSlot T pid v w testId = .ret (.error (.noCapacity v 1 none)) ↔
      0 < v ∧ ∀ s, Idle T s → ¬ SlotRoundGrants T pid v testId s) := by
  have hslots := fun s (hs : Idle T s) => slotsRoundGrants_iff pid v testId nodeLabel
    hcount hs
  have hslot := fun s (hs : Idle T s) => slotRoundGrants_iff pid v testId hs
  have hcheck := hasVramCapacity_iff v hdistinct hcount hlabel
  have hlabelOne : (none : Option String) ≠ some "" := by decide
  have hcheckOne := hasVramCapacity_iff v hdistinct (Int.le_refl 1) hlabelOne
  refine ⟨by rw [hcheck, hslots _ allAvailable_idle], ?_, ?_⟩
  · rw [acquireSlots_raises_iff, hcheck, ← exists_idle_iff, not_or, not_le]
    refine and_congr_right fun _ => ?_
    constructor
    · exact fun h s hs hgrants => h ⟨s, hs, (hslots s hs).mp hgrants⟩
    · exact fun h ⟨s, hs, hle⟩ => h s hs ((hslots s hs).mpr hle)
  · rw [acquireSlot_raises_iff, hcheckOne, ← exists_idle_iff, not_or, not_le]
    refine and_congr_right fun _ => ?_
    constructor
    · exact fun h s hs hgrants => h ⟨s, hs, (hslot s hs).mp hgrants⟩
    · exact fun h ⟨s, hs, hle⟩ => h s hs ((hslot s hs).mpr hle)

theorem failFast_agrees_oneNode :
    (oneNode.hasVramCapacity 1 2 none = true ↔
      (1 : ℚ) ≤ 0 ∨ SlotsRoundGrants oneNode 1 1 "test" 2 none (allAvailable oneNode)) ∧
    (acquireSlots oneNode 1 2 none 1 30 "test" = .ret (.error (.noCapacity 1 2 none)) ↔
      (0 : ℚ) < 1 ∧ ∀ s, Idle oneNode s → ¬ SlotsRoundGrants oneNode 1 1 "test" 2 none s) ∧
    (acquireSlot oneNode 1 1 30 "test" = .ret (.error (.noCapacity 1 1 none)) ↔
      (0 : ℚ) < 1 ∧ ∀ s, Idle oneNode s → ¬ SlotRoundGrants oneNode 1 1 "test" s) :=
  failFast_agrees oneNode 1 1 30 "test" (by decide) (by decide) (by decide)

/-- Three GPUs of a node with two, each with enough memory: the check fails, and
without a requirement the round fails all the same. -/
theorem tooMany_fails_check :
    ¬ (oneNode.hasVramCapacity 1 3 none = true ↔
      SlotsRoundGrants oneNode 1 1 "test" 3 none (allAvailable oneNode) ∨
        ¬ SlotsRoundGrants oneNode 1 0 "test" 3 none (allAvailable oneNode)) := by
  intro h
  have hcheck : oneNode.hasVramCapacity 1 3 none = false := by decide +kernel
  have hround : ¬ SlotsRoundGrants oneNode 1 0 "test" 3 none (allAvailable oneNode) := by
    rw [slotsRoundGrants_iff _ _ _ _ (by decide) allAvailable_idle]
    decide +kernel
  rw [hcheck] at h
  exact Bool.false_ne_true (h.mpr (Or.inr hround))

end VramCapacity
end Nodes
end RocmTests

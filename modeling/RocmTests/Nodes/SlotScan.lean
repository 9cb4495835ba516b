import RocmTests.Conc.Ending
import RocmTests.Nodes.SlotsProgress

/-!
# One scan of `acquire_slot`

The inner loop has no counter.  A GPU whose lock is held elsewhere stays out of
`available` while the node is scanned, so the next `allocate` proposes another,
and the loop ends because the set gets smaller.  The GPUs passed over are given
back when the node is left, and a second time when a slot was found.

One round runs with the lock files of the other processes fixed.
-/

namespace RocmTests
namespace Nodes
namespace SlotScan

open Conc Gpu Pool MultiNode SlotsProgress

/-- No GPU of the list comes before it. -/
def Least (gpus : List GpuInfo) (gpu : GpuInfo) : Prop :=
  gpu ∈ gpus ∧ ∀ g ∈ gpus, ¬ g.before gpu = true

/-- What a scan should return: of the first node that has a GPU to give, the one
that comes first. -/
structure FirstObtainable (T : Topology) (foreign : LockFile → Bool) (s : ProcState) (v : ℚ)
    (specs : List NodeSpec) (slot : NodeSlot) : Prop where
  node : ∃ before after, specs = before ++ slot.nodeSpec :: after ∧
    ∀ spec ∈ before, obtainable T foreign s v spec.label = []
  gpu : Least (obtainable T foreign s v slot.nodeSpec.label) slot.gpuInfo

/-! ## GPUs kept out of `available` -/

section

variable {T : Topology} {foreign : LockFile → Bool} {s : ProcState} {v : ℚ} {label : String}

theorem indexSet_append (gpus : List GpuInfo) (gpu : GpuInfo) :
    indexSet (gpus ++ [gpu]) = insert gpu.index (indexSet gpus) := by
  ext i
  simp [indexSet, eq_comm]

@[simp] theorem setAvailable_available (A : Finset Int) :
    (s.setAvailable label A).available label = A := Function.update_self ..

@[simp] theorem setAvailable_setAvailable (A B : Finset Int) :
    (s.setAvailable label A).setAvailable label B = s.setAvailable label B := by
  unfold ProcState.setAvailable
  rw [Function.update_idem]

theorem setAvailable_self : s.setAvailable label (s.available label) = s := by
  unfold ProcState.setAvailable
  rw [Function.update_eq_self]

/-- The process's state while the GPUs of these indices are kept out. -/
def without (s : ProcState) (label : String) (I : Finset Int) : ProcState :=
  s.setAvailable label (s.available label \ I)

theorem mem_eligible {gpu : GpuInfo} : gpu ∈ eligible T s v label ↔
    gpu ∈ (T.gpus label).getD [] ∧ gpu.index ∈ s.available label ∧
      (v = 0 ∨ gpu.fits T.headroomGb v = true) := by
  rw [eligible, GpuAllocator.candidates, List.mem_filter, Bool.and_eq_true, Bool.or_eq_true,
    decide_eq_true_iff, decide_eq_true_iff]
  rfl

theorem mem_eligible_without {I : Finset Int} {gpu : GpuInfo} :
    gpu ∈ eligible T (without s label I) v label ↔
      gpu ∈ eligible T s v label ∧ gpu.index ∉ I := by
  rw [mem_eligible, mem_eligible, without, setAvailable_available, Finset.mem_sdiff]
  tauto

variable (T foreign s label) in
theorem releaseAll_ends (gpus : List GpuInfo) : ∀ (A : Finset Int),
    Ends (exec T foreign) (releaseAll label gpus) (s.setAvailable label A) ()
      (s.setAvailable label (A ∪ indexSet gpus)) := by
  induction gpus with
  | nil =>
    intro A
    have hnil : A ∪ indexSet [] = A := Finset.union_empty A
    rw [hnil]
    exact Ends.ret () _
  | cons gpu gpus ih =>
    intro A
    have hone : exec T foreign (.deallocate label gpu none) (s.setAvailable label A) =
        some ((), s.setAvailable label (insert gpu.index A)) := by
      have hrelease : exec T foreign (.deallocate label gpu none) (s.setAvailable label A) =
          some ((), (s.setAvailable label A).setAvailable label
            (insert gpu.index ((s.setAvailable label A).available label))) := rfl
      rw [hrelease, setAvailable_available, setAvailable_setAvailable]
    have hall : A ∪ indexSet (gpu :: gpus) = insert gpu.index A ∪ indexSet gpus := by
      ext i
      simp [indexSet]
    rw [hall]
    exact Ends.perform hone (ih _)

end

/-! ## One node -/

section

variable {T : Topology} {foreign : LockFile → Bool} {pid : Nat} {s : ProcState} {v : ℚ}
  {spec : NodeSpec} {testId : String}

variable (T foreign v) in
/-- What holds before every iteration: the GPUs passed over are out of `available`,
they were in it, and each has its lock held elsewhere. -/
structure PassedOver (s : ProcState) (label : String) (skipped : List GpuInfo) (t : ProcState) :
    Prop where
  state : t = without s label (indexSet skipped)
  taken : indexSet skipped ⊆ s.available label
  held : ∀ gpu ∈ eligible T s v label, gpu.index ∈ indexSet skipped →
    lockHeld foreign s label gpu = true

/-- The process's state with one GPU of a node and its lock. -/
def holding (s : ProcState) (label : String) (gpu : GpuInfo) : ProcState :=
  (locked s (lockFile label gpu.index)).setAvailable label ((s.available label).erase gpu.index)

variable (T foreign v) in
/-- What the loop ends with, before the GPUs passed over are given back again. -/
def LeftLoop (s : ProcState) (spec : NodeSpec) (x : List GpuInfo × Option NodeSlot)
    (t : ProcState) : Prop :=
  indexSet x.1 ⊆ s.available spec.label ∧
  match x.2 with
  | none => obtainable T foreign s v spec.label = [] ∧ t = without s spec.label (indexSet x.1)
  | some slot => slot.nodeSpec = spec ∧
    Least (obtainable T foreign s v spec.label) slot.gpuInfo ∧
    slot.gpuInfo.index ∉ indexSet x.1 ∧ t = holding s spec.label slot.gpuInfo

theorem lockHeld_congr {g h : GpuInfo} (label : String) (hindex : g.index = h.index) :
    lockHeld foreign s label g = lockHeld foreign s label h := by
  unfold lockHeld
  rw [hindex]

variable (T foreign s v) in
theorem PassedOver.start (label : String) : PassedOver T foreign v s label [] s where
  state := by
    have hnil : s.available label \ indexSet [] = s.available label := Finset.sdiff_empty
    rw [without, hnil, setAvailable_self]
  taken := Finset.empty_subset _
  held := fun _ _ h => absurd h (Finset.notMem_empty _)

/-- The next GPU has its lock held elsewhere too. -/
theorem PassedOver.snoc {label : String} {skipped : List GpuInfo} {t : ProcState} {m : GpuInfo}
    (h : PassedOver T foreign v s label skipped t) (hm : m ∈ eligible T s v label)
    (hheld : lockHeld foreign s label m = true) :
    PassedOver T foreign v s label (skipped ++ [m])
      (t.setAvailable label ((t.available label).erase m.index)) where
  state := by
    rw [h.state, indexSet_append]
    unfold without
    rw [setAvailable_available, setAvailable_setAvailable, Finset.sdiff_insert]
  taken := by
    rw [indexSet_append]
    exact Finset.insert_subset (mem_eligible.mp hm).2.1 h.taken
  held := by
    intro gpu hgpu hindex
    rw [indexSet_append] at hindex
    rcases Finset.mem_insert.mp hindex with heq | hindex
    · rw [lockHeld_congr label heq]
      exact hheld
    · exact h.held gpu hgpu hindex

theorem PassedOver.mem_eligible {label : String} {skipped : List GpuInfo} {t : ProcState}
    (h : PassedOver T foreign v s label skipped t) {gpu : GpuInfo} :
    gpu ∈ eligible T t v label ↔ gpu ∈ eligible T s v label ∧ gpu.index ∉ indexSet skipped := by
  rw [h.state]
  exact mem_eligible_without

/-- No GPU is proposed any more: all that are eligible have been passed over. -/
theorem PassedOver.obtainable_nil {label : String} {skipped : List GpuInfo} {t : ProcState}
    (h : PassedOver T foreign v s label skipped t) (hnil : eligible T t v label = []) :
    obtainable T foreign s v label = [] := by
  refine List.filter_eq_nil_iff.mpr fun gpu hgpu => ?_
  have hpassed : gpu.index ∈ indexSet skipped := by
    by_contra hnot
    have hmem := h.mem_eligible.mpr ⟨hgpu, hnot⟩
    rw [hnil] at hmem
    exact List.not_mem_nil hmem
  rw [h.held gpu hgpu hpassed]
  decide

/-- The GPU proposed has a free lock: it is the first of those that have. -/
theorem PassedOver.least {label : String} {skipped : List GpuInfo} {t : ProcState} {m : GpuInfo}
    (h : PassedOver T foreign v s label skipped t)
    (hm : GpuAllocator.preferred (eligible T t v label) = some m)
    (hfree : lockHeld foreign s label m = false) :
    Least (obtainable T foreign s v label) m := by
  have hmem := (h.mem_eligible.mp (GpuAllocator.preferred_mem hm)).1
  refine ⟨List.mem_filter.mpr ⟨hmem, by rw [hfree]; rfl⟩, fun g hg => ?_⟩
  obtain ⟨hg, hgfree⟩ := List.mem_filter.mp hg
  refine GpuAllocator.preferred_least hm g (h.mem_eligible.mpr ⟨hg, fun hindex => ?_⟩)
  rw [h.held g hg hindex] at hgfree
  cases hgfree

variable (T pid v testId) in
/-- One iteration of the inner loop. -/
def scanStep (spec : NodeSpec) (skipped : List GpuInfo) :
    PoolProg (List GpuInfo ⊕ List GpuInfo × Option NodeSlot) := do
  match ← allocate spec.label v with
  | .error _ => pure (.inr (skipped, none))
  | .ok gpu =>
    match ← inOs (GpuFileLock.acquire pid spec.label gpu.index testId) with
    | .ok lock =>
      releaseAll spec.label skipped
      pure (.inr (skipped, some (newSlot T spec gpu lock)))
    | .error _ => pure (.inl (skipped ++ [gpu]))

theorem scanNode_eq : scanNode T pid spec v testId =
    (Prog.iter (scanStep T pid v testId spec) []).bind fun x =>
      (releaseAll spec.label x.1).bind fun _ => .ret x.2 := rfl

/-- Giving back what was passed over leaves one GPU out. -/
theorem erase_union {A I : Finset Int} {i : Int} (hI : I ⊆ A) (hi : i ∉ I) :
    (A \ I).erase i ∪ I = A.erase i := by
  have hsub : I ⊆ A.erase i := fun j hj =>
    Finset.mem_erase.mpr ⟨fun heq => hi (heq ▸ hj), hI hj⟩
  rw [← Finset.erase_sdiff_comm, Finset.sdiff_union_of_subset hsub]

variable (pid testId) in
/-- One iteration passes over a GPU, or it is the last. -/
theorem scanStep_ends {skipped : List GpuInfo} {t : ProcState}
    (h : PassedOver T foreign v s spec.label skipped t) :
    (∃ skipped' t', Ends (exec T foreign) (scanStep T pid v testId spec skipped) t
        (.inl skipped') t' ∧ PassedOver T foreign v s spec.label skipped' t' ∧
      (indexSet (eligible T t' v spec.label)).card < (indexSet (eligible T t v spec.label)).card) ∨
    ∃ x t', Ends (exec T foreign) (scanStep T pid v testId spec skipped) t (.inr x) t' ∧
      LeftLoop T foreign v s spec x t' := by
  cases hm : GpuAllocator.preferred (eligible T t v spec.label) with
  | none =>
    have hnil := GpuAllocator.preferred_eq_none.mp hm
    exact Or.inr ⟨(skipped, none), t, Ends.perform (allocate_none hnil) (Ends.ret _ _), h.taken,
      h.obtainable_nil hnil, h.state⟩
  | some m =>
    have hmem := GpuAllocator.preferred_mem hm
    obtain ⟨hms, hnot⟩ := h.mem_eligible.mp hmem
    have halloc : exec T foreign (.allocate spec.label v) t = some (.ok m, t.setAvailable spec.label
        ((t.available spec.label).erase m.index)) := allocate_some hm
    have hlocks : ∀ A, lockHeld foreign (t.setAvailable spec.label A) spec.label m =
        lockHeld foreign s spec.label m := by
      rw [h.state]
      exact fun A => rfl
    by_cases hheld : lockHeld foreign s spec.label m = true
    · refine Or.inl ⟨skipped ++ [m], _, Ends.perform halloc (Ends.bind
        (Ends.of_evaluate (acquire_held ((hlocks _).trans hheld))) (Ends.ret _ _)),
        h.snoc hms hheld, ?_⟩
      rw [eligible_take, card_without hmem]
      exact Nat.lt_succ_self _
    · have hfree : lockHeld foreign s spec.label m = false := Bool.eq_false_iff.mpr hheld
      obtain ⟨t', ht'⟩ : ∃ t', t' = locked (t.setAvailable spec.label
          ((t.available spec.label).erase m.index)) (lockFile spec.label m.index) := ⟨_, rfl⟩
      have hstate : t' = (locked s (lockFile spec.label m.index)).setAvailable spec.label
          ((s.available spec.label \ indexSet skipped).erase m.index) := by
        rw [ht', h.state]
        unfold without
        rw [setAvailable_available, setAvailable_setAvailable]
        rfl
      have hback : Ends (exec T foreign) (releaseAll spec.label skipped) t' ()
          (holding s spec.label m) := by
        rw [hstate, holding, ← erase_union h.taken hnot]
        exact releaseAll_ends T foreign _ _ skipped _
      rw [ht'] at hback
      exact Or.inr ⟨_, _, Ends.perform halloc (Ends.bind
        (Ends.of_evaluate (acquire_free ((hlocks _).trans hfree)))
          (Ends.bind hback (Ends.ret _ _))),
        h.taken, rfl, h.least hm hfree, hnot, rfl⟩

variable (T foreign v) in
/-- What a scan of some nodes comes back with. -/
structure Searched (s : ProcState) (specs : List NodeSpec) (found : Option NodeSlot)
    (t : ProcState) : Prop where
  missed : found = none → (∀ spec ∈ specs, obtainable T foreign s v spec.label = []) ∧ t = s
  taken : ∀ slot ∈ found, FirstObtainable T foreign s v specs slot ∧
    t = holding s slot.nodeSpec.label slot.gpuInfo

variable (T foreign pid s v testId) in
theorem scanNode_ends (spec : NodeSpec) : ∃ found t,
    Ends (exec T foreign) (scanNode T pid spec v testId) s found t ∧
      Searched T foreign v s [spec] found t := by
  obtain ⟨⟨skipped, found⟩, t, hrun, htaken, hleft⟩ := Ends.iter _
    (fun _ _ h => scanStep_ends pid testId h)
    (PassedOver.start T foreign s v spec.label)
  rw [scanNode_eq]
  cases found with
  | none =>
    obtain ⟨hnil, rfl⟩ := hleft
    have hback : Ends (exec T foreign) (releaseAll spec.label skipped)
        (without s spec.label (indexSet skipped)) () s := by
      have hfull : s.setAvailable spec.label
          (s.available spec.label \ indexSet skipped ∪ indexSet skipped) = s := by
        rw [Finset.sdiff_union_of_subset htaken, setAvailable_self]
      have hall := releaseAll_ends T foreign s spec.label skipped
        (s.available spec.label \ indexSet skipped)
      rwa [hfull] at hall
    refine ⟨none, s, hrun.bind (hback.bind (Ends.ret _ _)), fun _ => ⟨?_, rfl⟩, ?_⟩
    · intro x hx
      rw [List.mem_singleton.mp hx]
      exact hnil
    · intro slot hslot
      cases hslot
  | some slot =>
    obtain ⟨rfl, hleast, hnot, rfl⟩ := hleft
    have hback : Ends (exec T foreign) (releaseAll slot.nodeSpec.label skipped)
        (holding s slot.nodeSpec.label slot.gpuInfo) ()
        (holding s slot.nodeSpec.label slot.gpuInfo) := by
      have hsub : indexSet skipped ⊆ (s.available slot.nodeSpec.label).erase slot.gpuInfo.index :=
        fun j hj => Finset.mem_erase.mpr ⟨fun heq => hnot (heq ▸ hj), htaken hj⟩
      have hall := releaseAll_ends T foreign
        (locked s (lockFile slot.nodeSpec.label slot.gpuInfo.index)) slot.nodeSpec.label skipped
        ((s.available slot.nodeSpec.label).erase slot.gpuInfo.index)
      rwa [Finset.union_eq_left.mpr hsub] at hall
    refine ⟨some slot, _, hrun.bind (hback.bind (Ends.ret _ _)), fun h => ?_, fun x hx => ?_⟩
    · cases h
    · obtain rfl := Option.some.inj hx
      exact ⟨⟨⟨[], [], rfl, fun _ h => absurd h List.not_mem_nil⟩, hleast⟩, rfl⟩

/-! ## The nodes in order -/

theorem FirstObtainable.skip {specs : List NodeSpec} {slot : NodeSlot}
    (h : FirstObtainable T foreign s v specs slot)
    (hnil : obtainable T foreign s v spec.label = []) :
    FirstObtainable T foreign s v (spec :: specs) slot where
  node := by
    obtain ⟨before, after, rfl, hbefore⟩ := h.node
    exact ⟨spec :: before, after, rfl, List.forall_mem_cons.mpr ⟨hnil, hbefore⟩⟩
  gpu := h.gpu

theorem FirstObtainable.more {slot : NodeSlot} (h : FirstObtainable T foreign s v [spec] slot)
    (specs : List NodeSpec) : FirstObtainable T foreign s v (spec :: specs) slot where
  node := by
    obtain ⟨before, after, heq, hbefore⟩ := h.node
    exact ⟨before, after ++ specs, by rw [← List.singleton_append, heq, List.append_assoc]; rfl,
      hbefore⟩
  gpu := h.gpu

theorem obtainable_unknown {label : String} (hg : T.gpus label = none) :
    obtainable T foreign s v label = [] := by
  refine List.filter_eq_nil_iff.mpr fun gpu hgpu => ?_
  have hmem := (mem_eligible.mp hgpu).1
  rw [hg] at hmem
  exact absurd hmem List.not_mem_nil

variable (T foreign pid s v testId) in
theorem scanNodes_ends (specs : List NodeSpec) : ∃ found t,
    Ends (exec T foreign) (scanNodes T pid v testId specs) s found t ∧
      Searched T foreign v s specs found t := by
  induction specs with
  | nil =>
    exact ⟨none, s, Ends.ret _ _, fun _ => ⟨fun _ h => absurd h List.not_mem_nil, rfl⟩,
      fun _ h => absurd h (Option.not_mem_none _)⟩
  | cons spec specs ih =>
    obtain ⟨found, t, hrest, hfound⟩ := ih
    have hskip : obtainable T foreign s v spec.label = [] →
        Searched T foreign v s (spec :: specs) found t := by
      intro hnil
      refine ⟨fun hnone => ?_, fun slot hslot => ?_⟩
      · exact ⟨List.forall_mem_cons.mpr ⟨hnil, (hfound.missed hnone).1⟩, (hfound.missed hnone).2⟩
      · exact ⟨(hfound.taken slot hslot).1.skip hnil, (hfound.taken slot hslot).2⟩
    rw [scanNodes]
    cases hg : T.gpus spec.label with
    | none => exact ⟨found, t, hrest, hskip (obtainable_unknown hg)⟩
    | some gpus =>
      obtain ⟨one, t', hone, hsearched⟩ := scanNode_ends T foreign pid s v testId spec
      cases one with
      | none =>
        obtain ⟨hnil, rfl⟩ := hsearched.missed rfl
        exact ⟨found, t, hone.bind hrest, hskip (hnil spec List.mem_cons_self)⟩
      | some slot =>
        obtain ⟨hfirst, ht⟩ := hsearched.taken slot rfl
        refine ⟨some slot, t', hone.bind (Ends.ret _ _), fun h => ?_, fun x hx => ?_⟩
        · cases h
        · obtain rfl := Option.some.inj hx
          exact ⟨hfirst.more specs, ht⟩

end

/-! ## The round -/

theorem FirstObtainable.exists {T : Topology} {foreign : LockFile → Bool} {s : ProcState} {v : ℚ}
    {specs : List NodeSpec} {slot : NodeSlot} (h : FirstObtainable T foreign s v specs slot) :
    ∃ spec ∈ specs, obtainable T foreign s v spec.label ≠ [] := by
  obtain ⟨before, after, rfl, _⟩ := h.node
  exact ⟨slot.nodeSpec, List.mem_append_right _ List.mem_cons_self,
    List.ne_nil_of_mem h.gpu.1⟩

theorem mem_holding {s : ProcState} {slot : NodeSlot} {label : String} {i : Int} :
    i ∈ (holding s slot.nodeSpec.label slot.gpuInfo).available label ↔
      i ∈ s.available label ∧ slot.key ≠ (label, i) := by
  show i ∈ Function.update s.available slot.nodeSpec.label _ label ↔ _
  by_cases hl : slot.nodeSpec.label = label
  · subst hl
    rw [Function.update_self, Finset.mem_erase, and_comm]
    simp [NodeSlot.key, eq_comm]
  · rw [Function.update_of_ne (Ne.symm hl)]
    simp [NodeSlot.key, hl]

theorem Searched.isSome_iff {T : Topology} {foreign : LockFile → Bool} {s t : ProcState} {v : ℚ}
    {specs : List NodeSpec} {found : Option NodeSlot} (h : Searched T foreign v s specs found t) :
    found.isSome = true ↔ ∃ spec ∈ specs, obtainable T foreign s v spec.label ≠ [] := by
  cases found with
  | none =>
    refine iff_of_false Bool.false_ne_true ?_
    rintro ⟨spec, hspec, hne⟩
    exact hne ((h.missed rfl).1 spec hspec)
  | some slot => exact iff_of_true rfl (h.taken slot rfl).1.exists

theorem slotRound_searched (T : Topology) (foreign : LockFile → Bool) (pid : Nat) (s : ProcState)
    (v : ℚ) (testId : String) : ∃ found t,
      Ends (exec T foreign) (slotRound T pid v testId) s found
        { t with delivered := t.delivered ++ found.toList } ∧
      Searched T foreign v s T.nodeSpecs found t := by
  obtain ⟨found, t, hscan, hfound⟩ := scanNodes_ends T foreign pid s v testId T.nodeSpecs
  exact ⟨found, t, Ends.perform rfl (Ends.bind hscan
    (Ends.perform rfl (Ends.perform rfl (Ends.ret _ _)))), hfound⟩

/-- A round that does not yield ends.  It returns a slot exactly when a GPU is
available, eligible and has a free lock, the first such one, and only that GPU
leaves `available`. -/
theorem slotRound_takes_first (T : Topology) (foreign : LockFile → Bool) (pid : Nat)
    (s : ProcState) (v : ℚ) (testId : String) : ∃ found s',
    Ends (exec T foreign) (slotRound T pid v testId) s found s' ∧
    (found.isSome = true ↔ ∃ spec ∈ T.nodeSpecs, obtainable T foreign s v spec.label ≠ []) ∧
    (∀ slot ∈ found, FirstObtainable T foreign s v T.nodeSpecs slot) ∧
    ∀ label i, i ∈ s'.available label ↔
      i ∈ s.available label ∧ ∀ slot ∈ found, slot.key ≠ (label, i) := by
  obtain ⟨found, t, hdone, hfound⟩ := slotRound_searched T foreign pid s v testId
  refine ⟨found, _, hdone, hfound.isSome_iff, fun slot hslot => (hfound.taken slot hslot).1,
    fun label i => ?_⟩
  show i ∈ t.available label ↔ _
  cases found with
  | none =>
    rw [(hfound.missed rfl).2]
    simp
  | some slot =>
    rw [(hfound.taken slot rfl).2, mem_holding]
    simp

end SlotScan
end Nodes
end RocmTests

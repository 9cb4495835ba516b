import RocmTests.Nodes.NodePool
import RocmTests.Scheduling.DynamicScheduler

/-!
# Does the scheduler reserve for what the fixture takes?

`target_executor` reads the markers a third time, once the test runs, and turns
them into one call on the pool.  `Agrees` compares that call with the key and the
group the scheduler gave the item; `Consistent` is the condition on the markers
under which they match.
-/

namespace RocmTests
namespace Scheduling

open Markers Nodes

/-- `max_gpus_per_node`. -/
def maxGpusPerNode (T : Topology) : Int :=
  ((T.nodeSpecs.filterMap fun spec => (T.gpus spec.label).map List.length).max?.getD 0 : Nat)

/-- What the fixture takes from the test and the options. -/
structure TestContext where
  testName : String
  acquireTimeout : ℚ
  vramRequiredGb : ℚ

/-- The fixture ends before it asks the pool for anything. -/
inductive Stopped where
  | bareIndex (i : Int)
  | tooFewNodes (n : Nat)
  | badCount (e : GpuCountError)

/-- `gpu_count_per_node` as it is passed on. -/
def toScalar : GpuCount → Scalar
  | .all => .str "all"
  | .count n => .int n

/-- The path `target_executor` takes with a pool present: the call it makes. -/
def targetCall (T : Topology) (ctx : TestContext) (item : Item) : Except Stopped Call :=
  match item.indexArg with
  | some (.int i) => .error (.bareIndex i)
  | some (.list [i]) => .ok (.acquireSpecificSlot i ctx.acquireTimeout ctx.testName)
  | some (.list indices) => .ok (.acquireSpecificSlots indices ctx.acquireTimeout ctx.testName)
  | none =>
    if isMultinode item then
      if T.nodeSpecs.length < 2 then .error (.tooFewNodes T.nodeSpecs.length)
      else
        match gpuCountFromMarker item.gpuCountMarker 1 with
        | .error e => .error (.badCount e)
        | .ok perNode =>
          .ok (.acquireMultiNode (toScalar perNode) ctx.vramRequiredGb ctx.acquireTimeout
            ctx.testName)
    else if item.isMultiGpu then
      match gpuCountFromMarker item.gpuCountMarker 2 with
      | .error e => .error (.badCount e)
      | .ok value =>
        .ok (.acquireSlots (resolveGpuCount value (maxGpusPerNode T) 2) none ctx.vramRequiredGb
          ctx.acquireTimeout ctx.testName)
    else .ok (.acquireSlot ctx.vramRequiredGb ctx.acquireTimeout ctx.testName)

/-! ## The classes -/

namespace SchedulePolicy

def multinodeKey : SchedulePolicy → Int × Int
  | .resourceMost => (0, 0)
  | .resourceLeast => (2, 0)

/-- Pinned and multi-GPU tests share a tier and are ordered by their count. -/
def countKey : SchedulePolicy → Int → Int × Int
  | .resourceMost, n => (1, -n)
  | .resourceLeast, n => (1, n)

def singleKey : SchedulePolicy → Int × Int
  | .resourceMost => (2, 0)
  | .resourceLeast => (0, 0)

end SchedulePolicy

/-- The scheduler has the item among the pinned ones, with these indices. -/
def PinnedClass (policy : SchedulePolicy) (x : (Int × Int) × Scheduled) (indices : List Int) :
    Prop :=
  x.1 = policy.countKey indices.length ∧
    ∃ n, x.2.group = some (.gpuIndices (sortedIndices indices) n)

def MultinodeClass (policy : SchedulePolicy) (x : (Int × Int) × Scheduled) : Prop :=
  x.1 = policy.multinodeKey ∧ ∃ n, x.2.group = some (.multinode n)

/-- `weight` is the count in the key and in the group's name. -/
def MultiGpuClass (policy : SchedulePolicy) (x : (Int × Int) × Scheduled) (weight : Int) : Prop :=
  x.1 = policy.countKey weight ∧ ∃ n, x.2.group = some (.multiGpu weight n)

def SingleClass (policy : SchedulePolicy) (x : (Int × Int) × Scheduled) : Prop :=
  x.1 = policy.singleKey ∧ x.2.group = none

/-- The call the fixture makes is of the class the scheduler used.  For several
GPUs of one node the count is the scheduler's, where the weight of `ALL` stands
for the node maximum.  A multi-node test that is skipped for want of nodes takes
nothing; its class is the multi-node one. -/
def Agrees (policy : SchedulePolicy) (T : Topology) (ctx : TestContext)
    (x : (Int × Int) × Scheduled) : Prop :=
  match targetCall T ctx x.2.item with
  | .ok (.acquireSpecificSlot i _ _) => PinnedClass policy x [i]
  | .ok (.acquireSpecificSlots indices _ _) => PinnedClass policy x indices
  | .ok (.acquireMultiNode _ _ _ _) => MultinodeClass policy x
  | .ok (.acquireSlots count _ _ _ _) =>
    if x.2.item.askedCount = .ok (some .all) then
      MultiGpuClass policy x allSortWeight ∧ count = maxGpusPerNode T
    else MultiGpuClass policy x count
  | .ok (.acquireSlot _ _ _) => SingleClass policy x
  | .error (.tooFewNodes _) => MultinodeClass policy x
  | _ => False

/-- Markers that the scheduler and the fixture read alike. -/
def Consistent (T : Topology) (item : Item) : Prop :=
  match item.indexArg with
  | some _ => isMultinode item = false
  | none =>
    if isMultinode item then T.nodeSpecs.length < 2 ∨ ∃ asked, item.askedCount = .ok asked
    else if item.isMultiGpu then
      item.askedCount ≠ .ok (some (.count 1)) ∧
        (item.askedCount = .ok (some .all) → 0 < maxGpusPerNode T)
    else ∀ value, item.askedCount = .ok (some value) → ∃ n, value = .count n ∧ n ≤ 1

/-! ## The keys -/

theorem key_multinode (policy : SchedulePolicy) {item : Item} (h : isMultinode item = true) :
    policy.key item = .ok policy.multinodeKey := by
  cases policy with
  | resourceMost => simp [SchedulePolicy.key, SchedulePolicy.multinodeKey, resourceSortKeyMost, h]
  | resourceLeast => simp [SchedulePolicy.key, SchedulePolicy.multinodeKey, resourceSortKeyLeast, h]

theorem key_pinned (policy : SchedulePolicy) {item : Item} (h : isMultinode item = false)
    {i : Int} {indices : List Int} (hidx : item.indexArg = some (.list (i :: indices))) :
    policy.key item = .ok (policy.countKey (i :: indices).length) := by
  have hcount : gpuIndicesCount item = (i :: indices).length := by
    unfold gpuIndicesCount
    rw [hidx]
  have hpos : (0 : Int) < (i :: indices).length := by
    rw [List.length_cons]
    omega
  cases policy with
  | resourceMost =>
    simp only [SchedulePolicy.key, SchedulePolicy.countKey, resourceSortKeyMost, h, hcount,
      if_pos hpos, Bool.false_eq_true, if_false]
  | resourceLeast =>
    simp only [SchedulePolicy.key, SchedulePolicy.countKey, resourceSortKeyLeast, h, hcount,
      if_pos hpos, Bool.false_eq_true, if_false]

theorem key_counted (policy : SchedulePolicy) {item : Item} (h : isMultinode item = false)
    (hidx : item.indexArg = none) {n : Int} (hn : multiGpuCount item = .ok n) :
    policy.key item = .ok (if 0 < n then policy.countKey n else policy.singleKey) := by
  have hcount : gpuIndicesCount item = 0 := by
    unfold gpuIndicesCount
    rw [hidx]
  cases policy with
  | resourceMost =>
    simp only [SchedulePolicy.key, SchedulePolicy.countKey, SchedulePolicy.singleKey,
      resourceSortKeyMost, h, hcount, hn, Except.map, Bool.false_eq_true, if_false, lt_irrefl]
  | resourceLeast =>
    simp only [SchedulePolicy.key, SchedulePolicy.countKey, SchedulePolicy.singleKey,
      resourceSortKeyLeast, h, hcount, hn, Except.map, Bool.false_eq_true, if_false, lt_irrefl]

theorem gpuCountFromMarker_eq (item : Item) (default : Int) :
    gpuCountFromMarker item.gpuCountMarker default =
      item.askedCount.map fun asked => asked.getD (.count default) := by
  unfold gpuCountFromMarker Item.askedCount
  cases item.gpuCountMarker with
  | none => rfl
  | some args =>
    cases args with
    | nil => rfl
    | cons raw rest => cases hraw : parseGpuCount raw <;> simp [hraw, Except.map]

theorem multinodeKey_ne_countKey (policy : SchedulePolicy) (n : Int) :
    policy.multinodeKey ≠ policy.countKey n := by
  cases policy <;> simp [SchedulePolicy.multinodeKey, SchedulePolicy.countKey]

theorem countKey_ne_singleKey (policy : SchedulePolicy) (n : Int) :
    policy.countKey n ≠ policy.singleKey := by
  cases policy <;> simp [SchedulePolicy.countKey, SchedulePolicy.singleKey]

theorem countKey_injective (policy : SchedulePolicy) {m n : Int}
    (h : policy.countKey m = policy.countKey n) : m = n := by
  cases policy <;> simp [SchedulePolicy.countKey] at h <;> exact h

/-! ## Case by case -/

section

variable {policy : SchedulePolicy} {T : Topology} {ctx : TestContext} {x : (Int × Int) × Scheduled}
  {c c' : GroupCounters}

theorem agrees_pinned {arg : IndexArg} (hidx : x.2.item.indexArg = some arg)
    (hkey : policy.key x.2.item = .ok x.1)
    (hgroup : assignGroup c x.2.item = .ok (x.2.group, c')) :
    Agrees policy T ctx x ↔ Consistent T x.2.item := by
  obtain ⟨i, indices, rfl, hg⟩ := assignGroup_pinned hidx hgroup
  have hcall : Agrees policy T ctx x ↔ PinnedClass policy x (i :: indices) := by
    simp only [Agrees, targetCall, hidx]
    cases indices with
    | nil => exact Iff.rfl
    | cons j indices => exact Iff.rfl
  have hcons : Consistent T x.2.item ↔ isMultinode x.2.item = false := by
    simp only [Consistent, hidx]
  rw [hcall, hcons]
  cases hmulti : isMultinode x.2.item with
  | true =>
    rw [key_multinode policy hmulti] at hkey
    constructor
    · intro h
      have heq : policy.multinodeKey = policy.countKey (i :: indices).length :=
        (Except.ok.inj hkey).trans h.1
      exact absurd heq (multinodeKey_ne_countKey policy _)
    · intro h
      cases h
  | false =>
    rw [key_pinned policy hmulti hidx] at hkey
    exact iff_of_true ⟨(Except.ok.inj hkey).symm, c.gpuIndicesIdx, hg⟩ rfl

theorem agrees_multinode (hidx : x.2.item.indexArg = none) (hmulti : isMultinode x.2.item = true)
    (hkey : policy.key x.2.item = .ok x.1)
    (hgroup : assignGroup c x.2.item = .ok (x.2.group, c')) :
    Agrees policy T ctx x ↔ Consistent T x.2.item := by
  rw [key_multinode policy hmulti] at hkey
  have hclass : MultinodeClass policy x :=
    ⟨(Except.ok.inj hkey).symm, c.multiNodeIdx, assignGroup_multinode hidx hmulti hgroup⟩
  simp only [Agrees, Consistent, targetCall, hidx, hmulti, if_true, gpuCountFromMarker_eq]
  by_cases hnodes : T.nodeSpecs.length < 2
  · simp only [if_pos hnodes]
    exact iff_of_true hclass (Or.inl hnodes)
  · simp only [if_neg hnodes]
    cases hasked : x.2.item.askedCount with
    | error e => simp [Except.map, hnodes]
    | ok asked => simp [Except.map, hclass]

/-- The class of a counted item, read off its key and group. -/
theorem counted_class {n : Int}
    (hkey : x.1 = if 0 < n then policy.countKey n else policy.singleKey)
    (hgroup : x.2.group = if 0 < n then some (.multiGpu n c.multiGpuIdx) else none) :
    (∀ w, 0 < n → (MultiGpuClass policy x w ↔ w = n)) ∧ (SingleClass policy x ↔ ¬ 0 < n) := by
  constructor
  · intro w hpos
    rw [if_pos hpos] at hkey hgroup
    constructor
    · intro h
      exact (countKey_injective policy (hkey.symm.trans h.1)).symm
    · intro h
      rw [h]
      exact ⟨hkey, c.multiGpuIdx, hgroup⟩
  · by_cases hpos : 0 < n
    · rw [if_pos hpos] at hkey
      refine iff_of_false (fun h => ?_) (not_not_intro hpos)
      exact countKey_ne_singleKey policy n (hkey.symm.trans h.1)
    · rw [if_neg hpos] at hkey hgroup
      exact iff_of_true ⟨hkey, hgroup⟩ hpos

theorem agrees_multiGpu (hidx : x.2.item.indexArg = none) (hmulti : isMultinode x.2.item = false)
    (hhw : x.2.item.isMultiGpu = true) (hkey : policy.key x.2.item = .ok x.1)
    (hgroup : assignGroup c x.2.item = .ok (x.2.group, c')) :
    Agrees policy T ctx x ↔ Consistent T x.2.item := by
  obtain ⟨n, hn, hg⟩ := assignGroup_counted hidx hmulti hgroup
  rw [key_counted policy hmulti hidx hn] at hkey
  have hclass := (counted_class (Except.ok.inj hkey).symm hg).1
  simp only [Agrees, Consistent, targetCall, hidx, hmulti, hhw, Bool.false_eq_true, if_false,
    if_true, gpuCountFromMarker_eq]
  unfold multiGpuCount at hn
  cases hasked : x.2.item.askedCount with
  | error e =>
    rw [hasked] at hn
    cases hn
  | ok asked =>
    cases asked with
    | none =>
      simp only [hasked, hhw, if_true, Except.ok.injEq] at hn
      have htwo : MultiGpuClass policy x 2 := (hclass 2 (by omega)).mpr hn
      simp [Except.map, resolveGpuCount, htwo]
    | some value =>
      cases value with
      | all =>
        simp only [hasked, Except.ok.injEq] at hn
        have hweight : (0 : Int) < n := by
          rw [← hn]
          decide
        simp only [Except.map, resolveGpuCount, Option.getD_some, if_true, hclass _ hweight, hn,
          true_and]
        by_cases hmax : 0 < maxGpusPerNode T
        · simp [hmax]
        · simp only [if_neg hmax]
          have hne : (2 : Int) ≠ maxGpusPerNode T := by omega
          simp [hne, hmax]
      | count m =>
        simp only [hasked, hhw, if_true] at hn
        simp only [Except.map, resolveGpuCount, Option.getD_some, Except.ok.injEq,
          Option.some.injEq, reduceCtorEq, if_false, GpuCount.count.injEq, ne_eq,
          false_implies, and_true]
        by_cases hm : 1 < m
        · simp only [if_pos hm, Except.ok.injEq] at hn
          have hpos : 0 < m := by omega
          rw [if_pos hpos, hclass m (by omega), ← hn]
          have hne : ¬ m = 1 := by omega
          simp [hne]
        · simp only [if_neg hm, Except.ok.injEq] at hn
          rw [hclass _ (by omega), ← hn]
          by_cases hpos : 0 < m
          · rw [if_pos hpos]
            omega
          · rw [if_neg hpos]
            omega

theorem agrees_single (hidx : x.2.item.indexArg = none) (hmulti : isMultinode x.2.item = false)
    (hhw : x.2.item.isMultiGpu = false) (hkey : policy.key x.2.item = .ok x.1)
    (hgroup : assignGroup c x.2.item = .ok (x.2.group, c')) :
    Agrees policy T ctx x ↔ Consistent T x.2.item := by
  obtain ⟨n, hn, hg⟩ := assignGroup_counted hidx hmulti hgroup
  rw [key_counted policy hmulti hidx hn] at hkey
  simp only [Agrees, Consistent, targetCall, hidx, hmulti, hhw, Bool.false_eq_true, if_false]
  rw [(counted_class (Except.ok.inj hkey).symm hg).2]
  unfold multiGpuCount at hn
  cases hasked : x.2.item.askedCount with
  | error e =>
    rw [hasked] at hn
    cases hn
  | ok asked =>
    cases asked with
    | none =>
      simp only [hasked, hhw, Bool.false_eq_true, if_false, Except.ok.injEq] at hn
      simp [← hn]
    | some value =>
      cases value with
      | all =>
        simp only [hasked, Except.ok.injEq] at hn
        have hweight : (0 : Int) < n := by
          rw [← hn]
          decide
        simp [hweight]
      | count m =>
        simp only [hasked, hhw, Bool.false_eq_true, if_false] at hn
        by_cases hm : 1 < m
        · simp only [if_pos hm, Except.ok.injEq] at hn
          have hpos : 0 < n := by omega
          simp [hpos, hm]
        · simp only [if_neg hm, Except.ok.injEq] at hn
          have hle : m ≤ 1 := by omega
          simp [← hn, hle]

end

/-- For every list the scheduler accepts, it reserves for an item what the
fixture takes if and only if the item's markers are consistent. -/
theorem schedule_agrees_iff (policy : SchedulePolicy) (T : Topology) (ctx : TestContext)
    (items : List Item) (result : List ((Int × Int) × Scheduled))
    (h : schedule policy items = .ok result) :
    ∀ x ∈ result, Agrees policy T ctx x ↔ Consistent T x.2.item := by
  intro x hx
  obtain ⟨_, hkey, c, c', hgroup⟩ := schedule_mem h hx
  cases hidx : x.2.item.indexArg with
  | some arg => exact agrees_pinned hidx hkey hgroup
  | none =>
    cases hmulti : isMultinode x.2.item with
    | true => exact agrees_multinode hidx hmulti hkey hgroup
    | false =>
      cases hhw : x.2.item.isMultiGpu with
      | true => exact agrees_multiGpu hidx hmulti hhw hkey hgroup
      | false => exact agrees_single hidx hmulti hhw hkey hgroup

/-- One local node with four GPUs. -/
def fourGpus : Topology :=
  { nodeSpecs := [{ hostname := "localhost" }]
    gpus := fun label =>
      if label = "localhost" then
        some [⟨0, "gfx942", 65536, 0⟩, ⟨1, "gfx942", 65536, 0⟩, ⟨2, "gfx942", 65536, 0⟩,
          ⟨3, "gfx942", 65536, 0⟩]
      else none
    headroomGb := 0
    sshSessions := fun _ => none }

def testContext : TestContext := ⟨"test_rccl", 30, 0⟩

/-- `hw.multi_gpu` with a count. -/
def multiGpuItem (n : Int) : Item :=
  ⟨"tests/test_rccl.py::test_rccl", [.hwMultiGpu, .gpuCount [.scalar (.int n)]]⟩

theorem schedule_multiGpuItem_four :
    schedule .resourceMost [multiGpuItem 4] =
      .ok [((1, -4), ⟨multiGpuItem 4, some (.multiGpu 4 0)⟩)] := by
  decide +kernel

theorem schedule_agrees_iff_four :
    Agrees .resourceMost fourGpus testContext
      ((1, -4), ⟨multiGpuItem 4, some (.multiGpu 4 0)⟩) := by
  have hiff := schedule_agrees_iff .resourceMost fourGpus testContext [multiGpuItem 4] _
    schedule_multiGpuItem_four _ List.mem_cons_self
  exact hiff.mpr ⟨by decide, by decide⟩

/-- A count of one under `hw.multi_gpu`: the scheduler falls back to its default
of two, the fixture takes one GPU. -/
theorem schedule_overcounts_one :
    schedule .resourceMost [multiGpuItem 1] =
        .ok [((1, -2), ⟨multiGpuItem 1, some (.multiGpu 2 0)⟩)] ∧
      targetCall fourGpus testContext (multiGpuItem 1) =
        .ok (.acquireSlots 1 none 0 30 "test_rccl") ∧
      ¬ Agrees .resourceMost fourGpus testContext
        ((1, -2), ⟨multiGpuItem 1, some (.multiGpu 2 0)⟩) := by
  refine ⟨by decide +kernel, rfl, fun h => ?_⟩
  have hclass : MultiGpuClass .resourceMost
      ((1, -2), ⟨multiGpuItem 1, some (.multiGpu 2 0)⟩) 1 := h
  exact absurd hclass.1 (by decide)

end Scheduling
end RocmTests

import Mathlib.Algebra.GroupWithZero.Nat
import RocmTests.Nodes.MultiNode

/-!
# Is a VRAM requirement passed on?

`_resolve_test_context` turns the markers of a test into one record.  Each fixture
passes the fields of that record to the pool by hand, at a call of its own.

The fixtures are followed to the point where they hold their slots, in a session
with a pool and for a test without `gpu_indices`.  What they do with the slots is
`acquireAndYield`.
-/

namespace RocmTests
namespace Plugins
namespace VramRequirement

open Conc Gpu Markers Nodes Pool

/-- The markers of a test that decide which slots it gets. -/
structure TestMarkers where
  gpuCount : Option (List RawGpuCount)
  gpuVram : Option ℚ
  multiGpu : Bool
  multinode : Bool

/-- The fields of `_resolve_test_context` that an acquisition reads. -/
structure TestContext where
  testName : String
  acquireTimeout : ℚ
  gpuCountMarker : Option (List RawGpuCount)
  vramRequiredGb : ℚ
  isMultiGpu : Bool
  isMultiNode : Bool

def resolveTestContext (testName : String) (acquireTimeout : ℚ) (m : TestMarkers) :
    TestContext where
  testName := testName
  acquireTimeout := acquireTimeout
  gpuCountMarker := m.gpuCount
  vramRequiredGb := m.gpuVram.getD 0
  isMultiGpu := m.multiGpu
  isMultiNode := m.multinode

/-- How the acquisition of a fixture ends.  `raised` is an exception that no
handler of the fixture takes. -/
inductive Outcome where
  | acquired (multiList : List MultiGpuSlots)
  | skipped
  | failed
  | raised (e : GpuCountError)

section

variable (T : Topology) (pid : Nat) (ctx : TestContext)

def totalGpuSlots : Nat := (T.nodeSpecs.map fun spec => ((T.gpus spec.label).getD []).length).sum

def maxGpusPerNode : Nat :=
  (T.nodeSpecs.map fun spec => ((T.gpus spec.label).getD []).length).foldr max 0

/-! ## One node -/

def acquireSingle : PoolProg Outcome := do
  match ← acquireSlot T pid ctx.vramRequiredGb ctx.acquireTimeout ctx.testName with
  | .ok slot => pure (.acquired [⟨[slot], slot.nodeSpec⟩])
  | .error _ => pure (if totalGpuSlots T = 0 then .failed else .skipped)

def acquireMultiGpu (count : Int) : PoolProg Outcome := do
  match ← acquireSlots T pid count none ctx.vramRequiredGb ctx.acquireTimeout ctx.testName with
  | .ok multi => pure (.acquired [multi])
  | .error _ => pure .skipped

/-- The path of `hw.multi_gpu`, which `multi_gpu_fixture` repeats. -/
def multiGpuPath : PoolProg Outcome :=
  match gpuCountFromMarker ctx.gpuCountMarker 2 with
  | .error e => pure (.raised e)
  | .ok value => acquireMultiGpu T pid ctx (resolveGpuCount value (maxGpusPerNode T) 2)

/-! ## Every node -/

/-- The arguments of a call of `acquire_multi_node`. -/
structure NodesRequest where
  gpuCountPerNode : Scalar
  vramRequiredGb : ℚ
  waitTimeoutSecs : ℚ
  testId : String

def countScalar : GpuCount → Scalar
  | .count n => .int n
  | .all => .str "all"

/-- The two callers differ in the requirement they pass. -/
def nodesRequest (vramRequiredGb : ℚ) : Except Outcome NodesRequest :=
  if T.nodeSpecs.length < 2 then .error .skipped
  else
    match gpuCountFromMarker ctx.gpuCountMarker 1 with
    | .error e => .error (.raised e)
    | .ok value => .ok ⟨countScalar value, vramRequiredGb, ctx.acquireTimeout, ctx.testName⟩

def multinodePathRequest : Except Outcome NodesRequest := nodesRequest T ctx ctx.vramRequiredGb

/-- No `vram_required_gb` here: the call takes the parameter's default. -/
def multiNodeFixtureRequest : Except Outcome NodesRequest := nodesRequest T ctx 0

def requestNodes : Except Outcome NodesRequest → PoolProg Outcome
  | .error o => pure o
  | .ok r => do
    match ← acquireMultiNode T pid r.gpuCountPerNode r.vramRequiredGb r.waitTimeoutSecs
        r.testId with
    | .ok multiList => pure (.acquired multiList)
    | .error (.badCount e) => pure (.raised e)
    | .error _ => pure .skipped

/-! ## The fixtures -/

inductive Fixture where
  | targetExecutor
  | multiGpuFixture
  | multiNodeFixture
deriving DecidableEq, Repr

def targetExecutor : PoolProg Outcome :=
  if ctx.isMultiNode then requestNodes T pid (multinodePathRequest T ctx)
  else if ctx.isMultiGpu then multiGpuPath T pid ctx
  else acquireSingle T pid ctx

def multiGpuFixture : PoolProg Outcome := multiGpuPath T pid ctx

def multiNodeFixture : PoolProg Outcome := requestNodes T pid (multiNodeFixtureRequest T ctx)

def acquire : Fixture → PoolProg Outcome
  | .targetExecutor => targetExecutor T pid ctx
  | .multiGpuFixture => multiGpuFixture T pid ctx
  | .multiNodeFixture => multiNodeFixture T pid ctx

end

/-! ## What the requirement asks for -/

/-- The filter of the node's allocator. -/
def eligible (T : Topology) (vramRequiredGb : ℚ) (gpu : GpuInfo) : Bool :=
  decide (vramRequiredGb = 0) || gpu.fits T.headroomGb vramRequiredGb

/-- The GPUs of the fleet. -/
def fleetGpus (T : Topology) : List GpuInfo :=
  T.nodeSpecs.flatMap fun spec => (T.gpus spec.label).getD []

/-- The same slots are asked for: as many on each node, for as long, for the same
test and from the same GPUs. -/
structure SameRequest (T : Topology) (a b : NodesRequest) : Prop where
  count : a.gpuCountPerNode = b.gpuCountPerNode
  wait : a.waitTimeoutSecs = b.waitTimeoutSecs
  test : a.testId = b.testId
  gpus : ∀ gpu ∈ fleetGpus T, eligible T a.vramRequiredGb gpu = eligible T b.vramRequiredGb gpu

/-- Both are made under the same conditions, or neither is made for the same reason. -/
def SameConditions (T : Topology) : Except Outcome NodesRequest → Except Outcome NodesRequest → Prop
  | .error a, .error b => a = b
  | .ok a, .ok b => SameRequest T a b
  | _, _ => False

/-- Whatever state the pool is in and whatever else goes on, a fixture hands out
eligible GPUs only, and the two ways to ask for GPUs of every node ask the same. -/
structure Honoured (T : Topology) (pid : Nat) (ctx : TestContext) : Prop where
  gpus : ∀ (f : Fixture) (es rest : List MultiNode.Env) (s s' : MultiNode.ProcState)
    (multiList : List MultiGpuSlots),
    runSeq (MultiNode.ProcState.exec T) es (acquire T pid ctx f) s =
        some (.acquired multiList, rest, s') →
      ∀ multi ∈ multiList, ∀ slot ∈ multi.slots,
        eligible T ctx.vramRequiredGb slot.gpuInfo = true
  nodes : SameConditions T (multinodePathRequest T ctx) (multiNodeFixtureRequest T ctx)

/-! ## Every slot passed its call's filter -/

section

/-- What `alloc.allocate` returns passed the filter. -/
def filterActions (T : Topology) : Actions PoolOp PoolOp.Resp Unit where
  pre _ _ := True
  post
    | .allocate label v, _, b, _ =>
      ∀ gpu, b = .ok gpu → gpu ∈ (T.gpus label).getD [] ∧ eligible T v gpu = true
    | _, _, _, _ => True

variable {T : Topology} {pid : Nat} {v : ℚ} {testId : String}

/-- The slot's GPU is one of the fleet and passed the filter. -/
def Passed (T : Topology) (v : ℚ) (slot : NodeSlot) : Prop :=
  slot.gpuInfo ∈ fleetGpus T ∧ eligible T v slot.gpuInfo = true

theorem any_safe {α : Type} (p : PoolProg α) : Safe (filterActions T) p (fun _ _ => True) () :=
  Safe.anything (fun _ _ => trivial) p ()

theorem act_ok {o : PoolOp} {e : MultiNode.Env} {s s' : MultiNode.ProcState} {b : o.Resp}
    (h : MultiNode.ProcState.exec T o e s = some (b, s')) :
    (filterActions T).post o () b () := by
  cases o with
  | allocate label v =>
    intro gpu hgpu
    cases ha : (s.alloc T label).allocate v with
    | error e =>
      simp only [MultiNode.ProcState.exec, ha] at h
      cases h
      cases hgpu
    | ok x =>
      simp only [MultiNode.ProcState.exec, ha] at h
      cases h
      obtain rfl := Except.ok.inj hgpu
      unfold GpuAllocator.allocate at ha
      cases hp : GpuAllocator.preferred ((s.alloc T label).candidates v) with
      | none => rw [hp] at ha; cases ha
      | some m =>
        rw [hp] at ha
        cases ha
        obtain ⟨hmem, hpass⟩ := List.mem_filter.mp (GpuAllocator.preferred_mem hp)
        exact ⟨hmem, (Bool.and_eq_true_iff.mp hpass).2⟩
  | os o => trivial
  | lockPool => trivial
  | unlockPool => trivial
  | allocateSpecific label i => trivial
  | deallocate label gpu retired => trivial
  | deliver path slots => trivial
  | rest => trivial
  | wake => trivial
  | nextCall => trivial

theorem allocate_passed {spec : NodeSpec} (hspec : spec ∈ T.nodeSpecs) :
    Safe (filterActions T) (allocate spec.label v)
      (fun b _ => ∀ gpu, b = .ok gpu → gpu ∈ fleetGpus T ∧ eligible T v gpu = true) () := by
  refine Safe.perform trivial fun b _ hb gpu hgpu => ?_
  obtain ⟨hmem, hpass⟩ := hb gpu hgpu
  exact ⟨List.mem_flatMap.mpr ⟨spec, hspec, hmem⟩, hpass⟩

theorem scanNode_passed {spec : NodeSpec} (hspec : spec ∈ T.nodeSpecs) :
    Safe (filterActions T) (scanNode T pid spec v testId)
      (fun found _ => ∀ slot ∈ found, Passed T v slot) () := by
  refine Safe.bind (Q := fun x _ => ∀ slot ∈ x.2, Passed T v slot) ?_ fun x _ hx => ?_
  · refine Safe.iter (fun _ _ => True) trivial fun skipped _ _ => ?_
    refine (allocate_passed hspec).bind fun b _ hb => ?_
    cases b with
    | error e => exact .ret fun _ h => by cases h
    | ok gpu =>
      refine (any_safe _).bind fun l _ _ => ?_
      cases l with
      | error e => exact .ret trivial
      | ok lock =>
        refine (any_safe _).bind fun _ _ _ => .ret fun slot hslot => ?_
        obtain rfl := Option.some.inj hslot
        exact hb gpu rfl
  · exact (any_safe _).bind fun _ _ _ => .ret hx

theorem scanNodes_passed {specs : List NodeSpec} (hspecs : specs ⊆ T.nodeSpecs) :
    Safe (filterActions T) (scanNodes T pid v testId specs)
      (fun found _ => ∀ slot ∈ found, Passed T v slot) () := by
  induction specs with
  | nil => exact .ret fun _ h => by cases h
  | cons spec specs ih =>
    obtain ⟨hspec, hspecs⟩ := List.cons_subset.mp hspecs
    rw [scanNodes]
    cases hg : T.gpus spec.label with
    | none => exact ih hspecs
    | some gpus =>
      refine (scanNode_passed hspec).bind fun found _ hfound => ?_
      cases found with
      | none => exact ih hspecs
      | some slot => exact .ret hfound

theorem acquireSlot_passed (w : ℚ) :
    Safe (filterActions T) (acquireSlot T pid v w testId)
      (fun b _ => ∀ slot, b = .ok slot → Passed T v slot) () := by
  unfold acquireSlot
  by_cases hcap : T.hasVramCapacity v 1 none
  · rw [if_pos hcap]
    refine (any_safe _).bind fun start _ _ => Safe.iter (fun _ _ => True) trivial fun _ _ _ => ?_
    refine (any_safe _).bind fun yielded _ _ => ?_
    refine Safe.bind (Q := fun found _ => ∀ slot ∈ found, Passed T v slot) ?_ fun found _ hf => ?_
    · by_cases hy : yielded = true
      · rw [if_pos hy]
        exact .ret fun _ h => by cases h
      · rw [if_neg hy]
        refine .act trivial fun _ _ _ =>
          (scanNodes_passed (List.Subset.refl _)).bind fun found _ hfound => ?_
        exact .act trivial fun _ _ _ => .act trivial fun _ _ _ => .ret hfound
    · cases found with
      | some slot =>
        refine .ret fun x hx => ?_
        obtain rfl := Except.ok.inj hx
        exact hf slot rfl
      | none =>
        refine (any_safe _).bind fun now _ _ => ?_
        by_cases hd : start + w ≤ now
        · rw [if_pos hd]
          exact .ret fun _ h => by cases h
        · rw [if_neg hd]
          exact (any_safe _).bind fun _ _ _ => .ret trivial
  · rw [if_neg hcap]
    exact .ret fun _ h => by cases h

theorem takeGpus_passed {spec : NodeSpec} (hspec : spec ∈ T.nodeSpecs) (n : Nat) :
    ∀ acquired : List NodeSlot, (∀ slot ∈ acquired, Passed T v slot) →
      Safe (filterActions T) (takeGpus T pid spec v testId n acquired)
        (fun b _ => ∀ slots, b = .ok slots → ∀ slot ∈ slots, Passed T v slot) () := by
  induction n with
  | zero =>
    intro acquired h
    refine .ret fun slots hslots => ?_
    obtain rfl := Except.ok.inj hslots
    exact h
  | succ n ih =>
    intro acquired h
    refine (allocate_passed hspec).bind fun b _ hb => ?_
    cases b with
    | error e => exact .ret fun _ h => by cases h
    | ok gpu =>
      refine (any_safe _).bind fun l _ _ => ?_
      cases l with
      | error e => exact (any_safe _).bind fun _ _ _ => .ret fun _ h => by cases h
      | ok lock =>
        apply ih
        intro slot hslot
        rcases List.mem_append.mp hslot with hold | hnew
        · exact h slot hold
        · rw [List.mem_singleton.mp hnew]
          exact hb gpu rfl

theorem tryNodes_passed (count : Int) {specs : List NodeSpec} (hspecs : specs ⊆ T.nodeSpecs) :
    Safe (filterActions T) (tryNodes T pid count v testId specs)
      (fun found _ => ∀ multi ∈ found, ∀ slot ∈ multi.slots, Passed T v slot) () := by
  induction specs with
  | nil => exact .ret fun _ h => by cases h
  | cons spec specs ih =>
    obtain ⟨hspec, hspecs⟩ := List.cons_subset.mp hspecs
    rw [tryNodes]
    cases hg : T.gpus spec.label with
    | none => exact ih hspecs
    | some gpus =>
      have hnode : Safe (filterActions T) (tryNode T pid spec count v testId)
          (fun acquired _ => ∀ slot ∈ acquired, Passed T v slot) () := by
        refine (takeGpus_passed hspec count.toNat [] fun _ h => by cases h).bind fun b _ hb => ?_
        cases b with
        | ok acquired => exact .ret (hb acquired rfl)
        | error acquired => exact (any_safe _).bind fun _ _ _ => .ret fun _ h => by cases h
      refine hnode.bind fun acquired _ hacquired => ?_
      cases acquired with
      | nil => exact ih hspecs
      | cons slot slots =>
        refine .ret fun multi hmulti => ?_
        obtain rfl := Option.some.inj hmulti
        exact hacquired

theorem candidateSpecs_subset (nodeLabel : Option String) :
    T.candidateSpecs nodeLabel ⊆ T.nodeSpecs := by
  unfold Topology.candidateSpecs
  cases nodeLabel with
  | none => exact List.Subset.refl _
  | some label =>
    by_cases h : label = ""
    · simp only [h, if_true]
      exact List.Subset.refl _
    · simp only [h, if_false]
      exact List.filter_subset_self _

theorem acquireSlots_passed (count : Int) (nodeLabel : Option String) (w : ℚ) :
    Safe (filterActions T) (acquireSlots T pid count nodeLabel v w testId)
      (fun b _ => ∀ multi, b = .ok multi → ∀ slot ∈ multi.slots, Passed T v slot) () := by
  unfold acquireSlots
  by_cases hcap : T.hasVramCapacity v count nodeLabel
  · rw [if_pos hcap]
    refine (any_safe _).bind fun start _ _ => (any_safe _).bind fun regs _ _ => ?_
    refine Safe.bind (Q := fun b _ => ∀ multi, b = .ok multi →
      ∀ slot ∈ multi.slots, Passed T v slot) ?_ fun b _ hb => ?_
    · refine Safe.iter (fun _ _ => True) trivial fun _ _ _ => ?_
      refine Safe.bind (Q := fun found _ => ∀ multi ∈ found, ∀ slot ∈ multi.slots, Passed T v slot)
        ?_ fun found _ hf => ?_
      · refine .act trivial fun _ _ _ =>
          (tryNodes_passed count (candidateSpecs_subset _)).bind fun found _ hfound => ?_
        exact .act trivial fun _ _ _ => .act trivial fun _ _ _ => .ret hfound
      · cases found with
        | some multi =>
          refine .ret fun x hx => ?_
          obtain rfl := Except.ok.inj hx
          exact hf multi rfl
        | none =>
          refine (any_safe _).bind fun now _ _ => ?_
          by_cases hd : start + w ≤ now
          · rw [if_pos hd]
            exact .ret fun _ h => by cases h
          · rw [if_neg hd]
            exact (any_safe _).bind fun _ _ _ => .ret trivial
    · exact (any_safe _).bind fun _ _ _ => .ret hb
  · rw [if_neg hcap]
    exact .ret fun _ h => by cases h

theorem acquireEach_passed (n : Scalar) (w : ℚ) (specs : List NodeSpec) :
    ∀ result : List MultiGpuSlots, (∀ multi ∈ result, ∀ slot ∈ multi.slots, Passed T v slot) →
      Safe (filterActions T) (acquireEach T pid n v w testId specs result)
        (fun b _ => ∀ multiList, b = .ok multiList →
          ∀ multi ∈ multiList, ∀ slot ∈ multi.slots, Passed T v slot) () := by
  induction specs with
  | nil =>
    intro result h
    refine .ret fun multiList hlist => ?_
    obtain rfl := Except.ok.inj hlist
    exact h
  | cons spec specs ih =>
    intro result h
    rw [acquireEach]
    cases hc : countOn T n spec with
    | error e => exact .ret fun _ h => by cases h
    | ok count =>
      refine (acquireSlots_passed count _ w).bind fun b _ hb => ?_
      cases b with
      | error e => exact .ret fun _ h => by cases h
      | ok multi =>
        apply ih
        intro x hx
        rcases List.mem_append.mp hx with hold | hnew
        · exact h x hold
        · rw [List.mem_singleton.mp hnew]
          exact hb multi rfl

/-- What the outcome of a fixture hands out passed the filter. -/
def OutcomePassed (T : Topology) (v : ℚ) (o : Outcome) : Prop :=
  ∀ multiList, o = .acquired multiList →
    ∀ multi ∈ multiList, ∀ slot ∈ multi.slots, Passed T v slot

theorem requestNodes_passed (r : NodesRequest) :
    Safe (filterActions T) (requestNodes T pid (.ok r))
      (fun o _ => OutcomePassed T r.vramRequiredGb o) () := by
  refine (acquireEach_passed r.gpuCountPerNode r.waitTimeoutSecs T.nodeSpecs []
    fun _ h => by cases h).bind fun b _ hb => ?_
  cases b with
  | ok multiList =>
    refine .ret fun x hx => ?_
    obtain rfl := Outcome.acquired.inj hx
    exact hb multiList rfl
  | error e =>
    cases e with
    | badCount e => exact .ret fun _ h => by cases h
    | _ => exact .ret fun _ h => by cases h

variable (T pid) in
theorem singleNode_passed (ctx : TestContext) :
    Safe (filterActions T) (acquireSingle T pid ctx)
        (fun o _ => OutcomePassed T ctx.vramRequiredGb o) () ∧
      Safe (filterActions T) (multiGpuPath T pid ctx)
        (fun o _ => OutcomePassed T ctx.vramRequiredGb o) () := by
  constructor
  · refine (acquireSlot_passed ctx.acquireTimeout).bind fun b _ hb => ?_
    cases b with
    | ok slot =>
      refine .ret fun x hx multi hmulti s hs => ?_
      obtain rfl := Outcome.acquired.inj hx
      obtain rfl := List.mem_singleton.mp hmulti
      obtain rfl := List.mem_singleton.mp hs
      exact hb _ rfl
    | error e =>
      refine .ret fun x hx => ?_
      by_cases h : totalGpuSlots T = 0
      · rw [if_pos h] at hx
        cases hx
      · rw [if_neg h] at hx
        cases hx
  · unfold multiGpuPath
    cases gpuCountFromMarker ctx.gpuCountMarker 2 with
    | error e => exact .ret fun _ h => by cases h
    | ok value =>
      refine (acquireSlots_passed _ none ctx.acquireTimeout).bind fun b _ hb => ?_
      cases b with
      | ok multi =>
        refine .ret fun x hx m hm => ?_
        obtain rfl := Outcome.acquired.inj hx
        obtain rfl := List.mem_singleton.mp hm
        exact hb _ rfl
      | error e => exact .ret fun _ h => by cases h

theorem nodesRequest_passed (ctx : TestContext) (w : ℚ) :
    Safe (filterActions T) (requestNodes T pid (nodesRequest T ctx w))
      (fun o _ => OutcomePassed T w o) () := by
  unfold nodesRequest
  by_cases hlen : T.nodeSpecs.length < 2
  · rw [if_pos hlen]
    exact .ret fun _ h => by cases h
  · rw [if_neg hlen]
    cases gpuCountFromMarker ctx.gpuCountMarker 1 with
    | error e => exact .ret fun _ h => by cases h
    | ok value => exact requestNodes_passed _

end

/-! ## When the requirement is honoured -/

section

variable (T : Topology) (pid : Nat) (ctx : TestContext)

/-- The requirement of the fixture's own call. -/
def passedOn : Fixture → ℚ
  | .multiNodeFixture => 0
  | _ => ctx.vramRequiredGb

theorem acquire_passed (f : Fixture) :
    Safe (filterActions T) (acquire T pid ctx f)
      (fun o _ => OutcomePassed T (passedOn ctx f) o) () := by
  obtain ⟨hsingle, hmulti⟩ := singleNode_passed T pid ctx
  cases f with
  | targetExecutor =>
    show Safe _ (if ctx.isMultiNode then _ else _) _ _
    by_cases hnode : ctx.isMultiNode = true
    · rw [if_pos hnode]
      exact nodesRequest_passed ctx ctx.vramRequiredGb
    · rw [if_neg hnode]
      by_cases hgpu : ctx.isMultiGpu = true
      · rw [if_pos hgpu]
        exact hmulti
      · rw [if_neg hgpu]
        exact hsingle
  | multiGpuFixture => exact hmulti
  | multiNodeFixture => exact nodesRequest_passed ctx 0

theorem sameConditions_iff :
    SameConditions T (multinodePathRequest T ctx) (multiNodeFixtureRequest T ctx) ↔
      T.nodeSpecs.length < 2 ∨ (∃ e, gpuCountFromMarker ctx.gpuCountMarker 1 = .error e) ∨
        ∀ gpu ∈ fleetGpus T, eligible T ctx.vramRequiredGb gpu = true := by
  unfold multinodePathRequest multiNodeFixtureRequest nodesRequest
  by_cases hlen : T.nodeSpecs.length < 2
  · rw [if_pos hlen, if_pos hlen]
    exact iff_of_true rfl (Or.inl hlen)
  · rw [if_neg hlen, if_neg hlen]
    cases hcount : gpuCountFromMarker ctx.gpuCountMarker 1 with
    | error e => exact iff_of_true rfl (Or.inr (Or.inl ⟨e, rfl⟩))
    | ok value =>
      have hzero : ∀ gpu, eligible T 0 gpu = true := fun _ => rfl
      constructor
      · intro h
        refine Or.inr (Or.inr fun gpu hgpu => ?_)
        rw [h.gpus gpu hgpu]
        exact hzero gpu
      · rintro (h | ⟨e, h⟩ | h)
        · exact absurd h hlen
        · cases h
        · refine ⟨rfl, rfl, rfl, fun gpu hgpu => ?_⟩
          rw [h gpu hgpu]
          exact (hzero gpu).symm

/-- With too few nodes or a count that does not parse, no call is made. -/
theorem nodesRequest_refused {w : ℚ} (h : T.nodeSpecs.length < 2 ∨
    ∃ e, gpuCountFromMarker ctx.gpuCountMarker 1 = .error e) :
    ∃ o, nodesRequest T ctx w = .error o ∧ ∀ multiList, o ≠ .acquired multiList := by
  unfold nodesRequest
  by_cases hlen : T.nodeSpecs.length < 2
  · rw [if_pos hlen]
    exact ⟨_, rfl, fun _ h => by cases h⟩
  · obtain ⟨e, he⟩ := h.resolve_left hlen
    rw [if_neg hlen, he]
    exact ⟨_, rfl, fun _ h => by cases h⟩

/-- A requirement is honoured by every fixture exactly when the one that the
multi-node fixture does not pass on would change nothing: no call is made, or every
GPU of the fleet satisfies it. -/
theorem honoured_iff (testName : String) (acquireTimeout : ℚ) (m : TestMarkers) :
    Honoured T pid (resolveTestContext testName acquireTimeout m) ↔
      T.nodeSpecs.length < 2 ∨ (∃ e, gpuCountFromMarker m.gpuCount 1 = .error e) ∨
        ∀ gpu ∈ fleetGpus T, eligible T (m.gpuVram.getD 0) gpu = true := by
  have hsame := sameConditions_iff T (resolveTestContext testName acquireTimeout m)
  constructor
  · exact fun h => hsame.mp h.nodes
  · intro h
    refine ⟨?_, hsame.mpr h⟩
    intro f es rest s s' multiList hrun multi hmulti slot hslot
    obtain ⟨_, hpassed, _⟩ := runSeq_owned (I := fun _ _ => True)
      (fun _ _ hexec => ⟨(), act_ok hexec, trivial⟩) trivial (acquire_passed T pid _ f) hrun
    obtain ⟨hfleet, hpass⟩ := hpassed multiList rfl multi hmulti slot hslot
    cases f with
    | targetExecutor => exact hpass
    | multiGpuFixture => exact hpass
    | multiNodeFixture =>
      rcases or_assoc.mpr h with hrefused | hall
      · obtain ⟨o, ho, hne⟩ := nodesRequest_refused T
          (resolveTestContext testName acquireTimeout m) (w := 0) hrefused
        rw [acquire, multiNodeFixture, multiNodeFixtureRequest, ho, requestNodes, Prog.pure_eq,
          runSeq_ret] at hrun
        exact absurd (Prod.mk.inj (Option.some.inj hrun)).1 (hne multiList)
      · exact hall _ hfleet

end

/-- `@pytest.mark.gpu_vram(128)` on two nodes with one GPU of 64 GB each. -/
def marked : TestContext := resolveTestContext "test" 30 ⟨none, some 128, true, true⟩

/-- Some slot of the outcome is on a GPU that does not satisfy the requirement. -/
def handsOutSmall : Outcome → Bool
  | .acquired multiList => multiList.any fun multi => multi.slots.any fun slot =>
      !eligible MultiNode.twoNodes marked.vramRequiredGb slot.gpuInfo
  | _ => false

theorem marked_run :
    ((runSeq (MultiNode.ProcState.exec MultiNode.twoNodes) (List.replicate 40 {})
      (acquire MultiNode.twoNodes 1 marked .multiNodeFixture) MultiNode.fresh).map
        fun x => handsOutSmall x.1) = some true := by
  decide +kernel

theorem marked_not_honoured : ¬ Honoured MultiNode.twoNodes 1 marked := by
  intro h
  obtain ⟨⟨o, rest, s'⟩, hrun, hsmall⟩ := Option.map_eq_some_iff.mp marked_run
  cases o with
  | acquired multiList =>
    obtain ⟨multi, hmulti, hslots⟩ := List.any_eq_true.mp hsmall
    obtain ⟨slot, hslot, hno⟩ := List.any_eq_true.mp hslots
    have hyes := h.gpus _ _ _ _ _ _ hrun multi hmulti slot hslot
    rw [hyes] at hno
    cases hno
  | skipped => cases hsmall
  | failed => cases hsmall
  | raised e => cases hsmall

end VramRequirement
end Plugins
end RocmTests

import RocmTests.Executors.Executor
import RocmTests.Gpu.Drain
import RocmTests.Plugins.FixtureHelpers

/-!
# Whether a slot is drained before it is handed over

`_drain_gpu_slots` asks `amd-smi` on the machine that runs pytest, and only where the option
`numprocesses` is set.  In the workers of pytest-xdist it is not.
-/

namespace RocmTests
namespace Plugins
namespace TargetExecutor

open Conc Nodes Executors

/-! ## The options -/

/-- What `config.option.numprocesses` may be, when it is not `None`. -/
inductive NumProcesses where
  | int (n : Int)
  | text (t : String)
deriving DecidableEq

structure DrainConfig where
  numProcesses : Option NumProcesses := none
  drainSecs : ℚ := 1 / 2
  drainTimeout : ℚ := 30

namespace DrainConfig
variable (c : DrainConfig)

/-- `xdist_active`. -/
def xdistActive : Bool :=
  match c.numProcesses with
  | none => false
  | some (.int n) => n ≠ 0
  | some (.text t) => t ≠ "no" && t ≠ ""

/-- The options of a fixture, as far as they depend on the configuration. -/
def options (opts : Options) : Options :=
  { opts with xdistActive := c.xdistActive, drainSecs := 0 < c.drainSecs }

def settings : Gpu.Drain.Settings := { timeoutSecs := c.drainTimeout }

end DrainConfig

/-! ## What a slot is handed over with -/

/-- The machine that runs pytest, or a node that is reached from there. -/
inductive Host where
  | here
  | node (label : String)
deriving DecidableEq

/-- `hostname` is what `gethostname` answers.  `amdSmi` is whether a machine has the tool,
and `turns` is what it answers there while a wait for the GPU goes on. -/
structure Machines where
  hostname : Option String
  amdSmi : Host → Bool
  turns : Host → Int → List Gpu.Drain.Turn

def Machines.owner (M : Machines) (slot : NodeSlot) : Host :=
  if isLocal M.hostname slot.nodeSpec then .here else .node slot.nodeSpec.label

/-- The machine and the GPU that a step waits for: `subprocess.run` is run here. -/
def Step.waitsFor : Step → Option (Host × Int)
  | .waitForDrain gpuIndex => some (.here, gpuIndex)
  | _ => none

/-- The steps have a wait for the slot, on the readings of its own node, and the wait answers
`True` only for a GPU that is idle. -/
structure HandedOverDrained (M : Machines) (c : DrainConfig) (steps : List (Step × Bool))
    (slot : NodeSlot) : Prop where
  waited : ∃ x ∈ steps, x.1.waitsFor = some (M.owner slot, slot.gpuInfo.index) ∧ x.2 = false
  idle : ∀ start, Gpu.Drain.waitForDrain c.settings (M.amdSmi (M.owner slot)) start
      (M.turns (M.owner slot) slot.gpuInfo.index) = some (.ok true) →
    M.amdSmi (M.owner slot) = false ∨
      ∃ t ∈ M.turns (M.owner slot) slot.gpuInfo.index, Gpu.Drain.Idle c.settings.thresholdMb t

/-- A fixture, with the slots it has released and the steps it had taken before each. -/
structure HandoverState where
  base : FixtureState
  handovers : List (NodeSlot × List (Step × Bool)) := []

namespace HandoverState

def note (st : HandoverState) : FixtureOp → List (NodeSlot × List (Step × Bool))
  | .pool (.deallocate _ _ (some slot)) => st.handovers ++ [(slot, st.base.trace)]
  | _ => st.handovers

def exec (t : Nat × Nat) (o : FixtureOp) (raises : Bool) (st : HandoverState) :
    Option (o.Resp × HandoverState) :=
  (FixtureState.exec t o raises st.base).map fun x => (x.1, ⟨x.2, st.note o⟩)

end HandoverState

theorem handover_project (t : Nat × Nat) (es : List Bool) {α : Type} (p : FixtureProg α)
    (st : HandoverState) :
    (runSeq (HandoverState.exec t) es p st).map (fun x => (x.1, x.2.1, x.2.2.base)) =
      runSeq (FixtureState.exec t) es p st.base := by
  refine runSeq_project HandoverState.base (fun o e st => ?_) es p st
  rw [HandoverState.exec, Option.map_map]
  exact congrFun Option.map_id _

/-! ## A fixture in a worker -/

/-- Any action of a fixture but a wait. -/
def IsUnwaited : FixtureOp → Prop
  | .step s => ∀ i, s ≠ .waitForDrain i
  | .pool o => IsReleaseAction (.pool o)

def NoWait (steps : List (Step × Bool)) : Prop := ∀ x ∈ steps, ∀ i, x.1 ≠ .waitForDrain i

/-- The slots that were released are those that were handed over, and nothing was waited for. -/
structure Unwaited (st : HandoverState) : Prop where
  slots : st.handovers.map Prod.fst = st.base.released
  trace : NoWait st.base.trace
  handovers : ∀ x ∈ st.handovers, NoWait x.2

theorem unwaited_exec {t : Nat × Nat} {o : FixtureOp} {raises : Bool} {st st' : HandoverState}
    {b : o.Resp} (ho : IsUnwaited o) (h : Unwaited st)
    (hexec : HandoverState.exec t o raises st = some (b, st')) : Unwaited st' := by
  obtain ⟨⟨b', base⟩, hbase, hst'⟩ := Option.map_eq_some_iff.1 hexec
  cases hst'
  cases o with
  | step s =>
    cases hbase
    refine ⟨h.slots, fun x hx => ?_, h.handovers⟩
    rcases List.mem_append.1 hx with hx | hx
    · exact h.trace x hx
    · cases List.mem_singleton.1 hx
      exact ho
  | pool o =>
    obtain ⟨x, -, hx⟩ := Option.map_eq_some_iff.1 hbase
    cases hx
    cases o with
    | deallocate label gpu retired =>
      cases retired with
      | none => exact ⟨h.slots, h.trace, h.handovers⟩
      | some slot =>
        refine ⟨?_, h.trace, fun x hx => ?_⟩
        · show (st.handovers ++ [(slot, st.base.trace)]).map Prod.fst = st.base.released ++ [slot]
          rw [List.map_append, h.slots]
          rfl
        · rcases List.mem_append.1 hx with hx | hx
          · exact h.handovers x hx
          · cases List.mem_singleton.1 hx
            exact h.trace
    | os o => cases o <;> exact ⟨h.slots, h.trace, h.handovers⟩
    | _ => exact ho.elim

theorem fixture_unwaited (T : Topology) {opts : Options} (hopts : opts.xdistActive = false)
    (shape : Shape) : Straight IsUnwaited (fixture T opts shape) := by
  have hstep : ∀ s, (∀ i, s ≠ .waitForDrain i) → IsUnwaited (.step s) := fun _ hs => hs
  have hrelease : ∀ o, IsReleaseAction o → IsUnwaited o := by
    intro o ho
    cases o with
    | step s => exact ho.elim
    | pool o => exact ho
  rw [fixture_eq]
  refine guardedRelease_straight (tryBlock_straight hstep _ _ _ _)
    (fun l => teardown_straight hstep (fun hactive => ?_) _ l)
    ((releaseShape_actions T shape).mono hrelease)
  rw [hopts] at hactive
  cases hactive

/-- In a worker a fixture hands all its slots over, and waits for none of them. -/
theorem worker_handovers (T : Topology) {c : DrainConfig} (hworker : c.numProcesses = none)
    (opts : Options) (shape : Shape) (t : Nat × Nat)
    (hacquired : ∀ slot ∈ shape.slots, T.gpus slot.nodeSpec.label ≠ none) (pool : PoolState)
    (raises : Nat → Bool) :
    ∃ n a st', runSeq (HandoverState.exec t) ((List.range n).map raises)
        (fixture T (c.options opts) shape) ⟨⟨pool, [], [], []⟩, []⟩ = some (a, [], st') ∧
      st'.handovers.map Prod.fst = shape.slots ∧ ∀ x ∈ st'.handovers, NoWait x.2 := by
  have hopts : (c.options opts).xdistActive = false := by
    show c.xdistActive = false
    rw [DrainConfig.xdistActive, hworker]
  obtain ⟨n, a, base, hrun, hreleasing⟩ :=
    fixture_releases T (c.options opts) shape t hacquired ⟨pool, [], [], []⟩ raises
  rw [← handover_project t _ _ ⟨⟨pool, [], [], []⟩, []⟩] at hrun
  obtain ⟨⟨a', rest, st'⟩, hrun', heq⟩ := Option.map_eq_some_iff.1 hrun
  cases heq
  have hkept : Unwaited st' := by
    refine (fixture_unwaited T hopts shape).keeps (I := Unwaited) ?_ ?_ hrun'
    · exact fun o e s b s' ho hs hexec => unwaited_exec ho hs hexec
    · exact ⟨rfl, fun x hx => absurd hx List.not_mem_nil, fun x hx => absurd hx List.not_mem_nil⟩
  refine ⟨n, a', st', hrun', ?_, hkept.handovers⟩
  rw [hkept.slots, hreleasing.released]
  rfl

theorem not_drained_of_noWait {M : Machines} {c : DrainConfig} {steps : List (Step × Bool)}
    (h : NoWait steps) (slot : NodeSlot) : ¬ HandedOverDrained M c steps slot := by
  rintro ⟨⟨x, hx, hwaits, -⟩, -⟩
  have hne := h x hx
  cases hs : x.1 with
  | waitForDrain i => exact hne i hs
  | _ =>
    rw [hs] at hwaits
    cases hwaits

/-- What a test in a worker has held is handed over drained only when it has held nothing. -/
theorem worker_drained_iff (T : Topology) {c : DrainConfig} (hworker : c.numProcesses = none)
    (M : Machines) (opts : Options) (shape : Shape) (t : Nat × Nat)
    (hacquired : ∀ slot ∈ shape.slots, T.gpus slot.nodeSpec.label ≠ none) (pool : PoolState)
    (raises : Nat → Bool) :
    ∃ n a st', runSeq (HandoverState.exec t) ((List.range n).map raises)
        (fixture T (c.options opts) shape) ⟨⟨pool, [], [], []⟩, []⟩ = some (a, [], st') ∧
      st'.handovers.map Prod.fst = shape.slots ∧
      ((∀ x ∈ st'.handovers, HandedOverDrained M c x.2 x.1) ↔ shape.slots = []) := by
  obtain ⟨n, a, st', hrun, hslots, hnone⟩ :=
    worker_handovers T hworker opts shape t hacquired pool raises
  refine ⟨n, a, st', hrun, hslots, fun hall => ?_, fun hempty x hx => ?_⟩
  · have hempty : st'.handovers = [] :=
      List.eq_nil_iff_forall_not_mem.2 fun x hx =>
        not_drained_of_noWait (hnone x hx) x.1 (hall x hx)
    rw [← hslots, hempty]
    rfl
  · have hmem : x.1 ∈ shape.slots := hslots ▸ List.mem_map_of_mem hx
    rw [hempty] at hmem
    exact absurd hmem List.not_mem_nil

/-- Two nodes, of which none is the machine that runs pytest. -/
def remoteMachines : Machines where
  hostname := some "runner"
  amdSmi := fun _ => true
  turns := fun _ _ => [⟨.exited 0 (.ok (.obj [("vram_used_mb".toList, .int 0)])), 0⟩]

theorem worker_drained_iff_bothNodes :
    ∃ n a st', runSeq (HandoverState.exec (0, 0)) ((List.range n).map fun _ => false)
        (fixture twoNodes (DrainConfig.options {} plainOptions) bothNodes)
        ⟨⟨bothHeld.pool, [], [], []⟩, []⟩ = some (a, [], st') ∧
      st'.handovers.map Prod.fst = bothNodes.slots ∧
      ((∀ x ∈ st'.handovers, HandedOverDrained remoteMachines {} x.2 x.1) ↔
        bothNodes.slots = []) :=
  worker_drained_iff twoNodes rfl remoteMachines plainOptions bothNodes (0, 0)
    (fun _ _ => Option.some_ne_none _) bothHeld.pool fun _ => false

/-- A slot of the machine that runs pytest. -/
def localSlot : NodeSlot :=
  ⟨{ hostname := "localhost" }, ⟨0, "gfx942", 65536, 0⟩, ⟨"localhost", 0, 0⟩, none⟩

theorem localSlot_not_drained :
    ¬ ∀ (T : Topology) (c : DrainConfig) (M : Machines) (opts : Options) (shape : Shape)
      (t : Nat × Nat) (pool : PoolState) (es : List Bool) (a : Except Raised Unit)
      (st' : HandoverState), c.numProcesses = none →
        runSeq (HandoverState.exec t) es (fixture T (c.options opts) shape)
          ⟨⟨pool, [], [], []⟩, []⟩ = some (a, [], st') →
        ∀ x ∈ st'.handovers, HandedOverDrained M c x.2 x.1 := by
  intro hall
  obtain ⟨n, a, st', hrun, hslots, hnone⟩ :=
    worker_handovers twoNodes (c := {}) rfl plainOptions (.single localSlot) (0, 0)
      (fun _ _ => Option.some_ne_none _) bothHeld.pool fun _ => false
  have hmem : localSlot ∈ st'.handovers.map Prod.fst := by
    rw [hslots]
    exact List.mem_singleton_self localSlot
  obtain ⟨x, hx, -⟩ := List.mem_map.1 hmem
  exact not_drained_of_noWait (hnone x hx) x.1
    (hall twoNodes {} remoteMachines plainOptions (.single localSlot) (0, 0) bothHeld.pool _ a st'
      rfl hrun x hx)

end TargetExecutor
end Plugins
end RocmTests

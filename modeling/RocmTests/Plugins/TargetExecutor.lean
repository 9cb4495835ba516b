import RocmTests.Conc.Raise
import RocmTests.Nodes.PoolSystem

/-!
# The executor fixtures from acquisition to release

`target_executor` hands a test the slots it acquired and takes them back.  The
set-up, the test and the teardown stand in two nested `try`/`finally` blocks,
written once in `_acquire_and_yield` and once more in the single-GPU path.  Every
step may raise; which ones do is the schedule's choice.

The lines printed to the console and the session log are left out.
-/

namespace RocmTests
namespace Plugins
namespace TargetExecutor

open Conc Nodes

/-- The steps of a fixture, for the node at a position in the list. -/
inductive Step where
  | monitoringExecutor (node : Nat)
  | preSnapshot (node : Nat) (gpuIndex : Int)
  | bgStart (node : Nat) (gpuIndices : List Int) (logSuffix : String)
  | makeExecutor (node : Nat)
  | containerStart (node : Nat)
  | testBody
  | containerStop (node : Nat)
  | bgStop (node : Nat)
  | postSnapshot (node : Nat) (gpuIndex : Int)
  | closeLogger (node : Nat)
  | waitForDrain (gpuIndex : Int)
  | drainSleep
deriving DecidableEq, Repr

/-- What ends a block early: a step, `multi.slots[0]` of an empty group, or a
`NodeExecutorGroup` of nothing. -/
inductive Raised where
  | at (s : Step)
  | emptyGroup (node : Nat)
  | noExecutors
deriving DecidableEq, Repr

inductive FixtureOp where
  | step (s : Step)
  | pool (o : PoolOp)

/-- A step answers whether it raised. -/
abbrev FixtureOp.Resp : FixtureOp → Type
  | .step _ => Bool
  | .pool o => o.Resp

abbrev FixtureProg := Prog FixtureOp FixtureOp.Resp

def inPool {α : Type} (p : PoolProg α) : FixtureProg α := Prog.mapOp FixtureOp.pool (fun _ b => b) p

def take (s : Step) : FixtureProg (Except Raised Unit) :=
  (Prog.perform (FixtureOp.step s)).bind fun raised =>
    .ret (if raised then .error (.at s) else .ok ())

/-- What the markers and options decide.  `drainSecs` is whether the sequential
pause is positive. -/
structure Options where
  testName : String
  healthMetrics : Bool
  monitorGpu : Bool
  container : Bool
  xdistActive : Bool
  drainSecs : Bool

/-- The local variables the `finally` block reads, by position. -/
structure Locals where
  healthMonitors : List Nat := []
  bgMonitors : List Nat := []
  executors : List Nat := []
  wrappers : List Nat := []

abbrev Nodes := List (MultiGpuSlots × Nat)

section

variable (opts : Options) (isMultiNode : Bool)

/-! ## Monitors -/

def logSuffix (multi : MultiGpuSlots) : String :=
  if isMultiNode then
    opts.testName ++ "_" ++
      String.ofList (multi.nodeSpec.label.toList.map fun c => if c = '.' then '_' else c)
  else opts.testName

/-- The health monitors and the background monitors, in this order. -/
def setupMonitoring (nodes : Nodes) : FixtureProg (Except Raised (List Nat × List Nat)) :=
  (Prog.eachE (fun x : MultiGpuSlots × Nat =>
    match x.1.slots with
    | [] => .ret (.error (.emptyGroup x.2))
    | _ :: _ => take (.monitoringExecutor x.2)) nodes).thenE fun _ =>
  (if opts.healthMetrics then
    Prog.mapE (fun x : MultiGpuSlots × Nat =>
      (Prog.eachE (fun slot : NodeSlot => take (.preSnapshot x.2 slot.gpuInfo.index))
        x.1.slots).thenE
        fun _ => .ret (.ok x.2)) nodes
    else .ret (.ok [])).thenE fun healthMonitors =>
  (if opts.monitorGpu then
    Prog.mapE (fun x : MultiGpuSlots × Nat =>
      (take (.bgStart x.2 x.1.gpuIndices (logSuffix opts isMultiNode x.1))).thenE
        fun _ => .ret (.ok x.2)) nodes
    else .ret (.ok [])).thenE fun bgMonitors =>
  .ret (.ok (healthMonitors, bgMonitors))

def teardownMonitoring (nodes : Nodes) (l : Locals) : FixtureProg (Except Raised Unit) :=
  (Prog.eachE (fun node => take (.bgStop node)) l.bgMonitors).thenE fun _ =>
  if opts.healthMetrics && !l.healthMonitors.isEmpty then
    Prog.eachE (fun x : MultiGpuSlots × Nat =>
      Prog.eachE (fun slot : NodeSlot => take (.postSnapshot x.2 slot.gpuInfo.index)) x.1.slots)
        nodes
  else .ret (.ok ())

def drainGpuSlots (gpuIndices : List Int) : FixtureProg (Except Raised Unit) :=
  if opts.xdistActive then Prog.eachE (fun i => take (.waitForDrain i)) gpuIndices
  else if opts.drainSecs then take .drainSleep
  else .ret (.ok ())

/-! ## The two blocks -/

def startContainerWrappers (executors : List Nat) : FixtureProg (Except Raised (List Nat)) :=
  Prog.mapE (fun node => (take (.containerStart node)).thenE fun _ => .ret (.ok node)) executors

/-- The `try` block up to and including the `yield`.  `useContainer` is whether
the commands run inside containers. -/
def tryBlock (useContainer : Bool) (nodes : Nodes) : FixtureProg (Locals × Except Raised Unit) := do
  match ← setupMonitoring opts isMultiNode nodes with
  | .error e => pure ({}, .error e)
  | .ok (healthMonitors, bgMonitors) =>
    match ← Prog.mapE (fun x : MultiGpuSlots × Nat =>
        (take (.makeExecutor x.2)).thenE fun _ => .ret (.ok x.2)) nodes with
    | .error e => pure ({ healthMonitors, bgMonitors }, .error e)
    | .ok executors =>
      match ← (if useContainer then startContainerWrappers executors else pure (.ok [])) with
      | .error e => pure ({ healthMonitors, bgMonitors, executors }, .error e)
      | .ok wrappers =>
        match executors with
        | [] => pure ({ healthMonitors, bgMonitors, executors, wrappers }, .error .noExecutors)
        | _ :: _ => do
          let r ← take .testBody
          pure ({ healthMonitors, bgMonitors, executors, wrappers }, r)

/-- The inner `try` of the `finally` block. -/
def teardown (nodes : Nodes) (l : Locals) : FixtureProg (Except Raised Unit) :=
  (Prog.eachE (fun node => take (.containerStop node)) l.wrappers).thenE fun _ =>
  (teardownMonitoring opts nodes l).thenE fun _ =>
  (Prog.eachE (fun node => take (.closeLogger node)) l.executors).thenE fun _ =>
  drainGpuSlots opts (nodes.flatMap fun x => x.1.gpuIndices)

end

/-- `_acquire_and_yield`. -/
def acquireAndYield (T : Topology) (opts : Options) (isMultiNode : Bool)
    (multiList : List MultiGpuSlots) : FixtureProg (Except Raised Unit) :=
  Prog.tryFinally
    (tryBlock opts isMultiNode (opts.container && !isMultiNode) multiList.zipIdx)
    fun l =>
      Prog.tryFinally
        ((teardown opts multiList.zipIdx l).bind fun r => .ret ((), r))
        fun _ => (Prog.forEach (fun multi => inPool (Pool.release T multi.slots)) multiList).bind
          fun _ => .ret (.ok ())

/-- The single-GPU path of `target_executor`, which wraps its slot as a group of
one for the monitors. -/
def singleGpu (T : Topology) (opts : Options) (slot : NodeSlot) :
    FixtureProg (Except Raised Unit) :=
  Prog.tryFinally
    (tryBlock opts false opts.container [(⟨[slot], slot.nodeSpec⟩, 0)])
    fun l =>
      Prog.tryFinally
        ((teardown opts [(⟨[slot], slot.nodeSpec⟩, 0)] l).bind fun r => .ret ((), r))
        fun _ => (inPool (Pool.release T [slot])).bind fun _ => .ret (.ok ())

/-- The two ways a fixture holds its slots. -/
inductive Shape where
  | shared (isMultiNode : Bool) (multiList : List MultiGpuSlots)
  | single (slot : NodeSlot)

def Shape.slots : Shape → List NodeSlot
  | .shared _ multiList => multiList.flatMap (·.slots)
  | .single slot => [slot]

def fixture (T : Topology) (opts : Options) : Shape → FixtureProg (Except Raised Unit)
  | .shared isMultiNode multiList => acquireAndYield T opts isMultiNode multiList
  | .single slot => singleGpu T opts slot

/-! ## Running a fixture -/

/-- The pool, with a history of the steps taken, the slots whose index was given
back and the locks that were dropped. -/
structure FixtureState where
  pool : PoolState
  trace : List (Step × Bool)
  released : List NodeSlot
  unlocked : List (LockFile × Nat)

namespace FixtureState

def note (st : FixtureState) : PoolOp → FixtureState
  | .deallocate _ _ (some slot) => { st with released := st.released ++ [slot] }
  | .os (.funlock f id) => { st with unlocked := st.unlocked ++ [(f, id)] }
  | _ => st

/-- One action of thread `t`.  The input says whether a step raises. -/
def exec (t : Nat × Nat) : (o : FixtureOp) → Bool → FixtureState → Option (o.Resp × FixtureState)
  | .step s, raises, st => some (raises, { st with trace := st.trace ++ [(s, raises)] })
  | .pool o, _, st =>
    (PoolState.exec t o {} st.pool).map fun x => (x.1, { st.note o with pool := x.2 })

end FixtureState

def IsStep : FixtureOp → Prop
  | .step _ => True
  | .pool _ => False

/-- The actions of a fixture: its steps and those of `release`, none of which
blocks. -/
def IsFixtureAction : FixtureOp → Prop
  | .step _ => True
  | .pool (.deallocate _ _ _) => True
  | .pool (.os _) => True
  | .pool _ => False

theorem exec_possible (t : Nat × Nat) (o : FixtureOp) (raises : Bool) (st : FixtureState)
    (h : IsFixtureAction o) : ∃ x, FixtureState.exec t o raises st = some x := by
  cases o with
  | step s => exact ⟨_, rfl⟩
  | pool o =>
    cases o with
    | os o => exact ⟨_, rfl⟩
    | deallocate label gpu retired =>
      cases retired with
      | none => exact ⟨_, rfl⟩
      | some slot => exact ⟨_, rfl⟩
    | _ => exact h.elim

/-! ## Set-up and teardown are steps -/

theorem take_straight {P : FixtureOp → Prop} {s : Step} (hs : P (.step s)) :
    Straight P (take s) := .act hs fun _ => .ret

section Straight
variable {P : FixtureOp → Prop} (hP : ∀ s, (∀ i, s ≠ .waitForDrain i) → P (.step s))
include hP

theorem setupMonitoring_straight (opts : Options) (isMultiNode : Bool) (nodes : Nodes) :
    Straight P (setupMonitoring opts isMultiNode nodes) := by
  have hquiet (s : Step) (hs : ∀ i, s ≠ .waitForDrain i) : Straight P (take s) :=
    take_straight (hP s hs)
  unfold setupMonitoring
  refine Straight.thenE (Straight.eachE fun x => ?_) fun _ =>
    Straight.thenE ?_ fun _ => Straight.thenE ?_ fun _ => .ret
  · cases x.1.slots with
    | nil => exact .ret
    | cons _ _ => exact hquiet _ fun _ => Step.noConfusion
  · by_cases h : opts.healthMetrics = true
    · rw [if_pos h]
      exact Straight.mapE fun x =>
        (Straight.eachE fun _ => hquiet _ fun _ => Step.noConfusion).thenE fun _ => .ret
    · rw [if_neg h]
      exact .ret
  · by_cases h : opts.monitorGpu = true
    · rw [if_pos h]
      exact Straight.mapE fun x => (hquiet _ fun _ => Step.noConfusion).thenE fun _ => .ret
    · rw [if_neg h]
      exact .ret

theorem tryBlock_straight (opts : Options) (isMultiNode useContainer : Bool) (nodes : Nodes) :
    Straight P (tryBlock opts isMultiNode useContainer nodes) := by
  have hquiet (s : Step) (hs : ∀ i, s ≠ .waitForDrain i) : Straight P (take s) :=
    take_straight (hP s hs)
  refine (setupMonitoring_straight hP opts isMultiNode nodes).bind fun x => ?_
  cases x with
  | error e => exact .ret
  | ok monitors =>
    refine Straight.bind (Straight.mapE fun x =>
      (hquiet _ fun _ => Step.noConfusion).thenE fun _ => .ret) fun y => ?_
    cases y with
    | error e => exact .ret
    | ok executors =>
      refine Straight.bind (p := if useContainer then startContainerWrappers executors
        else pure (.ok [])) ?_ fun z => ?_
      · cases useContainer with
        | true =>
          exact Straight.mapE fun node =>
            (hquiet _ fun _ => Step.noConfusion).thenE fun _ => .ret
        | false => exact .ret
      · cases z with
        | error e => exact .ret
        | ok wrappers =>
          cases executors with
          | nil => exact .ret
          | cons _ _ => exact (hquiet _ fun _ => Step.noConfusion).bind fun _ => .ret

theorem teardown_straight {opts : Options}
    (hwait : opts.xdistActive = true → ∀ i, P (.step (.waitForDrain i))) (nodes : Nodes)
    (l : Locals) : Straight P (teardown opts nodes l) := by
  have hquiet (s : Step) (hs : ∀ i, s ≠ .waitForDrain i) : Straight P (take s) :=
    take_straight (hP s hs)
  unfold teardown teardownMonitoring drainGpuSlots
  refine Straight.thenE (Straight.eachE fun _ => hquiet _ fun _ => Step.noConfusion) fun _ =>
    Straight.thenE (Straight.thenE
      (Straight.eachE fun _ => hquiet _ fun _ => Step.noConfusion) fun _ => ?_) fun _ =>
        Straight.thenE (Straight.eachE fun _ => hquiet _ fun _ => Step.noConfusion) fun _ => ?_
  · split
    · exact Straight.eachE fun x => Straight.eachE fun _ => hquiet _ fun _ => Step.noConfusion
    · exact .ret
  · split
    · next hactive => exact Straight.eachE fun i => take_straight (hwait hactive i)
    · split
      · exact hquiet _ fun _ => Step.noConfusion
      · exact .ret

end Straight

/-- Steps leave the pool and the history of releases alone. -/
theorem steps_keep {t : Nat × Nat} {α : Type} {p : FixtureProg α} (hp : Straight IsStep p)
    {es rest : List Bool} {st st' : FixtureState} {a : α}
    (h : runSeq (FixtureState.exec t) es p st = some (a, rest, st')) :
    st'.pool = st.pool ∧ st'.released = st.released ∧ st'.unlocked = st.unlocked := by
  refine hp.keeps (I := fun u => u.pool = st.pool ∧ u.released = st.released ∧
    u.unlocked = st.unlocked) ?_ ⟨rfl, rfl, rfl⟩ h
  intro o raises u b u' ho hu he
  cases o with
  | step s =>
    cases he
    exact hu
  | pool o => exact ho.elim

/-! ## Release -/

/-- The index is back and the lock is not held through this slot any more. -/
def Returned (pid : Nat) (s : PoolState) (slot : NodeSlot) : Prop :=
  slot.gpuInfo.index ∈ (s.alloc (pid, slot.nodeSpec.label)).available ∧
    s.os.holder slot.file ≠ some ⟨pid, slot.fileLock.id⟩

/-- The slots `done` have been released since `st`, each once and in order. -/
structure Releasing (pid : Nat) (st : FixtureState) (done : List NodeSlot) (st' : FixtureState) :
    Prop where
  released : st'.released = st.released ++ done
  unlocked : st'.unlocked = st.unlocked ++ done.map NodeSlot.token
  returned : ∀ slot ∈ done, Returned pid st'.pool slot

/-- What `release` does for its first slot. -/
theorem release_cons {T : Topology} {slot : NodeSlot}
    (h : T.gpus slot.nodeSpec.label ≠ none) (slots : List NodeSlot) :
    inPool (Pool.release T (slot :: slots)) =
      .act (.pool (.deallocate slot.nodeSpec.label slot.gpuInfo (some slot))) fun _ =>
        .act (.pool (.os (.funlock slot.file slot.fileLock.id))) fun _ =>
          .act (.pool (.os (.removeInfo slot.file))) fun _ => inPool (Pool.release T slots) := by
  obtain ⟨gpus, hgpus⟩ := Option.ne_none_iff_exists'.mp h
  unfold inPool Pool.release
  rw [Prog.forEach, hgpus]
  rfl

theorem release_straight {T : Topology} {slots : List NodeSlot}
    (h : ∀ slot ∈ slots, T.gpus slot.nodeSpec.label ≠ none) :
    Straight IsFixtureAction (inPool (Pool.release T slots)) := by
  induction slots with
  | nil => exact .ret
  | cons slot slots ih =>
    rw [release_cons (h slot List.mem_cons_self)]
    have hrest := ih fun x hx => h x (List.mem_cons_of_mem _ hx)
    exact .act trivial fun _ => .act trivial fun _ => .act trivial fun _ => hrest

/-- The pool after one slot has been released. -/
def releaseSlot (pid : Nat) (s : PoolState) (slot : NodeSlot) : PoolState :=
  let given := (s.setAlloc pid slot.nodeSpec.label
    ((s.alloc (pid, slot.nodeSpec.label)).release slot.gpuInfo)).retire pid slot
  { given with
    os := (OsState.exec pid (.removeInfo slot.file) {}
      (OsState.exec pid (.funlock slot.file slot.fileLock.id) {} given.os).2).2 }

theorem holder_releaseSlot (pid : Nat) (s : PoolState) (slot : NodeSlot) (f : LockFile) :
    (releaseSlot pid s slot).os.holder f =
      if f = slot.file ∧ s.os.holder f = some ⟨pid, slot.fileLock.id⟩ then none
      else s.os.holder f := by
  have hos : (releaseSlot pid s slot).os.holder =
      if s.os.holder slot.file = some ⟨pid, slot.fileLock.id⟩ then
        Function.update s.os.holder slot.file none else s.os.holder := by
    show (if s.os.holder slot.file = some ⟨pid, slot.fileLock.id⟩ then
      { s.os with holder := Function.update s.os.holder slot.file none } else s.os).holder = _
    split <;> rfl
  rw [hos]
  by_cases hf : f = slot.file
  · subst hf
    by_cases hheld : s.os.holder slot.file = some ⟨pid, slot.fileLock.id⟩
    · simp [hheld]
    · simp [hheld]
  · have hother : ¬ (f = slot.file ∧ s.os.holder f = some ⟨pid, slot.fileLock.id⟩) :=
      fun h => hf h.1
    rw [if_neg hother]
    split
    · exact Function.update_of_ne hf _ _
    · rfl

theorem available_releaseSlot (pid : Nat) (s : PoolState) (slot : NodeSlot) (label : String) :
    ((releaseSlot pid s slot).alloc (pid, label)).available =
      if label = slot.nodeSpec.label then insert slot.gpuInfo.index (s.alloc (pid, label)).available
      else (s.alloc (pid, label)).available := by
  have halloc : (releaseSlot pid s slot).alloc = Function.update s.alloc (pid, slot.nodeSpec.label)
      ((s.alloc (pid, slot.nodeSpec.label)).release slot.gpuInfo) := rfl
  rw [halloc]
  by_cases hl : label = slot.nodeSpec.label
  · subst hl
    rw [Function.update_self, if_pos rfl]
    rfl
  · have hne : (pid, label) ≠ (pid, slot.nodeSpec.label) := fun h => hl (congrArg Prod.snd h)
    rw [Function.update_of_ne hne, if_neg hl]

theorem Returned.releaseSlot {pid : Nat} {s : PoolState} {x : NodeSlot} (h : Returned pid s x)
    (slot : NodeSlot) : Returned pid (releaseSlot pid s slot) x := by
  obtain ⟨havail, hholder⟩ := h
  constructor
  · rw [available_releaseSlot]
    split
    · exact Finset.mem_insert_of_mem havail
    · exact havail
  · rw [holder_releaseSlot]
    split
    · simp
    · exact hholder

theorem returned_releaseSlot (pid : Nat) (s : PoolState) (slot : NodeSlot) :
    Returned pid (releaseSlot pid s slot) slot := by
  constructor
  · rw [available_releaseSlot, if_pos rfl]
    exact Finset.mem_insert_self _ _
  · rw [holder_releaseSlot]
    by_cases hheld : s.os.holder slot.file = some ⟨pid, slot.fileLock.id⟩
    · rw [if_pos ⟨rfl, hheld⟩]
      simp
    · rw [if_neg fun h => hheld h.2]
      exact hheld

theorem Releasing.next {pid : Nat} {st u : FixtureState} {done : List NodeSlot}
    (h : Releasing pid st done u) (slot : NodeSlot) :
    Releasing pid st (done ++ [slot]) { u with
      pool := releaseSlot pid u.pool slot
      released := u.released ++ [slot]
      unlocked := u.unlocked ++ [slot.token] } where
  released := by
    show u.released ++ [slot] = _
    rw [h.released, List.append_assoc]
  unlocked := by
    show u.unlocked ++ [slot.token] = _
    rw [h.unlocked, List.append_assoc, List.map_append]
    rfl
  returned x hx := by
    rcases List.mem_append.mp hx with hx | hx
    · exact (h.returned x hx).releaseSlot slot
    · have heq := List.mem_singleton.mp hx
      subst heq
      exact returned_releaseSlot pid u.pool x

theorem release_runs {T : Topology} {t : Nat × Nat} {st : FixtureState} {slots : List NodeSlot}
    (hslots : ∀ slot ∈ slots, T.gpus slot.nodeSpec.label ≠ none) :
    ∀ {done : List NodeSlot} {u u' : FixtureState} {es rest : List Bool} {a : Unit},
      Releasing t.1 st done u →
        runSeq (FixtureState.exec t) es (inPool (Pool.release T slots)) u = some (a, rest, u') →
          Releasing t.1 st (done ++ slots) u' := by
  induction slots with
  | nil =>
    intro done u u' es rest a h hrun
    have hret : runSeq (FixtureState.exec t) es (inPool (Pool.release T [])) u =
        some ((), es, u) := runSeq_ret es () u
    rw [hret] at hrun
    cases hrun
    rw [List.append_nil]
    exact h
  | cons slot slots ih =>
    intro done u u' es rest a h hrun
    rw [release_cons (hslots slot List.mem_cons_self)] at hrun
    rcases es with _ | ⟨e₁, _ | ⟨e₂, _ | ⟨e₃, es⟩⟩⟩
    · cases hrun
    · cases hrun
    · cases hrun
    · have hnext := ih (fun x hx => hslots x (List.mem_cons_of_mem _ hx)) (h.next slot) hrun
      rw [List.append_assoc] at hnext
      exact hnext

theorem releaseMulti_runs {T : Topology} {t : Nat × Nat} {st : FixtureState}
    {multiList : List MultiGpuSlots}
    (hslots : ∀ multi ∈ multiList, ∀ slot ∈ multi.slots, T.gpus slot.nodeSpec.label ≠ none) :
    ∀ {done : List NodeSlot} {u u' : FixtureState} {es rest : List Bool} {a : Unit},
      Releasing t.1 st done u →
        runSeq (FixtureState.exec t) es
          (Prog.forEach (fun multi : MultiGpuSlots => inPool (Pool.release T multi.slots))
            multiList)
          u = some (a, rest, u') →
          Releasing t.1 st (done ++ multiList.flatMap (·.slots)) u' := by
  induction multiList with
  | nil =>
    intro done u u' es rest a h hrun
    rw [Prog.forEach, runSeq_ret] at hrun
    cases hrun
    rw [List.flatMap_nil, List.append_nil]
    exact h
  | cons multi multiList ih =>
    intro done u u' es rest a h hrun
    rw [Prog.forEach, runSeq_bind] at hrun
    obtain ⟨⟨b, mid, v⟩, hfirst, hrest⟩ := Option.bind_eq_some_iff.mp hrun
    have hone := release_runs (hslots multi List.mem_cons_self) h hfirst
    have hall := ih (fun x hx => hslots x (List.mem_cons_of_mem _ hx)) hone hrest
    rw [List.append_assoc] at hall
    rw [List.flatMap_cons]
    exact hall

/-! ## Whatever raises, the slots come back -/

/-- The outer `try`, the inner `try` and the release, for any release program. -/
def guardedRelease (block : FixtureProg (Locals × Except Raised Unit))
    (teardown : Locals → FixtureProg (Except Raised Unit)) (release : FixtureProg Unit) :
    FixtureProg (Except Raised Unit) :=
  Prog.tryFinally block fun l =>
    Prog.tryFinally ((teardown l).bind fun r => .ret ((), r)) fun _ =>
      release.bind fun _ => .ret (.ok ())

section

variable {block : FixtureProg (Locals × Except Raised Unit)}
  {teardown : Locals → FixtureProg (Except Raised Unit)} {release : FixtureProg Unit}

theorem guardedRelease_straight {P : FixtureOp → Prop} (hblock : Straight P block)
    (hteardown : ∀ l, Straight P (teardown l)) (hrelease : Straight P release) :
    Straight P (guardedRelease block teardown release) := by
  refine hblock.tryFinally fun l => ?_
  refine Straight.tryFinally ((hteardown l).bind fun _ => .ret) fun _ => ?_
  exact hrelease.bind fun _ => .ret

/-- The release runs once, on the pool as it was when the fixture began. -/
theorem guardedRelease_runs (hblock : Straight IsStep block)
    (hteardown : ∀ l, Straight IsStep (teardown l)) {t : Nat × Nat} {es rest : List Bool}
    {st st' : FixtureState} {a : Except Raised Unit}
    (h : runSeq (FixtureState.exec t) es (guardedRelease block teardown release) st =
      some (a, rest, st')) :
    ∃ mid u, (u.pool = st.pool ∧ u.released = st.released ∧ u.unlocked = st.unlocked) ∧
      runSeq (FixtureState.exec t) mid release u = some ((), rest, st') := by
  obtain ⟨x, mid, u, y, hrun, hfin⟩ := runSeq_tryFinally h
  obtain ⟨x', mid', u', y', hrun', hfin'⟩ := runSeq_tryFinally hfin
  have hkeep := steps_keep hblock hrun
  have hkeep' := steps_keep ((hteardown x.1).bind fun _ => .ret) hrun'
  rw [runSeq_bind] at hfin'
  obtain ⟨⟨b, last, v⟩, hrelease, hret⟩ := Option.bind_eq_some_iff.mp hfin'
  rw [runSeq_ret] at hret
  cases hret
  refine ⟨mid', u', ⟨hkeep'.1.trans hkeep.1, hkeep'.2.1.trans hkeep.2.1,
    hkeep'.2.2.trans hkeep.2.2⟩, hrelease⟩

end

/-- The program that gives the slots of a shape back. -/
def releaseShape (T : Topology) : Shape → FixtureProg Unit
  | .shared _ multiList =>
    Prog.forEach (fun multi => inPool (Pool.release T multi.slots)) multiList
  | .single slot => inPool (Pool.release T [slot])

/-- The `try` block and the inner `try` of a shape. -/
theorem fixture_guarded (T : Topology) (opts : Options) (shape : Shape) :
    ∃ block teardown, Straight IsStep block ∧ (∀ l, Straight IsStep (teardown l)) ∧
      fixture T opts shape = guardedRelease block teardown (releaseShape T shape) := by
  have hstep : ∀ s, (∀ i, s ≠ .waitForDrain i) → IsStep (.step s) := fun _ _ => trivial
  cases shape with
  | shared isMultiNode multiList =>
    exact ⟨_, _, tryBlock_straight hstep opts isMultiNode _ _,
      teardown_straight hstep (fun _ _ => trivial) _, rfl⟩
  | single slot =>
    exact ⟨_, _, tryBlock_straight hstep opts false _ _,
      teardown_straight hstep (fun _ _ => trivial) _, rfl⟩

theorem releaseShape_straight {T : Topology} {shape : Shape}
    (h : ∀ slot ∈ shape.slots, T.gpus slot.nodeSpec.label ≠ none) :
    Straight IsFixtureAction (releaseShape T shape) := by
  cases shape with
  | shared isMultiNode multiList =>
    refine Straight.forEach fun multi hm => release_straight fun slot hs => h slot ?_
    exact List.mem_flatMap.mpr ⟨multi, hm, hs⟩
  | single slot => exact release_straight h

theorem releaseShape_runs {T : Topology} {shape : Shape}
    (h : ∀ slot ∈ shape.slots, T.gpus slot.nodeSpec.label ≠ none) {t : Nat × Nat}
    {st u u' : FixtureState} {es rest : List Bool} (hu : Releasing t.1 st [] u)
    (hrun : runSeq (FixtureState.exec t) es (releaseShape T shape) u = some ((), rest, u')) :
    Releasing t.1 st shape.slots u' := by
  cases shape with
  | shared isMultiNode multiList =>
    refine releaseMulti_runs (fun multi hm slot hs => h slot ?_) hu hrun
    exact List.mem_flatMap.mpr ⟨multi, hm, hs⟩
  | single slot => exact release_runs h hu hrun

/-- Whatever steps raise, the fixture ends, and by then every slot it held has
been released exactly once: its index is available again and its lock is
dropped. -/
theorem fixture_releases (T : Topology) (opts : Options) (shape : Shape) (t : Nat × Nat)
    (hacquired : ∀ slot ∈ shape.slots, T.gpus slot.nodeSpec.label ≠ none) (st : FixtureState)
    (raises : Nat → Bool) :
    ∃ n a st', runSeq (FixtureState.exec t) ((List.range n).map raises) (fixture T opts shape) st =
        some (a, [], st') ∧
      Releasing t.1 st shape.slots st' := by
  obtain ⟨block, teardown, hblock, hteardown, hfixture⟩ := fixture_guarded T opts shape
  rw [hfixture]
  have hstep : ∀ o, IsStep o → IsFixtureAction o := by
    intro o ho
    cases o with
    | step s => trivial
    | pool o => exact ho.elim
  have hstraight := guardedRelease_straight (hblock.mono hstep)
    (fun l => (hteardown l).mono hstep) (releaseShape_straight hacquired)
  obtain ⟨n, a, st', hrun⟩ := hstraight.finishes
    (fun o e s ho => exec_possible t o e s ho) raises st
  refine ⟨n, a, st', hrun, ?_⟩
  obtain ⟨mid, u, hkeep, hrelease⟩ := guardedRelease_runs hblock hteardown hrun
  refine releaseShape_runs hacquired ?_ hrelease
  exact ⟨by rw [hkeep.2.1, List.append_nil], by rw [hkeep.2.2]; simp, fun x hx => by cases hx⟩

/-- Two nodes with a GPU each, both acquired. -/
def twoNodes : Topology :=
  { nodeSpecs := [{ hostname := "gpu-node-01", label := "HOST_IDX_1" },
      { hostname := "gpu-node-02", label := "HOST_IDX_2" }]
    gpus := fun _ => some [⟨0, "gfx942", 65536, 0⟩]
    headroomGb := 0
    sshSessions := fun _ => some 0 }

def acquiredNode (label : String) (id : Nat) : MultiGpuSlots :=
  let spec : NodeSpec := { hostname := label, label := label }
  ⟨[⟨spec, ⟨0, "gfx942", 65536, 0⟩, ⟨label, 0, id⟩, some 0⟩], spec⟩

def bothNodes : Shape := .shared true [acquiredNode "HOST_IDX_1" 0, acquiredNode "HOST_IDX_2" 1]

/-- The process holds both locks and has no index left. -/
def bothHeld : FixtureState :=
  { pool := { PoolState.start twoNodes OsState.start with
      alloc := fun _ => ⟨[⟨0, "gfx942", 65536, 0⟩], ∅, 0⟩
      os := { OsState.start with
        holder := fun f =>
          if f = lockFile "HOST_IDX_1" 0 then some ⟨0, 0⟩
          else if f = lockFile "HOST_IDX_2" 0 then some ⟨0, 1⟩ else none } }
    trace := []
    released := []
    unlocked := [] }

def plainOptions : Options :=
  { testName := "test_rccl", healthMetrics := true, monitorGpu := true, container := false,
    xdistActive := true, drainSecs := true }

theorem fixture_releases_bothNodes :
    ∃ n a st', runSeq (FixtureState.exec (0, 0)) ((List.range n).map fun _ => true)
        (fixture twoNodes plainOptions bothNodes) bothHeld = some (a, [], st') ∧
      Releasing 0 bothHeld bothNodes.slots st' :=
  fixture_releases twoNodes plainOptions bothNodes (0, 0) (fun _ _ => Option.some_ne_none _)
    bothHeld fun _ => true

end TargetExecutor
end Plugins
end RocmTests

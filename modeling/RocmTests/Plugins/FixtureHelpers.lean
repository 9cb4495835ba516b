import RocmTests.Conc.Raise
import RocmTests.Plugins.TargetExecutor

/-!
# The helpers a fixture starts

Background monitors and containers are started in the `try` block and stopped in
the inner `try` of the `finally` block.  A list of helpers reaches its variable
only when the loop that builds it has ended, and the stops stand in one sequence,
so which helpers are stopped depends on which step raises.  Here every step has a
fixed outcome, and the result says exactly for which outcomes all are stopped.
-/

namespace RocmTests
namespace Plugins
namespace TargetExecutor

open Conc Nodes

/-- The node list of a shape, as the blocks see it. -/
def Shape.nodes : Shape → Nodes
  | .shared _ multiList => multiList.zipIdx
  | .single slot => [(⟨[slot], slot.nodeSpec⟩, 0)]

def Shape.isMultiNode : Shape → Bool
  | .shared isMultiNode _ => isMultiNode
  | .single _ => false

def Shape.useContainer (opts : Options) : Shape → Bool
  | .shared isMultiNode _ => opts.container && !isMultiNode
  | .single _ => opts.container

/-- Every helper whose `start` returned has had its `stop` called. -/
structure AllStopped (trace : List (Step × Bool)) : Prop where
  monitors : ∀ node gpuIndices logSuffix, (Step.bgStart node gpuIndices logSuffix, false) ∈ trace →
    ∃ raised, (Step.bgStop node, raised) ∈ trace
  containers : ∀ node, (Step.containerStart node, false) ∈ trace →
    ∃ raised, (Step.containerStop node, raised) ∈ trace

/-! ## The steps of each loop -/

section

variable (opts : Options) (isMultiNode useContainer : Bool) (nodes : Nodes)

def bgStarts : List Step :=
  if opts.monitorGpu then
    nodes.map fun x => .bgStart x.2 x.1.gpuIndices (logSuffix opts isMultiNode x.1)
  else []

def bgStops : List Step := if opts.monitorGpu then nodes.map fun x => .bgStop x.2 else []

def makeExecutors : List Step := nodes.map fun x => .makeExecutor x.2

def containerStarts : List Step :=
  if useContainer then nodes.map fun x => .containerStart x.2 else []

def containerStops : List Step :=
  if useContainer then nodes.map fun x => .containerStop x.2 else []

variable (raises : Step → Bool)

/-- Nothing raises before the first background monitor is started. -/
def ReachesMonitors : Prop :=
  (∀ x ∈ nodes, x.1.slots ≠ [] ∧ raises (.monitoringExecutor x.2) = false) ∧
    (opts.healthMetrics = true →
      ∀ x ∈ nodes, ∀ slot ∈ x.1.slots, raises (.preSnapshot x.2 slot.gpuInfo.index) = false)

/-- The first of the steps, where there is one, raises. -/
def FirstRaises (ss : List Step) : Prop := ∀ s ∈ ss.head?, raises s = true

/-- A start that raises is the first of its loop, and a stop that raises is the
last that is due. -/
def Clean : Prop :=
  ReachesMonitors opts nodes raises →
    if ∃ s ∈ bgStarts opts isMultiNode nodes, raises s = true then
      FirstRaises raises (bgStarts opts isMultiNode nodes)
    else if ∃ s ∈ makeExecutors nodes, raises s = true then
      LastOnly raises (bgStops opts nodes)
    else if ∃ s ∈ containerStarts useContainer nodes, raises s = true then
      FirstRaises raises (containerStarts useContainer nodes) ∧
        LastOnly raises (bgStops opts nodes)
    else LastOnly raises (containerStops useContainer nodes ++ bgStops opts nodes)

end

/-! ## Answered steps -/

/-- The answers when `raises` fixes the outcome of every step. -/
def outcomes (raises : Step → Bool) : (o : FixtureOp) → Option o.Resp
  | .step s => some (raises s)
  | .pool _ => none

def FixtureState.execWith (t : Nat × Nat) (raises : Step → Bool) (o : FixtureOp) (_ : Unit)
    (st : FixtureState) : Option (o.Resp × FixtureState) :=
  FixtureState.exec t o (match o with | .step s => raises s | .pool _ => false) st

section

variable {raises : Step → Bool} {α β : Type}

/-- The program ends with `a` after the steps `ss`. -/
def Takes (raises : Step → Bool) (p : FixtureProg α) (a : α) (ss : List Step) : Prop :=
  p.answered (outcomes raises) = some (a, ss.map .step)

namespace Takes

theorem ret (a : α) : Takes raises (.ret a) a [] := rfl

theorem bind {p : FixtureProg α} {f : α → FixtureProg β} {a : α} {b : β} {ss ss' : List Step}
    (hp : Takes raises p a ss) (hf : Takes raises (f a) b ss') :
    Takes raises (p.bind f) b (ss ++ ss') := by
  unfold Takes at hp hf ⊢
  rw [List.map_append]
  exact Prog.answered_bind hp hf

theorem thenOk {p : FixtureProg (Except Raised α)} {f : α → FixtureProg (Except Raised β)} {a : α}
    {b : Except Raised β} {ss ss' : List Step} (hp : Takes raises p (.ok a) ss)
    (hf : Takes raises (f a) b ss') : Takes raises (p.thenE f) b (ss ++ ss') :=
  Takes.bind hp hf

theorem thenError {p : FixtureProg (Except Raised α)} {f : α → FixtureProg (Except Raised β)}
    {e : Raised} {ss : List Step} (hp : Takes raises p (.error e) ss) :
    Takes raises (p.thenE f) (.error e) ss := by
  have h : Takes raises (p.thenE f) (.error e) (ss ++ []) := Takes.bind hp (ret _)
  rw [List.append_nil] at h
  exact h

theorem take (s : Step) :
    Takes raises (take s) (if raises s then .error (.at s) else .ok ()) [s] := rfl

theorem quiet {s : Step} (h : raises s = false) :
    Takes raises (TargetExecutor.take s) (.ok ()) [s] := by
  have htake : Takes raises (TargetExecutor.take s) _ [s] := Takes.take s
  rw [h] at htake
  exact htake

theorem raised {s : Step} (h : raises s = true) :
    Takes raises (TargetExecutor.take s) (.error (.at s)) [s] := by
  have htake : Takes raises (TargetExecutor.take s) _ [s] := Takes.take s
  rw [h] at htake
  exact htake

variable {ι : Type} (step : ι → Step)

theorem eachQuiet {xs : List ι} (h : ∀ x ∈ xs, raises (step x) = false) :
    Takes raises (Prog.eachE (fun x => TargetExecutor.take (step x)) xs) (.ok ())
      (xs.map step) := by
  induction xs with
  | nil => exact ret _
  | cons x xs ih =>
    have hrest := ih fun y hy => h y (List.mem_cons_of_mem _ hy)
    exact (quiet (h x List.mem_cons_self)).thenOk hrest

theorem eachRaised {xs : List ι} (h : ∃ x ∈ xs, raises (step x) = true) :
    ∃ e, Takes raises (Prog.eachE (fun x => TargetExecutor.take (step x)) xs) (.error e)
      (upToRaise raises (xs.map step)) := by
  induction xs with
  | nil =>
    obtain ⟨x, hx, _⟩ := h
    cases hx
  | cons x xs ih =>
    rw [List.map_cons, upToRaise]
    by_cases hx : raises (step x) = true
    · rw [if_pos hx]
      exact ⟨_, (raised hx).thenError⟩
    · rw [if_neg hx]
      have hrest : ∃ y ∈ xs, raises (step y) = true :=
        ((List.exists_mem_cons_iff _ _ _).mp h).resolve_left hx
      obtain ⟨e, he⟩ := ih hrest
      exact ⟨e, (quiet (Bool.eq_false_iff.mpr hx)).thenOk he⟩

/-- Whatever raises, the loop takes its steps up to there. -/
theorem each (xs : List ι) :
    ∃ r, Takes raises (Prog.eachE (fun x => TargetExecutor.take (step x)) xs) r
      (upToRaise raises (xs.map step)) := by
  by_cases h : ∃ x ∈ xs, raises (step x) = true
  · obtain ⟨e, he⟩ := eachRaised step h
    exact ⟨_, he⟩
  · have hquiet : ∀ x ∈ xs, raises (step x) = false := fun x hx =>
      Bool.eq_false_iff.mpr fun hr => h ⟨x, hx, hr⟩
    have hall : ∀ s ∈ xs.map step, raises s = false := by
      intro s hs
      obtain ⟨x, hx, rfl⟩ := List.mem_map.mp hs
      exact hquiet x hx
    rw [upToRaise_of_quiet hall]
    exact ⟨_, eachQuiet step hquiet⟩

variable {κ : Type} (val : ι → κ)

theorem keep {x : ι} (h : raises (step x) = false) :
    Takes raises ((TargetExecutor.take (step x)).thenE fun _ => .ret (.ok (val x))) (.ok (val x))
      [step x] :=
  Takes.thenOk (f := fun _ => .ret (.ok (val x))) (quiet h) (ret _)

theorem mapQuiet {xs : List ι} (h : ∀ x ∈ xs, raises (step x) = false) :
    Takes raises (Prog.mapE (fun x => (TargetExecutor.take (step x)).thenE
      fun _ => .ret (.ok (val x))) xs) (.ok (xs.map val)) (xs.map step) := by
  induction xs with
  | nil => exact ret _
  | cons x xs ih =>
    have hrest := ih fun y hy => h y (List.mem_cons_of_mem _ hy)
    have hlist := Takes.thenOk (f := fun as => .ret (.ok (val x :: as))) hrest (ret _)
    rw [List.append_nil] at hlist
    exact (keep step val (h x List.mem_cons_self)).thenOk hlist

theorem mapRaised {xs : List ι} (h : ∃ x ∈ xs, raises (step x) = true) :
    ∃ e, Takes raises (Prog.mapE (fun x => (TargetExecutor.take (step x)).thenE
      fun _ => .ret (.ok (val x))) xs) (.error e) (upToRaise raises (xs.map step)) := by
  induction xs with
  | nil =>
    obtain ⟨x, hx, _⟩ := h
    cases hx
  | cons x xs ih =>
    rw [List.map_cons, upToRaise]
    by_cases hx : raises (step x) = true
    · rw [if_pos hx]
      exact ⟨_, ((raised hx).thenError).thenError⟩
    · rw [if_neg hx]
      have hrest : ∃ y ∈ xs, raises (step y) = true :=
        ((List.exists_mem_cons_iff _ _ _).mp h).resolve_left hx
      obtain ⟨e, he⟩ := ih hrest
      exact ⟨e, (keep step val (Bool.eq_false_iff.mpr hx)).thenOk he.thenError⟩

end Takes

/-! ## Parts that touch no helper -/

/-- A step that starts or stops a helper. -/
def IsHelper : Step → Prop
  | .bgStart _ _ _ => True
  | .containerStart _ => True
  | .containerStop _ => True
  | .bgStop _ => True
  | _ => False

instance : DecidablePred IsHelper
  | .bgStart _ _ _ => isTrue trivial
  | .containerStart _ => isTrue trivial
  | .containerStop _ => isTrue trivial
  | .bgStop _ => isTrue trivial
  | .monitoringExecutor _ => isFalse id
  | .preSnapshot _ _ => isFalse id
  | .makeExecutor _ => isFalse id
  | .testBody => isFalse id
  | .postSnapshot _ _ => isFalse id
  | .closeLogger _ => isFalse id
  | .waitForDrain _ => isFalse id
  | .drainSleep => isFalse id

/-- The program touches no helper and raises unless `good` holds. -/
def Settles (raises : Step → Bool) (p : FixtureProg (Except Raised α)) (good : Prop) : Prop :=
  ∃ r ss, Takes raises p r ss ∧ (∀ s ∈ ss, ¬ IsHelper s) ∧ (r.isOk = true ↔ good)

namespace Settles

theorem ok (a : α) : Settles raises (.ret (.ok a)) True :=
  ⟨_, [], Takes.ret _, by simp, by simp [Except.isOk, Except.toBool]⟩

theorem take (s : Step) (hs : ¬ IsHelper s) :
    Settles raises (TargetExecutor.take s) (raises s = false) := by
  refine ⟨_, [s], Takes.take s, by simpa using hs, ?_⟩
  cases raises s with
  | false => simp [Except.isOk, Except.toBool]
  | true => simp [Except.isOk, Except.toBool]

theorem thenE {p : FixtureProg (Except Raised α)} {f : α → FixtureProg (Except Raised β)}
    {good good' : Prop} (hp : Settles raises p good) (hf : ∀ a, Settles raises (f a) good') :
    Settles raises (p.thenE f) (good ∧ good') := by
  obtain ⟨r, ss, htakes, hplain, hok⟩ := hp
  cases r with
  | error e =>
    have hbad : ¬ good := fun h => by cases hok.mpr h
    exact ⟨_, ss, htakes.thenError, hplain, by simp [Except.isOk, Except.toBool, hbad]⟩
  | ok a =>
    obtain ⟨r', ss', htakes', hplain', hok'⟩ := hf a
    have hgood : good := hok.mp rfl
    refine ⟨r', ss ++ ss', htakes.thenOk htakes', ?_, by rw [hok']; simp [hgood]⟩
    intro s hs
    rcases List.mem_append.mp hs with hs | hs
    · exact hplain s hs
    · exact hplain' s hs

theorem of_iff {p : FixtureProg (Except Raised α)} {good good' : Prop}
    (h : Settles raises p good) (hiff : good ↔ good') : Settles raises p good' := by
  rw [← hiff]
  exact h

variable {ι : Type} {g : ι → Prop}

theorem each {f : ι → FixtureProg (Except Raised Unit)} (h : ∀ x, Settles raises (f x) (g x))
    (xs : List ι) : Settles raises (Prog.eachE f xs) (∀ x ∈ xs, g x) := by
  induction xs with
  | nil => exact (ok ()).of_iff (by simp)
  | cons x xs ih => exact ((h x).thenE fun _ => ih).of_iff (by simp)

theorem map {f : ι → FixtureProg (Except Raised α)} (h : ∀ x, Settles raises (f x) (g x))
    (xs : List ι) : Settles raises (Prog.mapE f xs) (∀ x ∈ xs, g x) := by
  induction xs with
  | nil => exact (ok []).of_iff (by simp)
  | cons x xs ih =>
    have hlist := fun a => ih.thenE fun as => (ok (a :: as) : Settles raises _ _)
    exact ((h x).thenE hlist).of_iff (by simp)

end Settles

/-- What comes before the background monitors. -/
theorem beforeMonitors_settles (raises : Step → Bool) (opts : Options) (nodes : Nodes) :
    Settles raises ((Prog.eachE (fun x : MultiGpuSlots × Nat =>
      match x.1.slots with
      | [] => .ret (.error (.emptyGroup x.2))
      | _ :: _ => take (.monitoringExecutor x.2)) nodes).thenE fun _ =>
      (if opts.healthMetrics then
        Prog.mapE (fun x : MultiGpuSlots × Nat =>
          (Prog.eachE (fun slot : NodeSlot => take (.preSnapshot x.2 slot.gpuInfo.index))
            x.1.slots).thenE fun _ => .ret (.ok x.2)) nodes
        else .ret (.ok []))) (ReachesMonitors opts nodes raises) := by
  refine (Settles.thenE (Settles.each (g := fun x => x.1.slots ≠ [] ∧
    raises (.monitoringExecutor x.2) = false) (fun x => ?_) nodes) fun _ => ?_)
  · cases hslots : x.1.slots with
    | nil => exact ⟨_, [], Takes.ret _, by simp, by simp [Except.isOk, Except.toBool]⟩
    | cons slot slots =>
      exact (Settles.take (.monitoringExecutor x.2) fun h => h).of_iff (by simp)
  · by_cases h : opts.healthMetrics = true
    · rw [if_pos h]
      refine Settles.of_iff (Settles.map (g := fun x => ∀ slot ∈ x.1.slots,
        raises (.preSnapshot x.2 slot.gpuInfo.index) = false) (fun x => ?_) nodes) (by simp [h])
      have hsnaps : Settles raises (Prog.eachE
          (fun slot : NodeSlot => take (.preSnapshot x.2 slot.gpuInfo.index)) x.1.slots) _ :=
        Settles.each (fun slot : NodeSlot =>
          Settles.take (.preSnapshot x.2 slot.gpuInfo.index) fun h => h) _
      exact (hsnaps.thenE fun _ => Settles.ok x.2).of_iff (by simp)
    · rw [if_neg h]
      exact (Settles.ok []).of_iff (by simp [h])

/-! ## The `try` block -/

/-- How the `try` block can end: the locals it leaves and the steps it took.
`pre`, `mid` and `last` touch no helper. -/
inductive Tried (raises : Step → Bool) (opts : Options) (isMultiNode useContainer : Bool)
    (nodes : Nodes) : List Nat → List Nat → List Step → Prop where
  | failed {pre : List Step} (hpre : ∀ s ∈ pre, ¬ IsHelper s)
      (hfails : ¬ ReachesMonitors opts nodes raises) :
      Tried raises opts isMultiNode useContainer nodes [] [] pre
  | monitor {pre : List Step} (hpre : ∀ s ∈ pre, ¬ IsHelper s)
      (hreaches : ReachesMonitors opts nodes raises)
      (hmonitor : ∃ s ∈ bgStarts opts isMultiNode nodes, raises s = true) :
      Tried raises opts isMultiNode useContainer nodes [] []
        (pre ++ upToRaise raises (bgStarts opts isMultiNode nodes))
  | executor {pre mid : List Step} (hpre : ∀ s ∈ pre, ¬ IsHelper s)
      (hmid : ∀ s ∈ mid, ¬ IsHelper s) (hreaches : ReachesMonitors opts nodes raises)
      (hmonitor : ¬ ∃ s ∈ bgStarts opts isMultiNode nodes, raises s = true)
      (hexecutor : ∃ s ∈ makeExecutors nodes, raises s = true) :
      Tried raises opts isMultiNode useContainer nodes
        (if opts.monitorGpu then nodes.map (·.2) else []) []
        (pre ++ (bgStarts opts isMultiNode nodes ++ mid))
  | container {pre mid : List Step} (hpre : ∀ s ∈ pre, ¬ IsHelper s)
      (hmid : ∀ s ∈ mid, ¬ IsHelper s) (hreaches : ReachesMonitors opts nodes raises)
      (hmonitor : ¬ ∃ s ∈ bgStarts opts isMultiNode nodes, raises s = true)
      (hexecutor : ¬ ∃ s ∈ makeExecutors nodes, raises s = true)
      (hcontainer : ∃ s ∈ containerStarts useContainer nodes, raises s = true) :
      Tried raises opts isMultiNode useContainer nodes
        (if opts.monitorGpu then nodes.map (·.2) else []) []
        (pre ++ (bgStarts opts isMultiNode nodes ++
          (mid ++ upToRaise raises (containerStarts useContainer nodes))))
  | started {pre mid last : List Step} (hpre : ∀ s ∈ pre, ¬ IsHelper s)
      (hmid : ∀ s ∈ mid, ¬ IsHelper s) (hlast : ∀ s ∈ last, ¬ IsHelper s)
      (hreaches : ReachesMonitors opts nodes raises)
      (hmonitor : ¬ ∃ s ∈ bgStarts opts isMultiNode nodes, raises s = true)
      (hexecutor : ¬ ∃ s ∈ makeExecutors nodes, raises s = true)
      (hcontainer : ¬ ∃ s ∈ containerStarts useContainer nodes, raises s = true) :
      Tried raises opts isMultiNode useContainer nodes
        (if opts.monitorGpu then nodes.map (·.2) else [])
        (if useContainer then nodes.map (·.2) else [])
        (pre ++ (bgStarts opts isMultiNode nodes ++
          (mid ++ (containerStarts useContainer nodes ++ last))))

/-- A loop that may be switched off. -/
theorem mapWhen_takes (raises : Step → Bool) {ι : Type} (on : Bool) (step : ι → Step)
    (val : ι → Nat) (xs : List ι) :
    (¬ (∃ s ∈ (if on then xs.map step else []), raises s = true) →
      Takes raises (if on then Prog.mapE (fun x =>
          (take (step x)).thenE fun _ => .ret (.ok (val x))) xs else .ret (.ok []))
        (.ok (if on then xs.map val else [])) (if on then xs.map step else [])) ∧
    ((∃ s ∈ (if on then xs.map step else []), raises s = true) →
      ∃ e, Takes raises (if on then Prog.mapE (fun x =>
          (take (step x)).thenE fun _ => .ret (.ok (val x))) xs else .ret (.ok []))
        (.error e) (upToRaise raises (if on then xs.map step else []))) := by
  cases on with
  | false =>
    refine ⟨fun _ => Takes.ret _, fun h => ?_⟩
    obtain ⟨s, hs, _⟩ := h
    cases hs
  | true =>
    refine ⟨fun h => ?_, fun h => ?_⟩
    · refine Takes.mapQuiet step val fun x hx => Bool.eq_false_iff.mpr fun hr => ?_
      exact h ⟨step x, List.mem_map_of_mem hx, hr⟩
    · obtain ⟨s, hs, hr⟩ := h
      obtain ⟨x, hx, rfl⟩ := List.mem_map.mp hs
      exact Takes.mapRaised step val ⟨x, hx, hr⟩

theorem setupMonitoring_takes (raises : Step → Bool) (opts : Options) (isMultiNode : Bool)
    (nodes : Nodes) :
    ∃ pre, (∀ s ∈ pre, ¬ IsHelper s) ∧
      (¬ ReachesMonitors opts nodes raises →
        ∃ e, Takes raises (setupMonitoring opts isMultiNode nodes) (.error e) pre) ∧
      (ReachesMonitors opts nodes raises →
        (∃ s ∈ bgStarts opts isMultiNode nodes, raises s = true) →
          ∃ e, Takes raises (setupMonitoring opts isMultiNode nodes) (.error e)
            (pre ++ upToRaise raises (bgStarts opts isMultiNode nodes))) ∧
      (ReachesMonitors opts nodes raises →
        (¬ ∃ s ∈ bgStarts opts isMultiNode nodes, raises s = true) →
          ∃ healthMonitors, Takes raises (setupMonitoring opts isMultiNode nodes)
            (.ok (healthMonitors, if opts.monitorGpu then nodes.map (·.2) else []))
            (pre ++ bgStarts opts isMultiNode nodes)) := by
  obtain ⟨r, pre, htakes, hpre, hok⟩ := beforeMonitors_settles raises opts nodes
  have hstarts := mapWhen_takes raises opts.monitorGpu (fun x : MultiGpuSlots × Nat =>
    .bgStart x.2 x.1.gpuIndices (logSuffix opts isMultiNode x.1)) (·.2) nodes
  unfold setupMonitoring
  rw [← Prog.thenE_assoc]
  refine ⟨pre, hpre, fun h => ?_, fun h hraised => ?_, fun h hquiet => ?_⟩
  · cases r with
    | error e => exact ⟨e, htakes.thenError⟩
    | ok hm => exact absurd (hok.mp rfl) h
  · cases r with
    | error e => cases hok.mpr h
    | ok hm =>
      obtain ⟨e, he⟩ := hstarts.2 hraised
      exact ⟨e, htakes.thenOk he.thenError⟩
  · cases r with
    | error e => cases hok.mpr h
    | ok hm =>
      have hbg := Takes.thenOk (f := fun bg => .ret (.ok (hm, bg))) (hstarts.1 hquiet) (Takes.ret _)
      rw [List.append_nil] at hbg
      exact ⟨hm, htakes.thenOk hbg⟩

/-- The end of the block, where the test runs if there is an executor for it. -/
def yieldTest (l : Locals) : List Nat → FixtureProg (Locals × Except Raised Unit)
  | [] => pure (l, .error .noExecutors)
  | _ :: _ => (take .testBody).bind fun r => pure (l, r)

theorem yieldTest_takes (raises : Step → Bool) (executors : List Nat) (l : Locals) :
    ∃ r last, (∀ s ∈ last, ¬ IsHelper s) ∧ Takes raises (yieldTest l executors) (l, r) last := by
  cases executors with
  | nil => exact ⟨_, [], by simp, Takes.ret _⟩
  | cons node rest =>
    exact ⟨_, [.testBody], by simp [IsHelper], Takes.bind (Takes.take .testBody) (Takes.ret _)⟩

theorem tryBlock_takes (raises : Step → Bool) (opts : Options) (isMultiNode useContainer : Bool)
    (nodes : Nodes) :
    ∃ l r ss, Takes raises (tryBlock opts isMultiNode useContainer nodes) (l, r) ss ∧
      Tried raises opts isMultiNode useContainer nodes l.bgMonitors l.wrappers ss := by
  obtain ⟨pre, hpre, hfail, hraise, hquiet⟩ :=
    setupMonitoring_takes raises opts isMultiNode nodes
  by_cases hreaches : ReachesMonitors opts nodes raises
  · by_cases hmonitor : ∃ s ∈ bgStarts opts isMultiNode nodes, raises s = true
    · obtain ⟨e, he⟩ := hraise hreaches hmonitor
      refine ⟨{}, .error e, _, Takes.bind he (Takes.ret _), ?_⟩
      rw [List.append_nil]
      exact .monitor hpre hreaches hmonitor
    · obtain ⟨hm, hsetup⟩ := hquiet hreaches hmonitor
      have hmakes := mapWhen_takes raises true
        (fun x : MultiGpuSlots × Nat => .makeExecutor x.2) (·.2) nodes
      have hplain : ∀ s ∈ makeExecutors nodes, ¬ IsHelper s := by
        intro s hs
        obtain ⟨x, _, rfl⟩ := List.mem_map.mp hs
        exact fun h => h
      by_cases hexecutor : ∃ s ∈ makeExecutors nodes, raises s = true
      · obtain ⟨e, he⟩ := hmakes.2 hexecutor
        refine ⟨_, .error e, _, Takes.bind hsetup (Takes.bind he (Takes.ret _)), ?_⟩
        rw [List.append_nil, List.append_assoc]
        exact .executor hpre (fun s hs => hplain s (mem_of_mem_upToRaise hs)) hreaches hmonitor
          hexecutor
      · have hmade := hmakes.1 hexecutor
        have hwrap := mapWhen_takes raises useContainer Step.containerStart id
          (nodes.map (·.2))
        have hsteps : (if useContainer then (nodes.map (·.2)).map Step.containerStart else []) =
            containerStarts useContainer nodes := by
          rw [List.map_map]
          rfl
        rw [hsteps] at hwrap
        by_cases hcontainer : ∃ s ∈ containerStarts useContainer nodes, raises s = true
        · obtain ⟨e, he⟩ := hwrap.2 hcontainer
          refine ⟨_, .error e, _,
            Takes.bind hsetup (Takes.bind hmade (Takes.bind he (Takes.ret _))), ?_⟩
          rw [List.append_nil, List.append_assoc]
          exact .container hpre hplain hreaches hmonitor hexecutor hcontainer
        · have hwrapped := hwrap.1 hcontainer
          rw [List.map_id] at hwrapped
          obtain ⟨r, last, hlast, hyield⟩ := yieldTest_takes raises (nodes.map (·.2))
            { healthMonitors := hm, bgMonitors := if opts.monitorGpu then nodes.map (·.2) else [],
              executors := nodes.map (·.2),
              wrappers := if useContainer then nodes.map (·.2) else [] }
          refine ⟨_, r, _,
            Takes.bind hsetup (Takes.bind hmade (Takes.bind hwrapped hyield)), ?_⟩
          rw [List.append_assoc]
          exact .started hpre hplain hlast hreaches hmonitor hexecutor hcontainer
  · obtain ⟨e, he⟩ := hfail hreaches
    refine ⟨{}, .error e, _, Takes.bind he (Takes.ret _), ?_⟩
    rw [List.append_nil]
    exact .failed hpre hreaches

/-! ## The teardown -/

def stopsDue (bgMonitors wrappers : List Nat) : List Step :=
  wrappers.map .containerStop ++ bgMonitors.map .bgStop

theorem quiet_map {ι : Type} {step : ι → Step} {xs : List ι}
    (h : ∀ x ∈ xs, raises (step x) = false) : ∀ s ∈ xs.map step, raises s = false := by
  intro s hs
  obtain ⟨x, hx, rfl⟩ := List.mem_map.mp hs
  exact h x hx

/-- Two loops, one after the other. -/
theorem Takes.eachThen {ι κ : Type} (step : ι → Step) (step' : κ → Step) (xs : List ι)
    (ys : List κ) {rest : FixtureProg (Except Raised Unit)} {r : Except Raised Unit}
    {ss : List Step} (hrest : Takes raises rest r ss) (hplain : ∀ s ∈ ss, ¬ IsHelper s) :
    ∃ r' others, (∀ s ∈ others, ¬ IsHelper s) ∧
      Takes raises ((Prog.eachE (fun x => TargetExecutor.take (step x)) xs).thenE fun _ =>
        (Prog.eachE (fun y => TargetExecutor.take (step' y)) ys).thenE fun _ => rest) r'
        (upToRaise raises (xs.map step ++ ys.map step') ++ others) := by
  by_cases hx : ∃ x ∈ xs, raises (step x) = true
  · obtain ⟨e, he⟩ := Takes.eachRaised step hx
    obtain ⟨x, hmem, hr⟩ := hx
    rw [upToRaise_append_of_raised _ ⟨step x, List.mem_map_of_mem hmem, hr⟩]
    refine ⟨.error e, [], by simp, ?_⟩
    rw [List.append_nil]
    exact he.thenError
  · have hquiet : ∀ x ∈ xs, raises (step x) = false := fun x hmem =>
      Bool.eq_false_iff.mpr fun hr => hx ⟨x, hmem, hr⟩
    rw [upToRaise_append_of_quiet _ (quiet_map hquiet)]
    by_cases hy : ∃ y ∈ ys, raises (step' y) = true
    · obtain ⟨e, he⟩ := Takes.eachRaised step' hy
      refine ⟨.error e, [], by simp, ?_⟩
      rw [List.append_nil]
      exact (Takes.eachQuiet step hquiet).thenOk he.thenError
    · have hquiet' : ∀ y ∈ ys, raises (step' y) = false := fun y hmem =>
        Bool.eq_false_iff.mpr fun hr => hy ⟨y, hmem, hr⟩
      rw [upToRaise_of_quiet (quiet_map hquiet')]
      refine ⟨r, ss, hplain, ?_⟩
      rw [List.append_assoc]
      exact (Takes.eachQuiet step hquiet).thenOk ((Takes.eachQuiet step' hquiet').thenOk hrest)

theorem teardown_takes (raises : Step → Bool) (opts : Options) (nodes : Nodes) (l : Locals) :
    ∃ r others, (∀ s ∈ others, ¬ IsHelper s) ∧ Takes raises (teardown opts nodes l) r
      (upToRaise raises (stopsDue l.bgMonitors l.wrappers) ++ others) := by
  have hpost : ∃ good, Settles raises
      (if opts.healthMetrics && !l.healthMonitors.isEmpty then
        Prog.eachE (fun x : MultiGpuSlots × Nat =>
          Prog.eachE (fun slot : NodeSlot => take (.postSnapshot x.2 slot.gpuInfo.index))
            x.1.slots) nodes
        else .ret (.ok ())) good := by
    split
    · exact ⟨_, Settles.each (fun x : MultiGpuSlots × Nat => Settles.each
        (fun slot : NodeSlot => Settles.take (.postSnapshot x.2 slot.gpuInfo.index) fun h => h) _)
          _⟩
    · exact ⟨_, Settles.ok ()⟩
  have hclose : Settles raises (Prog.eachE (fun node => take (.closeLogger node)) l.executors) _ :=
    Settles.each (fun node => Settles.take (.closeLogger node) fun h => h) l.executors
  have hdrain : ∃ good, Settles raises
      (drainGpuSlots opts (nodes.flatMap fun x => x.1.gpuIndices)) good := by
    unfold drainGpuSlots
    split
    · exact ⟨_, Settles.each (fun i => Settles.take (.waitForDrain i) fun h => h) _⟩
    · split
      · exact ⟨_, Settles.take .drainSleep fun h => h⟩
      · exact ⟨_, Settles.ok ()⟩
  obtain ⟨_, hpost⟩ := hpost
  obtain ⟨_, hdrain⟩ := hdrain
  obtain ⟨r, ss, htakes, hplain, _⟩ := hpost.thenE fun _ => hclose.thenE fun _ => hdrain
  unfold teardown teardownMonitoring
  simp only [Prog.thenE_assoc]
  exact Takes.eachThen Step.containerStop Step.bgStop l.wrappers l.bgMonitors htakes hplain

/-! ## Which helpers are stopped -/

/-- The steps with their outcomes, as the history records them. -/
def recorded (raises : Step → Bool) (ss : List Step) : List (Step × Bool) :=
  ss.map fun s => (s, raises s)

theorem mem_recorded {ss : List Step} {s : Step} {b : Bool} :
    (s, b) ∈ recorded raises ss ↔ s ∈ ss ∧ raises s = b := by
  unfold recorded
  simp only [List.mem_map, Prod.mk.injEq]
  constructor
  · rintro ⟨x, hx, rfl, hb⟩
    exact ⟨hx, hb⟩
  · rintro ⟨hs, hb⟩
    exact ⟨s, hs, rfl, hb⟩

theorem allStopped_recorded_iff {ss : List Step} :
    AllStopped (recorded raises ss) ↔
      (∀ node gpuIndices logSuffix, Step.bgStart node gpuIndices logSuffix ∈ ss →
        raises (.bgStart node gpuIndices logSuffix) = false → Step.bgStop node ∈ ss) ∧
      (∀ node, Step.containerStart node ∈ ss → raises (.containerStart node) = false →
        Step.containerStop node ∈ ss) := by
  constructor
  · intro h
    refine ⟨fun node g l hs hr => ?_, fun node hs hr => ?_⟩
    · obtain ⟨b, hb⟩ := h.monitors node g l (mem_recorded.mpr ⟨hs, hr⟩)
      exact (mem_recorded.mp hb).1
    · obtain ⟨b, hb⟩ := h.containers node (mem_recorded.mpr ⟨hs, hr⟩)
      exact (mem_recorded.mp hb).1
  · rintro ⟨hbg, hcont⟩
    refine ⟨fun node g l hs => ?_, fun node hs => ?_⟩
    · obtain ⟨hs, hr⟩ := mem_recorded.mp hs
      exact ⟨_, mem_recorded.mpr ⟨hbg node g l hs hr, rfl⟩⟩
    · obtain ⟨hs, hr⟩ := mem_recorded.mp hs
      exact ⟨_, mem_recorded.mpr ⟨hcont node hs hr, rfl⟩⟩

/-- Only the helper steps matter. -/
theorem allStopped_filter {ss : List Step} :
    AllStopped (recorded raises ss) ↔
      AllStopped (recorded raises (ss.filter fun s => decide (IsHelper s))) := by
  rw [allStopped_recorded_iff, allStopped_recorded_iff]
  simp only [List.mem_filter, decide_eq_true_eq]
  simp [IsHelper]

theorem filter_plain {ss : List Step} (h : ∀ s ∈ ss, ¬ IsHelper s) :
    ss.filter (fun s => decide (IsHelper s)) = [] :=
  List.filter_eq_nil_iff.mpr fun s hs => by simpa using h s hs

theorem filter_helpers {ss : List Step} (h : ∀ s ∈ ss, IsHelper s) :
    ss.filter (fun s => decide (IsHelper s)) = ss :=
  List.filter_eq_self.mpr fun s hs => by simpa using h s hs

section

variable {opts : Options} {isMultiNode useContainer : Bool} {nodes : Nodes}

theorem mem_bgStarts {s : Step} :
    s ∈ bgStarts opts isMultiNode nodes ↔ opts.monitorGpu = true ∧
      ∃ x ∈ nodes, Step.bgStart x.2 x.1.gpuIndices (logSuffix opts isMultiNode x.1) = s := by
  unfold bgStarts
  split
  · simp [*]
  · simp [*]

theorem mem_bgStops {s : Step} :
    s ∈ bgStops opts nodes ↔ opts.monitorGpu = true ∧ ∃ x ∈ nodes, Step.bgStop x.2 = s := by
  unfold bgStops
  split
  · simp [*]
  · simp [*]

theorem mem_containerStarts {s : Step} :
    s ∈ containerStarts useContainer nodes ↔ useContainer = true ∧
      ∃ x ∈ nodes, Step.containerStart x.2 = s := by
  unfold containerStarts
  split
  · simp [*]
  · simp [*]

theorem mem_containerStops {s : Step} :
    s ∈ containerStops useContainer nodes ↔ useContainer = true ∧
      ∃ x ∈ nodes, Step.containerStop x.2 = s := by
  unfold containerStops
  split
  · simp [*]
  · simp [*]

theorem stopsDue_eq (opts : Options) (useContainer : Bool) (nodes : Nodes) :
    stopsDue (if opts.monitorGpu then nodes.map (·.2) else [])
      (if useContainer then nodes.map (·.2) else []) =
        containerStops useContainer nodes ++ bgStops opts nodes := by
  unfold stopsDue containerStops bgStops
  split <;> split <;> simp [Function.comp_def]

/-- The starts that returned in `bg` and `cs`, against the stops taken. -/
theorem allStopped_append_iff {bg cs stops : List Step}
    (hbg : ∀ s ∈ bg, s ∈ bgStarts opts isMultiNode nodes)
    (hcs : ∀ s ∈ cs, s ∈ containerStarts useContainer nodes)
    (hstops : ∀ s ∈ stops, s ∈ containerStops useContainer nodes ++ bgStops opts nodes) :
    AllStopped (recorded raises (bg ++ (cs ++ stops))) ↔
      (∀ node gpuIndices logSuffix, Step.bgStart node gpuIndices logSuffix ∈ bg →
        raises (.bgStart node gpuIndices logSuffix) = false → Step.bgStop node ∈ stops) ∧
      (∀ node, Step.containerStart node ∈ cs → raises (.containerStart node) = false →
        Step.containerStop node ∈ stops) := by
  have hbgMem : ∀ {s}, s ∈ bg → ∃ node g l, Step.bgStart node g l = s := fun hs =>
    (mem_bgStarts.mp (hbg _ hs)).2.elim fun x hx => ⟨_, _, _, hx.2⟩
  have hcsMem : ∀ {s}, s ∈ cs → ∃ node, Step.containerStart node = s := fun hs =>
    (mem_containerStarts.mp (hcs _ hs)).2.elim fun x hx => ⟨_, hx.2⟩
  have hstopMem : ∀ {s}, s ∈ stops → (∃ node, Step.containerStop node = s) ∨
      ∃ node, Step.bgStop node = s := by
    intro s hs
    rcases List.mem_append.mp (hstops s hs) with h | h
    · obtain ⟨_, x, _, hx⟩ := mem_containerStops.mp h
      exact .inl ⟨_, hx⟩
    · obtain ⟨_, x, _, hx⟩ := mem_bgStops.mp h
      exact .inr ⟨_, hx⟩
  have h1 : ∀ node g l, Step.bgStart node g l ∈ bg ++ (cs ++ stops) ↔
      Step.bgStart node g l ∈ bg := by
    intro node g l
    simp only [List.mem_append]
    refine ⟨fun h => ?_, fun h => .inl h⟩
    rcases h with h | h | h
    · exact h
    · obtain ⟨_, h⟩ := hcsMem h
      cases h
    · rcases hstopMem h with ⟨_, h⟩ | ⟨_, h⟩ <;> cases h
  have h2 : ∀ node, Step.containerStart node ∈ bg ++ (cs ++ stops) ↔
      Step.containerStart node ∈ cs := by
    intro node
    simp only [List.mem_append]
    refine ⟨fun h => ?_, fun h => .inr (.inl h)⟩
    rcases h with h | h | h
    · obtain ⟨_, _, _, h⟩ := hbgMem h
      cases h
    · exact h
    · rcases hstopMem h with ⟨_, h⟩ | ⟨_, h⟩ <;> cases h
  have h3 : ∀ s, (∃ node, s = Step.bgStop node ∨ s = Step.containerStop node) →
      (s ∈ bg ++ (cs ++ stops) ↔ s ∈ stops) := by
    rintro s ⟨node, hs⟩
    simp only [List.mem_append]
    refine ⟨fun h => ?_, fun h => .inr (.inr h)⟩
    rcases h with h | h | h
    · obtain ⟨_, _, _, rfl⟩ := hbgMem h
      rcases hs with h | h <;> cases h
    · obtain ⟨_, rfl⟩ := hcsMem h
      rcases hs with h | h <;> cases h
    · exact h
  rw [allStopped_recorded_iff]
  simp only [h1, h2, h3 (.bgStop _) ⟨_, .inl rfl⟩, h3 (.containerStop _) ⟨_, .inr rfl⟩]

theorem bgStarts_stopped_iff {stops : List Step}
    (hquiet : ¬ ∃ s ∈ bgStarts opts isMultiNode nodes, raises s = true) :
    (∀ node gpuIndices logSuffix,
      Step.bgStart node gpuIndices logSuffix ∈ bgStarts opts isMultiNode nodes →
        raises (.bgStart node gpuIndices logSuffix) = false → Step.bgStop node ∈ stops) ↔
      ∀ s ∈ bgStops opts nodes, s ∈ stops := by
  constructor
  · intro h s hs
    obtain ⟨hon, x, hx, rfl⟩ := mem_bgStops.mp hs
    have hstart : Step.bgStart x.2 x.1.gpuIndices (logSuffix opts isMultiNode x.1) ∈
        bgStarts opts isMultiNode nodes := mem_bgStarts.mpr ⟨hon, x, hx, rfl⟩
    exact h _ _ _ hstart (Bool.eq_false_iff.mpr fun hr => hquiet ⟨_, hstart, hr⟩)
  · intro h node g l hs _
    obtain ⟨hon, x, hx, heq⟩ := mem_bgStarts.mp hs
    cases heq
    exact h _ (mem_bgStops.mpr ⟨hon, x, hx, rfl⟩)

theorem containerStarts_stopped_iff {stops : List Step}
    (hquiet : ¬ ∃ s ∈ containerStarts useContainer nodes, raises s = true) :
    (∀ node, Step.containerStart node ∈ containerStarts useContainer nodes →
      raises (.containerStart node) = false → Step.containerStop node ∈ stops) ↔
      ∀ s ∈ containerStops useContainer nodes, s ∈ stops := by
  constructor
  · intro h s hs
    obtain ⟨hon, x, hx, rfl⟩ := mem_containerStops.mp hs
    have hstart := mem_containerStarts.mpr ⟨hon, x, hx, rfl⟩
    exact h _ hstart (Bool.eq_false_iff.mpr fun hr => hquiet ⟨_, hstart, hr⟩)
  · intro h node hs _
    obtain ⟨hon, x, hx, heq⟩ := mem_containerStarts.mp hs
    cases heq
    exact h _ (mem_containerStops.mpr ⟨hon, x, hx, rfl⟩)

/-- Containers that are lost with the list they would have stood in. -/
theorem containerStarts_lost_iff {stops : List Step}
    (hstops : ∀ s ∈ stops, s ∈ bgStops opts nodes) :
    (∀ node, Step.containerStart node ∈ upToRaise raises (containerStarts useContainer nodes) →
      raises (.containerStart node) = false → Step.containerStop node ∈ stops) ↔
      FirstRaises raises (containerStarts useContainer nodes) := by
  unfold FirstRaises
  rw [← forall_upToRaise_raises_iff]
  constructor
  · intro h s hs
    obtain ⟨_, x, _, rfl⟩ := mem_containerStarts.mp (mem_of_mem_upToRaise hs)
    by_contra hr
    obtain ⟨_, y, _, hy⟩ := mem_bgStops.mp (hstops _ (h _ hs (Bool.eq_false_iff.mpr hr)))
    cases hy
  · intro h node hs hr
    rw [h _ hs] at hr
    cases hr

theorem bgStarts_lost_iff :
    (∀ node gpuIndices logSuffix,
      Step.bgStart node gpuIndices logSuffix ∈ upToRaise raises (bgStarts opts isMultiNode nodes) →
        raises (.bgStart node gpuIndices logSuffix) = false → Step.bgStop node ∈ []) ↔
      FirstRaises raises (bgStarts opts isMultiNode nodes) := by
  unfold FirstRaises
  rw [← forall_upToRaise_raises_iff]
  constructor
  · intro h s hs
    obtain ⟨_, x, _, rfl⟩ := mem_bgStarts.mp (mem_of_mem_upToRaise hs)
    by_contra hr
    cases h _ _ _ hs (Bool.eq_false_iff.mpr hr)
  · intro h node g l hs hr
    rw [h _ hs] at hr
    cases hr

theorem stops_nodup (opts : Options) (useContainer : Bool) (hnodup : (nodes.map (·.2)).Nodup) :
    (containerStops useContainer nodes ++ bgStops opts nodes).Nodup := by
  have hmap : ∀ f : Nat → Step, Function.Injective f →
      (nodes.map fun x => f x.2).Nodup := by
    intro f hf
    have h := hnodup.map hf
    rw [List.map_map] at h
    exact h
  refine List.Nodup.append ?_ ?_ ?_
  · unfold containerStops
    split
    · exact hmap .containerStop fun a b h => by cases h; rfl
    · exact List.nodup_nil
  · unfold bgStops
    split
    · exact hmap .bgStop fun a b h => by cases h; rfl
    · exact List.nodup_nil
  · intro s hc hb
    obtain ⟨_, x, _, rfl⟩ := mem_containerStops.mp hc
    obtain ⟨_, y, _, hy⟩ := mem_bgStops.mp hb
    cases hy

theorem helper_bgStarts {s : Step} (h : s ∈ bgStarts opts isMultiNode nodes) : IsHelper s := by
  obtain ⟨_, x, _, rfl⟩ := mem_bgStarts.mp h
  trivial

theorem helper_containerStarts {s : Step} (h : s ∈ containerStarts useContainer nodes) :
    IsHelper s := by
  obtain ⟨_, x, _, rfl⟩ := mem_containerStarts.mp h
  trivial

theorem helper_stopsDue {bgMonitors wrappers : List Nat} {s : Step}
    (h : s ∈ stopsDue bgMonitors wrappers) : IsHelper s := by
  rcases List.mem_append.mp h with h | h
  · obtain ⟨x, _, rfl⟩ := List.mem_map.mp h
    trivial
  · obtain ⟨x, _, rfl⟩ := List.mem_map.mp h
    trivial

/-- The steps of a fixture, without those that touch no helper. -/
theorem allStopped_fixture_iff (raises : Step → Bool) {pre bg mid cs last stops others : List Step}
    (hpre : ∀ s ∈ pre, ¬ IsHelper s) (hmid : ∀ s ∈ mid, ¬ IsHelper s)
    (hlast : ∀ s ∈ last, ¬ IsHelper s) (hothers : ∀ s ∈ others, ¬ IsHelper s)
    (hbg : ∀ s ∈ bg, s ∈ bgStarts opts isMultiNode nodes)
    (hcs : ∀ s ∈ cs, s ∈ containerStarts useContainer nodes)
    (hstops : ∀ s ∈ stops, s ∈ containerStops useContainer nodes ++ bgStops opts nodes) :
    AllStopped (recorded raises (pre ++ (bg ++ (mid ++ (cs ++ last))) ++ (stops ++ others))) ↔
      (∀ node gpuIndices logSuffix, Step.bgStart node gpuIndices logSuffix ∈ bg →
        raises (.bgStart node gpuIndices logSuffix) = false → Step.bgStop node ∈ stops) ∧
      (∀ node, Step.containerStart node ∈ cs → raises (.containerStart node) = false →
        Step.containerStop node ∈ stops) := by
  have hstopHelper : ∀ s ∈ stops, IsHelper s := by
    intro s hs
    rw [← stopsDue_eq] at hstops
    exact helper_stopsDue (hstops s hs)
  rw [allStopped_filter, ← allStopped_append_iff hbg hcs hstops]
  simp only [List.filter_append, filter_plain hpre, filter_plain hmid, filter_plain hlast,
    filter_plain hothers, filter_helpers fun s hs => helper_bgStarts (hbg s hs),
    filter_helpers fun s hs => helper_containerStarts (hcs s hs), filter_helpers hstopHelper,
    List.nil_append, List.append_nil, List.append_assoc]

theorem bgStops_lastOnly_iff (hnodup : (nodes.map (·.2)).Nodup) :
    (∀ s ∈ bgStops opts nodes, s ∈ upToRaise raises (bgStops opts nodes)) ↔
      LastOnly raises (bgStops opts nodes) :=
  forall_mem_upToRaise_iff (stops_nodup opts false hnodup)

theorem allStopped_plain {ss : List Step} (h : ∀ s ∈ ss, ¬ IsHelper s) :
    AllStopped (recorded raises ss) := by
  rw [allStopped_filter, filter_plain h]
  exact ⟨fun _ _ _ hs => (List.not_mem_nil hs).elim, fun _ hs => (List.not_mem_nil hs).elim⟩

theorem Tried.allStopped_iff (hnodup : (nodes.map (·.2)).Nodup) {bgMonitors wrappers : List Nat}
    {ss others : List Step}
    (h : Tried raises opts isMultiNode useContainer nodes bgMonitors wrappers ss)
    (hothers : ∀ s ∈ others, ¬ IsHelper s) :
    AllStopped (recorded raises
      (ss ++ (upToRaise raises (stopsDue bgMonitors wrappers) ++ others))) ↔
        Clean opts isMultiNode useContainer nodes raises := by
  have hnone : ∀ s ∈ ([] : List Step), ¬ IsHelper s := by simp
  have hnoContainers : ∀ s ∈ ([] : List Step), s ∈ containerStarts useContainer nodes := by simp
  have hnoStops : ∀ s ∈ ([] : List Step),
      s ∈ containerStops useContainer nodes ++ bgStops opts nodes := by simp
  have hbgStarts : ∀ s ∈ upToRaise raises (bgStarts opts isMultiNode nodes),
      s ∈ bgStarts opts isMultiNode nodes := fun s hs => mem_of_mem_upToRaise hs
  have hallStarts : ∀ s ∈ bgStarts opts isMultiNode nodes, s ∈ bgStarts opts isMultiNode nodes :=
    fun s hs => hs
  have hcontainerStarts : ∀ s ∈ upToRaise raises (containerStarts useContainer nodes),
      s ∈ containerStarts useContainer nodes := fun s hs => mem_of_mem_upToRaise hs
  have hallContainers : ∀ s ∈ containerStarts useContainer nodes,
      s ∈ containerStarts useContainer nodes := fun s hs => hs
  have hbgStops : ∀ s ∈ upToRaise raises (bgStops opts nodes), s ∈ bgStops opts nodes :=
    fun s hs => mem_of_mem_upToRaise hs
  have hdue : stopsDue (if opts.monitorGpu then nodes.map (·.2) else []) [] =
      bgStops opts nodes := stopsDue_eq opts false nodes
  unfold Clean
  cases h with
  | failed hpre hfails =>
    have hall : AllStopped (recorded raises (ss ++ others)) := allStopped_plain fun s hs =>
      (List.mem_append.mp hs).elim (hpre s) (hothers s)
    exact ⟨fun _ hreaches => absurd hreaches hfails, fun _ => hall⟩
  | monitor hpre hreaches hmonitor =>
    have hiff := allStopped_fixture_iff raises hpre hnone hnone hothers hbgStarts hnoContainers
      hnoStops
    rw [bgStarts_lost_iff] at hiff
    simpa [stopsDue, upToRaise, hreaches, hmonitor] using hiff
  | executor hpre hmid hreaches hmonitor hexecutor =>
    have hiff := allStopped_fixture_iff raises hpre hmid hnone hothers hallStarts hnoContainers
      fun s hs => List.mem_append_right _ (hbgStops s hs)
    rw [bgStarts_stopped_iff hmonitor, bgStops_lastOnly_iff hnodup] at hiff
    rw [hdue, if_neg hmonitor, if_pos hexecutor]
    simpa [hreaches] using hiff
  | container hpre hmid hreaches hmonitor hexecutor hcontainer =>
    have hiff := allStopped_fixture_iff raises hpre hmid hnone hothers hallStarts hcontainerStarts
      fun s hs => List.mem_append_right _ (hbgStops s hs)
    rw [bgStarts_stopped_iff hmonitor, bgStops_lastOnly_iff hnodup,
      containerStarts_lost_iff hbgStops, and_comm] at hiff
    rw [hdue, if_neg hmonitor, if_neg hexecutor, if_pos hcontainer]
    simpa [hreaches] using hiff
  | started hpre hmid hlast hreaches hmonitor hexecutor hcontainer =>
    have hiff := allStopped_fixture_iff raises hpre hmid hlast hothers hallStarts hallContainers
      fun s (hs : s ∈ upToRaise raises (containerStops useContainer nodes ++ bgStops opts nodes)) =>
        mem_of_mem_upToRaise hs
    rw [bgStarts_stopped_iff hmonitor, containerStarts_stopped_iff hcontainer, and_comm,
      ← List.forall_mem_append, forall_mem_upToRaise_iff (stops_nodup opts useContainer hnodup)]
      at hiff
    rw [stopsDue_eq, if_neg hmonitor, if_neg hexecutor, if_neg hcontainer]
    exact hiff.trans ⟨fun h _ => h, fun h => h hreaches⟩

end

/-! ## Whole runs -/

def FixtureState.record (raises : Step → Bool) (st : FixtureState) : FixtureOp → FixtureState
  | .step s => { st with trace := st.trace ++ [(s, raises s)] }
  | .pool _ => st

theorem foldl_record (ss : List Step) :
    ∀ st : FixtureState, (ss.map FixtureOp.step).foldl (FixtureState.record raises) st =
      { st with trace := st.trace ++ recorded raises ss } := by
  induction ss with
  | nil =>
    intro st
    simp [recorded]
  | cons s ss ih =>
    intro st
    rw [List.map_cons, List.foldl_cons, ih]
    simp [recorded, FixtureState.record]

theorem Takes.runs {p : FixtureProg α} {a : α} {ss : List Step} (h : Takes raises p a ss)
    (t : Nat × Nat) (rest : List Unit) (st : FixtureState) :
    runSeq (FixtureState.execWith t raises) (List.replicate ss.length () ++ rest) p st =
      some (a, rest, { st with trace := st.trace ++ recorded raises ss }) := by
  have hexec : ∀ o b (e : Unit) st, outcomes raises o = some b →
      FixtureState.execWith t raises o e st = some (b, FixtureState.record raises st o) := by
    intro o b e st hb
    cases o with
    | step s =>
      cases hb
      rfl
    | pool o => cases hb
  rw [runSeq_answered hexec h (List.replicate ss.length ()) rest st (by simp), foldl_record]

def IsReleaseAction : FixtureOp → Prop
  | .pool (.deallocate _ _ _) => True
  | .pool (.os _) => True
  | _ => False

theorem release_actions (T : Topology) (slots : List NodeSlot) :
    Straight IsReleaseAction (inPool (Pool.release T slots)) := by
  induction slots with
  | nil => exact .ret
  | cons slot slots ih =>
    by_cases h : T.gpus slot.nodeSpec.label = none
    · unfold inPool Pool.release
      rw [Prog.forEach, h]
      exact .act trivial fun _ => .act trivial fun _ => ih
    · rw [release_cons h]
      exact .act trivial fun _ => .act trivial fun _ => .act trivial fun _ => ih

theorem releaseShape_actions (T : Topology) (shape : Shape) :
    Straight IsReleaseAction (releaseShape T shape) := by
  cases shape with
  | shared isMultiNode multiList => exact Straight.forEach fun multi _ => release_actions T _
  | single slot => exact release_actions T _

/-- The release ends and takes no step. -/
theorem releaseShape_ends (raises : Step → Bool) (T : Topology) (shape : Shape) (t : Nat × Nat)
    (st : FixtureState) :
    ∃ n st', runSeq (FixtureState.execWith t raises) (List.replicate n ())
      (releaseShape T shape) st = some ((), [], st') ∧ st'.trace = st.trace := by
  have hpossible : ∀ o (e : Unit) st, IsReleaseAction o →
      ∃ x, FixtureState.execWith t raises o e st = some x := by
    intro o e st ho
    cases o with
    | step s => exact ho.elim
    | pool o =>
      refine exec_possible t (.pool o) _ st ?_
      cases o <;> exact ho
  obtain ⟨n, _, st', hrun⟩ := (releaseShape_actions T shape).finishes hpossible (fun _ => ()) st
  have hinputs : (List.range n).map (fun _ => ()) = List.replicate n () := by
    rw [List.map_const', List.length_range]
  rw [hinputs] at hrun
  refine ⟨n, st', hrun, ?_⟩
  refine (releaseShape_actions T shape).keeps (I := fun u => u.trace = st.trace) ?_ rfl hrun
  intro o e u b u' ho hu he
  cases o with
  | step s => exact ho.elim
  | pool o =>
    obtain ⟨x, _, hx⟩ := Option.map_eq_some_iff.mp he
    cases hx
    cases o with
    | deallocate label gpu retired => cases retired <;> exact hu
    | os o => cases o <;> exact hu
    | _ => exact ho.elim

theorem fixture_eq (T : Topology) (opts : Options) (shape : Shape) :
    fixture T opts shape = guardedRelease
      (tryBlock opts shape.isMultiNode (shape.useContainer opts) shape.nodes)
      (teardown opts shape.nodes) (releaseShape T shape) := by
  cases shape <;> rfl

theorem Shape.nodes_nodup (shape : Shape) : (shape.nodes.map (·.2)).Nodup := by
  cases shape with
  | shared isMultiNode multiList =>
    have h : multiList.zipIdx.map (·.2) = List.range' 0 multiList.length := List.zipIdx_map_snd ..
    show (multiList.zipIdx.map (·.2)).Nodup
    rw [h]
    exact List.nodup_range'
  | single slot => exact List.nodup_singleton _

/-- The steps of the two blocks, one after the other, and then the release. -/
theorem guardedRelease_ends {block : FixtureProg (Locals × Except Raised Unit)}
    {teardown : Locals → FixtureProg (Except Raised Unit)} {release : FixtureProg Unit}
    {l : Locals} {r r' : Except Raised Unit} {ss ss' : List Step} {t : Nat × Nat} {n : Nat}
    (st : FixtureState) {st' : FixtureState} (hblock : Takes raises block (l, r) ss)
    (hteardown : Takes raises (teardown l) r' ss')
    (hrelease : runSeq (FixtureState.execWith t raises) (List.replicate n ()) release
      { st with trace := st.trace ++ recorded raises ss ++ recorded raises ss' } =
        some ((), [], st')) :
    ∃ a, runSeq (FixtureState.execWith t raises) (List.replicate (ss.length + (ss'.length + n)) ())
      (guardedRelease block teardown release) st = some (a, [], st') := by
  have houter := hblock.runs t (List.replicate ss'.length () ++ List.replicate n ()) st
  have hinner := (hteardown.bind (f := fun r => .ret ((), r)) (Takes.ret _)).runs t
    (List.replicate n ()) { st with trace := st.trace ++ recorded raises ss }
  rw [List.append_nil] at hinner
  have hfinal : runSeq (FixtureState.execWith t raises) (List.replicate n ())
      (release.bind fun _ => .ret (.ok () : Except Raised Unit))
      { st with trace := st.trace ++ recorded raises ss ++ recorded raises ss' } =
        some (.ok (), [], st') := by
    rw [runSeq_bind, hrelease]
    exact runSeq_ret [] _ st'
  obtain ⟨b, hfin⟩ := runSeq_tryFinally_of
    (fun _ : Unit => release.bind fun _ => .ret (.ok () : Except Raised Unit)) hinner hfinal
  rw [List.replicate_add, List.replicate_add]
  exact runSeq_tryFinally_of (fun l =>
    Prog.tryFinally ((teardown l).bind fun r => .ret ((), r)) fun _ =>
      release.bind fun _ => .ret (.ok ())) houter hfin

/-- For every outcome of every step the fixture ends, and every helper whose
start returned has then been told to stop exactly when the outcomes are
`Clean`. -/
theorem fixture_stops_helpers_iff (T : Topology) (opts : Options) (shape : Shape) (t : Nat × Nat)
    (pool : PoolState) (raises : Step → Bool) :
    ∃ n a st', runSeq (FixtureState.execWith t raises) (List.replicate n ())
        (fixture T opts shape) ⟨pool, [], [], []⟩ = some (a, [], st') ∧
      (AllStopped st'.trace ↔
        Clean opts shape.isMultiNode (shape.useContainer opts) shape.nodes raises) := by
  obtain ⟨l, r, ss, htry, htried⟩ := tryBlock_takes raises opts shape.isMultiNode
    (shape.useContainer opts) shape.nodes
  obtain ⟨r', others, hothers, hdown⟩ := teardown_takes raises opts shape.nodes l
  obtain ⟨n, st', hrelease, htrace⟩ := releaseShape_ends raises T shape t
    ⟨pool, [] ++ recorded raises ss ++ recorded raises
      (upToRaise raises (stopsDue l.bgMonitors l.wrappers) ++ others), [], []⟩
  obtain ⟨a, hrun⟩ := guardedRelease_ends ⟨pool, [], [], []⟩ htry hdown hrelease
  rw [fixture_eq]
  refine ⟨_, a, st', hrun, ?_⟩
  have hwhole : st'.trace = recorded raises
      (ss ++ (upToRaise raises (stopsDue l.bgMonitors l.wrappers) ++ others)) := by
    rw [htrace]
    exact List.map_append.symm
  rw [hwhole]
  exact htried.allStopped_iff shape.nodes_nodup hothers

/-- Background monitors only, without a drain at the end. -/
def monitorOptions : Options :=
  { testName := "test_rccl", healthMetrics := false, monitorGpu := true, container := false,
    xdistActive := false, drainSecs := false }

def secondMonitorRaises : Step → Bool
  | .bgStart 1 _ _ => true
  | _ => false

/-- The second node's monitor does not start, so the list of monitors is never
assigned and the first node's monitor keeps running. -/
theorem fixture_leaks_first_monitor :
    ∃ a st', runSeq (FixtureState.execWith (0, 0) secondMonitorRaises) (List.replicate 10 ())
        (fixture twoNodes monitorOptions bothNodes) bothHeld = some (a, [], st') ∧
      ¬ AllStopped st'.trace := by
  refine ⟨_, _, rfl, ?_⟩
  intro h
  obtain ⟨raised, hraised⟩ := h.monitors 0 [0] "test_rccl_HOST_IDX_1" (by decide)
  clear h
  revert raised
  decide

end

end TargetExecutor
end Plugins
end RocmTests

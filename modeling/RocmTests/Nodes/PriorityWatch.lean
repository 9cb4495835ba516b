import RocmTests.Nodes.PoolActions
import RocmTests.Nodes.PoolSystem

/-!
# Pinned waiters, and what an `acquire_slot` caller sees of them

`watched` is the system of all pools with a history: what each thread saw in the
registry when it last ran the yield test, and the GPUs that `acquire_slot` took
from a waiter it had seen.  `heeded` is the condition under which the test does
answer yes in the presence of a pinned waiter.

`Watch` is what one thread knows.  A thread delivers a slot of `acquire_slot` only
from nodes whose registry it has found clear of live pinned waiters.
-/

namespace RocmTests
namespace Nodes
namespace Priority

open Conc Gpu Pool

/-- `seen t safe` are the requests registered when `t` last read the registry,
`probe t` is the largest live count and the number of locks found free since, when
that read met a pinned waiter.  `stolen` lists the slots taken from a waiter. -/
structure WatchState where
  pool : PoolState
  seen : Nat × Nat → String → List Nat
  probe : Nat × Nat → Option (Int × Nat)
  stolen : List NodeSlot

/-- A live request of a caller of `acquire_specific_slot`. -/
def pinnedLive (now : ℚ) (entries : List (Nat × Pending)) : List (Nat × Pending) :=
  (OsState.liveAt now entries).filter fun x => x.2.waitsFor.isSome

def maxLive (now : ℚ) (entries : List (Nat × Pending)) : Int :=
  PendingAcquisitionTracker.maxCount ((OsState.liveAt now entries).map (·.2.count))

/-- Thread `t` returns `slot` although it saw a request for that GPU that is
still registered and has not expired. -/
def Steals (w : WatchState) (t : Nat × Nat) (slot : NodeSlot) : Prop :=
  ∃ x ∈ w.pool.os.pending (safeLabel slot.nodeSpec.label),
    x.1 ∈ w.seen t (safeLabel slot.nodeSpec.label) ∧ x.2.waitsFor = some slot.key ∧
      w.pool.os.clock < x.2.timeoutAt

instance (w : WatchState) (t : Nat × Nat) (slot : NodeSlot) : Decidable (Steals w t slot) :=
  inferInstanceAs (Decidable (∃ x ∈ _, _))

/-- The history after an action of `t`, before the action itself. -/
def record (t : Nat × Nat) (o : PoolOp) (w : WatchState) : WatchState :=
  match o with
  | .os (.livePending safe now) =>
    { w with
      seen := Function.update w.seen t
        (Function.update (w.seen t) safe ((w.pool.os.pending safe).map (·.1)))
      probe := Function.update w.probe t
        (if pinnedLive now (w.pool.os.pending safe) = [] then none
          else some (maxLive now (w.pool.os.pending safe), 0)) }
  | .os (.flock f) =>
    { w with
      probe := Function.update w.probe t
        ((w.probe t).map fun x =>
          (x.1, if w.pool.os.holder f = none then x.2 + 1 else x.2)) }
  | .lockPool => { w with probe := Function.update w.probe t none }
  | .deliver .slot slots =>
    { w with stolen := w.stolen ++ slots.filter fun slot => decide (Steals w t slot) }
  | _ => w

def watchExec (t : Nat × Nat) (o : PoolOp) (ch : PoolChoice) (w : WatchState) :
    Option (o.Resp × WatchState) :=
  (PoolState.exec t o ch w.pool).map fun x => (x.1, { record t o w with pool := x.2 })

def watched (T : Topology) : System where
  Tid := Nat × Nat
  Op := PoolOp
  Resp := PoolOp.Resp
  State := WatchState
  Choice := PoolChoice
  exec := watchExec
  Fault := Nat
  fault := fun pid w => { w with pool := w.pool.die T pid }
  kills := fun pid t => decide (t.1 = pid)

/-- Nobody is registered yet. -/
def watchStart (T : Topology) (os : OsState) : (watched T).Config :=
  ⟨{ pool := PoolState.start T { os with pending := fun _ => [] }
     seen := fun _ _ => []
     probe := fun _ => none
     stolen := [] }, fun t => worker T t.1⟩

/-- When a caller of `acquire_slot` reads the registry and a pinned waiter is
live there: the read succeeds, the largest live count is at least 2 and fits on
the node, and the probes that follow find at most that many locks free. -/
def heeded (T : Topology) (t : Nat × Nat) (o : PoolOp) (ch : PoolChoice) (w : WatchState) : Bool :=
  match o with
  | .os (.livePending safe now) =>
    decide (pinnedLive now (w.pool.os.pending safe) = []) ||
      (!ch.os.metaTimeout && decide (2 ≤ maxLive now (w.pool.os.pending safe)) &&
        T.nodeSpecs.all fun spec => decide (safeLabel spec.label ≠ safe) ||
          decide (maxLive now (w.pool.os.pending safe) ≤ ((T.indices spec.label).length : Int)))
  | .os (.flock f) =>
    match w.probe t with
    | none => true
    | some (m, k) => (w.pool.os.holder f).isSome || decide ((k : Int) < m)
  | _ => true

abbrev heededPools (T : Topology) : System := (watched T).guarded (heeded T)

/-! ## What a thread knows -/

/-- `clear` holds the registries in which the thread's last look met no live
pinned waiter, `duty` the probe record otherwise, `now` a clock reading. -/
structure Watch where
  clear : Set String
  duty : Option (Int × Nat)
  now : Option ℚ

def Looked (T : Topology) (safe : String) (r : Watch) (b : Option (List Int)) (r' : Watch) : Prop :=
  r' = { r with clear := insert safe r.clear, duty := none } ∨
    ∃ counts, b = some counts ∧ 2 ≤ PendingAcquisitionTracker.maxCount counts ∧
      (∀ spec ∈ T.nodeSpecs, safeLabel spec.label = safe →
        PendingAcquisitionTracker.maxCount counts ≤ ((T.indices spec.label).length : Int)) ∧
      r' = { r with
        clear := r.clear \ {safe}
        duty := some (PendingAcquisitionTracker.maxCount counts, 0) }

def Probed (r : Watch) (b : Option Nat) (r' : Watch) : Prop :=
  match r.duty with
  | none => r' = r
  | some (m, k) => (b = none ∧ r' = r) ∨ (k : Int) < m ∧ r' = { r with duty := some (m, k + 1) }

def registryActions (T : Topology) : Actions OsOp OsOp.Resp Watch where
  pre
    | .livePending _ now, r => r.now = some now
    | _, _ => True
  post
    | .livePending safe _, r, b, r' => Looked T safe r b r'
    | .flock _, r, b, r' => Probed r b r'
    | .monotonic, r, b, r' => r' = { r with now := some b }
    | _, r, _, r' => r' = r

def watchActions (T : Topology) : Actions PoolOp PoolOp.Resp Watch where
  pre
    | .os o, r => (registryActions T).pre o r
    | .deliver .slot slots, r => ∀ slot ∈ slots, safeLabel slot.nodeSpec.label ∈ r.clear
    | _, _ => True
  post
    | .os o, r, b, r' => (registryActions T).post o r b r'
    | .lockPool, r, _, r' => r' = { r with duty := none }
    | _, r, _, r' => r' = r

theorem inOs_watch {T : Topology} {α : Type} {p : OsProg α} {Q : α → Watch → Prop} {r : Watch}
    (h : Safe (registryActions T) p Q r) : Safe (watchActions T) (inOs p) Q r := by
  refine Safe.mapOp ?_ ?_ h
  · intro o r ho; exact ho
  · intro o r b r' hb; exact hb

/-- With a probe record open, the count returned never exceeds it, and it never
exceeds the largest request by more than the bound allows. -/
theorem trueAvailableCount_watch (T : Topology) (label : String) :
    ∀ (indices : List Int) (n : Nat) (r : Watch),
      Safe (registryActions T) (PendingAcquisitionTracker.trueAvailableCount label n indices)
        (fun a r' => r'.clear = r.clear ∧ ∀ m k, r.duty = some (m, k) → n ≤ k → (k : Int) ≤ m →
          (a : Int) ≤ m) r := by
  intro indices
  induction indices with
  | nil =>
    intro n r
    refine .ret ⟨rfl, fun m k _ hn hk => ?_⟩
    omega
  | cons i rest ih =>
    intro n r
    refine .act trivial fun b r₁ h₁ => ?_
    cases hduty : r.duty with
    | none =>
      have hsame : r₁ = r := by
        have hp : Probed r b r₁ := h₁
        rwa [Probed, hduty] at hp
      subst hsame
      cases b with
      | none => exact (ih n r₁).mono fun a r' h => ⟨h.1, fun m k hd => by cases hd⟩
      | some id =>
        refine .act trivial fun _ r₂ h₂ => ?_
        rw [show r₂ = r₁ from h₂]
        exact (ih (n + 1) r₁).mono fun a r' h => ⟨h.1, fun m k hd => by cases hd⟩
    | some d =>
      obtain ⟨m, k⟩ := d
      have hp : (b = none ∧ r₁ = r) ∨ (k : Int) < m ∧ r₁ = { r with duty := some (m, k + 1) } := by
        have hp : Probed r b r₁ := h₁
        rwa [Probed, hduty] at hp
      rcases hp with ⟨rfl, rfl⟩ | ⟨hlt, rfl⟩
      · refine (ih n r₁).mono fun a r' h => ?_
        rw [hduty] at h
        exact h
      · have hopen : ∀ {a : Int}, (∀ m' k', some (m, k + 1) = some (m', k') → n + 1 ≤ k' →
            (k' : Int) ≤ m' → a ≤ m') → ∀ m' k', some (m, k) = some (m', k') → n ≤ k' →
              (k' : Int) ≤ m' → a ≤ m' := by
          intro a ha m' k' heq hn hk
          cases heq
          have hstep : ((k + 1 : Nat) : Int) ≤ m := by push_cast; omega
          exact ha m (k + 1) rfl (by omega) hstep
        cases b with
        | none =>
          refine (ih n _).mono fun a r' h => ⟨h.1, hopen fun m' k' heq hn hk => ?_⟩
          exact h.2 m' k' heq (by omega) hk
        | some id =>
          refine .act trivial fun _ r₂ h₂ => ?_
          rw [show r₂ = _ from h₂]
          exact (ih (n + 1) _).mono fun a r' h => ⟨h.1, hopen h.2⟩

/-- A test that answers no has met no live pinned waiter. -/
theorem shouldYield_watch (T : Topology) {spec : NodeSpec} (hspec : spec ∈ T.nodeSpecs)
    (r : Watch) :
    Safe (registryActions T)
      (PendingAcquisitionTracker.shouldYield spec.label (T.indices spec.label))
      (fun b r' => b = false → r'.clear = insert (safeLabel spec.label) r.clear) r := by
  refine .act trivial fun now r₁ h₁ => ?_
  have hnow : r₁ = { r with now := some now } := h₁
  refine .act (by rw [hnow]; rfl) fun b r₂ h₂ => ?_
  rcases h₂ with hclear | ⟨counts, rfl, htwo, hfit, hduty⟩
  · have hr₂ : r₂.clear = insert (safeLabel spec.label) r.clear := by rw [hclear, hnow]
    have hrest : ∀ m : Int, Safe (registryActions T)
        (if m ≤ 1 then pure false
          else if ((T.indices spec.label).length : Int) < m then pure false
          else Prog.bind
            (PendingAcquisitionTracker.trueAvailableCount spec.label 0 (T.indices spec.label))
            fun available => pure (decide ((available : Int) - 1 < m)))
        (fun b r' => b = false → r'.clear = insert (safeLabel spec.label) r.clear) r₂ := by
      intro m
      by_cases hm : m ≤ 1
      · rw [if_pos hm]; exact .ret fun _ => hr₂
      · rw [if_neg hm]
        by_cases hlen : ((T.indices spec.label).length : Int) < m
        · rw [if_pos hlen]; exact .ret fun _ => hr₂
        · rw [if_neg hlen]
          refine (trueAvailableCount_watch T spec.label _ 0 r₂).bind fun a r₃ h₃ => ?_
          exact .ret fun _ => by rw [h₃.1, hr₂]
    cases b with
    | none => exact hrest 0
    | some counts => exact hrest (PendingAcquisitionTracker.maxCount counts)
  · have hlen := hfit spec hspec rfl
    show Safe (registryActions T) (if PendingAcquisitionTracker.maxCount counts ≤ 1 then _ else _)
      _ _
    rw [if_neg (by omega), if_neg (by omega)]
    refine (trueAvailableCount_watch T spec.label _ 0 r₂).bind fun a r₃ h₃ => ?_
    have hle : (a : Int) ≤ PendingAcquisitionTracker.maxCount counts := by
      refine h₃.2 _ 0 (by rw [hduty]) (Nat.le_refl 0) ?_
      push_cast
      omega
    refine .ret fun hfalse => ?_
    have hyes : (a : Int) - 1 < PendingAcquisitionTracker.maxCount counts := by omega
    exact absurd hyes (of_decide_eq_false hfalse)

theorem yieldCheck_watch (T : Topology) :
    ∀ (specs : List NodeSpec), (∀ spec ∈ specs, spec ∈ T.nodeSpecs) → ∀ r : Watch,
      Safe (watchActions T) (yieldCheck T specs)
        (fun b r' => b = false → r.clear ⊆ r'.clear ∧
          ∀ spec ∈ specs, safeLabel spec.label ∈ r'.clear) r := by
  intro specs
  induction specs with
  | nil => intro _ r; exact .ret fun _ => ⟨subset_rfl, fun spec hs => by cases hs⟩
  | cons spec specs ih =>
    intro hspecs r
    refine (inOs_watch (shouldYield_watch T (hspecs spec List.mem_cons_self) r)).bind
      fun yielded r₁ h₁ => ?_
    cases yielded with
    | true => exact .ret fun h => by cases h
    | false =>
      have hclear := h₁ rfl
      have hrest := ih (fun s hs => hspecs s (List.mem_cons_of_mem _ hs)) r₁
      refine Safe.mono hrest fun b r₂ h₂ hb => ?_
      obtain ⟨hsub, hall⟩ := h₂ hb
      rw [hclear] at hsub
      refine ⟨(Set.subset_insert _ _).trans hsub, fun s hs => ?_⟩
      rcases List.mem_cons.mp hs with rfl | hin
      · exact hsub (Set.mem_insert _ _)
      · exact hall s hin

/-- Neither a look at the registry nor a delivery of `acquire_slot`. -/
def Unwatched : PoolOp → Prop
  | .os (.livePending _ _) => False
  | .deliver .slot _ => False
  | _ => True

theorem unwatched_of_inner (o : PoolOp) (h : Inner o) : Unwatched o := by
  cases o with
  | os o => cases o <;> trivial
  | deliver path slots => cases h
  | _ => trivial

/-- Outside the two actions the thread keeps what it knows about the registries. -/
theorem unwatched_safe {T : Topology} {α : Type} {p : PoolProg α} (h : Performs Unwatched p)
    (C : Set String) {r : Watch} (hr : r.clear = C) :
    Safe (watchActions T) p (fun _ r' => r'.clear = C) r := by
  refine Performs.safe (I := fun r : Watch => r.clear = C) h ?_ ?_ hr
  · intro o r ho _
    cases o with
    | os o => cases o <;> trivial
    | deliver path slots => cases path <;> trivial
    | _ => trivial
  · intro o r b r' ho hr hpost
    have hsame : r' = r → r'.clear = C := fun h => by rw [h, hr]
    cases o with
    | os o =>
      cases o with
      | livePending safe now => cases ho
      | flock f =>
        have hp : Probed r b r' := hpost
        unfold Probed at hp
        cases hduty : r.duty with
        | none => rw [hduty] at hp; exact hsame hp
        | some d =>
          rw [hduty] at hp
          rcases hp with ⟨_, h⟩ | ⟨_, h⟩
          · exact hsame h
          · rw [h]; exact hr
      | monotonic => rw [show r' = _ from hpost]; exact hr
      | _ => exact hsame hpost
    | lockPool => rw [show r' = _ from hpost]; exact hr
    | deliver path slots => cases path <;> exact hsame hpost
    | _ => exact hsame hpost

theorem inner_watch {T : Topology} {α : Type} {p : PoolProg α} (h : Performs Inner p)
    (C : Set String) {r : Watch} (hr : r.clear = C) :
    Safe (watchActions T) p (fun _ r' => r'.clear = C) r :=
  unwatched_safe (h.mono unwatched_of_inner) C hr

theorem scanNode_watch (T : Topology) (pid : Nat) (spec : NodeSpec) (v : ℚ) (testId : String)
    (C : Set String) {r : Watch} (hr : r.clear = C) :
    Safe (watchActions T) (scanNode T pid spec v testId)
      (fun b r' => r'.clear = C ∧ ∀ slot ∈ b, slot.nodeSpec = spec) r := by
  refine Safe.bind (Q := fun x r' => r'.clear = C ∧ ∀ slot ∈ x.2, slot.nodeSpec = spec) ?_ ?_
  · refine Safe.iter (fun _ r' => r'.clear = C) hr fun skipped r₁ h₁ => ?_
    refine .act trivial fun b r₂ h₂ => ?_
    have hr₂ : r₂.clear = C := by rw [show r₂ = r₁ from h₂, h₁]
    cases b with
    | error e => exact .ret ⟨hr₂, fun slot hs => by cases hs⟩
    | ok gpu =>
      refine (inner_watch (acquire_inner pid spec.label gpu.index testId) C hr₂).bind
        fun lock r₃ h₃ => ?_
      cases lock with
      | error e => exact .ret h₃
      | ok lock =>
        refine (inner_watch (releaseAll_inner spec.label skipped) C h₃).bind fun _ r₄ h₄ => ?_
        refine .ret ⟨h₄, fun slot hs => ?_⟩
        rw [← Option.some.inj hs]
        rfl
  · intro x r₁ h₁
    refine (inner_watch (releaseAll_inner spec.label x.1) C h₁.1).bind fun _ r₂ h₂ => ?_
    exact .ret ⟨h₂, h₁.2⟩

theorem scanNodes_watch (T : Topology) (pid : Nat) (v : ℚ) (testId : String) (C : Set String) :
    ∀ (specs : List NodeSpec) {r : Watch}, r.clear = C →
      Safe (watchActions T) (scanNodes T pid v testId specs)
        (fun b r' => r'.clear = C ∧ ∀ slot ∈ b, slot.nodeSpec ∈ specs) r := by
  intro specs
  induction specs with
  | nil => intro r hr; exact .ret ⟨hr, fun slot hs => by cases hs⟩
  | cons spec specs ih =>
    intro r hr
    have hrest : ∀ {r₁ : Watch}, r₁.clear = C → Safe (watchActions T)
        (scanNodes T pid v testId specs)
        (fun b r' => r'.clear = C ∧ ∀ slot ∈ b, slot.nodeSpec ∈ spec :: specs) r₁ := by
      intro r₁ h₁
      refine (ih h₁).mono fun b r₂ h₂ => ⟨h₂.1, fun slot hs => ?_⟩
      exact List.mem_cons_of_mem _ (h₂.2 slot hs)
    rw [scanNodes]
    cases T.gpus spec.label with
    | none => exact hrest hr
    | some gpus =>
      refine (scanNode_watch T pid spec v testId C hr).bind fun b r₁ h₁ => ?_
      cases b with
      | none => exact hrest h₁.1
      | some slot =>
        refine .ret ⟨h₁.1, fun s hs => ?_⟩
        rw [← Option.some.inj hs, h₁.2 slot rfl]
        exact List.mem_cons_self

theorem slotRound_watch (T : Topology) (pid : Nat) (v : ℚ) (testId : String) {r : Watch}
    (hr : ∀ spec ∈ T.nodeSpecs, safeLabel spec.label ∈ r.clear) :
    Safe (watchActions T) (slotRound T pid v testId) (fun _ _ => True) r := by
  refine .act trivial fun _ r₁ h₁ => ?_
  have hr₁ : r₁.clear = r.clear := by rw [show r₁ = _ from h₁]
  refine (scanNodes_watch T pid v testId r.clear T.nodeSpecs hr₁).bind fun b r₂ h₂ => ?_
  obtain ⟨hclear, hspecs⟩ := h₂
  refine .act ?_ fun _ _ _ => .act trivial fun _ _ _ => .ret trivial
  intro slot hs
  rw [hclear]
  exact hr _ (hspecs slot (Option.mem_toList.mp hs))

theorem acquireSlot_watch (T : Topology) (pid : Nat) (v w : ℚ) (testId : String) (r : Watch) :
    Safe (watchActions T) (acquireSlot T pid v w testId) (fun _ _ => True) r := by
  unfold acquireSlot
  by_cases hcap : T.hasVramCapacity v 1 none
  · rw [if_pos hcap]
    refine .act trivial fun start r₁ _ => ?_
    refine Safe.iter (fun _ _ => True) trivial fun _ r₂ _ => ?_
    refine (yieldCheck_watch T T.nodeSpecs (fun _ h => h) r₂).bind fun yielded r₃ h₃ => ?_
    refine Safe.bind (Q := fun _ _ => True) ?_ fun found r₄ _ => ?_
    · cases yielded with
      | true => exact .ret trivial
      | false => exact slotRound_watch T pid v testId (h₃ rfl).2
    · cases found with
      | some slot => exact .ret trivial
      | none =>
        refine Safe.mono (inner_watch (poll_inner (start + w) (.noSlot w)) r₄.clear rfl)
          fun x _ _ => ?_
        cases x with
        | inl _ => trivial
        | inr _ => trivial
  · rw [if_neg hcap]; exact .ret trivial

/-! ## The other methods neither look nor deliver for `acquire_slot` -/

section Others

variable (T : Topology) (pid : Nat)

theorem acquireSlots_unwatched (count : Int) (nodeLabel : Option String) (v w : ℚ)
    (testId : String) : Performs Unwatched (acquireSlots T pid count nodeLabel v w testId) := by
  have htry : ∀ specs : List NodeSpec,
      Performs Unwatched (tryNodes T pid count v testId specs) := by
    intro specs
    induction specs with
    | nil => exact Performs.ret
    | cons spec specs ih =>
      rw [tryNodes]
      cases T.gpus spec.label with
      | none => exact ih
      | some gpus =>
        refine ((tryNode_inner T pid spec count v testId).mono unwatched_of_inner).bind
          fun acquired => ?_
        cases acquired with
        | nil => exact ih
        | cons slot slots => exact Performs.ret
  unfold acquireSlots
  by_cases hcap : T.hasVramCapacity v count nodeLabel
  · rw [if_pos hcap]
    refine Performs.act trivial fun start => ?_
    refine ((registerAll_inner count _ _ []).mono unwatched_of_inner).bind fun regs => ?_
    refine Performs.bind (Performs.iter fun _ => ?_) fun result => ?_
    · refine Performs.bind ?_ fun found => ?_
      · refine Performs.act trivial fun _ => (htry _).bind fun found => ?_
        exact Performs.act trivial fun _ => Performs.act trivial fun _ => Performs.ret
      · cases found with
        | some multi => exact Performs.ret
        | none => exact (poll_inner (start + w) (.noSlots count w)).mono unwatched_of_inner
    · refine ((deregisterAll_inner regs).mono unwatched_of_inner).bind fun _ => ?_
      exact Performs.ret
  · rw [if_neg hcap]; exact Performs.ret

theorem specificRound_unwatched (spec : NodeSpec) (i : Int) (testId : String) :
    Performs Unwatched (specificRound T pid spec i testId) := by
  refine Performs.act trivial fun _ => Performs.act trivial fun b => ?_
  cases b with
  | error e => exact Performs.act trivial fun _ => Performs.ret
  | ok gpu =>
    refine ((acquire_inner pid spec.label i testId).mono unwatched_of_inner).bind fun lock => ?_
    cases lock with
    | ok lock => exact Performs.act trivial fun _ => Performs.act trivial fun _ => Performs.ret
    | error e =>
      refine Performs.act trivial fun _ => ?_
      refine ((holderIsAlive_inner spec.label i).mono unwatched_of_inner).bind fun alive => ?_
      exact Performs.act trivial fun _ => Performs.ret

theorem acquireSpecificSlot_unwatched (i : Int) (w : ℚ) (testId : String) :
    Performs Unwatched (acquireSpecificSlot T pid i w testId) := by
  unfold acquireSpecificSlot
  cases T.ownerOf [i] with
  | none => exact Performs.ret
  | some spec =>
    refine Performs.act trivial fun start => Performs.act trivial fun reqId => ?_
    show Performs Unwatched (Prog.bind (Prog.iter _ ()) _)
    refine Performs.bind (Performs.iter fun _ => ?_) fun result => ?_
    · refine (specificRound_unwatched T pid spec i testId).bind fun x => ?_
      cases x with
      | taken slot => exact Performs.ret
      | holderGone => exact Performs.ret
      | unavailable =>
        exact (poll_inner (start + w) (.indexNotAcquired i w)).mono unwatched_of_inner
    · exact Performs.act trivial fun _ => Performs.ret

theorem acquireSpecificSlots_unwatched (indices : List Int) (w : ℚ) (testId : String) :
    Performs Unwatched (acquireSpecificSlots T pid indices w testId) := by
  unfold acquireSpecificSlots
  cases T.ownerOf indices with
  | none => exact Performs.ret
  | some spec =>
    refine Performs.act trivial fun start => Performs.act trivial fun reqId => ?_
    show Performs Unwatched (Prog.bind (Prog.iter _ ()) _)
    refine Performs.bind (Performs.iter fun _ => ?_) fun result => ?_
    · refine Performs.bind ?_ fun x => ?_
      · refine Performs.act trivial fun _ => ?_
        refine ((tryAcquireIndexSet_inner T pid spec indices testId).mono
          unwatched_of_inner).bind fun slots => ?_
        exact Performs.act trivial fun _ => Performs.act trivial fun _ => Performs.ret
      · cases x with
        | some slots => exact Performs.ret
        | none =>
          exact (poll_inner (start + w) (.indicesNotAcquired indices w)).mono unwatched_of_inner
    · exact Performs.act trivial fun _ => Performs.ret

theorem acquireEach_unwatched (n : Markers.Scalar) (v w : ℚ) (testId : String) :
    ∀ (specs : List NodeSpec) (result : List MultiGpuSlots),
      Performs Unwatched (acquireEach T pid n v w testId specs result) := by
  intro specs
  induction specs with
  | nil => intro result; exact Performs.ret
  | cons spec specs ih =>
    intro result
    rw [acquireEach]
    cases countOn T n spec with
    | error e => exact Performs.ret
    | ok count =>
      refine (acquireSlots_unwatched T pid count (some spec.label) v w testId).bind fun b => ?_
      cases b with
      | error e => exact Performs.ret
      | ok slots => exact ih _

theorem worker_watch (r : Watch) :
    Safe (watchActions T) (worker T pid) (fun _ _ => True) r := by
  have hfree : ∀ {α : Type} {p : PoolProg α} (r : Watch), Performs Unwatched p →
      Safe (watchActions T) p (fun _ _ => True) r :=
    fun r h => (unwatched_safe h r.clear rfl).mono fun _ _ _ => trivial
  refine Safe.iter (fun _ _ => True) trivial fun _ r₁ _ => ?_
  refine .act trivial fun call r₂ _ => ?_
  show Safe _ (Prog.bind (runCall T pid call) _) _ _
  refine Safe.bind (Q := fun _ _ => True) ?_ fun _ r₃ _ => .act trivial fun _ _ _ => .ret trivial
  cases call with
  | acquireSlot v w testId =>
    exact (acquireSlot_watch T pid v w testId r₂).bind fun _ _ _ => .ret trivial
  | acquireSlots n label v w testId =>
    exact (hfree r₂ (acquireSlots_unwatched T pid n label v w testId)).bind
      fun _ _ _ => .ret trivial
  | acquireSpecificSlot i w testId =>
    exact (hfree r₂ (acquireSpecificSlot_unwatched T pid i w testId)).bind
      fun _ _ _ => .ret trivial
  | acquireSpecificSlots is w testId =>
    exact (hfree r₂ (acquireSpecificSlots_unwatched T pid is w testId)).bind
      fun _ _ _ => .ret trivial
  | acquireMultiNode n v w testId =>
    exact (hfree r₂ (acquireEach_unwatched T pid n v w testId T.nodeSpecs [])).bind
      fun _ _ _ => .ret trivial
  | release slots => exact hfree r₂ ((release_inner T slots).mono unwatched_of_inner)

end Others

end Priority
end Nodes
end RocmTests

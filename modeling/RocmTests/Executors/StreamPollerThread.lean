import RocmTests.Conc.History

/-!
# The thread of the background poller

`register` starts a thread when there is none or when it has ended, and `unregister` sets
the event that ends it when no handle is left.  The lock covers the handle map and all of
`register`.  It does not cover the event that `unregister` sets, nor the steps of the thread.

The steps are those of any number of callers and of the thread, in any order in which each
is possible.  A call is in progress from its first step to its last.
-/

namespace RocmTests
namespace Executors
namespace StreamPollerThread

open Conc

/-- Where `register` stands, which holds the lock. -/
inductive Stage where
  | inserted
  | foundDead
  | cleared
  | running
deriving DecidableEq

/-- `popped` is `unregister` after its `with` block, with `empty`. -/
inductive Caller where
  | idle
  | registering
  | popped (empty : Bool)
deriving DecidableEq

/-- Where `_loop` stands.  In `draining` the last poll is to come, in `leaving` it is under
way. -/
inductive Poller where
  | testing
  | polling
  | waiting
  | draining
  | leaving
  | finished
deriving DecidableEq

structure State where
  handles : List Nat := []
  /-- `self._stop`. -/
  stop : Bool := false
  /-- `self._thread`. -/
  thread : Option Poller := none
  lock : Option (Nat × Stage) := none
  callers : Nat → Caller := fun _ => .idle

inductive Step where
  | insert (caller handle : Nat)
  | check (caller : Nat)
  | clear (caller : Nat)
  | launch (caller : Nat)
  | release (caller : Nat)
  | pop (caller handle : Nat)
  | finish (caller : Nat)
  | test
  | poll
  | wake
  | drain
  | leave
deriving DecidableEq

namespace State

/-- `self._thread.is_alive()`. -/
def alive (s : State) : Bool := s.thread.isSome && s.thread ≠ some .finished

def setCaller (s : State) (c : Nat) (p : Caller) : State :=
  { s with callers := Function.update s.callers c p }

/-- Whether a step is possible.  What the lock protects waits for it. -/
def enabled (s : State) : Step → Bool
  | .insert c _ => s.callers c = .idle && s.lock = none
  | .check c => s.lock = some (c, .inserted)
  | .clear c => s.lock = some (c, .foundDead)
  | .launch c => s.lock = some (c, .cleared)
  | .release c => s.lock = some (c, .running)
  | .pop c _ => s.callers c = .idle && s.lock = none
  | .finish c => s.callers c = .popped true || s.callers c = .popped false
  | .test => s.thread = some .testing
  | .poll => s.thread = some .polling && s.lock = none
  | .wake => s.thread = some .waiting
  | .drain => s.thread = some .draining && s.lock = none
  | .leave => s.thread = some .leaving

def next (l : Step) (s : State) : State :=
  match l with
  | .insert c h =>
    { s.setCaller c .registering with
      handles := if h ∈ s.handles then s.handles else s.handles ++ [h]
      lock := some (c, .inserted) }
  | .check c => { s with lock := some (c, if s.alive then .running else .foundDead) }
  | .clear c => { s with stop := false, lock := some (c, .cleared) }
  | .launch c => { s with thread := some .testing, lock := some (c, .running) }
  | .release c => { s.setCaller c .idle with lock := none }
  | .pop c h =>
    let rest := s.handles.filter (· ≠ h)
    { s.setCaller c (.popped (rest = [])) with handles := rest }
  | .finish c =>
    { s.setCaller c .idle with stop := if s.callers c = .popped true then true else s.stop }
  | .test => { s with thread := some (if s.stop then .draining else .polling) }
  | .poll => { s with thread := some .waiting }
  | .wake => { s with thread := some .testing }
  | .drain => { s with thread := some .leaving }
  | .leave => { s with thread := some .finished }

/-- No call of `register` or `unregister` is in progress. -/
def Quiet (s : State) : Prop := ∀ c, s.callers c = .idle

/-- Registered handles have a thread that is not about to end. -/
def Served (s : State) : Prop := s.handles ≠ [] → s.alive = true ∧ s.stop = false

/-- A call of `register` is going to look at the thread, or to clear the event. -/
def clearing (s : State) : Bool :=
  match s.lock with
  | some (_, .inserted) => true
  | some (_, .foundDead) => true
  | _ => false

end State

def start : State := {}

/-- The run of a sequence of steps. -/
def run (steps : List Step) : State := after State.next start steps

/-- Every step is possible where it stands. -/
def Possible (steps : List Step) : Prop :=
  Steps State.next (fun s l => s.enabled l = true) start steps

instance (steps : List Step) : Decidable (Possible steps) :=
  Steps.decidable State.next (fun s l => s.enabled l = true) start steps

/-- The event is set while no handle is registered, or while the call that registers one is
still going to clear it; and a thread that `register` finds alive has not been told to end. -/
def timely (s : State) : Step → Bool
  | .finish c => s.callers c ≠ .popped true || s.handles = [] || s.clearing
  | .check _ => !(s.alive && s.stop)
  | _ => true

/-- Every step is possible and timely. -/
def Timely (steps : List Step) : Prop :=
  Steps State.next (fun s l => s.enabled l = true ∧ timely s l = true) start steps

instance (steps : List Step) : Decidable (Timely steps) :=
  Steps.decidable State.next (fun s l => s.enabled l = true ∧ timely s l = true) start steps

/-! ## What timely steps keep -/

def StageOk (s : State) : Stage → Prop
  | .inserted => True
  | .foundDead => s.alive = false
  | .cleared => s.alive = false ∧ s.stop = false
  | .running => s.alive = true ∧ s.stop = false

structure Inv (s : State) : Prop where
  /-- A thread that has left the loop was told to. -/
  past : s.thread = some .draining ∨ s.thread = some .leaving → s.stop = true
  free : s.lock = none → s.Served
  held : ∀ c stage, s.lock = some (c, stage) →
    s.callers c = .registering ∧ s.handles ≠ [] ∧ StageOk s stage

theorem inv_start : Inv start where
  past := by rintro (h | h) <;> cases h
  free := fun _ h => absurd rfl h
  held := by
    intro c stage h
    cases h

variable {s : State}

theorem inv_insert (h : Inv s) (c handle : Nat) : Inv (s.next (.insert c handle)) where
  past := h.past
  free := by
    intro hlock
    cases hlock
  held := by
    intro d stage hlock
    cases hlock
    refine ⟨Function.update_self _ _ _, ?_, trivial⟩
    show (if handle ∈ s.handles then s.handles else s.handles ++ [handle]) ≠ []
    split
    · next hmem => exact List.ne_nil_of_mem hmem
    · exact List.append_ne_nil_of_right_ne_nil _ (List.cons_ne_nil _ _)

theorem inv_check (h : Inv s) {c : Nat} (hs : s.lock = some (c, .inserted))
    (ht : timely s (.check c) = true) : Inv (s.next (.check c)) where
  past := h.past
  free := by
    intro hlock
    cases hlock
  held := by
    intro d stage hlock
    obtain ⟨hcaller, hhandles, -⟩ := h.held c .inserted hs
    cases hlock
    refine ⟨hcaller, hhandles, ?_⟩
    by_cases halive : s.alive = true
    · rw [if_pos halive]
      have hstop : s.stop = false := by
        cases hstop : s.stop with
        | false => rfl
        | true =>
          rw [timely, halive, hstop] at ht
          cases ht
      exact ⟨halive, hstop⟩
    · rw [if_neg halive]
      exact Bool.eq_false_iff.2 halive

theorem not_past_of_dead (h : s.alive = false) :
    ¬ (s.thread = some .draining ∨ s.thread = some .leaving) := by
  rintro (ht | ht) <;> rw [State.alive, ht] at h <;> cases h

theorem inv_clear (h : Inv s) {c : Nat} (hs : s.lock = some (c, .foundDead)) :
    Inv (s.next (.clear c)) := by
  obtain ⟨hcaller, hhandles, hdead⟩ := h.held c .foundDead hs
  refine { past := fun hpast => absurd hpast (not_past_of_dead hdead), free := ?_, held := ?_ }
  · intro hlock
    cases hlock
  · intro d stage hlock
    cases hlock
    exact ⟨hcaller, hhandles, hdead, rfl⟩

theorem inv_launch (h : Inv s) {c : Nat} (hs : s.lock = some (c, .cleared)) :
    Inv (s.next (.launch c)) := by
  obtain ⟨hcaller, hhandles, -, hstop⟩ := h.held c .cleared hs
  refine { past := ?_, free := ?_, held := ?_ }
  · rintro (ht | ht) <;> cases ht
  · intro hlock
    cases hlock
  · intro d stage hlock
    cases hlock
    exact ⟨hcaller, hhandles, rfl, hstop⟩

theorem inv_release (h : Inv s) {c : Nat} (hs : s.lock = some (c, .running)) :
    Inv (s.next (.release c)) where
  past := h.past
  free := fun _ _ => (h.held c .running hs).2.2
  held := by
    intro d stage hlock
    cases hlock

theorem inv_pop (h : Inv s) (hs : s.lock = none) (c handle : Nat) :
    Inv (s.next (.pop c handle)) where
  past := h.past
  free := by
    intro hlock hhandles
    refine h.free hlock fun hnil => hhandles ?_
    show s.handles.filter _ = []
    rw [hnil]
    rfl
  held := by
    intro d stage hlock
    have hlock : s.lock = some (d, stage) := hlock
    rw [hs] at hlock
    cases hlock

theorem inv_finish (h : Inv s) {c : Nat} (hs : s.enabled (.finish c) = true)
    (ht : timely s (.finish c) = true) : Inv (s.next (.finish c)) := by
  have hnot (d : Nat) (hd : s.callers d = .registering) : d ≠ c := by
    rintro rfl
    rw [State.enabled, hd] at hs
    cases hs
  by_cases hset : s.callers c = .popped true
  · have hstop : (s.next (.finish c)).stop = true := if_pos hset
    have hempty : s.handles = [] ∨ s.clearing = true := by
      simpa [timely, hset] using ht
    refine { past := fun _ => hstop, free := ?_, held := ?_ }
    · intro hlock hhandles
      rcases hempty with hempty | hclearing
      · exact absurd hempty hhandles
      · have hlock : s.lock = none := hlock
        rw [State.clearing, hlock] at hclearing
        cases hclearing
    · intro d stage hlock
      have hlock : s.lock = some (d, stage) := hlock
      obtain ⟨hcaller, hhandles, hok⟩ := h.held d stage hlock
      refine ⟨(Function.update_of_ne (hnot d hcaller) _ _).trans hcaller, hhandles, ?_⟩
      have hclearing := hempty.resolve_left hhandles
      rw [State.clearing, hlock] at hclearing
      cases stage with
      | inserted => trivial
      | foundDead => exact hok
      | cleared => cases hclearing
      | running => cases hclearing
  · have hstop : (s.next (.finish c)).stop = s.stop := if_neg hset
    refine { past := fun hpast => hstop.trans (h.past hpast), free := ?_, held := ?_ }
    · intro hlock hhandles
      exact ⟨(h.free hlock hhandles).1, hstop.trans (h.free hlock hhandles).2⟩
    · intro d stage hlock
      obtain ⟨hcaller, hhandles, hok⟩ := h.held d stage hlock
      refine ⟨(Function.update_of_ne (hnot d hcaller) _ _).trans hcaller, hhandles, ?_⟩
      cases stage with
      | inserted => trivial
      | foundDead => exact hok
      | cleared => exact ⟨hok.1, hstop.trans hok.2⟩
      | running => exact ⟨hok.1, hstop.trans hok.2⟩

/-- The thread moves on without ending. -/
theorem inv_thread (h : Inv s) {p p' : Poller} (hs : s.thread = some p) (hp : p ≠ .finished)
    (hp' : p' ≠ .finished) (hpast : p' = .draining ∨ p' = .leaving → s.stop = true) :
    Inv { s with thread := some p' } := by
  have halive : s.alive = true := by simp [State.alive, hs, hp]
  have halive' : State.alive { s with thread := some p' } = true := by simp [State.alive, hp']
  refine { past := ?_, free := ?_, held := ?_ }
  · rintro (ht | ht) <;> cases ht
    · exact hpast (Or.inl rfl)
    · exact hpast (Or.inr rfl)
  · exact fun hlock hhandles => ⟨halive', (h.free hlock hhandles).2⟩
  · intro d stage hlock
    obtain ⟨hcaller, hhandles, hok⟩ := h.held d stage hlock
    refine ⟨hcaller, hhandles, ?_⟩
    cases stage with
    | inserted => trivial
    | foundDead =>
      rw [StageOk, halive] at hok
      cases hok
    | cleared =>
      rw [StageOk, halive] at hok
      cases hok.1
    | running => exact ⟨halive', hok.2⟩

theorem inv_leave (h : Inv s) (hs : s.thread = some .leaving) : Inv (s.next .leave) := by
  have hstop : s.stop = true := h.past (Or.inr hs)
  have halive : s.alive = true := by simp [State.alive, hs]
  refine { past := ?_, free := ?_, held := ?_ }
  · rintro (ht | ht) <;> cases ht
  · intro hlock hhandles
    have hserved := (h.free hlock hhandles).2
    rw [hstop] at hserved
    cases hserved
  · intro d stage hlock
    obtain ⟨hcaller, hhandles, hok⟩ := h.held d stage hlock
    refine ⟨hcaller, hhandles, ?_⟩
    cases stage with
    | inserted => trivial
    | foundDead => rfl
    | cleared =>
      rw [StageOk, halive] at hok
      cases hok.1
    | running =>
      rw [StageOk, hstop] at hok
      cases hok.2

/-- Every step that is possible and timely keeps the invariant. -/
theorem inv_next (h : Inv s) {l : Step} (hl : s.enabled l = true) (ht : timely s l = true) :
    Inv (s.next l) := by
  cases l with
  | insert c handle => exact inv_insert h c handle
  | check c => exact inv_check h (by simpa [State.enabled] using hl) ht
  | clear c => exact inv_clear h (by simpa [State.enabled] using hl)
  | launch c => exact inv_launch h (by simpa [State.enabled] using hl)
  | release c => exact inv_release h (by simpa [State.enabled] using hl)
  | pop c handle =>
    have hs : s.callers c = .idle ∧ s.lock = none := by simpa [State.enabled] using hl
    exact inv_pop h hs.2 c handle
  | finish c => exact inv_finish h hl ht
  | test =>
    have hs : s.thread = some .testing := by simpa [State.enabled] using hl
    show Inv { s with thread := some (if s.stop then .draining else .polling) }
    by_cases hstop : s.stop = true
    · rw [if_pos hstop]
      exact inv_thread h hs (by decide) (by decide) fun _ => hstop
    · rw [if_neg hstop]
      exact inv_thread h hs (by decide) (by decide) (by rintro (hp | hp) <;> cases hp)
  | poll =>
    have hs : s.thread = some .polling ∧ s.lock = none := by simpa [State.enabled] using hl
    exact inv_thread h hs.1 (by decide) (by decide) (by rintro (hp | hp) <;> cases hp)
  | wake =>
    have hs : s.thread = some .waiting := by simpa [State.enabled] using hl
    exact inv_thread h hs (by decide) (by decide) (by rintro (hp | hp) <;> cases hp)
  | drain =>
    have hs : s.thread = some .draining ∧ s.lock = none := by simpa [State.enabled] using hl
    exact inv_thread h hs.1 (by decide) (by decide) fun _ => h.past (Or.inl hs.1)
  | leave => exact inv_leave h (by simpa [State.enabled] using hl)

theorem inv_run {steps : List Step} (h : Timely steps) : Inv (run steps) :=
  h.invariant (I := fun _ s => Inv s) inv_start fun _ _ _ hinv hl => inv_next hinv hl.1 hl.2

/-- With no call in progress the lock is free. -/
theorem lock_of_quiet (h : Inv s) (hquiet : s.Quiet) : s.lock = none := by
  cases hlock : s.lock with
  | none => rfl
  | some holder =>
    have hcaller := (h.held holder.1 holder.2 hlock).1
    rw [hquiet] at hcaller
    cases hcaller

/-- In a timely run, registered handles always have a thread that stays. -/
theorem served_of_timely (steps : List Step) (h : Timely steps) (hquiet : (run steps).Quiet) :
    (run steps).Served :=
  (inv_run h).free (lock_of_quiet (inv_run h) hquiet)

theorem served_of_timely_register :
    (run [.insert 0 1, .check 0, .clear 0, .launch 0, .release 0, .test, .pop 1 2, .finish 1,
      .poll]).Served :=
  served_of_timely _ (by decide) (by
    intro c
    simp only [run, after, List.foldl, State.next, State.setCaller, start, Function.update_apply]
    split_ifs <;> rfl)

/-- A handle is registered after the last one was unregistered and before the thread has
ended: the thread still is alive, and ends. -/
theorem registered_under_ending_thread : ¬ ∀ steps : List Step, Possible steps →
    (run steps).Quiet → (run steps).Served := by
  intro h
  have hserved := h [.insert 0 1, .check 0, .clear 0, .launch 0, .release 0, .test, .poll,
    .pop 0 1, .finish 0, .insert 0 2, .check 0, .release 0, .wake, .test, .drain, .leave]
    (by decide) (by
      intro c
      simp only [run, after, List.foldl, State.next, State.setCaller, start, Function.update_apply]
      split_ifs <;> rfl) (by decide)
  exact absurd hserved (by decide)

end StreamPollerThread
end Executors
end RocmTests

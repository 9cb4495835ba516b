import RocmTests.Conc.History

/-!
# Leaving a monitor while it samples

While a workload runs, a thread of its `Monitor` asks `amd-smi process` every five seconds who
uses the compute units, and appends what it is told to a file.  `__exit__` sets the event that
ends the thread, ends the process that the thread is waiting for, and joins the thread for some
seconds.  The lock covers the reference to that process.  It covers neither the event nor the
start of a process, so one can be started behind the back of `__exit__`.

The steps are those of the thread, of `__exit__` and of the process, in any order in which each
is possible.  With a `monitor_executor`, on the local node as on a remote one, the thread runs a
command with it instead.  Then there is no process that `__exit__` could end, and the thread stays
in the call until that returns or times out.
-/

namespace RocmTests
namespace Monitored
namespace OccupancyLoop

open Conc

/-- Where `_cu_loop` stands.  In `locking` it has started a process, in `looking` it has the
lock, and in `reaping` it has killed the process. -/
inductive Sampler where
  | testing
  | waiting
  | opening
  | asking
  | locking
  | looking
  | reading
  | reaping
  | clearing
  | checking
  | writing
  | finished
deriving DecidableEq

/-- Where `__exit__` stands.  In `holding` and `ending` it has the lock. -/
inductive Leaver where
  | inside
  | locking
  | holding
  | ending
  | joining
deriving DecidableEq

/-- How the first `communicate` ends. -/
inductive Communicated where
  | returned
  | timedOut
  | raised
deriving DecidableEq

structure State where
  /-- `monitor_executor` is not `None`. -/
  executor : Bool
  /-- `_cu_stop` is set. -/
  stop : Bool := false
  /-- `_cu_sample_proc` is not `None`. -/
  registered : Bool := false
  /-- The process that was started last has been told to end. -/
  told : Bool := false
  ended : Bool := false
  sampler : Sampler := .testing
  leaver : Leaver := .inside
  /-- What was started or written since the event was set. -/
  late : Nat := 0
deriving DecidableEq

/-- The first is a step of the process, and the last four are those of `__exit__`.  A `wait`
that times out may do so when the event has just been set. -/
inductive Step where
  | processEnds
  | test
  | wake (set : Bool)
  | start (starts : Bool)
  | ask
  | answer (ok : Bool)
  | askRaises
  | lock
  | look
  | communicate (c : Communicated)
  | reap
  | clear
  | check
  | write (writes : Bool)
  | setStop
  | take
  | poll (gone : Bool)
  | terminate
deriving DecidableEq

def Step.ofThread : Step → Bool
  | .processEnds => false
  | .setStop => false
  | .take => false
  | .poll _ => false
  | .terminate => false
  | _ => true

namespace State

/-- `__exit__` has the lock. -/
def exitHolds (s : State) : Bool := s.leaver = .holding || s.leaver = .ending

/-- Whether a step is possible. -/
def enabled (s : State) : Step → Bool
  | .processEnds => true
  | .test => s.sampler = .testing
  | .wake set => s.sampler = .waiting && (!set || s.stop)
  | .start _ => s.sampler = .opening && !s.executor
  | .ask => s.sampler = .opening && s.executor
  | .answer _ => s.sampler = .asking
  | .askRaises => s.sampler = .asking
  | .lock => s.sampler = .locking && !s.exitHolds
  | .look => s.sampler = .looking
  | .communicate c => s.sampler = .reading && (c ≠ .returned || s.ended)
  | .reap => s.sampler = .reaping
  | .clear => s.sampler = .clearing && !s.exitHolds
  | .check => s.sampler = .checking
  | .write _ => s.sampler = .writing
  | .setStop => s.leaver = .inside
  | .take => s.leaver = .locking && s.sampler ≠ .looking
  | .poll gone => s.leaver = .holding && (!gone || s.ended)
  | .terminate => s.leaver = .ending

/-- One more, when the event is set. -/
def counted (s : State) : Nat := if s.stop then s.late + 1 else s.late

def next (l : Step) (s : State) : State :=
  match l with
  | .processEnds => { s with ended := true }
  | .test => { s with sampler := if s.stop then .finished else .waiting }
  | .wake set => { s with sampler := if set then .finished else .opening }
  | .start starts =>
    if starts then
      { s with sampler := .locking, told := false, ended := false, late := s.counted }
    else { s with sampler := .testing }
  | .ask => { s with sampler := .asking, late := s.counted }
  | .answer ok =>
    { s with sampler := if s.stop then .finished else if ok then .checking else .testing }
  | .askRaises => { s with sampler := .finished }
  | .lock => { s with sampler := .looking, registered := true }
  | .look => { s with sampler := .reading, told := s.told || s.stop }
  | .communicate c =>
    if c = .timedOut then { s with sampler := .reaping, told := true }
    else { s with sampler := .clearing }
  | .reap => { s with sampler := .clearing }
  | .clear => { s with sampler := .checking, registered := false }
  | .check => { s with sampler := if s.stop then .finished else .writing }
  | .write writes =>
    { s with sampler := .testing, late := if writes then s.counted else s.late }
  | .setStop => { s with stop := true, leaver := .locking }
  | .take => { s with leaver := if s.registered then .holding else .joining }
  | .poll gone => { s with leaver := if gone then .joining else .ending }
  | .terminate => { s with leaver := .joining, told := true }

end State

def start (executor : Bool) : State := { executor }

/-- The run of a sequence of steps. -/
def run (executor : Bool) (steps : List Step) : State := after State.next (start executor) steps

/-- Every step is possible where it stands. -/
def Possible (executor : Bool) (steps : List Step) : Prop :=
  Steps State.next (fun s l => s.enabled l = true) (start executor) steps

instance (executor : Bool) (steps : List Step) : Decidable (Possible executor steps) :=
  Steps.decidable State.next (fun s l => s.enabled l = true) (start executor) steps

/-! ## What every run keeps -/

namespace Sampler

/-- The thread waits for its process. -/
def waits : Sampler → Bool
  | .reading => true
  | .reaping => true
  | _ => false

/-- The process that was started has been registered, and the event was looked at since. -/
def looked : Sampler → Bool
  | .reading => true
  | .reaping => true
  | .clearing => true
  | _ => false

/-- The process is registered while the thread stands here. -/
def registers : Sampler → Bool
  | .looking => true
  | p => p.looked

/-- What the thread may still start or write once the event is set. -/
def room : Sampler → Nat
  | .waiting => 1
  | .opening => 1
  | .writing => 1
  | _ => 0

/-- How many steps the thread has before it at most once the event is set. -/
def rank : Sampler → Nat
  | .waiting => 8
  | .opening => 7
  | .locking => 6
  | .looking => 5
  | .reading => 4
  | .reaping => 3
  | .clearing => 2
  | .writing => 2
  | .asking => 2
  | .checking => 1
  | .testing => 1
  | .finished => 0

/-- The thread goes from `q` to `p` without another look at the process or the lock. -/
def Near (q p : Sampler) : Prop :=
  p.registers = q.registers ∧ p ≠ .looking ∧ (p.looked = true → q.looked = true)

instance (q p : Sampler) : Decidable (Near q p) := inferInstanceAs (Decidable (_ ∧ _ ∧ (_ → _)))

theorem looked_of_waits {p : Sampler} (h : p.waits = true) : p.looked = true := by
  cases p <;> first | rfl | cases h

theorem registers_of_looked {p : Sampler} (h : p.looked = true) : p.registers = true := by
  cases p <;> first | rfl | cases h

theorem rank_le (p : Sampler) : p.rank ≤ 8 := by
  cases p <;> decide

end Sampler

structure Inv (s : State) : Prop where
  registered : s.registered = s.sampler.registers
  /-- The two never have the lock together. -/
  exclusive : s.exitHolds = true → s.sampler ≠ .looking
  /-- While `__exit__` has the lock the process stays registered. -/
  held : s.exitHolds = true → s.registered = true
  stopped : s.stop = false ↔ s.leaver = .inside
  ended : s.leaver = .joining → s.sampler.looked = true → s.told = true ∨ s.ended = true
  inTime : s.stop = false → s.late = 0
  once : s.stop = true → s.late + s.sampler.room ≤ 1

theorem inv_start (executor : Bool) : Inv (start executor) where
  registered := rfl
  exclusive := by intro h; cases h
  held := by intro h; cases h
  stopped := iff_of_true rfl rfl
  ended := by intro h; cases h
  inTime := fun _ => rfl
  once := by intro h; cases h

variable {s : State}

/-- The thread goes to a place where it starts and writes no more than before. -/
theorem inv_move (h : Inv s) {q p : Sampler} (hs : s.sampler = q) (hnear : q.Near p)
    (hroom : s.stop = true → p.room ≤ q.room) : Inv { s with sampler := p } where
  registered := by
    rw [h.registered, hs]
    exact hnear.1.symm
  exclusive := fun _ => hnear.2.1
  held := h.held
  stopped := h.stopped
  ended := by
    intro hj hp
    have hq := hnear.2.2 hp
    rw [← hs] at hq
    exact h.ended hj hq
  inTime := h.inTime
  once := by
    intro hstop
    have honce := h.once hstop
    have := hroom hstop
    rw [hs] at honce
    show s.late + p.room ≤ 1
    omega

theorem inv_told (h : Inv s) : Inv { s with told := true } :=
  { h with ended := fun _ _ => Or.inl rfl }

/-- Something is started or written where the thread had room for it. -/
theorem inv_counted (h : Inv s) {q p : Sampler} (hs : s.sampler = q) (hnear : q.Near p)
    (hlooked : p.looked = false) (hroom : p.room + 1 = q.room) (told ended : Bool) :
    Inv { s with sampler := p, told, ended, late := s.counted } where
  registered := by
    rw [h.registered, hs]
    exact hnear.1.symm
  exclusive := fun _ => hnear.2.1
  held := h.held
  stopped := h.stopped
  ended := by
    intro _ hl
    have hl' : p.looked = true := hl
    rw [hlooked] at hl'
    cases hl'
  inTime := by
    intro hstop
    have hcounted : s.counted = s.late := if_neg (by rw [hstop]; decide)
    exact hcounted.trans (h.inTime hstop)
  once := by
    intro hstop
    have honce := h.once hstop
    have hcounted : s.counted = s.late + 1 := if_pos hstop
    rw [hs] at honce
    show s.counted + p.room ≤ 1
    omega

theorem inv_lock (h : Inv s) (hs : s.sampler = .locking) (hfree : s.exitHolds = false) :
    Inv (s.next .lock) where
  registered := rfl
  exclusive := by
    intro hx
    rw [State.exitHolds] at hfree
    rw [State.exitHolds] at hx
    exact absurd (hx.symm.trans hfree) (by decide)
  held := fun _ => rfl
  stopped := h.stopped
  ended := by
    intro _ hl
    cases hl
  inTime := h.inTime
  once := by
    intro hstop
    have := h.once hstop
    rw [hs] at this
    exact this

/-- When the event is set by now the process is told; otherwise `__exit__` is still to come for
it. -/
theorem inv_look (h : Inv s) (hs : s.sampler = .looking) : Inv (s.next .look) where
  registered := by
    have hreg := h.registered
    rw [hs] at hreg
    exact hreg
  exclusive := fun _ => Sampler.noConfusion
  held := h.held
  stopped := h.stopped
  ended := by
    intro hj _
    have hj' : s.leaver = .joining := hj
    have hstop : s.stop = true := by
      by_contra hne
      have hinside := h.stopped.mp (by simpa using hne)
      rw [hj'] at hinside
      cases hinside
    left
    show (s.told || s.stop) = true
    rw [hstop, Bool.or_true]
  inTime := h.inTime
  once := by
    intro hstop
    have := h.once hstop
    rw [hs] at this
    exact this

theorem inv_clear (h : Inv s) (hs : s.sampler = .clearing) (hfree : s.exitHolds = false) :
    Inv (s.next .clear) where
  registered := rfl
  exclusive := fun _ => Sampler.noConfusion
  held := by
    intro hx
    exact absurd (Eq.trans (Eq.symm hx) hfree) (by decide)
  stopped := h.stopped
  ended := by
    intro _ hl
    cases hl
  inTime := h.inTime
  once := by
    intro hstop
    have := h.once hstop
    rw [hs] at this
    exact this

theorem inv_setStop (h : Inv s) (hs : s.leaver = .inside) : Inv (s.next .setStop) where
  registered := h.registered
  exclusive := by
    intro hx
    cases hx
  held := by
    intro hx
    cases hx
  stopped := by
    show true = false ↔ Leaver.locking = .inside
    decide
  ended := by
    intro hj
    cases hj
  inTime := by
    intro hstop
    cases hstop
  once := by
    intro _
    have hlate : s.late = 0 := h.inTime (h.stopped.mpr hs)
    show s.late + s.sampler.room ≤ 1
    rw [hlate]
    cases s.sampler <;> decide

/-- `__exit__` finds the reference to a process, or it has not been registered. -/
theorem inv_take (h : Inv s) (hs : s.leaver = .locking) (hfree : s.sampler ≠ .looking) :
    Inv (s.next .take) := by
  have hstopped : s.stop = true := by
    by_contra hne
    have hinside := h.stopped.mp (by simpa using hne)
    rw [hs] at hinside
    cases hinside
  cases hreg : s.registered with
  | true =>
    have hnext : s.next .take = { s with leaver := .holding } := by simp [State.next, hreg]
    rw [hnext]
    exact
      { h with
        exclusive := fun _ => hfree
        held := fun _ => hreg
        stopped := by
          show s.stop = false ↔ Leaver.holding = .inside
          rw [hstopped]
          decide
        ended := by
          intro hj
          cases hj }
  | false =>
    have hnext : s.next .take = { s with leaver := .joining } := by simp [State.next, hreg]
    rw [hnext]
    refine
      { h with
        exclusive := by
          intro hx
          cases hx
        held := by
          intro hx
          cases hx
        stopped := by
          show s.stop = false ↔ Leaver.joining = .inside
          rw [hstopped]
          decide
        ended := ?_ }
    intro _ hl
    have hregisters := Sampler.registers_of_looked hl
    rw [← h.registered] at hregisters
    exact absurd (hregisters.symm.trans hreg) (by decide)

/-- `__exit__` gives the lock back, and the process has ended or has been told to. -/
theorem inv_release (h : Inv s) (hs : s.exitHolds = true) {told : Bool}
    (hdone : told = true ∨ s.ended = true) : Inv { s with leaver := .joining, told } where
  registered := h.registered
  exclusive := by
    intro hx
    cases hx
  held := by
    intro hx
    cases hx
  stopped := by
    have hne : s.leaver ≠ .inside := by
      intro hin
      simp [State.exitHolds, hin] at hs
    show s.stop = false ↔ Leaver.joining = .inside
    rw [h.stopped]
    exact iff_of_false hne (by decide)
  ended := fun _ _ => hdone
  inTime := h.inTime
  once := h.once

theorem inv_test (h : Inv s) (hs : s.sampler = .testing) : Inv (s.next .test) := by
  cases hstop : s.stop with
  | true =>
    have hnext : s.next .test = { s with sampler := .finished } := by simp [State.next, hstop]
    rw [hnext]
    exact inv_move h hs (by decide) fun _ => by decide
  | false =>
    have hnext : s.next .test = { s with sampler := .waiting } := by simp [State.next, hstop]
    rw [hnext]
    exact inv_move h hs (by decide) fun h' => absurd (h'.symm.trans hstop) (by decide)

theorem inv_wake (h : Inv s) (hs : s.sampler = .waiting) (set : Bool) :
    Inv (s.next (.wake set)) := by
  cases set with
  | true => exact inv_move h hs (by decide) fun _ => by decide
  | false => exact inv_move h hs (by decide) fun _ => by decide

theorem inv_begin (h : Inv s) (hs : s.sampler = .opening) (starts : Bool) :
    Inv (s.next (.start starts)) := by
  cases starts with
  | true => exact inv_counted h hs (by decide) rfl rfl false false
  | false => exact inv_move h hs (by decide) fun _ => by decide

theorem inv_answer (h : Inv s) (hs : s.sampler = .asking) (ok : Bool) :
    Inv (s.next (.answer ok)) := by
  cases hstop : s.stop with
  | true =>
    have hnext : s.next (.answer ok) = { s with sampler := .finished } := by
      simp [State.next, hstop]
    rw [hnext]
    exact inv_move h hs (by decide) fun _ => by decide
  | false =>
    have hnext : s.next (.answer ok) =
        { s with sampler := if ok then .checking else .testing } := by
      simp [State.next, hstop]
    rw [hnext]
    cases ok with
    | true => exact inv_move h hs (by decide) fun _ => by decide
    | false => exact inv_move h hs (by decide) fun _ => by decide

theorem inv_communicate (h : Inv s) (hs : s.sampler = .reading) (c : Communicated) :
    Inv (s.next (.communicate c)) := by
  cases c with
  | returned => exact inv_move h hs (by decide) fun _ => by decide
  | timedOut => exact inv_move (inv_told h) hs (by decide) fun _ => by decide
  | raised => exact inv_move h hs (by decide) fun _ => by decide

theorem inv_check (h : Inv s) (hs : s.sampler = .checking) : Inv (s.next .check) := by
  cases hstop : s.stop with
  | true =>
    have hnext : s.next .check = { s with sampler := .finished } := by simp [State.next, hstop]
    rw [hnext]
    exact inv_move h hs (by decide) fun _ => by decide
  | false =>
    have hnext : s.next .check = { s with sampler := .writing } := by simp [State.next, hstop]
    rw [hnext]
    exact inv_move h hs (by decide) fun h' => absurd (h'.symm.trans hstop) (by decide)

theorem inv_write (h : Inv s) (hs : s.sampler = .writing) (writes : Bool) :
    Inv (s.next (.write writes)) := by
  cases writes with
  | true => exact inv_counted h hs (by decide) rfl rfl s.told s.ended
  | false => exact inv_move h hs (by decide) fun _ => by decide

/-- `__exit__` looks whether the process has ended, under the lock. -/
theorem inv_poll (h : Inv s) (hs : s.leaver = .holding) {gone : Bool}
    (hgone : gone = true → s.ended = true) : Inv (s.next (.poll gone)) := by
  have hholds : s.exitHolds = true := by simp [State.exitHolds, hs]
  cases gone with
  | true => exact inv_release h hholds (Or.inr (hgone rfl))
  | false =>
    exact
      { h with
        exclusive := fun _ => h.exclusive hholds
        held := fun _ => h.held hholds
        stopped := by
          show s.stop = false ↔ Leaver.ending = .inside
          rw [h.stopped, hs]
          decide
        ended := by
          intro hj
          cases hj }

theorem of_enabled {p : Prop} [Decidable p] {b : Bool} (h : (decide p && b) = true) :
    p ∧ b = true := by
  rw [Bool.and_eq_true, decide_eq_true_eq] at h
  exact h

/-- Every possible step keeps the invariant. -/
theorem inv_next (h : Inv s) {l : Step} (hl : s.enabled l = true) : Inv (s.next l) := by
  cases l with
  | processEnds => exact { h with ended := fun _ _ => Or.inr rfl }
  | test => exact inv_test h (of_decide_eq_true hl)
  | wake set => exact inv_wake h (of_enabled hl).1 set
  | start starts => exact inv_begin h (of_enabled hl).1 starts
  | ask => exact inv_counted h (of_enabled hl).1 (by decide) rfl rfl s.told s.ended
  | answer ok => exact inv_answer h (of_decide_eq_true hl) ok
  | askRaises => exact inv_move h (of_decide_eq_true hl) (by decide) fun _ => by decide
  | lock => exact inv_lock h (of_enabled hl).1 (by simpa using (of_enabled hl).2)
  | look => exact inv_look h (of_decide_eq_true hl)
  | communicate c => exact inv_communicate h (of_enabled hl).1 c
  | reap => exact inv_move h (of_decide_eq_true hl) (by decide) fun _ => by decide
  | clear => exact inv_clear h (of_enabled hl).1 (by simpa using (of_enabled hl).2)
  | check => exact inv_check h (of_decide_eq_true hl)
  | write writes => exact inv_write h (of_decide_eq_true hl) writes
  | setStop => exact inv_setStop h (of_decide_eq_true hl)
  | take => exact inv_take h (of_enabled hl).1 (of_decide_eq_true (of_enabled hl).2)
  | poll gone =>
    refine inv_poll h (of_enabled hl).1 fun hgone => ?_
    have hended := (of_enabled hl).2
    rw [hgone] at hended
    exact hended
  | terminate =>
    have hs : s.leaver = .ending := of_decide_eq_true hl
    exact inv_release h (by simp [State.exitHolds, hs]) (Or.inl rfl)

theorem inv_run {executor : Bool} {steps : List Step} (h : Possible executor steps) :
    Inv (run executor steps) := by
  have hsteps : Steps State.next (fun s l => s.enabled l = true) (start executor) steps := h
  exact hsteps.invariant (I := fun _ s => Inv s) (inv_start executor) fun _ _ _ hs hl =>
    inv_next hs hl

/-! ## With an executor -/

/-- No process was started, so there is none that could be told to end. -/
structure Untold (s : State) : Prop where
  executor : s.executor = true
  sampler : s.sampler ≠ .locking ∧ s.sampler.registers = false
  registered : s.registered = false
  leaver : s.exitHolds = false
  told : s.told = false

theorem untold_start : Untold (start true) := ⟨rfl, by decide, rfl, rfl, rfl⟩

/-- The thread goes on without a process. -/
theorem untold_move (h : Untold s) {p : Sampler} (hp : p ≠ .locking ∧ p.registers = false)
    (late : Nat) : Untold { s with sampler := p, late } := { h with sampler := hp }

theorem untold_next (h : Untold s) {l : Step} (hl : s.enabled l = true) : Untold (s.next l) := by
  obtain ⟨hlocking, hregisters⟩ := h.sampler
  have hnot {p : Sampler} (hs : s.sampler = p) (hp : p.registers = true) : False := by
    rw [hs, hp] at hregisters
    cases hregisters
  have hfree {q : Leaver} (hs : s.leaver = q) (hq : q = .holding ∨ q = .ending) : False := by
    have hleaver := h.leaver
    rcases hq with rfl | rfl <;> simp [State.exitHolds, hs] at hleaver
  cases l with
  | processEnds => exact { h with }
  | test => exact untold_move h (by split_ifs <;> decide) s.late
  | wake set => exact untold_move h (by split_ifs <;> decide) s.late
  | start starts =>
    have hnone := (of_enabled hl).2
    rw [h.executor] at hnone
    cases hnone
  | ask => exact untold_move h (by decide) s.counted
  | answer ok => exact untold_move h (by split_ifs <;> decide) s.late
  | askRaises => exact untold_move h (by decide) s.late
  | lock => exact absurd (of_enabled hl).1 hlocking
  | look => exact (hnot (of_decide_eq_true hl) rfl).elim
  | communicate c => exact (hnot (of_enabled hl).1 rfl).elim
  | reap => exact (hnot (of_decide_eq_true hl) rfl).elim
  | clear => exact (hnot (of_enabled hl).1 rfl).elim
  | check => exact untold_move h (by split_ifs <;> decide) s.late
  | write writes => exact untold_move h (by decide) _
  | setStop => exact { h with leaver := rfl }
  | take =>
    have hnext : s.next .take = { s with leaver := .joining } := by
      simp [State.next, h.registered]
    rw [hnext]
    exact { h with leaver := rfl }
  | poll gone => exact (hfree (of_enabled hl).1 (Or.inl rfl)).elim
  | terminate => exact (hfree (of_decide_eq_true hl) (Or.inr rfl)).elim

theorem untold_run {steps : List Step} (h : Possible true steps) : Untold (run true steps) := by
  have hsteps : Steps State.next (fun s l => s.enabled l = true) (start true) steps := h
  exact hsteps.invariant (I := fun _ s => Untold s) untold_start fun _ _ _ hs hl =>
    untold_next hs hl

/-! ## The end of the thread -/

theorem rank_of {l : Step} {q p : Sampler} (hs : s.sampler = q) (hnext : (s.next l).sampler = p)
    (hrank : p.rank < q.rank) :
    (s.next l).sampler.rank + (if l.ofThread then 1 else 0) ≤ s.sampler.rank := by
  rw [hs, hnext]
  split_ifs <;> omega

/-- Once the event is set, each step of the thread takes it nearer to its end, and no other step
moves it. -/
theorem rank_next (h : s.stop = true) {l : Step} (hl : s.enabled l = true) :
    (s.next l).stop = true ∧
      (s.next l).sampler.rank + (if l.ofThread then 1 else 0) ≤ s.sampler.rank := by
  cases l with
  | setStop => exact ⟨rfl, Nat.le_refl _⟩
  | processEnds => exact ⟨h, Nat.le_refl _⟩
  | take => exact ⟨h, Nat.le_refl _⟩
  | poll gone => exact ⟨h, Nat.le_refl _⟩
  | terminate => exact ⟨h, Nat.le_refl _⟩
  | test =>
    have hnext : (s.next .test).sampler = .finished := by simp [State.next, h]
    exact ⟨h, rank_of (of_decide_eq_true hl) hnext (by decide)⟩
  | wake set =>
    simp only [State.enabled, Bool.and_eq_true, decide_eq_true_eq] at hl
    cases set with
    | true => exact ⟨h, rank_of hl.1 (p := .finished) rfl (by decide)⟩
    | false => exact ⟨h, rank_of hl.1 (p := .opening) rfl (by decide)⟩
  | start starts =>
    simp only [State.enabled, Bool.and_eq_true, decide_eq_true_eq] at hl
    cases starts with
    | true => exact ⟨h, rank_of hl.1 (p := .locking) rfl (by decide)⟩
    | false => exact ⟨h, rank_of hl.1 (p := .testing) rfl (by decide)⟩
  | ask =>
    simp only [State.enabled, Bool.and_eq_true, decide_eq_true_eq] at hl
    exact ⟨h, rank_of hl.1 (p := .asking) rfl (by decide)⟩
  | answer ok =>
    have hnext : (s.next (.answer ok)).sampler = .finished := by simp [State.next, h]
    exact ⟨h, rank_of (of_decide_eq_true hl) hnext (by decide)⟩
  | askRaises => exact ⟨h, rank_of (of_decide_eq_true hl) (p := .finished) rfl (by decide)⟩
  | lock =>
    simp only [State.enabled, Bool.and_eq_true, decide_eq_true_eq] at hl
    exact ⟨h, rank_of hl.1 (p := .looking) rfl (by decide)⟩
  | look => exact ⟨h, rank_of (of_decide_eq_true hl) (p := .reading) rfl (by decide)⟩
  | communicate c =>
    simp only [State.enabled, Bool.and_eq_true, decide_eq_true_eq] at hl
    cases c with
    | returned => exact ⟨h, rank_of hl.1 (p := .clearing) rfl (by decide)⟩
    | timedOut => exact ⟨h, rank_of hl.1 (p := .reaping) rfl (by decide)⟩
    | raised => exact ⟨h, rank_of hl.1 (p := .clearing) rfl (by decide)⟩
  | reap => exact ⟨h, rank_of (of_decide_eq_true hl) (p := .clearing) rfl (by decide)⟩
  | clear =>
    simp only [State.enabled, Bool.and_eq_true, decide_eq_true_eq] at hl
    exact ⟨h, rank_of hl.1 (p := .checking) rfl (by decide)⟩
  | check =>
    have hnext : (s.next .check).sampler = .finished := by simp [State.next, h]
    exact ⟨h, rank_of (of_decide_eq_true hl) hnext (by decide)⟩
  | write writes =>
    have hs : s.sampler = .writing := of_decide_eq_true hl
    exact ⟨h, rank_of hs (p := .testing) rfl (by decide)⟩

theorem rank_after {steps : List Step} (h : s.stop = true)
    (hsteps : Steps State.next (fun s l => s.enabled l = true) s steps) :
    (after State.next s steps).sampler.rank + steps.countP Step.ofThread ≤ s.sampler.rank := by
  induction steps generalizing s with
  | nil => exact Nat.le_refl _
  | cons l ls ih =>
    obtain ⟨hstop, hrank⟩ := rank_next h hsteps.1
    have hrest := ih hstop hsteps.2
    rw [List.countP_cons]
    show (after State.next (s.next l) ls).sampler.rank + _ ≤ _
    omega

/-- Little happens behind the back of `__exit__`, and the thread is soon done, but for the time
that its process or its command takes. -/
structure Prompt (executor : Bool) (steps later : List Step) : Prop where
  /-- Without an executor, once `__exit__` is past the lock, the process that the thread waits for
  has been told to end or has ended. -/
  told : executor = false → (run executor steps).leaver = .joining →
    (run executor steps).sampler.waits = true →
      (run executor steps).told = true ∨ (run executor steps).ended = true
  /-- With one, nothing is ever registered or told. -/
  untold : executor = true →
    (run executor steps).registered = false ∧ (run executor steps).told = false
  /-- One more process or command is started after the event was set, or one more sample is
  written. -/
  once : (run executor steps).late ≤ 1
  /-- The thread has few steps before it then. -/
  soon : (run executor steps).stop = true → later.countP Step.ofThread ≤ 8

/-- However the steps of the thread, of `__exit__` and of the process come after one another. -/
theorem leaves_promptly (executor : Bool) (steps later : List Step)
    (h : Possible executor (steps ++ later)) : Prompt executor steps later := by
  obtain ⟨hsteps, hlater⟩ := (steps_append _ steps later).mp h
  have hinv := inv_run hsteps
  refine ⟨?_, ?_, ?_, ?_⟩
  · intro _ hj hw
    exact hinv.ended hj (Sampler.looked_of_waits hw)
  · rintro rfl
    exact ⟨(untold_run hsteps).registered, (untold_run hsteps).told⟩
  · cases hstop : (run executor steps).stop with
    | true =>
      have := hinv.once hstop
      omega
    | false =>
      have := hinv.inTime hstop
      omega
  · intro hstop
    have hrank := rank_after hstop hlater
    have := Sampler.rank_le (run executor steps).sampler
    omega

/-- The event is set when the thread has looked at it, and `__exit__` finds no process; then one
is started. -/
def startedLate : List Step := [.test, .setStop, .wake false, .take, .start true, .lock, .look]

theorem leaves_promptly_startedLate :
    Prompt false startedLate [.processEnds, .communicate .returned, .clear, .check] ∧
      (run false startedLate).sampler = .reading ∧ (run false startedLate).late = 1 := by
  have hlate : (run false startedLate).sampler = .reading ∧ (run false startedLate).late = 1 := by
    decide
  exact ⟨leaves_promptly false _ _ (by decide), hlate⟩

end OccupancyLoop
end Monitored
end RocmTests

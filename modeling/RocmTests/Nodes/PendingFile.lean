import RocmTests.Conc.History
import RocmTests.Nodes.PendingTracker

/-!
# The file of the pending requests

The registry of a node is one JSON file.  An operation takes the meta-lock, reads the
file and, where something changes, opens it for writing, which empties it, and dumps the
new dict.  Here these are steps of their own, and a process may die at each of them: its
lock is then free.  What has been dumped in part is no JSON and counts as no requests.

`registered` is not in the code: the requests whose registration was written and whose
deregistration was not.
-/

namespace RocmTests
namespace Nodes
namespace PendingFile

structure Request where
  count : Int
  timeoutAt : ℚ
deriving DecidableEq

abbrev Registry := List (Nat × Request)

def unexpired (now : ℚ) (data : Registry) : Registry := data.filter fun x => now < x.2.timeoutAt

inductive Content where
  | missing
  | torn
  | complete (data : Registry)

/-- `_read_unsafe`, when the file can be read. -/
def Content.read : Content → Registry
  | .complete data => data
  | _ => []

/-! ## Operations -/

inductive Call where
  | register (count : Int) (timeoutAt : ℚ)
  | deregister (requestId : Nat)
  | maxPendingCount

inductive Op where
  | register (requestId : Nat) (request : Request)
  | deregister (requestId : Nat)
  | maxPendingCount

/-- A request gets a new id. -/
def Call.op (fresh : Nat) : Call → Op
  | .register count timeoutAt => .register fresh ⟨count, timeoutAt⟩
  | .deregister requestId => .deregister requestId
  | .maxPendingCount => .maxPendingCount

/-- The dict that is written back; `none` when it is not. -/
def Op.update (now : ℚ) (data : Registry) : Op → Option Registry
  | .register requestId request => some (data ++ [(requestId, request)])
  | .deregister requestId =>
    if requestId ∈ data.map Prod.fst then some (data.filter (·.1 ≠ requestId)) else none
  | .maxPendingCount =>
    if (unexpired now data).length ≠ data.length then some (unexpired now data) else none

/-- What a write of the operation makes of the requests that are registered. -/
def Op.settle (registered : Registry) : Op → Registry
  | .register requestId request => registered ++ [(requestId, request)]
  | .deregister requestId => registered.filter (·.1 ≠ requestId)
  | .maxPendingCount => registered

/-- Where a process is.  `now` is the clock when the operation was called. -/
inductive Pc where
  | idle
  | waiting (op : Op) (now : ℚ)
  | entered (op : Op) (now : ℚ)
  | loaded (op : Op) (now : ℚ) (data : Registry)
  | writing (op : Op) (now : ℚ) (data : Registry)
  | written (op : Op) (now : ℚ) (data : Registry)
  | dead

structure State where
  file : Content
  holder : Option Nat
  pc : Nat → Pc
  clock : ℚ
  nextId : Nat
  registered : Registry

def State.start : State where
  file := .missing
  holder := none
  pc := fun _ => .idle
  clock := 0
  nextId := 0
  registered := []

namespace State

variable (s : State) (p : Nat)

def goto (pc : Pc) (holder : Option Nat) : State :=
  { s with pc := Function.update s.pc p pc, holder := holder }

def tick (elapsed : ℚ) : State := { s with clock := s.clock + max 0 elapsed }

def call (c : Call) : State :=
  match s.pc p with
  | .idle => { s.goto p (.waiting (c.op s.nextId) s.clock) s.holder with nextId := s.nextId + 1 }
  | _ => s

def lock : State :=
  match s.pc p, s.holder with
  | .waiting op now, none => s.goto p (.entered op now) (some p)
  | _, _ => s

/-- `_META_LOCK_TIMEOUT` has passed. -/
def giveUp : State :=
  match s.pc p with
  | .waiting _ _ => s.goto p .idle s.holder
  | _ => s

def read : State :=
  match s.pc p with
  | .entered op now => s.goto p (.loaded op now s.file.read) s.holder
  | _ => s

/-- An `OSError` on reading counts as no requests, too. -/
def readFails : State :=
  match s.pc p with
  | .entered op now => s.goto p (.loaded op now []) s.holder
  | _ => s

/-- `open(.., "w")`. -/
def truncate : State :=
  match s.pc p with
  | .loaded op now data =>
    match op.update now data with
    | some new => { s.goto p (.writing op now new) s.holder with file := .torn }
    | none => s
  | _ => s

def openFails : State :=
  match s.pc p with
  | .loaded op now data => if (op.update now data).isSome then s.goto p .idle none else s
  | _ => s

/-- The rest of `_write_unsafe`. -/
def finish : State :=
  match s.pc p with
  | .writing op now new =>
    { s.goto p (.written op now new) s.holder with
      file := .complete new
      registered := op.settle s.registered }
  | _ => s

def writeFails : State :=
  match s.pc p with
  | .writing _ _ _ => s.goto p .idle none
  | _ => s

def unlock : State :=
  match s.pc p with
  | .loaded op now data => if op.update now data = none then s.goto p .idle none else s
  | .written _ _ _ => s.goto p .idle none
  | _ => s

def die : State := s.goto p .dead (if s.holder = some p then none else s.holder)

end State

inductive Label where
  | tick (elapsed : ℚ)
  | call (p : Nat) (c : Call)
  | lock (p : Nat)
  | giveUp (p : Nat)
  | read (p : Nat)
  | readFails (p : Nat)
  | truncate (p : Nat)
  | openFails (p : Nat)
  | finish (p : Nat)
  | writeFails (p : Nat)
  | unlock (p : Nat)
  | die (p : Nat)

def next (l : Label) (s : State) : State :=
  match l with
  | .tick elapsed => s.tick elapsed
  | .call p c => s.call p c
  | .lock p => s.lock p
  | .giveUp p => s.giveUp p
  | .read p => s.read p
  | .readFails p => s.readFails p
  | .truncate p => s.truncate p
  | .openFails p => s.openFails p
  | .finish p => s.finish p
  | .writeFails p => s.writeFails p
  | .unlock p => s.unlock p
  | .die p => s.die p

/-! ## What the steps answer -/

/-- The registry that a step reads. -/
def readBy (s : State) : Label → Option Registry
  | .read p =>
    match s.pc p with
    | .entered _ _ => some s.file.read
    | _ => none
  | .readFails p =>
    match s.pc p with
    | .entered _ _ => some []
    | _ => none
  | _ => none

/-- What `max_pending_count` returns in a step, and the clock it read before. -/
def returnedBy (s : State) : Label → Option (ℚ × Int)
  | .giveUp p =>
    match s.pc p with
    | .waiting .maxPendingCount now => some (now, 0)
    | _ => none
  | .openFails p =>
    match s.pc p with
    | .loaded .maxPendingCount now data =>
      if (Op.maxPendingCount.update now data).isSome then some (now, 0) else none
    | _ => none
  | .writeFails p =>
    match s.pc p with
    | .writing .maxPendingCount now _ => some (now, 0)
    | _ => none
  | .unlock p =>
    match s.pc p with
    | .loaded .maxPendingCount now data =>
      if Op.maxPendingCount.update now data = none then
        some (now, PendingAcquisitionTracker.maxCount ((unexpired now data).map (·.2.count)))
      else none
    | .written .maxPendingCount now live =>
      some (now, PendingAcquisitionTracker.maxCount (live.map (·.2.count)))
    | _ => none
  | _ => none

/-- `result` is the largest count of the requests that have not expired, those that
expired since `now` counting or not. -/
def MaxOf (s : State) (now : ℚ) (result : Int) : Prop :=
  ∃ live : Registry, (∀ x ∈ unexpired s.clock s.registered, x ∈ live) ∧
    (∀ x ∈ live, x ∈ unexpired now s.registered) ∧
    result = PendingAcquisitionTracker.maxCount (live.map (·.2.count))

/-- What a step reads has every request that has not expired, and what it returns is the
largest count of these. -/
structure StepOk (s : State) (l : Label) : Prop where
  reads : ∀ data, readBy s l = some data → ∀ x ∈ unexpired s.clock s.registered, x ∈ data
  returns : ∀ now result, returnedBy s l = some (now, result) →
    MaxOf s now result

/-- A write breaks off half way, a read fails, or a `max_pending_count` gives up on the
lock or on pruning. -/
def disturbs (s : State) : Label → Bool
  | .die p =>
    match s.pc p with
    | .writing _ _ _ => true
    | _ => false
  | .writeFails p =>
    match s.pc p with
    | .writing _ _ _ => true
    | _ => false
  | .readFails p =>
    match s.pc p with
    | .entered _ _ => true
    | _ => false
  | .openFails p =>
    match s.pc p with
    | .loaded .maxPendingCount _ _ => true
    | _ => false
  | .giveUp p =>
    match s.pc p with
    | .waiting .maxPendingCount _ => true
    | _ => false
  | _ => false

/-- None of this happens while a request is registered and has not expired. -/
def Undisturbed (s : State) (l : Label) : Prop :=
  disturbs s l = true → unexpired s.clock s.registered = []

instance (s : State) (l : Label) : Decidable (Undisturbed s l) :=
  inferInstanceAs (Decidable (_ → _))

/-! ## The invariant -/

/-- Nothing in it that is not registered, and everything that has not expired. -/
structure Covers (clock : ℚ) (registered data : Registry) : Prop where
  only : ∀ x ∈ data, x ∈ registered
  all : ∀ x ∈ unexpired clock registered, x ∈ data

def Pc.now? : Pc → Option ℚ
  | .waiting _ now => some now
  | .entered _ now => some now
  | .loaded _ now _ => some now
  | .writing _ now _ => some now
  | .written _ now _ => some now
  | _ => none

def Pc.Holds : Pc → Prop
  | .entered _ _ => True
  | .loaded _ _ _ => True
  | .writing _ _ _ => True
  | .written _ _ _ => True
  | _ => False

def Pc.Writes : Pc → Prop
  | .writing _ _ _ => True
  | _ => False

theorem Pc.Writes.holds {pc : Pc} (h : pc.Writes) : pc.Holds := by
  cases pc with
  | writing op now data => trivial
  | _ => exact h.elim

/-- What a process has in hand. -/
def PcInv (clock : ℚ) (registered : Registry) : Pc → Prop
  | .loaded _ _ data => Covers clock registered data
  | .writing op now new => Covers clock (op.settle registered) new ∧
      (op = .maxPendingCount → ∀ x ∈ new, now < x.2.timeoutAt)
  | .written op now data => Covers clock registered data ∧
      (op = .maxPendingCount → ∀ x ∈ data, now < x.2.timeoutAt)
  | _ => True

structure Inv (s : State) : Prop where
  lock : ∀ p, (s.pc p).Holds → s.holder = some p
  called : ∀ p now, (s.pc p).now? = some now → now ≤ s.clock
  file : (∀ p, ¬ (s.pc p).Writes) → Covers s.clock s.registered s.file.read
  torn : ∀ p, (s.pc p).Writes → s.file.read = []
  pcs : ∀ p, PcInv s.clock s.registered (s.pc p)

theorem mem_unexpired {now : ℚ} {data : Registry} {x : Nat × Request} :
    x ∈ unexpired now data ↔ x ∈ data ∧ now < x.2.timeoutAt := by
  unfold unexpired
  rw [List.mem_filter, decide_eq_true_eq]

theorem Covers.mono {clock clock' : ℚ} {registered data : Registry} (hle : clock ≤ clock')
    (h : Covers clock registered data) : Covers clock' registered data := by
  refine ⟨h.only, fun x hx => ?_⟩
  obtain ⟨hmem, hlater⟩ := mem_unexpired.mp hx
  exact h.all x (mem_unexpired.mpr ⟨hmem, lt_of_le_of_lt hle hlater⟩)

/-- Where nothing has yet to expire, no requests at all will do. -/
theorem Covers.nil {clock : ℚ} {registered : Registry} (h : unexpired clock registered = []) :
    Covers clock registered [] := by
  constructor
  · intro x hx
    cases hx
  · intro x hx
    rw [h] at hx
    exact hx

theorem Covers.unexpired {now clock : ℚ} {registered data : Registry} (hle : now ≤ clock)
    (h : Covers clock registered data) : Covers clock registered (unexpired now data) := by
  refine ⟨fun x hx => h.only x (mem_unexpired.mp hx).1, fun x hx => ?_⟩
  exact mem_unexpired.mpr ⟨h.all x hx, lt_of_le_of_lt hle (mem_unexpired.mp hx).2⟩

theorem of_update_max {now : ℚ} {data new : Registry}
    (h : Op.maxPendingCount.update now data = some new) : unexpired now data = new := by
  rw [Op.update] at h
  by_cases hpruned : (unexpired now data).length ≠ data.length
  · rw [if_pos hpruned] at h
    exact Option.some.inj h
  · rw [if_neg hpruned] at h
    cases h

/-- The dict that is written covers what will be registered then. -/
theorem Covers.update {op : Op} {now clock : ℚ} {registered data new : Registry}
    (hle : now ≤ clock) (h : Covers clock registered data) (hnew : op.update now data = some new) :
    Covers clock (op.settle registered) new := by
  cases op with
  | register requestId request =>
    obtain rfl := Option.some.inj hnew
    constructor
    · intro x hx
      rcases List.mem_append.mp hx with hx | hx
      · exact List.mem_append_left _ (h.only x hx)
      · exact List.mem_append_right _ hx
    · intro x hx
      obtain ⟨hmem, hlater⟩ := mem_unexpired.mp hx
      rcases List.mem_append.mp hmem with hmem | hmem
      · exact List.mem_append_left _ (h.all x (mem_unexpired.mpr ⟨hmem, hlater⟩))
      · exact List.mem_append_right _ hmem
  | deregister requestId =>
    have hnew' : data.filter (·.1 ≠ requestId) = new := by
      rw [Op.update] at hnew
      by_cases hfound : requestId ∈ data.map Prod.fst
      · rw [if_pos hfound] at hnew
        exact Option.some.inj hnew
      · rw [if_neg hfound] at hnew
        cases hnew
    rw [← hnew']
    constructor
    · intro x hx
      obtain ⟨hmem, hne⟩ := List.mem_filter.mp hx
      exact List.mem_filter.mpr ⟨h.only x hmem, hne⟩
    · intro x hx
      obtain ⟨hmem, hlater⟩ := mem_unexpired.mp hx
      obtain ⟨hmem, hne⟩ := List.mem_filter.mp hmem
      exact List.mem_filter.mpr ⟨h.all x (mem_unexpired.mpr ⟨hmem, hlater⟩), hne⟩
  | maxPendingCount =>
    rw [← of_update_max hnew]
    exact h.unexpired hle

theorem PcInv.mono {clock clock' : ℚ} {registered : Registry} {pc : Pc} (hle : clock ≤ clock')
    (h : PcInv clock registered pc) : PcInv clock' registered pc := by
  cases pc with
  | loaded op now data => exact Covers.mono hle h
  | writing op now new => exact ⟨h.1.mono hle, h.2⟩
  | written op now data => exact ⟨h.1.mono hle, h.2⟩
  | _ => trivial

/-- What is not about the lock's holder does not depend on what is registered. -/
theorem PcInv.of_not_holds {clock : ℚ} {registered : Registry} {pc : Pc} (h : ¬ pc.Holds) :
    PcInv clock registered pc := by
  cases pc with
  | loaded op now data => exact absurd trivial h
  | writing op now new => exact absurd trivial h
  | written op now live => exact absurd trivial h
  | _ => trivial

theorem Inv.start : Inv State.start where
  lock := fun _ h => nomatch h
  called := fun _ _ h => nomatch h
  file := fun _ => Covers.nil rfl
  torn := fun _ h => nomatch h
  pcs := fun _ => trivial

theorem Inv.tick {s : State} (h : Inv s) (elapsed : ℚ) : Inv (s.tick elapsed) := by
  have hle : s.clock ≤ s.clock + max 0 elapsed := le_add_of_nonneg_right (le_max_left _ _)
  exact ⟨h.lock, fun p now hnow => (h.called p now hnow).trans hle,
    fun hidle => (h.file hidle).mono hle, h.torn, fun p => (h.pcs p).mono hle⟩

theorem Inv.lock_goto {s : State} {p : Nat} {pc : Pc} {holder : Option Nat} (h : Inv s)
    (hholds : pc.Holds → holder = some p)
    (hothers : ∀ q, q ≠ p → s.holder = some q → holder = some q) (q : Nat)
    (hq : ((s.goto p pc holder).pc q).Holds) : holder = some q := by
  by_cases heq : q = p
  · rw [heq] at hq ⊢
    simp only [State.goto, Function.update_self] at hq
    exact hholds hq
  · simp only [State.goto, Function.update_of_ne heq] at hq
    exact hothers q heq (h.lock q hq)

theorem Inv.called_goto {s : State} {p : Nat} {pc : Pc} (h : Inv s)
    (hnow : ∀ now, pc.now? = some now → now ≤ s.clock) (q : Nat) (now : ℚ)
    (hq : (Function.update s.pc p pc q).now? = some now) : now ≤ s.clock := by
  by_cases heq : q = p
  · rw [heq, Function.update_self] at hq
    exact hnow now hq
  · rw [Function.update_of_ne heq] at hq
    exact h.called q now hq

/-- A step of `p` that leaves the file and the registered requests alone. -/
theorem Inv.goto {s : State} {p : Nat} {pc : Pc} {holder : Option Nat} (h : Inv s)
    (hholds : pc.Holds → holder = some p)
    (hothers : ∀ q, q ≠ p → s.holder = some q → holder = some q)
    (hnow : ∀ now, pc.now? = some now → now ≤ s.clock)
    (hquiet : ¬ pc.Writes)
    (hfile : (s.pc p).Writes → Covers s.clock s.registered s.file.read)
    (hpc : PcInv s.clock s.registered pc) : Inv (s.goto p pc holder) := by
  refine ⟨h.lock_goto hholds hothers, h.called_goto hnow, ?_, ?_, ?_⟩
  · intro hidle
    by_cases hwrites : (s.pc p).Writes
    · exact hfile hwrites
    · refine h.file fun q hq => ?_
      by_cases heq : q = p
      · rw [heq] at hq
        exact hwrites hq
      · apply hidle q
        simp only [State.goto, Function.update_of_ne heq]
        exact hq
  · intro q hq
    by_cases heq : q = p
    · rw [heq] at hq
      simp only [State.goto, Function.update_self] at hq
      exact absurd hq hquiet
    · simp only [State.goto, Function.update_of_ne heq] at hq
      exact h.torn q hq
  · intro q
    by_cases heq : q = p
    · rw [heq]
      simp only [State.goto, Function.update_self]
      exact hpc
    · simp only [State.goto, Function.update_of_ne heq]
      exact h.pcs q

/-- The process lets go of the lock, or ends. -/
theorem Inv.leave {s : State} {p : Nat} {pc : Pc} {holder : Option Nat} (h : Inv s)
    (hpc : pc = .idle ∨ pc = .dead)
    (hothers : ∀ q, q ≠ p → s.holder = some q → holder = some q)
    (hfile : (s.pc p).Writes → unexpired s.clock s.registered = []) :
    Inv (s.goto p pc holder) := by
  have hcovers : (s.pc p).Writes → Covers s.clock s.registered s.file.read := by
    intro hwrites
    rw [h.torn p hwrites]
    exact Covers.nil (hfile hwrites)
  rcases hpc with rfl | rfl
  · exact h.goto (fun hf => nomatch hf) hothers (fun _ hf => nomatch hf) (fun hf => nomatch hf)
      hcovers trivial
  · exact h.goto (fun hf => nomatch hf) hothers (fun _ hf => nomatch hf) (fun hf => nomatch hf)
      hcovers trivial

section

variable {s : State} (h : Inv s) (p : Nat)
include h

/-- A process that holds the lock is the only one that does. -/
theorem Inv.only_holder (hp : (s.pc p).Holds) {q : Nat} (hq : (s.pc q).Holds) : q = p :=
  Option.some.inj ((h.lock q hq).symm.trans (h.lock p hp))

theorem Inv.not_writes {q : Nat} (hp : (s.pc p).Holds) (hquiet : ¬ (s.pc p).Writes) :
    ¬ (s.pc q).Writes := by
  intro hq
  rw [h.only_holder p hp hq.holds] at hq
  exact hquiet hq

theorem Inv.call (c : Call) : Inv (s.call p c) := by
  unfold State.call
  split
  · next hpc =>
    have hmoved : Inv (s.goto p (.waiting (c.op s.nextId) s.clock) s.holder) := by
      refine h.goto (fun hf => nomatch hf) (fun _ _ hq => hq) ?_ (fun hf => nomatch hf) ?_ trivial
      · intro now hnow
        exact le_of_eq (Option.some.inj hnow).symm
      · intro hf
        rw [hpc] at hf
        cases hf
    exact ⟨hmoved.lock, hmoved.called, hmoved.file, hmoved.torn, hmoved.pcs⟩
  · exact h

theorem Inv.lock_step : Inv (s.lock p) := by
  unfold State.lock
  split
  · next op now hpc hfree =>
    refine h.goto (fun _ => rfl) ?_ ?_ (fun hf => nomatch hf) ?_ trivial
    · intro q _ hq
      rw [hfree] at hq
      cases hq
    · intro now' hnow
      obtain rfl := Option.some.inj hnow
      exact h.called p now (by rw [hpc]; rfl)
    · intro hf
      rw [hpc] at hf
      cases hf
  · exact h

theorem Inv.giveUp : Inv (s.giveUp p) := by
  unfold State.giveUp
  split
  · next op now hpc =>
    refine h.leave (Or.inl rfl) (fun _ _ hq => hq) ?_
    intro hf
    rw [hpc] at hf
    cases hf
  · exact h

/-- A process that is about to read takes what covers the requests. -/
theorem Inv.load {op : Op} {now : ℚ} {data : Registry} (hpc : s.pc p = .entered op now)
    (hdata : Covers s.clock s.registered data) :
    Inv (s.goto p (.loaded op now data) s.holder) := by
  have hholds : (s.pc p).Holds := by rw [hpc]; trivial
  refine h.goto (fun _ => h.lock p hholds) (fun _ _ hq => hq) ?_ (fun hf => nomatch hf) ?_ hdata
  · intro now' hnow
    obtain rfl := Option.some.inj hnow
    exact h.called p now (by rw [hpc]; rfl)
  · intro hf
    rw [hpc] at hf
    cases hf

theorem Inv.covers_read {op : Op} {now : ℚ} (hpc : s.pc p = .entered op now) :
    Covers s.clock s.registered s.file.read := by
  refine h.file fun q => h.not_writes p ?_ ?_
  · rw [hpc]
    trivial
  · rw [hpc]
    exact fun hf => nomatch hf

theorem Inv.read : Inv (s.read p) := by
  unfold State.read
  split
  · next op now hpc => exact h.load p hpc (h.covers_read p hpc)
  · exact h

theorem Inv.readFails (hok : Undisturbed s (.readFails p)) : Inv (s.readFails p) := by
  unfold State.readFails
  split
  · next op now hpc =>
    exact h.load p hpc (Covers.nil (hok (by simp only [disturbs, hpc])))
  · exact h

theorem Inv.truncate : Inv (s.truncate p) := by
  unfold State.truncate
  split
  · next op now data hpc =>
    split
    · next new hnew =>
      have hholds : (s.pc p).Holds := by rw [hpc]; trivial
      have hcalled : now ≤ s.clock := h.called p now (by rw [hpc]; rfl)
      have hcovers : Covers s.clock s.registered data := by
        have hp := h.pcs p
        rw [hpc] at hp
        exact hp
      constructor
      · exact h.lock_goto (fun _ => h.lock p hholds) fun _ _ hq => hq
      · refine h.called_goto fun now' hnow => ?_
        obtain rfl := Option.some.inj hnow
        exact hcalled
      · intro hidle
        refine absurd ?_ (hidle p)
        simp only [State.goto, Function.update_self]
        trivial
      · intro _ _
        rfl
      · intro q
        by_cases heq : q = p
        · rw [heq]
          simp only [State.goto, Function.update_self]
          refine ⟨hcovers.update hcalled hnew, ?_⟩
          intro hop x hx
          subst hop
          exact (mem_unexpired.mp (of_update_max hnew ▸ hx)).2
        · simp only [State.goto, Function.update_of_ne heq]
          exact h.pcs q
    · exact h
  · exact h

theorem Inv.openFails : Inv (s.openFails p) := by
  unfold State.openFails
  split
  · next op now data hpc =>
    split
    · have hholds : (s.pc p).Holds := by rw [hpc]; trivial
      refine h.leave (Or.inl rfl) ?_ ?_
      · intro q hne hq
        exact absurd (Option.some.inj (hq.symm.trans (h.lock p hholds))) hne
      · intro hf
        rw [hpc] at hf
        cases hf
    · exact h
  · exact h

theorem Inv.finish : Inv (s.finish p) := by
  unfold State.finish
  split
  · next op now new hpc =>
    have hholds : (s.pc p).Holds := by rw [hpc]; trivial
    have hp := h.pcs p
    rw [hpc] at hp
    have hothers : ∀ q, q ≠ p → ¬ (s.pc q).Holds := fun q hne hq => hne (h.only_holder p hholds hq)
    constructor
    · exact h.lock_goto (fun _ => h.lock p hholds) fun _ _ hq => hq
    · refine h.called_goto fun now' hnow => ?_
      obtain rfl := Option.some.inj hnow
      exact h.called p now (by rw [hpc]; rfl)
    · intro _
      exact hp.1
    · intro q hq
      by_cases heq : q = p
      · rw [heq] at hq
        simp only [State.goto, Function.update_self] at hq
        cases hq
      · simp only [State.goto, Function.update_of_ne heq] at hq
        exact absurd (Pc.Writes.holds hq) (hothers q heq)
    · intro q
      by_cases heq : q = p
      · rw [heq]
        simp only [State.goto, Function.update_self]
        exact hp
      · simp only [State.goto, Function.update_of_ne heq]
        exact PcInv.of_not_holds (hothers q heq)
  · exact h

theorem Inv.writeFails (hok : Undisturbed s (.writeFails p)) : Inv (s.writeFails p) := by
  unfold State.writeFails
  split
  · next op now new hpc =>
    have hholds : (s.pc p).Holds := by rw [hpc]; trivial
    refine h.leave (Or.inl rfl) ?_ fun _ => hok (by simp only [disturbs, hpc])
    intro q hne hq
    exact absurd (Option.some.inj (hq.symm.trans (h.lock p hholds))) hne
  · exact h

theorem Inv.unlock : Inv (s.unlock p) := by
  have hleave : (s.pc p).Holds → ¬ (s.pc p).Writes → Inv (s.goto p .idle none) := by
    intro hholds hquiet
    refine h.leave (Or.inl rfl) ?_ fun hf => absurd hf hquiet
    intro q hne hq
    exact absurd (Option.some.inj (hq.symm.trans (h.lock p hholds))) hne
  unfold State.unlock
  split
  · next op now data hpc =>
    split
    · exact hleave (by rw [hpc]; trivial) (by rw [hpc]; exact fun hf => nomatch hf)
    · exact h
  · next op now data hpc =>
    exact hleave (by rw [hpc]; trivial) (by rw [hpc]; exact fun hf => nomatch hf)
  · exact h

theorem Inv.die (hok : Undisturbed s (.die p)) : Inv (s.die p) := by
  refine h.leave (Or.inr rfl) ?_ ?_
  · intro q hne hq
    have hnot : s.holder ≠ some p := by
      rw [hq]
      exact fun heq => hne (Option.some.inj heq)
    rw [if_neg hnot, hq]
  · intro hwrites
    cases hpc : s.pc p with
    | writing op now new => exact hok (by simp only [disturbs, hpc])
    | _ =>
      rw [hpc] at hwrites
      exact hwrites.elim

end

theorem Inv.step {s : State} (h : Inv s) (l : Label) (hok : Undisturbed s l) : Inv (next l s) := by
  cases l with
  | tick elapsed => exact h.tick elapsed
  | call p c => exact h.call p c
  | lock p => exact h.lock_step p
  | giveUp p => exact h.giveUp p
  | read p => exact h.read p
  | readFails p => exact h.readFails p hok
  | truncate p => exact h.truncate p
  | openFails p => exact h.openFails p
  | finish p => exact h.finish p
  | writeFails p => exact h.writeFails p hok
  | unlock p => exact h.unlock p
  | die p => exact h.die p hok

/-! ## Every step answers right -/

theorem readBy_covers {s : State} (h : Inv s) {l : Label} (hok : Undisturbed s l)
    {data : Registry} (hread : readBy s l = some data) : Covers s.clock s.registered data := by
  cases l with
  | read p =>
    rw [readBy] at hread
    split at hread
    · next op now hpc =>
      obtain rfl := Option.some.inj hread
      exact h.covers_read p hpc
    · cases hread
  | readFails p =>
    rw [readBy] at hread
    split at hread
    · next op now hpc =>
      obtain rfl := Option.some.inj hread
      exact Covers.nil (hok (by simp only [disturbs, hpc]))
    · cases hread
  | _ => cases hread

theorem maxOf_zero {s : State} (now : ℚ) (h : unexpired s.clock s.registered = []) :
    MaxOf s now 0 := by
  refine ⟨[], ?_, ?_, rfl⟩
  · rw [h]
    exact fun x hx => hx
  · intro x hx
    cases hx

theorem maxOf_covers {s : State} {now : ℚ} {live : Registry}
    (h : Covers s.clock s.registered live) (hlive : ∀ x ∈ live, now < x.2.timeoutAt) :
    MaxOf s now (PendingAcquisitionTracker.maxCount (live.map (·.2.count))) :=
  ⟨live, h.all, fun x hx => mem_unexpired.mpr ⟨h.only x hx, hlive x hx⟩, rfl⟩

theorem returnedBy_maxOf {s : State} (h : Inv s) {l : Label} (hok : Undisturbed s l)
    {now : ℚ} {result : Int} (hreturned : returnedBy s l = some (now, result)) :
    MaxOf s now result := by
  cases l with
  | giveUp p =>
    rw [returnedBy] at hreturned
    split at hreturned
    · next now hpc =>
      cases hreturned
      exact maxOf_zero now (hok (by simp only [disturbs, hpc]))
    · cases hreturned
  | openFails p =>
    rw [returnedBy] at hreturned
    split at hreturned
    · next now data hpc =>
      split at hreturned
      · cases hreturned
        exact maxOf_zero now (hok (by simp only [disturbs, hpc]))
      · cases hreturned
    · cases hreturned
  | writeFails p =>
    rw [returnedBy] at hreturned
    split at hreturned
    · next now data hpc =>
      cases hreturned
      exact maxOf_zero now (hok (by simp only [disturbs, hpc]))
    · cases hreturned
  | unlock p =>
    rw [returnedBy] at hreturned
    split at hreturned
    · next now data hpc =>
      split at hreturned
      · cases hreturned
        have hp := h.pcs p
        rw [hpc] at hp
        refine maxOf_covers (Covers.unexpired (h.called p now ?_) hp) ?_
        · rw [hpc]
          rfl
        · intro x hx
          exact (mem_unexpired.mp hx).2
      · cases hreturned
    · next now live hpc =>
      cases hreturned
      have hp := h.pcs p
      rw [hpc] at hp
      exact maxOf_covers hp.1 (hp.2 rfl)
    · cases hreturned
  | _ => cases hreturned

/-- In a run that is undisturbed, every read finds all the requests and every maximum is
right. -/
theorem undisturbed_forgets_nothing (ls : List Label)
    (h : Conc.Steps next Undisturbed State.start ls) : Conc.Steps next StepOk State.start ls := by
  refine h.imp (fun s l hs hok => ⟨?_, ?_⟩) (fun s l hs hok => hs.step l hok) Inv.start
  · intro data hread
    exact (readBy_covers hs hok hread).all
  · intro now result hreturned
    exact returnedBy_maxOf hs hok hreturned

/-! ### A death before the dump -/

section

/-- Process 1 registers two GPUs; process 2 dies while it writes its own request. -/
def deathInWrite : List Label :=
  [.call 1 (.register 2 600), .lock 1, .read 1, .truncate 1, .finish 1, .unlock 1,
    .call 2 (.register 4 600), .lock 2, .read 2, .truncate 2, .die 2,
    .call 3 .maxPendingCount, .lock 3]

/-- The same processes, and the death comes with nothing registered and while the process
waits for the lock. -/
def deathElsewhere : List Label :=
  [.call 2 (.register 4 600), .lock 2, .read 2, .truncate 2, .die 2,
    .call 1 (.register 2 600), .lock 1, .call 4 (.register 8 600), .die 4, .read 1, .truncate 1,
    .finish 1, .unlock 1, .tick 1, .call 3 .maxPendingCount, .lock 3, .read 3, .unlock 3]

theorem undisturbed_forgets_nothing_deathElsewhere :
    Conc.Steps next Undisturbed State.start deathElsewhere ∧
      Conc.Steps next StepOk State.start deathElsewhere :=
  have h : Conc.Steps next Undisturbed State.start deathElsewhere := by decide
  ⟨h, undisturbed_forgets_nothing deathElsewhere h⟩

/-- The next to read finds no requests. -/
theorem deathInWrite_forgets :
    ¬ Conc.Steps next StepOk State.start (deathInWrite ++ [.read 3]) := by
  intro h
  have hok := ((Conc.steps_snoc State.start deathInWrite (.read 3)).mp h).2
  have hlost : ∀ x ∈ unexpired _ _, x ∈ ([] : Registry) := hok.reads [] rfl
  exact nomatch hlost (0, ⟨2, 600⟩) (by decide)

end

end PendingFile
end Nodes
end RocmTests

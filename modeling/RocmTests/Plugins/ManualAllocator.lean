import Mathlib.Data.List.Perm.Subperm
import Mathlib.Data.Rat.Defs
import RocmTests.Text.Find

/-!
# GPUs that a test asks for itself

`manual_gpu_allocator` hands a test the slots it names, and takes back at the end what the test did
not give back.  A test is the tree of its calls, with what comes of each of them; an exception ends
the test, but not before the blocks of `pin` that it is in.

Each acquisition is counted, so that the slot, its group and the counter are one number.
-/

namespace RocmTests
namespace Plugins
namespace ManualAllocator

open Text

structure Slot where
  id : Nat
  gpuLabel : Txt
deriving DecidableEq

structure Held where
  slot : Slot
  group : Nat
  startTime : ℚ
deriving DecidableEq

/-- What the pool is told. -/
inductive PoolEvent where
  | acquired (slot : Slot)
  | released (slot : Slot)
deriving DecidableEq

/-- `_held`, and what became of the slots.  Those in `lost` were acquired, but there was no
executor. -/
structure State where
  held : List Held
  next : Nat
  log : List PoolEvent
  lost : List Slot

/-- What an acquisition comes to: no slot, or an exception after it was acquired. -/
inductive AcquireTurn where
  | unavailable
  | executorFails (gpuLabel : Txt)
  | consoleFails (gpuLabel : Txt)
  | granted (gpuLabel : Txt)

/-- An exception before the slot is given back, or none. -/
inductive ReleaseTurn where
  | consoleFails
  | loggerFails
  | fine
deriving DecidableEq

inductive Test where
  | done
  | raise
  | acquire (turn : AcquireTurn) (now : ℚ) (rest : Test)
  | release (group : Nat) (turn : ReleaseTurn) (rest : Test)
  | pin (turn : AcquireTurn) (now : ℚ) (body : Test) (leaving : ReleaseTurn) (rest : Test)

namespace State

def initial : State := ⟨[], 0, [], []⟩

def take (s : State) (gpuLabel : Txt) : State :=
  { s with next := s.next + 1, log := s.log ++ [.acquired ⟨s.next, gpuLabel⟩] }

def lose (s : State) (gpuLabel : Txt) : State :=
  { s.take gpuLabel with lost := s.lost ++ [⟨s.next, gpuLabel⟩] }

def hold (s : State) (gpuLabel : Txt) (now : ℚ) : State :=
  { s.take gpuLabel with held := s.held ++ [⟨⟨s.next, gpuLabel⟩, s.next, now⟩] }

section

variable (noGpu : Bool) (s : State)

/-- `acquire`, with the group it returns. -/
def acquire (turn : AcquireTurn) (now : ℚ) : Option Nat × State :=
  if noGpu then (some s.next, { s with next := s.next + 1 })
  else match turn with
    | .unavailable => (none, s)
    | .executorFails gpuLabel => (none, s.lose gpuLabel)
    | .consoleFails gpuLabel => (none, s.hold gpuLabel now)
    | .granted gpuLabel => (some s.next, s.hold gpuLabel now)

/-- `release`, and whether it returns. -/
def release (group : Nat) (turn : ReleaseTurn) : Bool × State :=
  if noGpu then (true, s)
  else match s.held.find? fun h => decide (h.group = group) with
    | none => (true, s)
    | some h => match turn with
      | .fine => (true, { s with log := s.log ++ [.released h.slot], held := s.held.erase h })
      | _ => (false, s)

/-- A test, and whether it ends without an exception. -/
def run (noGpu : Bool) : Test → State → Bool × State
  | .done, s => (true, s)
  | .raise, s => (false, s)
  | .acquire turn now rest, s =>
    match s.acquire noGpu turn now with
    | (none, s) => (false, s)
    | (some _, s) => run noGpu rest s
  | .release group turn rest, s =>
    match s.release noGpu group turn with
    | (false, s) => (false, s)
    | (true, s) => run noGpu rest s
  | .pin turn now body leaving rest, s =>
    match s.acquire noGpu turn now with
    | (none, s) => (false, s)
    | (some group, s) =>
      match run noGpu body s with
      | (through, s) =>
        match s.release noGpu group leaving with
        | (left, s) => if through && left then run noGpu rest s else (false, s)

end

end State

/-- How the teardown ends: nothing was left, there were leaked slots, or closing a log raised. -/
inductive Cleanup where
  | clean
  | leaked (gpuLabels : List Txt)
  | raised
deriving DecidableEq

/-- The loop of `_cleanup`, with the logs that cannot be closed. -/
def releaseAll (fails : Held → Bool) : List Held → List PoolEvent → Bool × List PoolEvent
  | [], log => (true, log)
  | h :: held, log =>
    if fails h then (false, log) else releaseAll fails held (log ++ [.released h.slot])

/-- `_cleanup`, which runs however the test ended. -/
def cleanup (fails : Held → Bool) (s : State) : Cleanup × State :=
  if s.held = [] then (.clean, s)
  else match releaseAll fails s.held s.log with
    | (false, log) => (.raised, { s with log := log })
    | (true, log) => (.leaked (s.held.map (·.slot.gpuLabel)), { s with log := log, held := [] })

/-- A test with its fixture. -/
def session (noGpu : Bool) (fails : Held → Bool) (test : Test) : Cleanup × State :=
  cleanup fails (State.initial.run noGpu test).2

/-! ## What is given back -/

def acquired (log : List PoolEvent) : List Slot :=
  log.filterMap fun e => match e with
    | .acquired slot => some slot
    | .released _ => none

def released (log : List PoolEvent) : List Slot :=
  log.filterMap fun e => match e with
    | .acquired _ => none
    | .released slot => some slot

theorem acquired_append (log log' : List PoolEvent) :
    acquired (log ++ log') = acquired log ++ acquired log' :=
  List.filterMap_append

theorem released_append (log log' : List PoolEvent) :
    released (log ++ log') = released log ++ released log' :=
  List.filterMap_append

theorem released_gives (given : List Held) :
    released (given.map fun h => PoolEvent.released h.slot) = given.map Held.slot := by
  induction given with
  | nil => rfl
  | cons h given ih => exact congrArg (h.slot :: ·) ih

theorem acquired_gives (given : List Held) :
    acquired (given.map fun h => PoolEvent.released h.slot) = [] := by
  induction given with
  | nil => rfl
  | cons h given ih => exact ih

/-- Nothing is given back before it was taken. -/
def Causal (log : List PoolEvent) : Prop :=
  ∀ before, before <+: log → released before ⊆ acquired before

theorem Causal.concat {log : List PoolEvent} (h : Causal log) {e : PoolEvent}
    (he : ∀ slot, e = .released slot → slot ∈ acquired log) : Causal (log ++ [e]) := by
  intro before hbefore
  rcases List.prefix_concat_iff.mp hbefore with rfl | hbefore
  · rw [released_append, acquired_append]
    have hlog := h log List.prefix_rfl
    cases e with
    | acquired slot =>
      rw [show released [.acquired slot] = [] from rfl, List.append_nil]
      exact List.subset_append_of_subset_left _ hlog
    | released slot =>
      rw [show released [.released slot] = [slot] from rfl]
      refine List.append_subset.mpr ⟨List.subset_append_of_subset_left _ hlog, fun x hx => ?_⟩
      rw [List.mem_singleton.mp hx]
      exact List.mem_append_left _ (he slot rfl)
  · exact h before hbefore

/-- Each slot that was taken is held, was given back or was lost, and it is only one of these. -/
structure Balanced (s : State) : Prop where
  all : (released s.log ++ s.lost ++ s.held.map Held.slot).Perm (acquired s.log)
  fresh : ∀ slot ∈ acquired s.log, slot.id < s.next
  nodup : (acquired s.log).Nodup
  causal : Causal s.log
  group : ∀ h ∈ s.held, h.group = h.slot.id

section

variable {s : State}

theorem balanced_initial : Balanced State.initial where
  all := List.Perm.refl _
  fresh _ h := by cases h
  nodup := List.nodup_nil
  causal before h := by
    rw [List.prefix_nil.mp h]
    exact List.Subset.refl _
  group _ h := by cases h

/-- The next slot goes to those that are held or lost. -/
theorem Balanced.take (h : Balanced s) (gpuLabel : Txt) {held : List Held} {lost : List Slot}
    (hslots : (lost ++ held.map Held.slot).Perm
      ((s.lost ++ s.held.map Held.slot) ++ [⟨s.next, gpuLabel⟩]))
    (hgroup : ∀ h ∈ held, h.group = h.slot.id) :
    Balanced { s.take gpuLabel with held := held, lost := lost } := by
  have hacquired : acquired (s.take gpuLabel).log = acquired s.log ++ [⟨s.next, gpuLabel⟩] :=
    acquired_append _ _
  have hreleased : released (s.take gpuLabel).log = released s.log :=
    (released_append _ _).trans (List.append_nil _)
  have hnew : ⟨s.next, gpuLabel⟩ ∉ acquired s.log := fun hmem => Nat.lt_irrefl _ (h.fresh _ hmem)
  constructor
  · show (released (s.take gpuLabel).log ++ lost ++ held.map Held.slot).Perm
      (acquired (s.take gpuLabel).log)
    rw [hacquired, hreleased, List.append_assoc]
    have hall := h.all
    rw [List.append_assoc] at hall
    refine (hslots.append_left (released s.log)).trans ?_
    rw [← List.append_assoc]
    exact hall.append_right _
  · intro slot hslot
    have hslot' : slot ∈ acquired (s.take gpuLabel).log := hslot
    show slot.id < s.next + 1
    rw [hacquired] at hslot'
    rcases List.mem_append.mp hslot' with hold | hnew
    · exact Nat.lt_succ_of_lt (h.fresh slot hold)
    · rw [List.mem_singleton.mp hnew]
      exact Nat.lt_succ_self _
  · show (acquired (s.take gpuLabel).log).Nodup
    rw [hacquired]
    refine List.nodup_append.mpr ⟨h.nodup, List.nodup_singleton _, fun x hx y hy hxy => ?_⟩
    rw [List.mem_singleton.mp hy] at hxy
    exact hnew (hxy ▸ hx)
  · exact h.causal.concat fun slot heq => by cases heq
  · exact hgroup

theorem Balanced.lose (h : Balanced s) (gpuLabel : Txt) : Balanced (s.lose gpuLabel) := by
  refine h.take gpuLabel ?_ h.group
  show ((s.lost ++ [_]) ++ s.held.map Held.slot).Perm _
  rw [List.append_assoc, List.append_assoc]
  exact List.perm_append_comm.append_left s.lost

theorem Balanced.hold (h : Balanced s) (gpuLabel : Txt) (now : ℚ) :
    Balanced (s.hold gpuLabel now) := by
  refine h.take gpuLabel ?_ fun held hheld => ?_
  · rw [List.map_append, ← List.append_assoc]
    exact List.Perm.refl _
  · rcases List.mem_append.mp hheld with hold | hnew
    · exact h.group held hold
    · rw [List.mem_singleton.mp hnew]

theorem Balanced.acquire (h : Balanced s) (noGpu : Bool) (turn : AcquireTurn) (now : ℚ) :
    Balanced (s.acquire noGpu turn now).2 := by
  unfold State.acquire
  split_ifs
  · exact ⟨h.all, fun slot hslot => Nat.lt_succ_of_lt (h.fresh slot hslot), h.nodup, h.causal,
      h.group⟩
  · cases turn with
    | unavailable => exact h
    | executorFails gpuLabel => exact h.lose gpuLabel
    | consoleFails gpuLabel => exact h.hold gpuLabel now
    | granted gpuLabel => exact h.hold gpuLabel now

/-- A slot that is held is given back. -/
theorem Balanced.give (h : Balanced s) {held : Held} (hmem : held ∈ s.held) :
    Balanced { s with log := s.log ++ [.released held.slot], held := s.held.erase held } := by
  have hacquired : acquired (s.log ++ [.released held.slot]) = acquired s.log :=
    (acquired_append _ _).trans (List.append_nil _)
  have hreleased : released (s.log ++ [.released held.slot]) = released s.log ++ [held.slot] :=
    released_append _ _
  constructor
  · show (released (s.log ++ [_]) ++ s.lost ++ (s.held.erase held).map Held.slot).Perm
      (acquired (s.log ++ [_]))
    rw [hacquired, hreleased, List.append_assoc, List.append_assoc]
    refine List.Perm.trans ?_ h.all
    rw [List.append_assoc]
    refine List.Perm.append_left (released s.log) ?_
    have hsplit := (List.perm_cons_erase hmem).map Held.slot
    refine List.Perm.trans ?_ (hsplit.symm.append_left s.lost)
    rw [List.map_cons, List.singleton_append]
    exact List.perm_middle.symm
  · show ∀ slot ∈ acquired (s.log ++ [_]), _
    rw [hacquired]
    exact h.fresh
  · show (acquired (s.log ++ [_])).Nodup
    rw [hacquired]
    exact h.nodup
  · refine h.causal.concat fun slot heq => ?_
    rw [← PoolEvent.released.inj heq]
    exact h.all.subset (List.mem_append_right _ (List.mem_map_of_mem hmem))
  · exact fun other hother => h.group other (List.mem_of_mem_erase hother)

theorem Balanced.release (h : Balanced s) (noGpu : Bool) (group : Nat) (turn : ReleaseTurn) :
    Balanced (s.release noGpu group turn).2 := by
  unfold State.release
  split_ifs
  · exact h
  · cases hfind : s.held.find? fun h => decide (h.group = group) with
    | none => exact h
    | some held =>
      cases turn with
      | fine => exact h.give (List.mem_of_find?_eq_some hfind)
      | consoleFails => exact h
      | loggerFails => exact h

theorem Balanced.run (noGpu : Bool) (test : Test) :
    ∀ {s : State}, Balanced s → Balanced (s.run noGpu test).2 := by
  induction test with
  | done => exact fun h => h
  | raise => exact fun h => h
  | acquire turn now rest ih =>
    intro s h
    have hacquire := h.acquire noGpu turn now
    rw [State.run]
    generalize s.acquire noGpu turn now = x at hacquire ⊢
    obtain ⟨group, s'⟩ := x
    cases group with
    | none => exact hacquire
    | some group => exact ih hacquire
  | release group turn rest ih =>
    intro s h
    have hrelease := h.release noGpu group turn
    rw [State.run]
    generalize s.release noGpu group turn = x at hrelease ⊢
    obtain ⟨returned, s'⟩ := x
    cases returned with
    | false => exact hrelease
    | true => exact ih hrelease
  | pin turn now body leaving rest ihBody ihRest =>
    intro s h
    have hacquire := h.acquire noGpu turn now
    rw [State.run]
    generalize s.acquire noGpu turn now = x at hacquire ⊢
    obtain ⟨group, s'⟩ := x
    cases group with
    | none => exact hacquire
    | some group =>
      have hrelease := (ihBody hacquire).release noGpu group leaving
      dsimp only
      generalize (s'.run noGpu body).2.release noGpu group leaving = y at hrelease ⊢
      split_ifs
      · exact ihRest hrelease
      · exact hrelease

/-- The teardown gives back the slots in their order, up to one whose log cannot be closed. -/
theorem releaseAll_spec (fails : Held → Bool) (held : List Held) : ∀ log, ∃ given, given <+: held ∧
    (releaseAll fails held log).2 = log ++ given.map (fun h => PoolEvent.released h.slot) ∧
    ((releaseAll fails held log).1 = true → given = held) ∧
    ((∀ h ∈ held, fails h = false) → (releaseAll fails held log).1 = true) := by
  induction held with
  | nil => exact fun log =>
    ⟨[], List.prefix_rfl, (List.append_nil log).symm, fun _ => rfl, fun _ => rfl⟩
  | cons h held ih =>
    intro log
    rw [releaseAll]
    cases hfails : fails h with
    | true =>
      refine ⟨[], List.nil_prefix, (List.append_nil log).symm, fun h => ?_, fun hall => ?_⟩
      · cases h
      · rw [hall h List.mem_cons_self] at hfails
        cases hfails
    | false =>
      obtain ⟨given, hprefix, hlog, hdone, hfine⟩ := ih (log ++ [.released h.slot])
      refine ⟨h :: given, (List.prefix_cons_inj h).mpr hprefix, ?_, fun hthrough => ?_, fun hall =>
        ?_⟩
      · rw [List.append_assoc] at hlog
        exact hlog
      · exact congrArg (h :: ·) (hdone hthrough)
      · exact hfine fun other hother => hall other (List.mem_cons_of_mem h hother)

theorem causal_releases {log : List PoolEvent} (h : Causal log) (given : List Held)
    (hmem : ∀ h ∈ given, h.slot ∈ acquired log) :
    Causal (log ++ given.map fun h => PoolEvent.released h.slot) := by
  induction given using List.reverseRecOn with
  | nil =>
    rw [List.map_nil, List.append_nil]
    exact h
  | append_singleton given last ih =>
    rw [List.map_append, ← List.append_assoc]
    refine (ih fun h hh => hmem h (List.mem_append_left _ hh)).concat fun slot heq => ?_
    rw [← PoolEvent.released.inj heq, acquired_append]
    exact List.mem_append_left _ (hmem last (List.mem_append_right _ List.mem_cons_self))

/-- Whatever the test does and however it ends, no slot is given back twice or before it was taken;
the teardown complains exactly when slots were left; and where the logs can be closed, all slots are
back that had an executor. -/
theorem session_gives_back (noGpu : Bool) (fails : Held → Bool) (test : Test) :
    let s := (State.initial.run noGpu test).2
    let t := session noGpu fails test
    Causal t.2.log ∧ (released t.2.log).Nodup ∧ (t.1 = .clean ↔ s.held = []) ∧
      ((∀ h ∈ s.held, fails h = false) →
        t.2.held = [] ∧ (released t.2.log ++ t.2.lost).Perm (acquired t.2.log) ∧
          (acquired t.2.log).Nodup) := by
  intro s t
  have h : Balanced s := Balanced.run noGpu test balanced_initial
  have hback (log : List PoolEvent) (given : List Held) (hgiven : given <+: s.held)
      (hlog : log = s.log ++ given.map fun h => PoolEvent.released h.slot) :
      Causal log ∧ (released log).Nodup ∧ acquired log = acquired s.log ∧
        released log = released s.log ++ given.map Held.slot := by
    have hreleased : released log = released s.log ++ given.map Held.slot := by
      rw [hlog, released_append, released_gives]
    have hacquired : acquired log = acquired s.log := by
      rw [hlog, acquired_append, acquired_gives, List.append_nil]
    have hheld : ∀ held ∈ given, held.slot ∈ acquired s.log := fun held hmem =>
      h.all.subset (List.mem_append_right _ (List.mem_map_of_mem (hgiven.subset hmem)))
    refine ⟨hlog ▸ causal_releases h.causal given hheld, ?_, hacquired, hreleased⟩
    rw [hreleased]
    refine List.Sublist.nodup ?_ (h.all.nodup_iff.mpr h.nodup)
    rw [List.append_assoc]
    exact ((hgiven.map Held.slot).sublist.trans (List.sublist_append_right _ _)).append_left _
  have ht : t = cleanup fails s := rfl
  rw [ht, cleanup]
  split_ifs with hnil
  · obtain ⟨hcausal, hnodup, -, -⟩ := hback s.log [] List.nil_prefix (List.append_nil _).symm
    have hall := h.all
    rw [hnil, List.map_nil, List.append_nil] at hall
    exact ⟨hcausal, hnodup, iff_of_true rfl hnil, fun _ => ⟨hnil, hall, h.nodup⟩⟩
  · obtain ⟨given, hgiven, hlog, hdone, hfine⟩ := releaseAll_spec fails s.held s.log
    generalize releaseAll fails s.held s.log = x at hlog hdone hfine ⊢
    obtain ⟨through, log⟩ := x
    obtain ⟨hcausal, hnodup, hacquired, hreleased⟩ := hback log given hgiven hlog
    cases through with
    | false =>
      refine ⟨hcausal, hnodup, iff_of_false (fun h => by cases h) hnil, fun hall => ?_⟩
      cases hfine hall
    | true =>
      refine ⟨hcausal, hnodup, iff_of_false (fun h => by cases h) hnil, fun _ => ⟨rfl, ?_, ?_⟩⟩
      · show (released log ++ s.lost).Perm (acquired log)
        rw [hreleased, hacquired, hdone rfl, List.append_assoc]
        have hall := h.all
        rw [List.append_assoc] at hall
        exact (List.perm_append_comm.append_left _).trans hall
      · show (acquired log).Nodup
        rw [hacquired]
        exact h.nodup

end

/-! ## Blocks -/

/-- A test that has its slots from `pin` alone, and whose slots can be given back. -/
def Pinned : Test → Prop
  | .done => True
  | .raise => True
  | .acquire _ _ _ => False
  | .release _ _ _ => False
  | .pin turn _ body leaving rest =>
    (∀ gpuLabel, turn ≠ .consoleFails gpuLabel) ∧ leaving = .fine ∧ Pinned body ∧ Pinned rest

section

variable {noGpu : Bool} {s : State}

/-- The group of the slot that was taken last is that of nothing else that is held. -/
theorem Balanced.find_last (h : Balanced s) (held : Held) (hgroup : held.group = s.next) :
    (s.held ++ [held]).find? (fun h => decide (h.group = s.next)) = some held := by
  have hnone : s.held.find? (fun h => decide (h.group = s.next)) = none := by
    refine List.find?_eq_none.mpr fun other hother heq => ?_
    have hslot : other.slot ∈ acquired s.log :=
      h.all.subset (List.mem_append_right _ (List.mem_map_of_mem hother))
    have hlt := h.fresh other.slot hslot
    have hid := (h.group other hother).symm.trans (of_decide_eq_true heq)
    omega
  rw [List.find?_append, hnone, Option.none_or]
  exact List.find?_cons_of_pos (decide_eq_true hgroup)

theorem Balanced.not_held (h : Balanced s) (held : Held) (hgroup : held.group = s.next) :
    held ∉ s.held := by
  intro hmem
  have hslot : held.slot ∈ acquired s.log :=
    h.all.subset (List.mem_append_right _ (List.mem_map_of_mem hmem))
  have hlt := h.fresh held.slot hslot
  have hid := h.group held hmem
  omega

/-- What `acquire` holds for a block: nothing without GPUs, else the slot of its group. -/
def Mine (noGpu : Bool) (group : Nat) (mine : List Held) : Prop :=
  (noGpu = true ∧ mine = []) ∨ noGpu = false ∧ ∃ held, mine = [held] ∧ held.group = group

theorem acquire_held (noGpu : Bool) (s : State) {turn : AcquireTurn}
    (hturn : ∀ gpuLabel, turn ≠ .consoleFails gpuLabel) (now : ℚ) :
    (∃ s', s.acquire noGpu turn now = (none, s') ∧ s'.held = s.held) ∨
      ∃ s' mine, s.acquire noGpu turn now = (some s.next, s') ∧ s'.held = s.held ++ mine ∧
        Mine noGpu s.next mine := by
  cases noGpu with
  | true => exact .inr ⟨_, [], rfl, (List.append_nil _).symm, .inl ⟨rfl, rfl⟩⟩
  | false =>
    cases turn with
    | unavailable => exact .inl ⟨_, rfl, rfl⟩
    | executorFails gpuLabel => exact .inl ⟨_, rfl, rfl⟩
    | consoleFails gpuLabel => exact absurd rfl (hturn gpuLabel)
    | granted gpuLabel => exact .inr ⟨_, _, rfl, rfl, .inr ⟨rfl, _, rfl, rfl⟩⟩

/-- The block gives back what it took. -/
theorem Balanced.release_mine (h : Balanced s) {t : State} {mine : List Held}
    (hmine : Mine noGpu s.next mine) (hheld : t.held = s.held ++ mine) :
    ∃ t', t.release noGpu s.next .fine = (true, t') ∧ t'.held = s.held := by
  rcases hmine with ⟨rfl, rfl⟩ | ⟨rfl, held, rfl, hgroup⟩
  · exact ⟨t, rfl, hheld.trans (List.append_nil _)⟩
  · have hfind := h.find_last held hgroup
    rw [← hheld] at hfind
    refine ⟨{ t with log := t.log ++ [.released held.slot], held := t.held.erase held }, ?_, ?_⟩
    · unfold State.release
      rw [if_neg Bool.false_ne_true, hfind]
    · show t.held.erase held = s.held
      rw [hheld, List.erase_append_right _ (h.not_held held hgroup), List.erase_cons_head,
        List.append_nil]

/-- However the blocks are nested and whatever raises in them, nothing is left to the teardown. -/
theorem run_pinned (noGpu : Bool) (test : Test) : ∀ {s : State}, Balanced s → Pinned test →
    (s.run noGpu test).2.held = s.held := by
  induction test with
  | done => exact fun _ _ => rfl
  | raise => exact fun _ _ => rfl
  | acquire turn now rest => exact fun _ h => h.elim
  | release group turn rest => exact fun _ h => h.elim
  | pin turn now body leaving rest ihBody ihRest =>
    intro s h hpinned
    obtain ⟨hturn, rfl, hbody, hrest⟩ := hpinned
    have hacquire := h.acquire noGpu turn now
    rcases acquire_held noGpu s hturn now with ⟨s', heq, hheld⟩ | ⟨s', mine, heq, hheld, hmine⟩
    · rw [State.run, heq]
      exact hheld
    · rw [heq] at hacquire
      have hafter := Balanced.run noGpu body hacquire
      have hbodyHeld := (ihBody hacquire hbody).trans hheld
      obtain ⟨t', hrelease, ht'⟩ := h.release_mine hmine hbodyHeld
      have hreleased := hafter.release noGpu s.next .fine
      rw [hrelease] at hreleased
      rw [State.run, heq]
      dsimp only
      rw [hrelease]
      dsimp only
      split_ifs
      · exact (ihRest hreleased hrest).trans ht'
      · exact ht'

/-- A test that has its slots from `pin` alone does not fail for a leak, and gives all of them
back. -/
theorem pinned_clean (noGpu : Bool) (fails : Held → Bool) {test : Test} (h : Pinned test) :
    (session noGpu fails test).1 = .clean ∧
      (released (session noGpu fails test).2.log ++ (session noGpu fails test).2.lost).Perm
        (acquired (session noGpu fails test).2.log) := by
  have hheld : (State.initial.run noGpu test).2.held = [] :=
    run_pinned noGpu test balanced_initial h
  have hall := (Balanced.run noGpu test balanced_initial).all
  rw [hheld, List.map_nil, List.append_nil] at hall
  rw [session, cleanup, if_pos hheld]
  exact ⟨rfl, hall⟩

/-- A block in a block, in which the test fails. -/
theorem pinned_clean_nested :
    let test : Test := .pin (.granted "GPU-0".toList) 0
      (.pin (.granted "GPU-1".toList) 1 .raise .fine .done) .fine .done
    (session false (fun _ => true) test).1 = .clean ∧
      (released (session false (fun _ => true) test).2.log ++
        (session false (fun _ => true) test).2.lost).Perm
          (acquired (session false (fun _ => true) test).2.log) := by
  intro test
  have hgranted (label label' : Txt) : AcquireTurn.granted label ≠ .consoleFails label' :=
    fun h => by cases h
  exact pinned_clean false _ ⟨hgranted _, rfl, ⟨hgranted _, rfl, trivial, trivial⟩, trivial⟩

end

end ManualAllocator
end Plugins
end RocmTests

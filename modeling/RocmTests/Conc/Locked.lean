import Mathlib.Data.Rat.Defs
import RocmTests.Conc.System

/-!
# Resources behind locks

A `Resource` is a state that threads act on while they hold the lock of its key; to look at it
they need no lock.  Any number of threads take and drop the locks, and a lock that is held
answers `busy`.

Between `take` and `drop` nobody else changes what is behind the lock.  So the owner of a lock owns
the state itself, and an invariant of it, which may speak about the holder, is a matter of each
program for itself: `locked_reachable`.
-/

namespace RocmTests
namespace Conc

structure Resource (Tid : Type) where
  Key : Type
  [decKey : DecidableEq Key]
  State : Type
  Op : Type
  Resp : Op → Type
  Look : Type
  Seen : Look → Type
  Choice : Type
  look : (l : Look) → Choice → State → Seen l
  exec : Tid → (o : Op) → Choice → State → Option (Resp o × State)

attribute [instance] Resource.decKey

/-- What an attempt to take a lock without waiting comes to. -/
inductive Taken where
  | taken
  | busy
  | failed
deriving DecidableEq

variable {Tid : Type}

inductive LockOp (Q : Resource Tid) (Call : Type) where
  | take (k : Q.Key)
  | drop (k : Q.Key)
  | use (k : Q.Key) (o : Q.Op)
  | look (k : Q.Key) (l : Q.Look)
  | clock
  | sleep (time : ℚ)
  | next

def LockOp.Resp {Q : Resource Tid} {Call : Type} : LockOp Q Call → Type
  | .take _ => Taken
  | .drop _ => Unit
  | .use _ o => Q.Resp o
  | .look _ l => Q.Seen l
  | .clock => ℚ
  | .sleep _ => Unit
  | .next => Call

structure LockState (Q : Resource Tid) where
  holder : Q.Key → Option Tid
  behind : Q.Key → Q.State

structure LockChoice (Q : Resource Tid) (Call : Type) where
  fails : Bool
  now : ℚ
  call : Call
  inner : Q.Choice

namespace LockState

variable {Q : Resource Tid} {Call : Type}

def exec (t : Tid) : (o : LockOp Q Call) → LockChoice Q Call → LockState Q →
    Option (o.Resp × LockState Q)
  | .take k, ch, s =>
    if ch.fails then some (Taken.failed, s)
    else if s.holder k = none then
      some (Taken.taken, { s with holder := Function.update s.holder k (some t) })
    else some (Taken.busy, s)
  | .drop k, _, s => some ((), { s with holder := Function.update s.holder k none })
  | .use k o, ch, s => (Q.exec t o ch.inner (s.behind k)).map fun x =>
      (x.1, { s with behind := Function.update s.behind k x.2 })
  | .look k l, ch, s => some (Q.look l ch.inner (s.behind k), s)
  | .clock, ch, s => some (ch.now, s)
  | .sleep _, _, s => some ((), s)
  | .next, ch, s => some (ch.call, s)

end LockState

/-- The threads at work; none of them dies. -/
def locked [DecidableEq Tid] (Q : Resource Tid) (Call : Type) : System where
  Tid := Tid
  Op := LockOp Q Call
  Resp := LockOp.Resp
  State := LockState Q
  Choice := LockChoice Q Call
  exec := LockState.exec
  Fault := Empty
  fault := fun f => f.elim
  kills := fun f => f.elim

section Invariant

variable {Q : Resource Tid} {Call : Type} (Inv : Option Tid → Q.State → Prop)

/-- A thread owns what is behind the lock that it holds. -/
def lockOwned (t : Tid) : Actions (LockOp Q Call) LockOp.Resp (Option (Q.Key × Q.State)) where
  pre
    | .take _, r => r = none
    | .drop k, r => ∃ x, r = some (k, x) ∧ Inv none x
    | .use k o, r => ∃ x, r = some (k, x) ∧
        ∀ ch b x', Q.exec t o ch x = some (b, x') → Inv (some t) x'
    | _, _ => True
  post
    | .take k, r, b, r' => (b ≠ Taken.taken ∧ r' = r) ∨
        (b = Taken.taken ∧ ∃ x, Inv none x ∧ r' = some (k, x))
    | .drop _, _, _, r' => r' = none
    | .use k o, r, b, r' => ∃ x ch x', r = some (k, x) ∧ Q.exec t o ch x = some (b, x') ∧
        r' = some (k, x')
    | _, r, _, r' => r' = r

structure LockInv (s : LockState Q) (res : Tid → Option (Q.Key × Q.State)) : Prop where
  inv : ∀ k, Inv (s.holder k) (s.behind k)
  owns : ∀ t k x, res t = some (k, x) → s.holder k = some t ∧ s.behind k = x
  owned : ∀ k t, s.holder k = some t → ∃ x, res t = some (k, x)

variable {Inv} {s : LockState Q} {res : Tid → Option (Q.Key × Q.State)} {t : Tid} {k : Q.Key}
  {x : Q.State}

/-- Two threads do not hold one lock. -/
theorem LockInv.key_ne (h : LockInv Inv s res) (hres : res t = some (k, x)) {u : Tid} (hut : u ≠ t)
    {k' : Q.Key} (hu : s.holder k' = some u) : k' ≠ k := by
  intro hk
  rw [hk, (h.owns t k x hres).1, Option.some.injEq] at hu
  exact hut hu.symm

variable [DecidableEq Tid]

theorem LockInv.take (h : LockInv Inv s res)
    (henter : Inv none (s.behind k) → Inv (some t) (s.behind k))
    (hfree : s.holder k = none) (hnone : res t = none) :
    LockInv Inv { s with holder := Function.update s.holder k (some t) }
      (Function.update res t (some (k, s.behind k))) where
  inv k' := by
    show Inv (Function.update s.holder k (some t) k') (s.behind k')
    by_cases hk : k' = k
    · rw [hk, Function.update_self]
      exact henter (hfree ▸ h.inv k)
    · rw [Function.update_of_ne hk]
      exact h.inv k'
  owns u k' y hu := by
    show Function.update s.holder k (some t) k' = some u ∧ s.behind k' = y
    by_cases hut : u = t
    · rw [hut, Function.update_self, Option.some.injEq, Prod.mk.injEq] at hu
      rw [hut, ← hu.1, ← hu.2, Function.update_self]
      exact ⟨rfl, rfl⟩
    · rw [Function.update_of_ne hut] at hu
      obtain ⟨hholder, hbehind⟩ := h.owns u k' y hu
      have hk : k' ≠ k := by
        intro hk
        rw [hk, hfree] at hholder
        cases hholder
      rw [Function.update_of_ne hk]
      exact ⟨hholder, hbehind⟩
  owned k' u hu := by
    have hu' : Function.update s.holder k (some t) k' = some u := hu
    by_cases hk : k' = k
    · rw [hk, Function.update_self, Option.some.injEq] at hu'
      rw [hk, ← hu', Function.update_self]
      exact ⟨_, rfl⟩
    · rw [Function.update_of_ne hk] at hu'
      obtain ⟨y, hy⟩ := h.owned k' u hu'
      have hut : u ≠ t := by
        intro hut
        rw [hut, hnone] at hy
        cases hy
      rw [Function.update_of_ne hut]
      exact ⟨y, hy⟩

theorem LockInv.drop (h : LockInv Inv s res) (hres : res t = some (k, x)) (hx : Inv none x) :
    LockInv Inv { s with holder := Function.update s.holder k none }
      (Function.update res t none) where
  inv k' := by
    show Inv (Function.update s.holder k none k') (s.behind k')
    by_cases hk : k' = k
    · rw [hk, Function.update_self, (h.owns t k x hres).2]
      exact hx
    · rw [Function.update_of_ne hk]
      exact h.inv k'
  owns u k' y hu := by
    show Function.update s.holder k none k' = some u ∧ s.behind k' = y
    have hut : u ≠ t := by
      intro hut
      rw [hut, Function.update_self] at hu
      cases hu
    rw [Function.update_of_ne hut] at hu
    obtain ⟨hholder, hbehind⟩ := h.owns u k' y hu
    rw [Function.update_of_ne (h.key_ne hres hut hholder)]
    exact ⟨hholder, hbehind⟩
  owned k' u hu := by
    have hu' : Function.update s.holder k none k' = some u := hu
    have hk : k' ≠ k := by
      intro hk
      rw [hk, Function.update_self] at hu'
      cases hu'
    rw [Function.update_of_ne hk] at hu'
    obtain ⟨y, hy⟩ := h.owned k' u hu'
    have hut : u ≠ t := by
      intro hut
      rw [hut, hres, Option.some.injEq, Prod.mk.injEq] at hy
      exact hk hy.1.symm
    rw [Function.update_of_ne hut]
    exact ⟨y, hy⟩

theorem LockInv.use (h : LockInv Inv s res) (hres : res t = some (k, x)) {x' : Q.State}
    (hx' : Inv (some t) x') : LockInv Inv { s with behind := Function.update s.behind k x' }
      (Function.update res t (some (k, x'))) where
  inv k' := by
    show Inv (s.holder k') (Function.update s.behind k x' k')
    by_cases hk : k' = k
    · rw [hk, Function.update_self, (h.owns t k x hres).1]
      exact hx'
    · rw [Function.update_of_ne hk]
      exact h.inv k'
  owns u k' y hu := by
    show s.holder k' = some u ∧ Function.update s.behind k x' k' = y
    by_cases hut : u = t
    · rw [hut, Function.update_self, Option.some.injEq, Prod.mk.injEq] at hu
      rw [hut, ← hu.1, ← hu.2, Function.update_self]
      exact ⟨(h.owns t k x hres).1, rfl⟩
    · rw [Function.update_of_ne hut] at hu
      obtain ⟨hholder, hbehind⟩ := h.owns u k' y hu
      rw [Function.update_of_ne (h.key_ne hres hut hholder)]
      exact ⟨hholder, hbehind⟩
  owned k' u hu := by
    obtain ⟨y, hy⟩ := h.owned k' u hu
    by_cases hut : u = t
    · rw [hut, hres, Option.some.injEq, Prod.mk.injEq] at hy
      rw [hut, Function.update_self, hy.1]
      exact ⟨_, rfl⟩
    · rw [Function.update_of_ne hut]
      exact ⟨y, hy⟩

/-- One action keeps the invariant, and leaves the thread with what the table says. -/
theorem LockInv.exec (h : LockInv Inv s res) (henter : ∀ t x, Inv none x → Inv (some t) x)
    {o : LockOp Q Call} {ch : LockChoice Q Call} {b : o.Resp} {s' : LockState Q}
    (hpre : (lockOwned Inv t).pre o (res t)) (hexec : LockState.exec t o ch s = some (b, s')) :
    ∃ r', (lockOwned Inv t).post o (res t) b r' ∧ LockInv Inv s' (Function.update res t r') := by
  have hsame : LockInv Inv s (Function.update res t (res t)) := by
    rw [Function.update_eq_self]
    exact h
  cases o with
  | take k =>
    simp only [LockState.exec] at hexec
    split_ifs at hexec with hfails hfree
    · cases hexec
      exact ⟨_, Or.inl ⟨by exact Taken.noConfusion, rfl⟩, hsame⟩
    · cases hexec
      exact ⟨_, Or.inr ⟨rfl, _, hfree ▸ h.inv k, rfl⟩, h.take (henter t _) hfree hpre⟩
    · cases hexec
      exact ⟨_, Or.inl ⟨by exact Taken.noConfusion, rfl⟩, hsame⟩
  | drop k =>
    cases hexec
    obtain ⟨x, hres, hx⟩ := hpre
    exact ⟨none, rfl, h.drop hres hx⟩
  | use k o =>
    obtain ⟨x, hres, hkeep⟩ := hpre
    obtain ⟨⟨b', x'⟩, hstep, heq⟩ := Option.map_eq_some_iff.mp hexec
    cases heq
    rw [(h.owns t k x hres).2] at hstep
    exact ⟨some (k, x'), ⟨x, ch.inner, x', hres, hstep, rfl⟩, h.use hres (hkeep _ _ _ hstep)⟩
  | look k l =>
    cases hexec
    exact ⟨_, rfl, hsame⟩
  | clock =>
    cases hexec
    exact ⟨_, rfl, hsame⟩
  | sleep time =>
    cases hexec
    exact ⟨_, rfl, hsame⟩
  | next =>
    cases hexec
    exact ⟨_, rfl, hsame⟩

/-- To take the lock alone does not break the invariant. -/
def lockedOwnership (Call : Type) (henter : ∀ t x, Inv none x → Inv (some t) x) :
    Ownership (locked Q Call) where
  R := Option (Q.Key × Q.State)
  actions := lockOwned Inv
  Inv := LockInv Inv
  act_ok := fun h => LockInv.exec h henter
  fault_ok := fun f => f.elim

/-- The invariant holds of everything behind a lock, whoever holds it. -/
theorem locked_reachable {Call : Type} (henter : ∀ t x, Inv none x → Inv (some t) x)
    {c₀ c : (locked Q Call).Config} (hfree : ∀ k, c₀.st.holder k = none)
    (hinv : ∀ k, Inv none (c₀.st.behind k))
    (hthr : ∀ t, Safe (lockOwned Inv t) (c₀.thr t) (fun _ _ => True) none)
    (h : System.Reachable c₀ c) (k : Q.Key) : Inv (c.st.holder k) (c.st.behind k) := by
  have hstart : (lockedOwnership Call henter).Holds c₀ := by
    refine ⟨fun _ => none, ⟨fun k => ?_, fun _ _ _ h => ?_, fun k t h => ?_⟩, hthr⟩
    · rw [hfree]
      exact hinv k
    · cases h
    · rw [hfree] at h
      cases h
  obtain ⟨res, hres, -⟩ := Ownership.reachable hstart h
  exact hres.inv k

end Invariant

end Conc
end RocmTests

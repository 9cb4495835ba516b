import Mathlib.Logic.Function.Basic
import RocmTests.Conc.History

/-!
# The provision lock of a node

`_RemoteLock` takes a directory on the node with `mkdir` and gives it up with
`rm -rf`.  Both are commands whose outcome the provisioner learns from the runner, and
what it learns can be wrong: a command that took effect may still end in an exception
or in an exit code that is neither 0 nor 75.  The directory says nothing about whose
it is; `owner` is a history of that.

The provisioners are those of one environment fingerprint, so there is one lock
directory.  A command is one step.
-/

namespace RocmTests
namespace Provisioning
namespace RemoteLock

open Conc

/-- What a provisioner sees of a command.  `held` is exit code 75; `raised` is an
exception of the runner, or of the provision log once the runner has returned. -/
inductive Seen where
  | ok
  | held
  | failed
  | raised
deriving DecidableEq, Repr

/-- Before `__enter__` and after `__exit__`, in the loop of `__enter__`, and in the
with-block. -/
inductive Phase where
  | outside
  | waiting
  | inside
deriving DecidableEq, Repr

structure LockState where
  owner : Option Nat
  phase : Nat → Phase

/-- A step of provisioner `p`.  `took` and `gone` are whether the command changed the
node; `expired` is the deadline check after exit code 75. -/
inductive Step where
  | enter (p : Nat)
  | mkdir (p : Nat) (took : Bool) (seen : Seen) (expired : Bool)
  | rm (p : Nat) (gone : Bool) (seen : Seen)
deriving DecidableEq, Repr

def start : LockState := { owner := none, phase := fun _ => .outside }

/-- Where `__enter__` is after its command. -/
def afterMkdir (seen : Seen) (expired : Bool) : Phase :=
  match seen with
  | .ok => .inside
  | .held => if expired then .outside else .waiting
  | .failed => .outside
  | .raised => .outside

def next : Step → LockState → LockState
  | .enter p, s => { s with phase := Function.update s.phase p .waiting }
  | .mkdir p took seen expired, s =>
    { owner := if took then some p else s.owner
      phase := Function.update s.phase p (afterMkdir seen expired) }
  | .rm p gone _, s =>
    -- `__exit__` looks at the result for its log line only
    { owner := if gone then none else s.owner
      phase := Function.update s.phase p .outside }

/-- The steps that are possible.  `mkdir` makes the directory only where there is
none; the script ends with 0 only if it did and with 75 only if it did not; `rm -rf`
ends with 0 only if the directory is gone. -/
def Possible (s : LockState) : Step → Prop
  | .enter p => s.phase p = .outside
  | .mkdir p took seen _ => s.phase p = .waiting ∧ (took = true → s.owner = none) ∧
      (seen = .ok → took = true) ∧ (seen = .held → took = false)
  | .rm p gone seen => s.phase p = .inside ∧ (seen = .ok → gone = true)

instance (s : LockState) : (l : Step) → Decidable (Possible s l)
  | .enter p => inferInstanceAs (Decidable (s.phase p = .outside))
  | .mkdir p took seen _ => inferInstanceAs (Decidable (s.phase p = .waiting ∧
      (took = true → s.owner = none) ∧ (seen = .ok → took = true) ∧ (seen = .held → took = false)))
  | .rm p gone seen =>
    inferInstanceAs (Decidable (s.phase p = .inside ∧ (seen = .ok → gone = true)))

/-! ## Exclusivity -/

/-- At most one provisioner is in the with-block. -/
def Exclusive (s : LockState) : Prop := ∀ p q, s.phase p = .inside → s.phase q = .inside → p = q

/-- A provisioner outside does not own the directory. -/
def NotLeaked (s : LockState) : Prop := ∀ p, s.phase p = .outside → s.owner ≠ some p

/-- Who is in the with-block owns the directory. -/
def InsideOwns (s : LockState) : Prop := ∀ p, s.phase p = .inside → s.owner = some p

theorem InsideOwns.exclusive {s : LockState} (h : InsideOwns s) : Exclusive s := by
  intro p q hp hq
  have howner := h p hp
  rw [h q hq] at howner
  exact (Option.some.inj howner).symm

theorem start_insideOwns : InsideOwns start := fun _ h => nomatch h

theorem step_insideOwns {s : LockState} {l : Step} (h : InsideOwns s) (hl : Possible s l) :
    InsideOwns (next l s) := by
  intro q hq
  cases l with
  | enter p =>
    by_cases hqp : q = p
    · subst hqp
      simp [next] at hq
    · simp only [next, Function.update_of_ne hqp] at hq
      exact h q hq
  | mkdir p took seen expired =>
    obtain ⟨_, hfree, hok, _⟩ := hl
    by_cases hqp : q = p
    · subst hqp
      simp only [next, Function.update_self] at hq ⊢
      have hseen : seen = .ok := by
        cases seen with
        | ok => rfl
        | held => cases expired <;> cases hq
        | failed => cases hq
        | raised => cases hq
      rw [if_pos (hok hseen)]
    · simp only [next, Function.update_of_ne hqp] at hq ⊢
      -- the directory is there, so `mkdir` did not make it
      have howner := h q hq
      have htook : ¬ took = true := by
        intro ht
        rw [hfree ht] at howner
        cases howner
      rw [if_neg htook]
      exact howner
  | rm p gone seen =>
    obtain ⟨hin, _⟩ := hl
    by_cases hqp : q = p
    · subst hqp
      simp [next] at hq
    · simp only [next, Function.update_of_ne hqp] at hq
      exact absurd (h.exclusive q p hq hin) hqp

/-- Whatever is lost, two provisioners are never in the with-block together. -/
theorem insideOwns_of_steps {ls : List Step} (h : Steps next Possible start ls) :
    InsideOwns (after next start ls) :=
  Steps.invariant (I := fun _ s => InsideOwns s) start_insideOwns
    (fun _ _ _ hs hl => step_insideOwns hs hl) h

/-! ## Leaks -/

/-- The step leaves no directory behind: a `mkdir` that made it is seen to have, and
`rm -rf` removes it. -/
def Lossless : Step → Prop
  | .enter _ => True
  | .mkdir _ took seen _ => took = true → seen = .ok
  | .rm _ gone _ => gone = true

/-- The owner is in the with-block. -/
def OwnerInside (s : LockState) : Prop := ∀ p, s.owner = some p → s.phase p = .inside

theorem OwnerInside.notLeaked {s : LockState} (h : OwnerInside s) : NotLeaked s := by
  intro p hp howner
  rw [h p howner] at hp
  cases hp

theorem step_ownerInside {s : LockState} {l : Step} (h : OwnerInside s) (hl : Possible s l)
    (hloss : Lossless l) : OwnerInside (next l s) := by
  intro q hq
  cases l with
  | enter p =>
    have hin := h q hq
    have hqp : q ≠ p := by
      rintro rfl
      rw [show s.phase q = .outside from hl] at hin
      cases hin
    simpa only [next, Function.update_of_ne hqp] using hin
  | mkdir p took seen expired =>
    obtain ⟨hwait, hfree, _, _⟩ := hl
    by_cases htook : took = true
    · simp only [next, if_pos htook] at hq ⊢
      obtain rfl := Option.some.inj hq
      rw [Function.update_self, hloss htook]
      rfl
    · simp only [next, if_neg htook] at hq ⊢
      have hin := h q hq
      have hqp : q ≠ p := by
        rintro rfl
        rw [hwait] at hin
        cases hin
      rw [Function.update_of_ne hqp]
      exact hin
  | rm p gone seen =>
    have hgone : gone = true := hloss
    simp only [next, if_pos hgone] at hq
    cases hq

/-- A step that loses something leaks the lock at once. -/
theorem leaked_of_not_lossless {s : LockState} {l : Step} (hs : InsideOwns s) (hl : Possible s l)
    (hloss : ¬ Lossless l) : ¬ NotLeaked (next l s) := by
  intro h
  cases l with
  | enter p => exact hloss trivial
  | mkdir p took seen expired =>
    obtain ⟨_, _, _, hheld⟩ := hl
    by_cases htook : took = true
    · have hok : seen ≠ .ok := fun hseen => hloss fun _ => hseen
      refine h p ?_ ?_
      · simp only [next, Function.update_self]
        cases seen with
        | ok => exact absurd rfl hok
        | held =>
          rw [hheld rfl] at htook
          cases htook
        | failed => rfl
        | raised => rfl
      · simp only [next, if_pos htook]
    · exact hloss fun ht => absurd ht htook
  | rm p gone seen =>
    obtain ⟨hin, _⟩ := hl
    have hgone : ¬ gone = true := hloss
    refine h p ?_ ?_
    · simp only [next, Function.update_self]
    · simp only [next, if_neg hgone]
      exact hs p hin

theorem ownerInside_of_lossless {ls : List Step} (h : Steps next Possible start ls)
    (hloss : ∀ l ∈ ls, Lossless l) : OwnerInside (after next start ls) := by
  refine Steps.invariant (I := fun ls s => (∀ l ∈ ls, Lossless l) → OwnerInside s)
    (fun _ _ howner => by cases howner) ?_ h hloss
  intro ls s l hs hl hloss
  have hbefore := hs fun k hk => hloss k (List.mem_append_left _ hk)
  exact step_ownerInside hbefore hl (hloss l (List.mem_append_right _ List.mem_cons_self))

/-- In every run the lock is exclusive and not leaked in all states exactly when no
step of it loses something. -/
theorem lock_kept_iff (ls : List Step) (h : Steps next Possible start ls) :
    (∀ done, done <+: ls → Exclusive (after next start done) ∧ NotLeaked (after next start done)) ↔
      ∀ l ∈ ls, Lossless l := by
  constructor
  · intro hkept l hl
    obtain ⟨before, rest, rfl⟩ := List.append_of_mem hl
    by_contra hloss
    have hsplit : before ++ l :: rest = (before ++ [l]) ++ rest := by simp
    rw [hsplit] at h hkept
    obtain ⟨hbefore, hpossible⟩ := (steps_snoc start before l).mp h.of_append
    have hleaked := (hkept (before ++ [l]) (List.prefix_append _ _)).2
    rw [after_snoc] at hleaked
    exact leaked_of_not_lossless (insideOwns_of_steps hbefore) hpossible hloss hleaked
  · intro hloss done hdone
    obtain ⟨rest, rfl⟩ := hdone
    have hsteps := h.of_append
    have howner := ownerInside_of_lossless hsteps fun l hl =>
      hloss l (List.mem_append_left rest hl)
    exact ⟨(insideOwns_of_steps hsteps).exclusive, howner.notLeaked⟩

/-- The second provisioner waits until the first has left. -/
def handOver : List Step :=
  [.enter 0, .mkdir 0 true .ok false, .enter 1, .mkdir 1 false .held false, .rm 0 true .ok,
    .mkdir 1 true .ok false, .rm 1 true .ok]

theorem lock_kept_iff_handOver :
    (∀ done, done <+: handOver →
      Exclusive (after next start done) ∧ NotLeaked (after next start done)) ↔
      ∀ l ∈ handOver, Lossless l :=
  lock_kept_iff handOver (by decide)

/-- `mkdir` took effect and the runner raised. -/
def lostMkdir : List Step := [.enter 0, .mkdir 0 true .raised false]

theorem lostMkdir_leaks : Steps next Possible start lostMkdir ∧
    ¬ ∀ done, done <+: lostMkdir →
      Exclusive (after next start done) ∧ NotLeaked (after next start done) := by
  refine ⟨by decide, fun h => ?_⟩
  exact (h lostMkdir List.prefix_rfl).2 0 rfl rfl

end RemoteLock
end Provisioning
end RocmTests

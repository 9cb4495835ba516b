import RocmTests.Conc.Logic

/-!
# Interleaved executions

A `System` gives the shared state the actions work on.  `exec` performs one
action atomically.  Its `Choice` argument resolves what the state does not
determine (a clock reading, the next call a client makes), so a schedule is a
list of `Event`s and running it is a computation.  A fault changes the state and
stops the threads it kills.

`Ownership` connects a system to the assertions of `Safe`.  Its invariant
relates the shared state to what every thread owns, and the two obligations say
that one action and one fault keep it.  `Ownership.reachable` is the rule the
developments use: whatever the interleaving, some division of ownership among
the threads satisfies the invariant.
-/

namespace RocmTests
namespace Conc

structure System where
  Tid : Type
  [decTid : DecidableEq Tid]
  Op : Type
  Resp : Op → Type
  State : Type
  Choice : Type
  exec : Tid → (o : Op) → Choice → State → Option (Resp o × State)
  Fault : Type
  fault : Fault → State → State
  kills : Fault → Tid → Bool

attribute [instance] System.decTid

namespace System

variable (M : System)

structure Config where
  st : M.State
  thr : M.Tid → Prog M.Op M.Resp Unit

inductive Event where
  | run (t : M.Tid) (ch : M.Choice)
  | fault (f : M.Fault)

variable {M}

/-- Thread `t` takes one step.  A returned thread has none to take. -/
def advance (t : M.Tid) (ch : M.Choice) (st : M.State) :
    Prog M.Op M.Resp Unit → Option (M.State × Prog M.Op M.Resp Unit)
  | .ret _ => none
  | .act o k => (M.exec t o ch st).map fun x => (x.2, k x.1)
  | .loop body s k => some (st, Prog.unfoldLoop body k s)

def step (c : M.Config) : M.Event → Option M.Config
  | .run t ch =>
    (advance t ch c.st (c.thr t)).map fun x => ⟨x.1, Function.update c.thr t x.2⟩
  | .fault f =>
    some ⟨M.fault f c.st, fun t => if M.kills f t then .ret () else c.thr t⟩

/-- Run a schedule, failing if some event is not possible where it stands. -/
def run (c : M.Config) : List M.Event → Option M.Config
  | [] => some c
  | e :: es => (step c e).bind fun c' => run c' es

def Reachable (c c' : M.Config) : Prop := ∃ es, run c es = some c'

/-- Restrict a system to the actions that meet a condition on the state they
start from and the choice they are given.  Its runs are the runs of `M` all of
whose actions meet it. -/
def guarded (M : System) (g : M.Tid → M.Op → M.Choice → M.State → Bool) : System :=
  { M with exec := fun t o ch s => if g t o ch s then M.exec t o ch s else none }

/-- The same configuration, with the run from here on restricted. -/
def Config.under (c : M.Config) (g : M.Tid → M.Op → M.Choice → M.State → Bool) :
    (M.guarded g).Config :=
  ⟨c.st, c.thr⟩

theorem guarded_exec {g : M.Tid → M.Op → M.Choice → M.State → Bool} {t : M.Tid} {o : M.Op}
    {ch : M.Choice} {s : M.State} {x : M.Resp o × M.State}
    (h : (M.guarded g).exec t o ch s = some x) :
    g t o ch s = true ∧ M.exec t o ch s = some x := by
  unfold guarded at h
  by_cases hg : g t o ch s = true
  · simp only [hg, if_true] at h
    exact ⟨hg, h⟩
  · simp [hg] at h

/-- A property kept by every event holds in every reachable configuration. -/
theorem Reachable.induct {P : M.Config → Prop} {c c' : M.Config} (h : Reachable c c')
    (h0 : P c) (hstep : ∀ d e d', P d → step d e = some d' → P d') : P c' := by
  obtain ⟨es, hes⟩ := h
  induction es generalizing c with
  | nil => cases hes; exact h0
  | cons e es ih =>
    obtain ⟨d, hd, hrest⟩ := Option.bind_eq_some_iff.mp hes
    exact ih (hstep c e d h0 hd) hrest

/-- A property of the shared state that every action and every fault keeps holds
in every reachable configuration, whatever the threads run. -/
theorem Reachable.stateInduct {P : M.State → Prop} {c c' : M.Config} (h : Reachable c c')
    (h0 : P c.st)
    (hact : ∀ t o ch s b s', P s → M.exec t o ch s = some (b, s') → P s')
    (hfault : ∀ f s, P s → P (M.fault f s)) : P c'.st := by
  refine h.induct (P := fun d => P d.st) h0 ?_
  intro d e d' hd he
  cases e with
  | run t ch =>
    obtain ⟨⟨s', p'⟩, hadv, heq⟩ := Option.map_eq_some_iff.mp he
    cases heq
    cases hp : d.thr t with
    | ret _ =>
      rw [hp] at hadv
      cases hadv
    | act o k =>
      rw [hp] at hadv
      obtain ⟨⟨b, st⟩, hexec, hpair⟩ := Option.map_eq_some_iff.mp hadv
      cases hpair
      exact hact t o ch d.st b st hd hexec
    | loop body i k =>
      rw [hp] at hadv
      cases hadv
      exact hd
  | fault f =>
    cases he
    exact hfault f d.st hd

end System

structure Ownership (M : System) where
  R : Type
  actions : M.Tid → Actions M.Op M.Resp R
  Inv : M.State → (M.Tid → R) → Prop
  act_ok : ∀ {s s' : M.State} {res : M.Tid → R} {t : M.Tid} {o : M.Op} {ch : M.Choice}
    {b : M.Resp o}, Inv s res → (actions t).pre o (res t) → M.exec t o ch s = some (b, s') →
      ∃ r', (actions t).post o (res t) b r' ∧ Inv s' (Function.update res t r')
  fault_ok : ∀ {s : M.State} {res : M.Tid → R} (f : M.Fault), Inv s res →
    ∃ res', (∀ t, M.kills f t = false → res' t = res t) ∧ Inv (M.fault f s) res'

namespace Ownership

variable {M : System} (O : Ownership M)

/-- Some division of ownership satisfies the invariant and lets every thread run
the rest of its program. -/
def Holds (c : M.Config) : Prop :=
  ∃ res, O.Inv c.st res ∧ ∀ t, Safe (O.actions t) (c.thr t) (fun _ _ => True) (res t)

variable {O}

theorem advance_ok {t : M.Tid} {ch : M.Choice} {s s' : M.State}
    {p p' : Prog M.Op M.Resp Unit} {res : M.Tid → O.R} (hinv : O.Inv s res)
    (hp : Safe (O.actions t) p (fun _ _ => True) (res t))
    (h : System.advance t ch s p = some (s', p')) :
    ∃ r', O.Inv s' (Function.update res t r') ∧
      Safe (O.actions t) p' (fun _ _ => True) r' := by
  cases p with
  | ret _ => cases h
  | act o k =>
    obtain ⟨⟨b, st⟩, hexec, heq⟩ := Option.map_eq_some_iff.mp h
    cases heq
    cases hp with
    | act hpre hk =>
      obtain ⟨r', hpost, hinv'⟩ := O.act_ok hinv hpre hexec
      exact ⟨r', hinv', hk b r' hpost⟩
  | loop body i k =>
    cases h
    exact ⟨res t, by rwa [Function.update_eq_self], hp.unfoldLoop⟩

theorem step_ok {c c' : M.Config} {e : M.Event} (h : O.Holds c)
    (he : System.step c e = some c') : O.Holds c' := by
  obtain ⟨res, hinv, hthr⟩ := h
  cases e with
  | run t ch =>
    obtain ⟨⟨s', p'⟩, hadv, heq⟩ := Option.map_eq_some_iff.mp he
    cases heq
    obtain ⟨r', hinv', hp'⟩ := advance_ok hinv (hthr t) hadv
    refine ⟨Function.update res t r', hinv', fun u => ?_⟩
    by_cases hu : u = t
    · subst hu
      simpa using hp'
    · simpa [hu] using hthr u
  | fault f =>
    cases he
    obtain ⟨res', hsame, hinv'⟩ := O.fault_ok f hinv
    refine ⟨res', hinv', fun t => ?_⟩
    cases hk : M.kills f t with
    | true => simpa [hk] using Safe.ret trivial
    | false => simpa [hk, hsame t hk] using hthr t

theorem reachable {c c' : M.Config} (h0 : O.Holds c) (h : System.Reachable c c') :
    O.Holds c' :=
  h.induct h0 fun _ _ _ => step_ok

end Ownership

end Conc
end RocmTests

import RocmTests.Conc.Logic

/-!
# Sequential executions

One thread runs alone on a state of its own while the environment supplies an
input to each action.  `runSeq` is the run; it consumes one input per action and
one per loop iteration, so it recurses on the inputs and needs no other bound.
`none` means that the inputs ran out or that an action was not possible.

`runSeq_owned` connects the run to the assertions of `Safe`.
-/

namespace RocmTests
namespace Conc

variable {Op : Type} {Resp : Op → Type} {S E α β : Type}

def runSeq (exec : (o : Op) → E → S → Option (Resp o × S)) :
    List E → Prog Op Resp α → S → Option (α × List E × S)
  | es, .ret a, s => some (a, es, s)
  | [], .act _ _, _ => none
  | [], .loop _ _ _, _ => none
  | e :: es, .act o k, s => (exec o e s).bind fun x => runSeq exec es (k x.1) x.2
  | _ :: es, .loop body i k, s => runSeq exec es (Prog.unfoldLoop body k i) s

variable {exec : (o : Op) → E → S → Option (Resp o × S)}

/-- When every action keeps the relation `I` between the state and what the
thread owns, a run ends as the assertion says. -/
theorem runSeq_owned {R : Type} {A : Actions Op Resp R} {I : S → R → Prop}
    (hact : ∀ {o e s b s' r}, I s r → A.pre o r → exec o e s = some (b, s') →
      ∃ r', A.post o r b r' ∧ I s' r') {Q : α → R → Prop} :
    ∀ {es : List E} {p : Prog Op Resp α} {s : S} {r : R} {a : α} {rest : List E} {s' : S},
      I s r → Safe A p Q r → runSeq exec es p s = some (a, rest, s') →
        ∃ r', Q a r' ∧ I s' r' := by
  intro es
  induction es with
  | nil =>
    intro p s r a rest s' hinv hp h
    cases p with
    | ret x => cases h; cases hp with | ret hq => exact ⟨r, hq, hinv⟩
    | act o k => simp [runSeq] at h
    | loop body i k => simp [runSeq] at h
  | cons e es ih =>
    intro p s r a rest s' hinv hp h
    cases p with
    | ret x => cases h; cases hp with | ret hq => exact ⟨r, hq, hinv⟩
    | act o k =>
      rw [runSeq] at h
      obtain ⟨⟨b, t⟩, hexec, hrun⟩ := Option.bind_eq_some_iff.mp h
      cases hp with
      | act hpre hk =>
        obtain ⟨r', hpost, hinv'⟩ := hact hinv hpre hexec
        exact ih hinv' (hk b r' hpost) hrun
    | loop body i k =>
      rw [runSeq] at h
      exact ih hinv hp.unfoldLoop h

/-- A run of a composite is a run of the first part followed by a run of the
second from where the first stopped. -/
theorem runSeq_bind (f : α → Prog Op Resp β) :
    ∀ (es : List E) (p : Prog Op Resp α) (s : S),
      runSeq exec es (p.bind f) s =
        (runSeq exec es p s).bind fun x => runSeq exec x.2.1 (f x.1) x.2.2 := by
  intro es
  induction es with
  | nil =>
    intro p s
    cases p with
    | ret x => simp [runSeq]
    | act o k => simp [runSeq]
    | loop body i k => simp [runSeq]
  | cons e es ih =>
    intro p s
    cases p with
    | ret x => simp [runSeq]
    | act o k =>
      rw [Prog.act_bind, runSeq, runSeq]
      cases exec o e s with
      | none => rfl
      | some x => exact ih (k x.1) x.2
    | loop body i k =>
      rw [Prog.loop_bind, runSeq, runSeq, Prog.unfoldLoop_bind]
      exact ih (Prog.unfoldLoop body k i) s

theorem runSeq_perform (o : Op) (f : Resp o → Prog Op Resp β) (e : E) (es : List E) (s : S) :
    runSeq exec (e :: es) ((Prog.perform o).bind f) s =
      (exec o e s).bind fun x => runSeq exec es (f x.1) x.2 := rfl

theorem runSeq_ret (es : List E) (a : α) (s : S) :
    runSeq exec es (.ret a : Prog Op Resp α) s = some (a, es, s) := by
  cases es <;> rfl

/-- A part of the state that the program does not see changes nothing about the run. -/
theorem runSeq_project {S' : Type} {exec' : (o : Op) → E → S' → Option (Resp o × S')} (f : S' → S)
    (hexec : ∀ o e s, (exec' o e s).map (fun x => (x.1, f x.2)) = exec o e (f s)) :
    ∀ (es : List E) (p : Prog Op Resp α) (s : S'),
      (runSeq exec' es p s).map (fun x => (x.1, x.2.1, f x.2.2)) = runSeq exec es p (f s) := by
  intro es
  induction es with
  | nil =>
    intro p s
    cases p <;> rfl
  | cons e es ih =>
    intro p s
    cases p with
    | ret x => rfl
    | act o k =>
      rw [runSeq, runSeq, ← hexec o e s]
      cases exec' o e s with
      | none => rfl
      | some x => exact ih (k x.1) x.2
    | loop body i k => exact ih (Prog.unfoldLoop body k i) s

/-! ## Straight-line programs -/

/-- A program without loops all of whose actions satisfy `P`. -/
inductive Straight (P : Op → Prop) : {α : Type} → Prog Op Resp α → Prop where
  | ret {α : Type} {a : α} : Straight P (.ret a)
  | act {α : Type} {o : Op} {k : Resp o → Prog Op Resp α} (ho : P o)
      (hk : ∀ b, Straight P (k b)) : Straight P (.act o k)

namespace Straight

variable {P : Op → Prop}

theorem bind {p : Prog Op Resp α} (h : Straight P p) :
    ∀ {f : α → Prog Op Resp β}, (∀ a, Straight P (f a)) → Straight P (p.bind f) := by
  induction h with
  | ret => intro f hf; exact hf _
  | act ho _ ih => intro f hf; exact .act ho fun b => ih b hf

theorem forEach {ε : Type} {f : ε → Prog Op Resp Unit} {xs : List ε}
    (h : ∀ x ∈ xs, Straight P (f x)) : Straight P (Prog.forEach f xs) := by
  induction xs with
  | nil => exact .ret
  | cons x xs ih =>
    have hrest := ih fun y hy => h y (List.mem_cons_of_mem _ hy)
    exact (h x List.mem_cons_self).bind fun _ => hrest

theorem mono {P' : Op → Prop} (hP : ∀ o, P o → P' o) {p : Prog Op Resp α} (h : Straight P p) :
    Straight P' p := by
  induction h with
  | ret => exact .ret
  | act ho _ ih => exact .act (hP _ ho) ih

/-- When no action can block, the program ends on every stream of inputs. -/
theorem finishes (hexec : ∀ o e s, P o → ∃ x, exec o e s = some x) {p : Prog Op Resp α}
    (h : Straight P p) :
    ∀ (inputs : Nat → E) (s : S), ∃ n a s',
      runSeq exec ((List.range n).map inputs) p s = some (a, [], s') := by
  induction h with
  | ret => intro inputs s; exact ⟨0, _, s, rfl⟩
  | act ho _ ih =>
    intro inputs s
    obtain ⟨x, hx⟩ := hexec _ (inputs 0) s ho
    obtain ⟨n, a, s', hrun⟩ := ih x.1 (fun i => inputs (i + 1)) x.2
    refine ⟨n + 1, a, s', ?_⟩
    rw [List.range_succ_eq_map, List.map_cons, List.map_map, runSeq, hx]
    exact hrun

/-- What every action of the program keeps holds when it ends. -/
theorem keeps {I : S → Prop}
    (hkeep : ∀ o e s b s', P o → I s → exec o e s = some (b, s') → I s') {p : Prog Op Resp α}
    (h : Straight P p) :
    ∀ {es : List E} {s : S} {a : α} {rest : List E} {s' : S}, I s →
      runSeq exec es p s = some (a, rest, s') → I s' := by
  induction h with
  | ret =>
    intro es s a rest s' hs hrun
    rw [runSeq_ret] at hrun
    cases hrun
    exact hs
  | act ho _ ih =>
    intro es s a rest s' hs hrun
    cases es with
    | nil => simp [runSeq] at hrun
    | cons e es =>
      rw [runSeq] at hrun
      obtain ⟨⟨b, t⟩, hexec, hrun⟩ := Option.bind_eq_some_iff.mp hrun
      exact ih b (hkeep _ e s b t ho hs hexec) hrun

end Straight

/-! ## Actions that the state determines -/

/-- The one run of a program on a machine without inputs.  `none` at a loop,
which has no bound here, and at an action that is not possible. -/
def evaluate (exec : (o : Op) → S → Option (Resp o × S)) {α : Type} :
    Prog Op Resp α → S → Option (α × S)
  | .ret a, s => some (a, s)
  | .act o k, s => (exec o s).bind fun x => evaluate exec (k x.1) x.2
  | .loop _ _ _, _ => none

section

variable {exec : (o : Op) → S → Option (Resp o × S)}

theorem evaluate_perform {o : Op} {f : Resp o → Prog Op Resp β} {s s' : S} {b : Resp o}
    (h : exec o s = some (b, s')) :
    evaluate exec ((Prog.perform o).bind f) s = evaluate exec (f b) s' := by
  show (exec o s).bind _ = _
  rw [h]
  rfl

theorem evaluate_bind (f : α → Prog Op Resp β) (p : Prog Op Resp α) :
    ∀ s, evaluate exec (p.bind f) s =
      (evaluate exec p s).bind fun x => evaluate exec (f x.1) x.2 := by
  induction p with
  | ret a => exact fun s => rfl
  | act o k ih =>
    intro s
    rw [Prog.act_bind, evaluate, evaluate]
    cases exec o s with
    | none => rfl
    | some x => exact ih x.1 f x.2
  | loop body i k _ _ => exact fun s => rfl

theorem evaluate_bind_of {f : α → Prog Op Resp β} {p : Prog Op Resp α} {s s' : S} {a : α}
    (h : evaluate exec p s = some (a, s')) :
    evaluate exec (p.bind f) s = evaluate exec (f a) s' := by
  rw [evaluate_bind, h]
  rfl

/-- It is a sequential execution whose inputs say nothing. -/
theorem runSeq_of_evaluate {p : Prog Op Resp α} :
    ∀ {s : S} {a : α} {s' : S}, evaluate exec p s = some (a, s') →
      ∃ es : List Unit, runSeq (fun o _ => exec o) es p s = some (a, [], s') := by
  induction p with
  | ret a =>
    intro s b s' h
    cases h
    exact ⟨[], rfl⟩
  | act o k ih =>
    intro s a s' h
    rw [evaluate] at h
    obtain ⟨x, hexec, h⟩ := Option.bind_eq_some_iff.mp h
    obtain ⟨es, hrun⟩ := ih x.1 h
    refine ⟨() :: es, ?_⟩
    rw [runSeq, hexec]
    exact hrun
  | loop body i k _ _ =>
    intro s a s' h
    cases h

end

end Conc
end RocmTests

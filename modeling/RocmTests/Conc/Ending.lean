import RocmTests.Conc.Seq

/-!
# Programs that end

On a machine whose actions the state determines, a program with loops either has
one finite run or none.  `Ends` says that it has one and where it leads.  A loop
ends when every iteration that goes on makes a measure smaller.
-/

namespace RocmTests
namespace Conc

variable {Op : Type} {Resp : Op → Type} {S E α β σ : Type}

/-- Inputs that a run does not reach are left as they were. -/
theorem runSeq_append {exec : (o : Op) → E → S → Option (Resp o × S)} (more : List E) :
    ∀ {es rest : List E} {p : Prog Op Resp α} {s s' : S} {a : α},
      runSeq exec es p s = some (a, rest, s') →
        runSeq exec (es ++ more) p s = some (a, rest ++ more, s') := by
  intro es
  induction es with
  | nil =>
    intro rest p s s' a h
    cases p with
    | ret x =>
      cases h
      exact runSeq_ret more a s
    | act o k => cases h
    | loop body i k => cases h
  | cons e es ih =>
    intro rest p s s' a h
    cases p with
    | ret x =>
      cases h
      rfl
    | act o k =>
      rw [runSeq] at h
      obtain ⟨x, hexec, hrun⟩ := Option.bind_eq_some_iff.mp h
      rw [List.cons_append, runSeq, hexec]
      exact ih hrun
    | loop body i k => exact ih (p := Prog.unfoldLoop body k i) h

/-- A run uses a first part of its inputs. -/
theorem runSeq_used {exec : (o : Op) → E → S → Option (Resp o × S)} :
    ∀ {es rest : List E} {p : Prog Op Resp α} {s s' : S} {a : α},
      runSeq exec es p s = some (a, rest, s') →
        ∃ used, es = used ++ rest ∧ runSeq exec used p s = some (a, [], s') := by
  intro es
  induction es with
  | nil =>
    intro rest p s s' a h
    cases p with
    | ret x =>
      cases h
      exact ⟨[], rfl, rfl⟩
    | act o k => cases h
    | loop body i k => cases h
  | cons e es ih =>
    intro rest p s s' a h
    cases p with
    | ret x =>
      cases h
      exact ⟨[], rfl, rfl⟩
    | act o k =>
      rw [runSeq] at h
      obtain ⟨x, hexec, hrun⟩ := Option.bind_eq_some_iff.mp h
      obtain ⟨used, rfl, hused⟩ := ih hrun
      refine ⟨e :: used, rfl, ?_⟩
      rw [runSeq, hexec]
      exact hused
    | loop body i k =>
      obtain ⟨used, rfl, hused⟩ := ih (p := Prog.unfoldLoop body k i) h
      exact ⟨e :: used, rfl, hused⟩

/-- The program ends with `a` in the state `s'`. -/
def Ends (exec : (o : Op) → S → Option (Resp o × S)) (p : Prog Op Resp α) (s : S) (a : α)
    (s' : S) : Prop :=
  ∃ es : List Unit, runSeq (fun o _ => exec o) es p s = some (a, [], s')

namespace Ends

variable {exec : (o : Op) → S → Option (Resp o × S)}

theorem ret (a : α) (s : S) : Ends exec (.ret a : Prog Op Resp α) s a s := ⟨[], rfl⟩

theorem of_evaluate {p : Prog Op Resp α} {s s' : S} {a : α}
    (h : evaluate exec p s = some (a, s')) : Ends exec p s a s' :=
  runSeq_of_evaluate h

theorem bind {p : Prog Op Resp α} {f : α → Prog Op Resp β} {s t s' : S} {a : α} {b : β}
    (hp : Ends exec p s a t) (hf : Ends exec (f a) t b s') : Ends exec (p.bind f) s b s' := by
  obtain ⟨es, hrun⟩ := hp
  obtain ⟨es', hrun'⟩ := hf
  refine ⟨es ++ es', ?_⟩
  rw [runSeq_bind, runSeq_append es' hrun, Option.bind_some, List.nil_append]
  exact hrun'

theorem perform {o : Op} {f : Resp o → Prog Op Resp β} {s t s' : S} {x : Resp o} {b : β}
    (ho : exec o s = some (x, t)) (hf : Ends exec (f x) t b s') :
    Ends exec ((Prog.perform o).bind f) s b s' := by
  obtain ⟨es, hrun⟩ := hf
  refine ⟨() :: es, ?_⟩
  rw [runSeq_perform, ho, Option.bind_some]
  exact hrun

theorem perform_iff {o : Op} {f : Resp o → Prog Op Resp β} {s t s' : S} {x : Resp o} {b : β}
    (ho : exec o s = some (x, t)) :
    Ends exec ((Prog.perform o).bind f) s b s' ↔ Ends exec (f x) t b s' := by
  refine ⟨fun ⟨es, h⟩ => ?_, perform ho⟩
  cases es with
  | nil => cases h
  | cons e es =>
    rw [runSeq_perform, ho, Option.bind_some] at h
    exact ⟨es, h⟩

theorem next {body : σ → Prog Op Resp (σ ⊕ β)} {i j : σ} {s t s' : S} {b : β}
    (hbody : Ends exec (body i) s (.inl j) t) (hrest : Ends exec (Prog.iter body j) t b s') :
    Ends exec (Prog.iter body i) s b s' := by
  have hunfold : Ends exec (Prog.unfoldLoop body Prog.ret i) s b s' := hbody.bind hrest
  obtain ⟨es, hrun⟩ := hunfold
  exact ⟨() :: es, hrun⟩

theorem last {body : σ → Prog Op Resp (σ ⊕ β)} {i : σ} {s s' : S} {b : β}
    (hbody : Ends exec (body i) s (.inr b) s') : Ends exec (Prog.iter body i) s b s' := by
  have hunfold : Ends exec (Prog.unfoldLoop body Prog.ret i) s b s' := hbody.bind (ret b s')
  obtain ⟨es, hrun⟩ := hunfold
  exact ⟨() :: es, hrun⟩

/-- The state determines the run. -/
theorem unique {p : Prog Op Resp α} {s t t' : S} {a b : α} (ha : Ends exec p s a t)
    (hb : Ends exec p s b t') : a = b ∧ t = t' := by
  obtain ⟨es, hrun⟩ := ha
  obtain ⟨es', hrun'⟩ := hb
  have hsame := runSeq_append es' hrun
  have hcomm : es ++ es' = es' ++ es :=
    List.ext_getElem (by rw [List.length_append, List.length_append, Nat.add_comm])
      fun _ _ _ => rfl
  rw [hcomm, runSeq_append es hrun'] at hsame
  cases hsame
  exact ⟨rfl, rfl⟩

theorem bind_iff {p : Prog Op Resp α} {f : α → Prog Op Resp β} {s s' : S} {b : β} :
    Ends exec (p.bind f) s b s' ↔ ∃ a t, Ends exec p s a t ∧ Ends exec (f a) t b s' := by
  constructor
  · intro ⟨es, h⟩
    rw [runSeq_bind] at h
    obtain ⟨⟨a, mid, t⟩, hp, hf⟩ := Option.bind_eq_some_iff.mp h
    obtain ⟨used, _, hused⟩ := runSeq_used hp
    exact ⟨a, t, ⟨used, hused⟩, mid, hf⟩
  · intro ⟨a, t, hp, hf⟩
    exact hp.bind hf

/-- What a loop ended with came from its first iteration or from the rest. -/
theorem first {body : σ → Prog Op Resp (σ ⊕ β)} {i : σ} {s s' : S} {b : β}
    (h : Ends exec (Prog.iter body i) s b s') :
    ∃ x t, Ends exec (body i) s x t ∧
      Ends exec (Sum.elim (fun j => Prog.iter body j) Prog.ret x) t b s' := by
  obtain ⟨es, h⟩ := h
  cases es with
  | nil => cases h
  | cons e es =>
    have hunfold : Ends exec (Prog.unfoldLoop body Prog.ret i) s b s' := ⟨es, h⟩
    obtain ⟨x, t, hx, hrest⟩ := bind_iff.mp hunfold
    refine ⟨x, t, hx, ?_⟩
    cases x with
    | inl j => exact hrest
    | inr b => exact hrest

/-- A loop that goes on goes on from the next state. -/
theorem iter_of_next {body : σ → Prog Op Resp (σ ⊕ β)} {i j : σ} {s t s' : S} {b : β}
    (hbody : Ends exec (body i) s (.inl j) t) :
    Ends exec (Prog.iter body i) s b s' ↔ Ends exec (Prog.iter body j) t b s' := by
  refine ⟨fun h => ?_, fun h => hbody.next h⟩
  obtain ⟨x, u, hx, hrest⟩ := first h
  obtain ⟨rfl, rfl⟩ := hbody.unique hx
  exact hrest

/-- What every action keeps holds when the program ends. -/
theorem keeps {I : S → Prop} (hkeep : ∀ o s b s', I s → exec o s = some (b, s') → I s')
    {p : Prog Op Resp α} {s s' : S} {a : α} (hs : I s) (h : Ends exec p s a s') : I s' := by
  obtain ⟨es, hrun⟩ := h
  obtain ⟨A, hA⟩ : ∃ A : Actions Op Resp Unit, A = ⟨fun _ _ => True, fun _ _ _ _ => True⟩ :=
    ⟨_, rfl⟩
  have hall : Safe A p (fun _ _ => True) () := Safe.anything (by rw [hA]; simp) p ()
  have hact : ∀ {o : Op} {e : Unit} {s : S} {b : Resp o} {s' : S} {r : Unit}, I s → A.pre o r →
      exec o s = some (b, s') → ∃ r', A.post o r b r' ∧ I s' := by
    intro o e s b s' r hs _ hexec
    rw [hA]
    exact ⟨(), trivial, hkeep o s b s' hs hexec⟩
  obtain ⟨_, _, hs'⟩ := runSeq_owned (I := fun s _ => I s)
    (fun hs hpre hexec => hact (e := ()) hs hpre hexec) hs hall hrun
  exact hs'

/-- Total correctness of a loop.  `I` holds before every iteration, and the measure
falls in each that goes on. -/
theorem iter {body : σ → Prog Op Resp (σ ⊕ β)} {I : σ → S → Prop} {Q : β → S → Prop}
    (measure : S → Nat)
    (hbody : ∀ i s, I i s → (∃ j t, Ends exec (body i) s (.inl j) t ∧ I j t ∧
      measure t < measure s) ∨ ∃ b s', Ends exec (body i) s (.inr b) s' ∧ Q b s') :
    ∀ {i : σ} {s : S}, I i s → ∃ b s', Ends exec (Prog.iter body i) s b s' ∧ Q b s' := by
  have bounded : ∀ (n : Nat) (i : σ) (s : S), measure s < n → I i s →
      ∃ b s', Ends exec (Prog.iter body i) s b s' ∧ Q b s' := by
    intro n
    induction n with
    | zero =>
      intro i s hlt _
      exact absurd hlt (Nat.not_lt_zero _)
    | succ n ih =>
      intro i s hlt hi
      rcases hbody i s hi with ⟨j, t, hrun, hj, hless⟩ | ⟨b, s', hrun, hq⟩
      · obtain ⟨b, s', hrest, hq⟩ := ih j t (by omega) hj
        exact ⟨b, s', hrun.next hrest, hq⟩
      · exact ⟨b, s', last hrun, hq⟩
  exact fun {i s} hi => bounded (measure s + 1) i s (Nat.lt_succ_self _) hi

end Ends

end Conc
end RocmTests

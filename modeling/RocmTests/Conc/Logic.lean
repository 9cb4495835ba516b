import RocmTests.Conc.Prog

/-!
# Ownership assertions for programs

`Safe A p Q r` says that a thread owning `r` may run `p`: each action it reaches
meets the action's precondition on what the thread owns at that moment, and if
`p` returns `a` the thread then owns some `r'` with `Q a r'`.  What a thread
owns is a value of an arbitrary type `R`, and an `Actions` table says how each
action changes it.  Nothing here mentions a shared state.  That is added by the
two semantics that use the table, the interleaved one and the sequential one.
-/

namespace RocmTests
namespace Conc

/-- What each action asks of the thread that performs it and what it gives
back. -/
structure Actions (Op : Type) (Resp : Op → Type) (R : Type) where
  pre : Op → R → Prop
  post : (o : Op) → R → Resp o → R → Prop

variable {Op : Type} {Resp : Op → Type} {R : Type}

inductive Safe (A : Actions Op Resp R) :
    {α : Type} → Prog Op Resp α → (α → R → Prop) → R → Prop where
  | ret {α : Type} {a : α} {Q : α → R → Prop} {r : R} (h : Q a r) : Safe A (.ret a) Q r
  | act {α : Type} {o : Op} {k : Resp o → Prog Op Resp α} {Q : α → R → Prop} {r : R}
      (hpre : A.pre o r)
      (hk : ∀ b r', A.post o r b r' → Safe A (k b) Q r') : Safe A (.act o k) Q r
  | loop {σ β α : Type} {body : σ → Prog Op Resp (σ ⊕ β)} {s : σ}
      {k : β → Prog Op Resp α} {Q : α → R → Prop} {r : R}
      (I : σ → R → Prop) (N : β → R → Prop) (hI : I s r)
      (hbody : ∀ s' r', I s' r' →
        Safe A (body s') (fun x r'' => Sum.elim (I · r'') (N · r'') x) r')
      (hk : ∀ b r', N b r' → Safe A (k b) Q r') : Safe A (.loop body s k) Q r

namespace Safe

variable {A : Actions Op Resp R} {α β σ ε : Type}

theorem bind {p : Prog Op Resp α} {Q : α → R → Prop} {r : R} (h : Safe A p Q r) :
    ∀ {f : α → Prog Op Resp β} {Q' : β → R → Prop},
      (∀ a r', Q a r' → Safe A (f a) Q' r') → Safe A (p.bind f) Q' r := by
  induction h with
  | ret ha => intro f Q' hf; exact hf _ _ ha
  | act hpre _ ih => intro f Q' hf; exact .act hpre fun b r' hb => ih b r' hb hf
  | loop I N hI hbody _ _ ihk =>
    intro f Q' hf
    exact .loop I N hI hbody fun b r' hb => ihk b r' hb hf

theorem mono {p : Prog Op Resp α} {Q Q' : α → R → Prop} {r : R} (h : Safe A p Q r)
    (hQ : ∀ a r', Q a r' → Q' a r') : Safe A p Q' r := by
  induction h with
  | ret ha => exact .ret (hQ _ _ ha)
  | act hpre _ ih => exact .act hpre fun b r' hb => ih b r' hb hQ
  | loop I N hI hbody _ _ ihk => exact .loop I N hI hbody fun b r' hb => ihk b r' hb hQ

theorem perform {o : Op} {Q : Resp o → R → Prop} {r : R} (hpre : A.pre o r)
    (hpost : ∀ b r', A.post o r b r' → Q b r') : Safe A (Prog.perform o) Q r :=
  .act hpre fun b r' hb => .ret (hpost b r' hb)

/-- The invariant rule.  `I` holds at the head of every iteration and `Q` of
whatever the loop leaves with. -/
theorem iter {body : σ → Prog Op Resp (σ ⊕ β)} {s : σ} {Q : β → R → Prop} {r : R}
    (I : σ → R → Prop) (hI : I s r)
    (hbody : ∀ s' r', I s' r' →
      Safe A (body s') (fun x r'' => Sum.elim (I · r'') (Q · r'') x) r') :
    Safe A (Prog.iter body s) Q r :=
  .loop I Q hI hbody fun _ _ hb => .ret hb

/-- A loop keeps its assertion across one unfolding. -/
theorem unfoldLoop {body : σ → Prog Op Resp (σ ⊕ β)} {s : σ} {k : β → Prog Op Resp α}
    {Q : α → R → Prop} {r : R} (h : Safe A (.loop body s k) Q r) :
    Safe A (Prog.unfoldLoop body k s) Q r := by
  cases h with
  | loop I N hI hbody hk =>
    refine (hbody s r hI).bind fun x r' hx => ?_
    cases x with
    | inl s' => exact .loop I N hx hbody hk
    | inr b => exact hk b r' hx

/-- Running `f` over a list, when `J rest` is what the thread owns with `rest`
still to do. -/
theorem forEach {f : ε → Prog Op Resp Unit} (J : List ε → R → Prop) :
    ∀ {xs : List ε} {r : R}, J xs r →
      (∀ x rest r', J (x :: rest) r' → Safe A (f x) (fun _ r'' => J rest r'') r') →
      Safe A (Prog.forEach f xs) (fun _ r' => J [] r') r := by
  intro xs
  induction xs with
  | nil => intro r hr _; exact .ret hr
  | cons x rest ih =>
    intro r hr hf
    exact (hf x rest r hr).bind fun _ r' hr' => ih hr' hf

/-- An assertion about a program carries over to the program embedded in a
larger action set, when the larger table asks no more of the embedded actions and
promises no less. -/
theorem mapOp {Op' : Type} {Resp' : Op' → Type} {A' : Actions Op' Resp' R} {f : Op → Op'}
    {g : (o : Op) → Resp' (f o) → Resp o}
    (hpre : ∀ o r, A.pre o r → A'.pre (f o) r)
    (hpost : ∀ o r b r', A'.post (f o) r b r' → A.post o r (g o b) r')
    {p : Prog Op Resp α} {Q : α → R → Prop} {r : R} (h : Safe A p Q r) :
    Safe A' (p.mapOp f g) Q r := by
  induction h with
  | ret ha => exact .ret ha
  | act ho _ ih => exact .act (hpre _ _ ho) fun b r' hb => ih _ _ (hpost _ _ _ _ hb)
  | loop I N hI _ _ ihbody ihk =>
    exact .loop I N hI (fun s' r' hs' => ihbody s' r' hs') fun b r' hb => ihk b r' hb

/-- Every program is safe where the actions ask for nothing. -/
theorem anything (hpre : ∀ o r, A.pre o r) (p : Prog Op Resp α) :
    ∀ r, Safe A p (fun _ _ => True) r := by
  induction p with
  | ret a => exact fun r => .ret trivial
  | act o k ih => exact fun r => .act (hpre o r) fun b r' _ => ih b r'
  | loop body s k ihbody ihk =>
    intro r
    refine .loop (fun _ _ => True) (fun _ _ => True) trivial (fun s' r' _ => ?_)
      fun b r' _ => ihk b r'
    refine (ihbody s' r').mono fun x _ _ => ?_
    cases x with
    | inl s' => trivial
    | inr b => trivial

end Safe

/-! ## Programs that keep to some of the actions -/

/-- The table that only asks which actions are performed. -/
def only (P : Op → Prop) : Actions Op Resp Unit where
  pre o _ := P o
  post _ _ _ _ := True

/-- Every action `p` can perform satisfies `P`. -/
def Performs (P : Op → Prop) {α : Type} (p : Prog Op Resp α) : Prop :=
  Safe (only P) p (fun _ _ => True) ()

namespace Performs

variable {P : Op → Prop} {α β σ ε : Type}

theorem bind {p : Prog Op Resp α} {f : α → Prog Op Resp β} (h : Performs P p)
    (hf : ∀ a, Performs P (f a)) : Performs P (p.bind f) :=
  Safe.bind h fun a _ _ => hf a

theorem iter {body : σ → Prog Op Resp (σ ⊕ β)} {s : σ} (h : ∀ s', Performs P (body s')) :
    Performs P (Prog.iter body s) := by
  refine Safe.iter (fun _ _ => True) trivial fun s' _ _ => ?_
  refine Safe.mono (h s') fun x _ _ => ?_
  cases x with
  | inl _ => trivial
  | inr _ => trivial

theorem forEach {f : ε → Prog Op Resp Unit} {xs : List ε} (h : ∀ x, Performs P (f x)) :
    Performs P (Prog.forEach f xs) :=
  Safe.forEach (fun _ _ => True) trivial fun x _ _ _ => h x

theorem act {o : Op} {k : Resp o → Prog Op Resp α} (ho : P o) (hk : ∀ b, Performs P (k b)) :
    Performs P (.act o k) :=
  Safe.act ho fun b _ _ => hk b

theorem ret {a : α} : Performs P (Prog.ret a : Prog Op Resp α) := Safe.ret trivial

/-- An assertion that all those actions keep holds throughout. -/
theorem safe {A : Actions Op Resp R} {I : R → Prop} {p : Prog Op Resp α} (h : Performs P p)
    (hpre : ∀ o r, P o → I r → A.pre o r)
    (hpost : ∀ o r b r', P o → I r → A.post o r b r' → I r') {r : R} (hr : I r) :
    Safe A p (fun _ r' => I r') r := by
  have main : ∀ {γ : Type} {q : Prog Op Resp γ} {Q : γ → Unit → Prop} {u : Unit},
      Safe (only P) q Q u → ∀ {r : R}, I r → Safe A q (fun a r' => I r' ∧ Q a ()) r := by
    intro γ q Q u hq
    induction hq with
    | ret ha => intro r hr; exact .ret ⟨hr, ha⟩
    | act ho _ ih =>
      intro r hr
      exact .act (hpre _ r ho hr) fun b r' hb => ih b () trivial (hpost _ r b r' ho hr hb)
    | loop J N hJ _ _ ihbody ihk =>
      intro r hr
      refine .loop (fun s r' => I r' ∧ J s ()) (fun b r' => I r' ∧ N b ()) ⟨hr, hJ⟩ ?_ ?_
      · intro s' r' hs'
        refine (ihbody s' () hs'.2 hs'.1).mono fun x r'' hx => ?_
        cases x with
        | inl _ => exact hx
        | inr _ => exact hx
      · intro b r' hb
        exact ihk b () hb.2 hb.1
  exact (main h hr).mono fun _ _ hx => hx.1

theorem mono {P' : Op → Prop} (hP : ∀ o, P o → P' o) {p : Prog Op Resp α} (h : Performs P p) :
    Performs P' p :=
  Safe.mono (h.safe (I := fun _ => True) (fun o _ ho _ => hP o ho) (fun _ _ _ _ _ _ _ => trivial)
    trivial) fun _ _ h => h

end Performs

end Conc
end RocmTests

import Mathlib.Logic.Function.Basic

/-!
# Programs over atomic actions

A `Prog Op Resp α` is the code one thread runs.  It performs actions from `Op`
one at a time, each answered by a response the environment chooses, and returns
an `α`.  Everything between two actions is pure, so an interleaving of threads
is an interleaving of actions.

`loop` is a constructor rather than a derived form.  A polling loop has no bound
on its iterations, and a tree built from `ret` and `act` alone is well founded,
so it could not hold one.
-/

namespace RocmTests
namespace Conc

inductive Prog (Op : Type) (Resp : Op → Type) : Type → Type 1 where
  | ret {α : Type} (a : α) : Prog Op Resp α
  | act {α : Type} (o : Op) (k : Resp o → Prog Op Resp α) : Prog Op Resp α
  | loop {σ β α : Type} (body : σ → Prog Op Resp (σ ⊕ β)) (s : σ)
      (k : β → Prog Op Resp α) : Prog Op Resp α

namespace Prog

variable {Op : Type} {Resp : Op → Type} {α β σ : Type}

def bind {α β : Type} : Prog Op Resp α → (α → Prog Op Resp β) → Prog Op Resp β
  | .ret a, f => f a
  | .act o k, f => .act o fun b => bind (k b) f
  | .loop body s k, f => .loop body s fun b => bind (k b) f

instance : Monad (Prog Op Resp) where
  pure := .ret
  bind := bind

/-- Perform one action and return its response. -/
def perform (o : Op) : Prog Op Resp (Resp o) := .act o .ret

/-- Run `body` until it answers `inr`, carrying the `inl` state between
iterations.  This is `while True` with a `return` inside. -/
def iter (body : σ → Prog Op Resp (σ ⊕ β)) (s : σ) : Prog Op Resp β :=
  .loop body s .ret

/-- One iteration of a loop followed by whatever it decides: another iteration
or the continuation. -/
def unfoldLoop {σ β α : Type} (body : σ → Prog Op Resp (σ ⊕ β))
    (k : β → Prog Op Resp α) (s : σ) : Prog Op Resp α :=
  bind (body s) fun
    | .inl s' => .loop body s' k
    | .inr b => k b

/-- Run `f` on every element in order, for its actions only. -/
def forEach {ε : Type} (f : ε → Prog Op Resp Unit) : List ε → Prog Op Resp Unit
  | [] => .ret ()
  | x :: xs => bind (f x) fun _ => forEach f xs

/-- Run a program of a smaller action set inside a larger one: `f` embeds the
actions and `g` reads the larger set's response back. -/
def mapOp {Op' : Type} {Resp' : Op' → Type} (f : Op → Op')
    (g : (o : Op) → Resp' (f o) → Resp o) {α : Type} :
    Prog Op Resp α → Prog Op' Resp' α
  | .ret a => .ret a
  | .act o k => .act (f o) fun b => mapOp f g (k (g o b))
  | .loop body s k => .loop (fun s => mapOp f g (body s)) s fun b => mapOp f g (k b)

@[simp] theorem pure_eq (a : α) : (pure a : Prog Op Resp α) = .ret a := rfl

@[simp] theorem bind_eq (p : Prog Op Resp α) (f : α → Prog Op Resp β) :
    (p >>= f) = bind p f := rfl

@[simp] theorem ret_bind (a : α) (f : α → Prog Op Resp β) : bind (.ret a) f = f a := rfl

@[simp] theorem act_bind (o : Op) (k : Resp o → Prog Op Resp α) (f : α → Prog Op Resp β) :
    bind (.act o k) f = .act o fun b => bind (k b) f := rfl

@[simp] theorem loop_bind {σ β γ : Type} (body : σ → Prog Op Resp (σ ⊕ β)) (s : σ)
    (k : β → Prog Op Resp α) (f : α → Prog Op Resp γ) :
    bind (.loop body s k) f = .loop body s fun b => bind (k b) f := rfl

theorem bind_assoc {γ : Type} (p : Prog Op Resp α) (f : α → Prog Op Resp β)
    (g : β → Prog Op Resp γ) : bind (bind p f) g = bind p fun a => bind (f a) g := by
  induction p with
  | ret a => rfl
  | act o k ih => simp only [act_bind, ih]
  | loop body s k _ ihk => simp only [loop_bind, ihk]

theorem unfoldLoop_bind {σ β γ : Type} (body : σ → Prog Op Resp (σ ⊕ β)) (s : σ)
    (k : β → Prog Op Resp α) (f : α → Prog Op Resp γ) :
    unfoldLoop body (fun b => bind (k b) f) s = bind (unfoldLoop body k s) f := by
  unfold unfoldLoop
  rw [bind_assoc]
  congr 1
  funext x
  cases x <;> rfl

@[simp] theorem perform_bind (o : Op) (f : Resp o → Prog Op Resp β) :
    bind (perform o) f = .act o f := rfl

end Prog

end Conc
end RocmTests

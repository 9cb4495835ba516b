import RocmTests.Conc.Seq

/-!
# Programs that raise

A step that may raise returns an `Except`.  `thenE` stops at the first exception,
`eachE` and `mapE` do so over a list, and `tryFinally` runs its finaliser
whatever the body ended with.  The body also returns the values its local
variables had when it ended, because the finaliser reads them: an assignment
whose right-hand side raised has not happened.
-/

namespace RocmTests
namespace Conc

variable {Op : Type} {Resp : Op → Type} {ε α β σ ι : Type}

namespace Prog

def thenE (p : Prog Op Resp (Except ε α)) (f : α → Prog Op Resp (Except ε β)) :
    Prog Op Resp (Except ε β) :=
  p.bind fun
    | .error e => .ret (.error e)
    | .ok a => f a

theorem thenE_assoc {γ : Type} (p : Prog Op Resp (Except ε α)) (f : α → Prog Op Resp (Except ε β))
    (g : β → Prog Op Resp (Except ε γ)) :
    (p.thenE f).thenE g = p.thenE fun a => (f a).thenE g := by
  unfold thenE
  rw [bind_assoc]
  congr 1
  funext x
  cases x <;> rfl

/-- `for x in xs: f(x)`. -/
def eachE (f : ι → Prog Op Resp (Except ε Unit)) : List ι → Prog Op Resp (Except ε Unit)
  | [] => .ret (.ok ())
  | x :: xs => thenE (f x) fun _ => eachE f xs

/-- `[f(x) for x in xs]`. -/
def mapE (f : ι → Prog Op Resp (Except ε α)) : List ι → Prog Op Resp (Except ε (List α))
  | [] => .ret (.ok [])
  | x :: xs => thenE (f x) fun a => thenE (mapE f xs) fun as => .ret (.ok (a :: as))

/-- An exception of the finaliser replaces the one on its way. -/
def tryFinally (body : Prog Op Resp (σ × Except ε Unit))
    (fin : σ → Prog Op Resp (Except ε Unit)) : Prog Op Resp (Except ε Unit) :=
  body.bind fun x => (fin x.1).bind fun
    | .error e => .ret (.error e)
    | .ok _ => .ret x.2

end Prog

namespace Straight

variable {P : Op → Prop}

theorem thenE {p : Prog Op Resp (Except ε α)} {f : α → Prog Op Resp (Except ε β)}
    (h : Straight P p) (hf : ∀ a, Straight P (f a)) : Straight P (p.thenE f) := by
  refine h.bind fun x => ?_
  cases x with
  | error e => exact .ret
  | ok a => exact hf a

theorem eachE {f : ι → Prog Op Resp (Except ε Unit)} {xs : List ι}
    (h : ∀ x, Straight P (f x)) : Straight P (Prog.eachE f xs) := by
  induction xs with
  | nil => exact .ret
  | cons x xs ih => exact (h x).thenE fun _ => ih

theorem mapE {f : ι → Prog Op Resp (Except ε α)} {xs : List ι}
    (h : ∀ x, Straight P (f x)) : Straight P (Prog.mapE f xs) := by
  induction xs with
  | nil => exact .ret
  | cons x xs ih => exact (h x).thenE fun _ => ih.thenE fun _ => .ret

theorem tryFinally {body : Prog Op Resp (σ × Except ε Unit)}
    {fin : σ → Prog Op Resp (Except ε Unit)} (h : Straight P body)
    (hf : ∀ l, Straight P (fin l)) : Straight P (Prog.tryFinally body fin) := by
  refine h.bind fun x => (hf x.1).bind fun y => ?_
  cases y with
  | error e => exact .ret
  | ok _ => exact .ret

end Straight

/-- A run of `try`/`finally` is a run of the body followed by a run of the
finaliser, whether or not the body raised. -/
theorem runSeq_tryFinally {S E : Type} {exec : (o : Op) → E → S → Option (Resp o × S)}
    {body : Prog Op Resp (σ × Except ε Unit)} {fin : σ → Prog Op Resp (Except ε Unit)}
    {es rest : List E} {s s' : S} {a : Except ε Unit}
    (h : runSeq exec es (Prog.tryFinally body fin) s = some (a, rest, s')) :
    ∃ x mid t y, runSeq exec es body s = some (x, mid, t) ∧
      runSeq exec mid (fin x.1) t = some (y, rest, s') := by
  unfold Prog.tryFinally at h
  rw [runSeq_bind] at h
  obtain ⟨⟨x, mid, t⟩, hbody, h⟩ := Option.bind_eq_some_iff.mp h
  rw [runSeq_bind] at h
  obtain ⟨⟨y, last, t'⟩, hfin, h⟩ := Option.bind_eq_some_iff.mp h
  cases y with
  | error e =>
    rw [runSeq_ret] at h
    cases h
    exact ⟨x, mid, t, .error e, hbody, hfin⟩
  | ok u =>
    rw [runSeq_ret] at h
    cases h
    exact ⟨x, mid, t, .ok u, hbody, hfin⟩

theorem runSeq_tryFinally_of {S E : Type} {exec : (o : Op) → E → S → Option (Resp o × S)}
    {body : Prog Op Resp (σ × Except ε Unit)} (fin : σ → Prog Op Resp (Except ε Unit))
    {es mid rest : List E} {s t s' : S} {x : σ × Except ε Unit} {y : Except ε Unit}
    (hbody : runSeq exec es body s = some (x, mid, t))
    (hfin : runSeq exec mid (fin x.1) t = some (y, rest, s')) :
    ∃ a, runSeq exec es (Prog.tryFinally body fin) s = some (a, rest, s') := by
  unfold Prog.tryFinally
  rw [runSeq_bind, hbody, Option.bind_some, runSeq_bind, hfin, Option.bind_some]
  cases y with
  | error e => exact ⟨.error e, runSeq_ret rest _ s'⟩
  | ok u => exact ⟨x.2, runSeq_ret rest _ s'⟩

/-!
## Runs with fixed answers

Where the outcome of every action is fixed beforehand, a straight-line program
has one run.  `answered` computes it: the value returned and the actions in
order.  A loop over steps that may raise is then a prefix of its list of steps,
the one that ends at the first step that raises.
-/

variable {Op : Type} {Resp : Op → Type} {ε α β σ ι : Type}

namespace Prog

/-- `none` at a loop and at an action that has no answer. -/
def answered {α : Type} (ans : (o : Op) → Option (Resp o)) :
    Prog Op Resp α → Option (α × List Op)
  | .ret a => some (a, [])
  | .act o k => (ans o).bind fun b => (answered ans (k b)).map fun x => (x.1, o :: x.2)
  | .loop _ _ _ => none

variable {ans : (o : Op) → Option (Resp o)}

@[simp] theorem answered_ret (a : α) : answered ans (.ret a) = some (a, []) := rfl

theorem answered_bind {p : Prog Op Resp α} {f : α → Prog Op Resp β} :
    ∀ {a : α} {os : List Op} {b : β} {os' : List Op}, answered ans p = some (a, os) →
      answered ans (f a) = some (b, os') → answered ans (p.bind f) = some (b, os ++ os') := by
  induction p with
  | ret x =>
    intro a os b os' hp hf
    cases hp
    exact hf
  | act o k ih =>
    intro a os b os' hp hf
    rw [answered] at hp
    obtain ⟨c, hc, hp⟩ := Option.bind_eq_some_iff.mp hp
    obtain ⟨⟨a', rest⟩, hk, hp⟩ := Option.map_eq_some_iff.mp hp
    cases hp
    rw [act_bind, answered, hc, Option.bind_some, ih c hk hf]
    rfl
  | loop body s k _ _ =>
    intro a os b os' hp hf
    cases hp

end Prog

/-- The answered run is the run of every machine that gives the same answers. -/
theorem runSeq_answered {S E : Type} {exec : (o : Op) → E → S → Option (Resp o × S)}
    {ans : (o : Op) → Option (Resp o)} {note : S → Op → S}
    (hexec : ∀ o b e s, ans o = some b → exec o e s = some (b, note s o)) {p : Prog Op Resp α} :
    ∀ {a : α} {os : List Op}, Prog.answered ans p = some (a, os) → ∀ (es rest : List E) (s : S),
      es.length = os.length → runSeq exec (es ++ rest) p s = some (a, rest, os.foldl note s) := by
  induction p with
  | ret x =>
    intro a os hp es rest s hlen
    cases hp
    have hnil : es = [] := List.eq_nil_of_length_eq_zero hlen
    rw [hnil]
    exact runSeq_ret rest x s
  | act o k ih =>
    intro a os hp es rest s hlen
    rw [Prog.answered] at hp
    obtain ⟨c, hc, hp⟩ := Option.bind_eq_some_iff.mp hp
    obtain ⟨⟨a', os'⟩, hk, hp⟩ := Option.map_eq_some_iff.mp hp
    cases hp
    cases es with
    | nil => simp at hlen
    | cons e es =>
      rw [List.cons_append, runSeq, hexec o c e s hc, Option.bind_some]
      exact ih c hk es rest (note s o) (by simpa using hlen)
  | loop body i k _ _ =>
    intro a os hp es rest s hlen
    cases hp

/-! ### Loops over steps that may raise -/

section

variable (raises : ι → Bool)

/-- The steps a loop takes: those before the first that raises, and that one. -/
def upToRaise : List ι → List ι
  | [] => []
  | x :: xs => if raises x then [x] else x :: upToRaise xs

variable {raises}

theorem upToRaise_of_quiet {xs : List ι} (h : ∀ x ∈ xs, raises x = false) :
    upToRaise raises xs = xs := by
  induction xs with
  | nil => rfl
  | cons x xs ih =>
    rw [upToRaise, h x List.mem_cons_self, ih fun y hy => h y (List.mem_cons_of_mem _ hy)]
    rfl

theorem mem_of_mem_upToRaise {xs : List ι} {x : ι} (h : x ∈ upToRaise raises xs) : x ∈ xs := by
  induction xs with
  | nil => exact h
  | cons y ys ih =>
    rw [upToRaise] at h
    split at h
    · rw [List.mem_singleton.mp h]
      exact List.mem_cons_self
    · rcases List.mem_cons.mp h with h | h
      · rw [h]
        exact List.mem_cons_self
      · exact List.mem_cons_of_mem _ (ih h)

theorem upToRaise_append_of_quiet {xs : List ι} (ys : List ι) (h : ∀ x ∈ xs, raises x = false) :
    upToRaise raises (xs ++ ys) = xs ++ upToRaise raises ys := by
  induction xs with
  | nil => rfl
  | cons x xs ih =>
    rw [List.cons_append, upToRaise, h x List.mem_cons_self,
      ih fun y hy => h y (List.mem_cons_of_mem _ hy)]
    rfl

theorem upToRaise_append_of_raised {xs : List ι} (ys : List ι) (h : ∃ x ∈ xs, raises x = true) :
    upToRaise raises (xs ++ ys) = upToRaise raises xs := by
  induction xs with
  | nil =>
    obtain ⟨x, hx, _⟩ := h
    cases hx
  | cons x xs ih =>
    rw [List.cons_append, upToRaise, upToRaise]
    by_cases hr : raises x = true
    · rw [if_pos hr, if_pos hr]
    · obtain ⟨y, hy, hry⟩ := h
      have hmem : y ∈ xs := by
        rcases List.mem_cons.mp hy with heq | hy
        · exact absurd (heq ▸ hry) hr
        · exact hy
      rw [if_neg hr, if_neg hr, ih ⟨y, hmem, hry⟩]

/-- Every step taken raised exactly when the first one raises. -/
theorem forall_upToRaise_raises_iff {xs : List ι} :
    (∀ x ∈ upToRaise raises xs, raises x = true) ↔ ∀ x ∈ xs.head?, raises x = true := by
  cases xs with
  | nil => simp [upToRaise]
  | cons x xs =>
    rw [upToRaise]
    by_cases hr : raises x = true
    · simp [hr]
    · simp [hr]

/-- Only the last of the steps may raise. -/
def LastOnly (raises : ι → Bool) (xs : List ι) : Prop := ∀ x ∈ xs.dropLast, raises x = false

/-- A loop takes all its steps exactly when none but the last raises. -/
theorem forall_mem_upToRaise_iff {xs : List ι} (hnodup : xs.Nodup) :
    (∀ x ∈ xs, x ∈ upToRaise raises xs) ↔ LastOnly raises xs := by
  induction xs with
  | nil => simp [LastOnly]
  | cons x xs ih =>
    obtain ⟨hx, hnodup⟩ := List.nodup_cons.mp hnodup
    cases xs with
    | nil =>
      rw [upToRaise]
      simp [LastOnly, upToRaise]
    | cons y ys =>
      rw [upToRaise]
      by_cases hr : raises x = true
      · rw [if_pos hr]
        constructor
        · intro h
          have hy := List.mem_singleton.mp (h y (List.mem_cons_of_mem _ List.mem_cons_self))
          exact absurd (hy ▸ List.mem_cons_self) hx
        · intro h
          have hquiet := h x (by rw [List.dropLast_cons_of_ne_nil (List.cons_ne_nil y ys)]; simp)
          rw [hr] at hquiet
          cases hquiet
      · rw [if_neg hr]
        have hstep : LastOnly raises (x :: y :: ys) ↔ LastOnly raises (y :: ys) := by
          unfold LastOnly
          rw [List.dropLast_cons_of_ne_nil (List.cons_ne_nil y ys), List.forall_mem_cons]
          simp [hr]
        rw [hstep, ← ih hnodup]
        constructor
        · intro h z hz
          rcases List.mem_cons.mp (h z (List.mem_cons_of_mem _ hz)) with hzx | hz'
          · exact absurd (hzx ▸ hz) hx
          · exact hz'
        · intro h z hz
          rcases List.mem_cons.mp hz with hzx | hz'
          · rw [hzx]
            exact List.mem_cons_self
          · exact List.mem_cons_of_mem _ (h z hz')

end

end Conc
end RocmTests

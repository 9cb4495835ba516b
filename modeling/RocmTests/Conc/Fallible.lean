import Mathlib.Data.List.Forall2
import Mathlib.Logic.Basic

/-!
# Sequences of fallible calls

What is known of the calls when a sequence of them ended well, or with an exception.
-/

namespace RocmTests
namespace Conc
namespace Fallible

variable {ε α β : Type}

theorem bind_eq_ok {x : Except ε α} {f : α → Except ε β} {b : β} :
    x.bind f = .ok b ↔ ∃ a, x = .ok a ∧ f a = .ok b := by
  cases x with
  | error e => simp [Except.bind]
  | ok a => simp [Except.bind]

theorem bind_eq_error {x : Except ε α} {f : α → Except ε β} {e : ε} :
    x.bind f = .error e ↔ x = .error e ∨ ∃ a, x = .ok a ∧ f a = .error e := by
  cases x with
  | error e' => simp [Except.bind]
  | ok a => simp [Except.bind]

theorem map_eq_ok {x : Except ε α} {f : α → β} {b : β} :
    x.map f = .ok b ↔ ∃ a, x = .ok a ∧ f a = b := by
  cases x with
  | error e => simp [Except.map]
  | ok a => simp [Except.map]

theorem map_eq_error {x : Except ε α} {f : α → β} {e : ε} :
    x.map f = .error e ↔ x = .error e := by
  cases x with
  | error e' => simp [Except.map]
  | ok a => simp [Except.map]

theorem mapM_cons (f : α → Except ε β) (x : α) (xs : List α) :
    (x :: xs).mapM f = (f x).bind fun y => (xs.mapM f).map (y :: ·) := by
  rw [List.mapM_cons]
  cases f x with
  | error e => rfl
  | ok y =>
    cases xs.mapM f <;> rfl

/-- A list of calls that all ended well. -/
theorem forall₂_of_mapM {f : α → Except ε β} {xs : List α} {ys : List β}
    (h : xs.mapM f = .ok ys) : List.Forall₂ (fun x y => f x = .ok y) xs ys := by
  induction xs generalizing ys with
  | nil =>
    cases h
    exact .nil
  | cons x xs ih =>
    rw [mapM_cons] at h
    obtain ⟨y, hy, h⟩ := bind_eq_ok.mp h
    obtain ⟨zs, hzs, rfl⟩ := map_eq_ok.mp h
    exact .cons hy (ih hzs)

/-- Every result of a list of calls that ended well is the result of one of them. -/
theorem exists_of_mem_mapM {f : α → Except ε β} {xs : List α} {ys : List β}
    (h : xs.mapM f = .ok ys) {y : β} (hy : y ∈ ys) : ∃ x ∈ xs, f x = .ok y := by
  have hall := forall₂_of_mapM h
  clear h
  induction hall with
  | nil => cases hy
  | cons hz _ ih =>
    rcases List.mem_cons.mp hy with rfl | hy
    · exact ⟨_, List.mem_cons_self, hz⟩
    · obtain ⟨w, hw, hfw⟩ := ih hy
      exact ⟨w, List.mem_cons_of_mem _ hw, hfw⟩

/-- Each call of a list that ended well ended well. -/
theorem ok_of_mapM {f : α → Except ε β} {xs : List α} {ys : List β} (h : xs.mapM f = .ok ys) :
    ∀ x ∈ xs, ∃ y, f x = .ok y := by
  have hall := forall₂_of_mapM h
  clear h
  induction hall with
  | nil =>
    intro x hx
    cases hx
  | cons hy _ ih =>
    intro x hx
    rcases List.mem_cons.mp hx with rfl | hx
    · exact ⟨_, hy⟩
    · exact ih x hx

/-- The call that an exception comes from, and those before it. -/
theorem exists_of_mapM_error {f : α → Except ε β} {xs : List α} {e : ε} (h : xs.mapM f = .error e) :
    ∃ done x rest, xs = done ++ x :: rest ∧ f x = .error e ∧ ∀ y ∈ done, ∃ z, f y = .ok z := by
  induction xs with
  | nil => cases h
  | cons x xs ih =>
    rw [mapM_cons] at h
    rcases bind_eq_error.mp h with hx | ⟨y, hy, hrest⟩
    · exact ⟨[], x, xs, rfl, hx, fun y hy => absurd hy List.not_mem_nil⟩
    · obtain ⟨done, z, rest, rfl, hz, hdone⟩ := ih (map_eq_error.mp hrest)
      refine ⟨x :: done, z, rest, rfl, hz, fun w hw => ?_⟩
      rcases List.mem_cons.mp hw with rfl | hw
      · exact ⟨y, hy⟩
      · exact hdone w hw

/-- Calls that all end well end well in sequence. -/
theorem mapM_ok {f : α → Except ε β} {xs : List α} (h : ∀ x ∈ xs, ∃ y, f x = .ok y) :
    ∃ ys, xs.mapM f = .ok ys := by
  induction xs with
  | nil => exact ⟨[], rfl⟩
  | cons x xs ih =>
    obtain ⟨y, hy⟩ := h x List.mem_cons_self
    obtain ⟨ys, hys⟩ := ih fun z hz => h z (List.mem_cons_of_mem _ hz)
    rw [mapM_cons, hy, hys]
    exact ⟨y :: ys, rfl⟩

/-- Calls whose results are known. -/
theorem mapM_map_ok {γ : Type} {f : α → Except ε β} {g : γ → α} {r : γ → β} {xs : List γ}
    (h : ∀ x ∈ xs, f (g x) = .ok (r x)) : (xs.map g).mapM f = .ok (xs.map r) := by
  induction xs with
  | nil => rfl
  | cons x xs ih =>
    rw [List.map_cons, mapM_cons, h x List.mem_cons_self,
      ih fun y hy => h y (List.mem_cons_of_mem _ hy)]
    rfl

/-- Where all that is raised is one exception, it is raised when one of the calls fails. -/
theorem mapM_eq_error {f : α → Except ε β} {e₀ e : ε} (hf : ∀ x e, f x = .error e → e = e₀)
    {xs : List α} : xs.mapM f = .error e ↔ e = e₀ ∧ ∃ x ∈ xs, f x = .error e₀ := by
  induction xs with
  | nil =>
    constructor
    · intro h
      cases h
    · intro ⟨_, x, hx, _⟩
      cases hx
  | cons x xs ih =>
    rw [mapM_cons, bind_eq_error]
    constructor
    · intro h
      rcases h with h | ⟨y, _, h⟩
      · have he := hf x e h
        exact ⟨he, x, List.mem_cons_self, he ▸ h⟩
      · obtain ⟨he, z, hz, hfz⟩ := ih.mp (map_eq_error.mp h)
        exact ⟨he, z, List.mem_cons_of_mem _ hz, hfz⟩
    · intro ⟨he, z, hz, hfz⟩
      cases hx : f x with
      | error e' => exact Or.inl (by rw [hf x e' hx, he])
      | ok y =>
        refine Or.inr ⟨y, rfl, map_eq_error.mpr (ih.mpr ⟨he, z, ?_, hfz⟩)⟩
        rcases List.mem_cons.mp hz with rfl | hz
        · rw [hx] at hfz
          cases hfz
        · exact hz

end Fallible

/-!
## Computations with a trace

A computation whose actions are answered by a fixed environment has one value.  `Traced`
keeps, beside the value, which actions were performed and in which order.
-/

structure Traced (ω α : Type) where
  value : α
  trace : List ω

namespace Traced

variable {ω α β : Type}

instance : Monad (Traced ω) where
  pure a := ⟨a, []⟩
  bind x f := ⟨(f x.value).value, x.trace ++ (f x.value).trace⟩

@[simp] theorem value_pure (a : α) : (pure a : Traced ω α).value = a := rfl

@[simp] theorem value_bind (x : Traced ω α) (f : α → Traced ω β) :
    (x >>= f).value = (f x.value).value := rfl

@[simp] theorem value_map (f : α → β) (x : Traced ω α) : (f <$> x).value = f x.value := rfl

end Traced

end Conc
end RocmTests

import Mathlib.Data.List.Basic

/-!
# Maps that may fail

`List.mapM` with a partial function fails where the function fails on an element, and is a map
where it does not.
-/

namespace RocmTests
namespace Collections

variable {α β : Type}

theorem mapM_option_cons (f : α → Option β) (x : α) (xs : List α) :
    (x :: xs).mapM f = (f x).bind fun y => (xs.mapM f).map fun ys => y :: ys := by
  rw [List.mapM_cons]
  cases f x with
  | none => rfl
  | some y =>
    cases xs.mapM f with
    | none => rfl
    | some ys => rfl

theorem mapM_eq_none_iff {f : α → Option β} {xs : List α} :
    xs.mapM f = none ↔ ∃ x ∈ xs, f x = none := by
  induction xs with
  | nil => exact iff_of_false (fun h => nomatch h) fun ⟨x, hx, _⟩ => nomatch hx
  | cons x xs ih =>
    rw [mapM_option_cons]
    simp only [List.mem_cons, exists_eq_or_imp, ← ih]
    cases f x with
    | none => exact iff_of_true rfl (Or.inl rfl)
    | some y =>
      rw [Option.bind_some, Option.map_eq_none_iff]
      exact (or_iff_right fun h => nomatch h).symm

theorem mapM_eq_map {f : α → Option β} {g : α → β} {xs : List α} (h : ∀ x ∈ xs, f x = some (g x)) :
    xs.mapM f = some (xs.map g) := by
  induction xs with
  | nil => rfl
  | cons x xs ih =>
    rw [mapM_option_cons, h x List.mem_cons_self,
      ih fun z hz => h z (List.mem_cons_of_mem x hz)]
    rfl

/-- What a map that did not fail is a map of. -/
theorem exists_map_of_mapM [Inhabited β] {f : α → Option β} {xs : List α} {ys : List β}
    (h : xs.mapM f = some ys) : ∃ g : α → β, (∀ x ∈ xs, f x = some (g x)) ∧ ys = xs.map g := by
  have hsome : ∀ x ∈ xs, f x = some ((f x).getD default) := by
    intro x hx
    cases hfx : f x with
    | some y => rfl
    | none =>
      rw [mapM_eq_none_iff.mpr ⟨x, hx, hfx⟩] at h
      cases h
  refine ⟨fun x => (f x).getD default, hsome, ?_⟩
  rw [mapM_eq_map hsome] at h
  exact (Option.some.inj h).symm

/-- Elements picked by what they are mapped to. -/
theorem filter_zip_map (g : α → β) (p : α × β → Bool) (xs : List α) :
    ((xs.zip (xs.map g)).filter p).map (·.1) = xs.filter fun x => p (x, g x) := by
  induction xs with
  | nil => rfl
  | cons x xs ih =>
    rw [List.map_cons, List.zip_cons_cons, List.filter_cons, List.filter_cons]
    split
    · rw [List.map_cons, ih]
    · exact ih

end Collections
end RocmTests

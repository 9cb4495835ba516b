import Mathlib.Logic.Basic

/-!
# Values grouped by key

The dictionary that `d.setdefault(key, []).append(value)` builds.  It holds exactly the pairs
that were added, and a key with no value never stands in it.
-/

namespace RocmTests
namespace Collections
namespace Grouping

variable {κ ν : Type*}

def Has (d : List (κ × List ν)) (k : κ) (v : ν) : Prop := ∃ vals, (k, vals) ∈ d ∧ v ∈ vals

theorem has_cons {key k : κ} {vals : List ν} {d : List (κ × List ν)} {v : ν} :
    Has ((key, vals) :: d) k v ↔ (k = key ∧ v ∈ vals) ∨ Has d k v := by
  constructor
  · rintro ⟨ws, hmem, hv⟩
    rcases List.mem_cons.mp hmem with heq | hmem
    · cases heq
      exact .inl ⟨rfl, hv⟩
    · exact .inr ⟨ws, hmem, hv⟩
  · rintro (⟨rfl, hv⟩ | ⟨ws, hmem, hv⟩)
    · exact ⟨vals, List.mem_cons_self, hv⟩
    · exact ⟨ws, List.mem_cons_of_mem _ hmem, hv⟩

theorem not_has_nil {k : κ} {v : ν} : ¬Has ([] : List (κ × List ν)) k v :=
  fun ⟨_, hmem, _⟩ => List.not_mem_nil hmem

variable [DecidableEq κ]

def add : List (κ × List ν) → κ → ν → List (κ × List ν)
  | [], k, v => [(k, [v])]
  | (key, vals) :: rest, k, v =>
    if key = k then (key, vals ++ [v]) :: rest else (key, vals) :: add rest k v

def group (pairs : List (κ × ν)) : List (κ × List ν) :=
  pairs.foldl (fun d p => add d p.1 p.2) []

theorem has_add {d : List (κ × List ν)} {k j : κ} {v w : ν} :
    Has (add d k v) j w ↔ Has d j w ∨ (j = k ∧ w = v) := by
  induction d with
  | nil => rw [add, has_cons, List.mem_singleton, or_comm]
  | cons entry rest ih =>
    obtain ⟨key, vals⟩ := entry
    by_cases hkey : key = k
    · rw [add, if_pos hkey, has_cons, has_cons, List.mem_append, List.mem_singleton, hkey,
        and_or_left, or_right_comm]
    · rw [add, if_neg hkey, has_cons, has_cons, ih, or_assoc]

theorem ne_nil_of_mem_add {d : List (κ × List ν)} {k : κ} {v : ν} (h : ∀ e ∈ d, e.2 ≠ []) :
    ∀ e ∈ add d k v, e.2 ≠ [] := by
  induction d with
  | nil =>
    intro e he
    rw [List.mem_singleton.mp he]
    exact List.cons_ne_nil v []
  | cons entry rest ih =>
    obtain ⟨key, vals⟩ := entry
    intro e he
    by_cases hkey : key = k
    · rw [add, if_pos hkey] at he
      rcases List.mem_cons.mp he with rfl | he
      · exact List.append_ne_nil_of_right_ne_nil vals (List.cons_ne_nil v [])
      · exact h e (List.mem_cons_of_mem _ he)
    · rw [add, if_neg hkey] at he
      rcases List.mem_cons.mp he with rfl | he
      · exact h _ List.mem_cons_self
      · exact ih (fun e he => h e (List.mem_cons_of_mem _ he)) e he

theorem has_foldl_add {pairs : List (κ × ν)} {d : List (κ × List ν)} {k : κ} {v : ν} :
    Has (pairs.foldl (fun d p => add d p.1 p.2) d) k v ↔ Has d k v ∨ (k, v) ∈ pairs := by
  induction pairs generalizing d with
  | nil => rw [List.foldl_nil, List.mem_nil_iff, or_false]
  | cons p rest ih => rw [List.foldl_cons, ih, has_add, List.mem_cons, Prod.ext_iff, or_assoc]

theorem ne_nil_of_mem_foldl_add {pairs : List (κ × ν)} {d : List (κ × List ν)}
    (h : ∀ e ∈ d, e.2 ≠ []) : ∀ e ∈ pairs.foldl (fun d p => add d p.1 p.2) d, e.2 ≠ [] := by
  induction pairs generalizing d with
  | nil => exact h
  | cons p rest ih => exact ih (ne_nil_of_mem_add h)

/-- The groups hold the pairs they were made of. -/
theorem has_group {pairs : List (κ × ν)} {k : κ} {v : ν} :
    Has (group pairs) k v ↔ (k, v) ∈ pairs := by
  rw [group, has_foldl_add, or_iff_right not_has_nil]

/-- A key is there when some value was added under it. -/
theorem mem_keys_group {pairs : List (κ × ν)} {k : κ} :
    k ∈ (group pairs).map Prod.fst ↔ k ∈ pairs.map Prod.fst := by
  constructor
  · intro h
    obtain ⟨⟨key, vals⟩, hmem, rfl⟩ := List.mem_map.mp h
    have hne : vals ≠ [] :=
      ne_nil_of_mem_foldl_add (fun e he => absurd he List.not_mem_nil) _ hmem
    obtain ⟨v, hv⟩ := List.exists_mem_of_ne_nil vals hne
    exact List.mem_map.mpr ⟨(key, v), has_group.mp ⟨vals, hmem, hv⟩, rfl⟩
  · intro h
    obtain ⟨⟨key, v⟩, hmem, rfl⟩ := List.mem_map.mp h
    obtain ⟨vals, hmem, -⟩ := has_group.mpr hmem
    exact List.mem_map.mpr ⟨(key, vals), hmem, rfl⟩

end Grouping
end Collections
end RocmTests

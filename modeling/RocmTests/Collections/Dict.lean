import Mathlib.Data.List.Nodup

/-!
# Dictionaries

A dictionary is its items in the order in which their keys came, no key twice.
An assignment to a key that is there keeps its place.
-/

namespace RocmTests

structure Dict (κ ν : Type) where
  items : List (κ × ν)
  nodup : (items.map Prod.fst).Nodup

namespace Dict

variable {κ ν : Type} [DecidableEq κ]

/-- The value behind the first of the items with a key. -/
def valueIn : List (κ × ν) → κ → Option ν
  | [], _ => none
  | (k', v) :: items, k => if k' = k then some v else valueIn items k

def assignIn : List (κ × ν) → κ → ν → List (κ × ν)
  | [], k, v => [(k, v)]
  | (k', v') :: items, k, v =>
    if k' = k then (k, v) :: items else (k', v') :: assignIn items k v

theorem keys_assignIn (items : List (κ × ν)) (k : κ) (v : ν) :
    (assignIn items k v).map Prod.fst =
      if k ∈ items.map Prod.fst then items.map Prod.fst else items.map Prod.fst ++ [k] := by
  induction items with
  | nil => rfl
  | cons p items ih =>
    obtain ⟨k', v'⟩ := p
    rw [assignIn, List.map_cons]
    by_cases hk : k' = k
    · rw [if_pos hk, if_pos (by rw [hk]; exact List.mem_cons_self), List.map_cons, hk]
    · rw [if_neg hk, List.map_cons, ih]
      have hmem : k ∈ k' :: items.map Prod.fst ↔ k ∈ items.map Prod.fst := by
        rw [List.mem_cons]
        exact or_iff_right (Ne.symm hk)
      by_cases hin : k ∈ items.map Prod.fst
      · rw [if_pos hin, if_pos (hmem.mpr hin)]
      · rw [if_neg hin, if_neg (mt hmem.mp hin), List.cons_append]

theorem valueIn_assignIn (items : List (κ × ν)) (k k' : κ) (v : ν) :
    valueIn (assignIn items k v) k' = if k = k' then some v else valueIn items k' := by
  induction items with
  | nil => rfl
  | cons p items ih =>
    obtain ⟨k₀, v₀⟩ := p
    rw [assignIn]
    by_cases h₀ : k₀ = k
    · rw [if_pos h₀, valueIn, valueIn, h₀]
      by_cases hk : k = k'
      · rw [if_pos hk, if_pos hk]
      · rw [if_neg hk, if_neg hk, if_neg hk]
    · rw [if_neg h₀, valueIn, valueIn, ih]
      by_cases hk : k = k'
      · rw [if_pos hk, if_neg fun h => h₀ (h.trans hk.symm), if_pos hk]
      · rw [if_neg hk, if_neg hk]

theorem valueIn_eq_none_iff {items : List (κ × ν)} {k : κ} :
    valueIn items k = none ↔ k ∉ items.map Prod.fst := by
  induction items with
  | nil => exact iff_of_true rfl List.not_mem_nil
  | cons p items ih =>
    obtain ⟨k', v⟩ := p
    rw [valueIn, List.map_cons, List.mem_cons, not_or]
    by_cases hk : k' = k
    · rw [if_pos hk]
      exact iff_of_false (Option.some_ne_none v) fun h => h.1 hk.symm
    · rw [if_neg hk, ih]
      exact (and_iff_right fun h => hk h.symm).symm

/-- Every item is found where no key stands twice. -/
theorem valueIn_of_mem {items : List (κ × ν)} (hnodup : (items.map Prod.fst).Nodup) {k : κ} {v : ν}
    (h : (k, v) ∈ items) : valueIn items k = some v := by
  induction items with
  | nil => exact absurd h List.not_mem_nil
  | cons p items ih =>
    obtain ⟨k', v'⟩ := p
    rw [List.map_cons, List.nodup_cons] at hnodup
    rw [valueIn]
    rcases List.mem_cons.mp h with heq | hrest
    · cases heq
      rw [if_pos rfl]
    · have hne : k' ≠ k := by
        intro hk
        rw [hk] at hnodup
        exact hnodup.1 (List.mem_map.mpr ⟨(k, v), hrest, rfl⟩)
      rw [if_neg hne, ih hnodup.2 hrest]

theorem mem_of_valueIn {items : List (κ × ν)} {k : κ} {v : ν} (h : valueIn items k = some v) :
    (k, v) ∈ items := by
  induction items with
  | nil => cases h
  | cons p items ih =>
    obtain ⟨k', v'⟩ := p
    rw [valueIn] at h
    by_cases hk : k' = k
    · rw [if_pos hk] at h
      rw [hk, Option.some.inj h]
      exact List.mem_cons_self
    · rw [if_neg hk] at h
      exact List.mem_cons_of_mem _ (ih h)

/-- In another order the items have the same values. -/
theorem valueIn_perm {items items' : List (κ × ν)} (h : items.Perm items')
    (hnodup : (items.map Prod.fst).Nodup) (k : κ) : valueIn items k = valueIn items' k := by
  have hnodup' : (items'.map Prod.fst).Nodup := (h.map Prod.fst).nodup_iff.mp hnodup
  ext v
  constructor
  · intro hv
    exact valueIn_of_mem hnodup' (h.mem_iff.mp (mem_of_valueIn hv))
  · intro hv
    exact valueIn_of_mem hnodup (h.mem_iff.mpr (mem_of_valueIn hv))

/-! ## The operations -/

def empty : Dict κ ν := ⟨[], List.nodup_nil⟩

def keys (d : Dict κ ν) : List κ := d.items.map Prod.fst

/-- `d.get(k)`. -/
def get (d : Dict κ ν) (k : κ) : Option ν := valueIn d.items k

/-- `d[k] = v`. -/
def assign (d : Dict κ ν) (k : κ) (v : ν) : Dict κ ν where
  items := assignIn d.items k v
  nodup := by
    rw [keys_assignIn]
    split
    case isTrue => exact d.nodup
    case isFalse h =>
      rw [← List.concat_eq_append]
      exact d.nodup.concat h

def ofItems (items : List (κ × ν)) : Dict κ ν := items.foldl (fun d p => d.assign p.1 p.2) empty

theorem get_assign (d : Dict κ ν) (k k' : κ) (v : ν) :
    (d.assign k v).get k' = if k = k' then some v else d.get k' :=
  valueIn_assignIn d.items k k' v

theorem get_eq_none_iff {d : Dict κ ν} {k : κ} : d.get k = none ↔ k ∉ d.keys :=
  valueIn_eq_none_iff

theorem exists_get {d : Dict κ ν} {k : κ} (h : k ∈ d.keys) : ∃ v, d.get k = some v :=
  Option.ne_none_iff_exists'.mp (mt get_eq_none_iff.mp (not_not.mpr h))

theorem keys_assign (d : Dict κ ν) (k : κ) (v : ν) :
    (d.assign k v).keys = if k ∈ d.keys then d.keys else d.keys ++ [k] :=
  keys_assignIn d.items k v

theorem keys_assign_of_mem {d : Dict κ ν} {k : κ} (v : ν) (h : k ∈ d.keys) :
    (d.assign k v).keys = d.keys := by
  rw [keys_assign, if_pos h]

theorem mem_keys_assign {d : Dict κ ν} {k k' : κ} {v : ν} :
    k' ∈ (d.assign k v).keys ↔ k' = k ∨ k' ∈ d.keys := by
  rw [keys_assign]
  by_cases h : k ∈ d.keys
  · rw [if_pos h]
    exact ⟨Or.inr, fun h' => h'.elim (fun e => e ▸ h) id⟩
  · rw [if_neg h, List.mem_append, List.mem_singleton]
    exact or_comm

end Dict
end RocmTests

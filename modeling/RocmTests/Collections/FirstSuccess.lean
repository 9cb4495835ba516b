import Mathlib.Data.Nat.Find

/-!
# A bounded search for the first success

Answers come one after another, and a search asks for them until one is good or
its bound is reached.  `due k n` is how many it asks for when the first good one
stands at position `k`, counted from one, and the bound is `n`.
-/

namespace RocmTests
namespace FirstSuccess

variable {α : Type} (good : α → Bool)

/-- The position of the first good answer, from one. -/
noncomputable def position (answers : Nat → α) : Option Nat :=
  open Classical in
  if h : ∃ i, good (answers i) = true then some (Nat.find h + 1) else none

/-- How many answers a search takes that stops at position `k` or after `n`. -/
def due (k : Option Nat) (n : Int) : Int :=
  match k with
  | some k => min k n
  | none => n

theorem position_eq_some_iff {answers : Nat → α} {k : Nat} :
    position good answers = some (k + 1) ↔
      good (answers k) = true ∧ ∀ i < k, good (answers i) = false := by
  unfold position
  split
  case isTrue h =>
    have hk : Nat.find h = k ↔ good (answers k) = true ∧ ∀ i < k, good (answers i) = false := by
      rw [Nat.find_eq_iff]
      simp only [Bool.not_eq_true]
    rw [← hk, Option.some.injEq]
    omega
  case isFalse h =>
    constructor
    · intro hnone
      cases hnone
    · intro hk
      exact absurd ⟨k, hk.1⟩ h

theorem position_eq_none_iff {answers : Nat → α} :
    position good answers = none ↔ ∀ i, good (answers i) = false := by
  unfold position
  split
  case isTrue h =>
    obtain ⟨i, hi⟩ := h
    constructor
    · intro hnone
      cases hnone
    · intro hall
      rw [hall i] at hi
      cases hi
  case isFalse h =>
    have hall : ∀ i, good (answers i) = false :=
      fun i => Bool.eq_false_iff.mpr fun hi => h ⟨i, hi⟩
    exact ⟨fun _ => hall, fun _ => rfl⟩

theorem one_le_position {answers : Nat → α} {k : Nat} (h : position good answers = some k) :
    1 ≤ k := by
  unfold position at h
  split at h
  · rw [Option.some.injEq] at h
    omega
  · cases h

theorem position_of_good {answers : Nat → α} (h : good (answers 0) = true) :
    position good answers = some 1 :=
  (position_eq_some_iff good).mpr ⟨h, fun i hi => absurd hi (Nat.not_lt_zero i)⟩

/-- A bad answer in front moves the first good one by one. -/
theorem position_of_bad {answers : Nat → α} (h : good (answers 0) = false) :
    position good answers = (position good fun i => answers (i + 1)).map (· + 1) := by
  cases hrest : position good fun i => answers (i + 1) with
  | none =>
    rw [position_eq_none_iff] at hrest
    refine (position_eq_none_iff good).mpr fun i => ?_
    cases i with
    | zero => exact h
    | succ i => exact hrest i
  | some k =>
    have hk := one_le_position good hrest
    obtain ⟨j, rfl⟩ : ∃ j, k = j + 1 := ⟨k - 1, by omega⟩
    obtain ⟨hgood, hbad⟩ := (position_eq_some_iff good).mp hrest
    refine (position_eq_some_iff good).mpr ⟨hgood, fun i hi => ?_⟩
    cases i with
    | zero => exact h
    | succ i => exact hbad i (by omega)

theorem due_map_succ (k : Option Nat) (n : Int) :
    due (k.map (· + 1)) (n + 1) = due k n + 1 := by
  cases k with
  | none => rfl
  | some k =>
    show min ((k + 1 : Nat) : Int) (n + 1) = min (k : Int) n + 1
    omega

theorem due_le (k : Option Nat) (n : Int) : due k n ≤ n := by
  cases k with
  | none => exact Int.le_refl n
  | some k => exact Int.min_le_right k n

theorem due_nonneg (k : Option Nat) (n : Nat) : 0 ≤ due k n := by
  cases k with
  | none => exact Int.natCast_nonneg n
  | some k =>
    show 0 ≤ min (k : Int) n
    omega

/-- A search with a bound takes at least one answer. -/
theorem one_le_due (answers : Nat → α) {n : Nat} (hn : 1 ≤ n) :
    1 ≤ due (position good answers) n := by
  cases hk : position good answers with
  | none =>
    show (1 : Int) ≤ n
    omega
  | some k =>
    have := one_le_position good hk
    show (1 : Int) ≤ min (k : Int) n
    omega

end FirstSuccess
end RocmTests

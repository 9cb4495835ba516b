import Mathlib

/-!
# Batches with a limit

A loop gathers items and hands over a batch before it would be too heavy.  An item that is too heavy
on its own is a batch of its own.  The batches are the items in order, and none of them could have
taken the first item of the next.
-/

namespace RocmTests
namespace Batches

variable {α : Type} (weight : α → Nat) (base limit : Nat)

/-- The batches from a batch at hand and its weight. -/
def gather : List α → List α → Nat → List (List α)
  | [], batch, _ => if batch = [] then [] else [batch]
  | a :: rest, batch, total =>
    if batch ≠ [] ∧ limit < total + weight a then batch :: gather rest [a] (base + weight a)
    else gather rest (batch ++ [a]) (total + weight a)

def batches (items : List α) : List (List α) := gather weight base limit items [] base

def weigh (batch : List α) : Nat := base + (batch.map weight).sum

/-- One item, or no more than the limit. -/
def Light (batch : List α) : Prop := batch.length = 1 ∨ weigh weight base batch ≤ limit

/-- The first item of the second batch was too much for the first. -/
def Full (batch next : List α) : Prop :=
  ∀ a ∈ next.head?, limit < weigh weight base batch + weight a

variable {weight base limit}

theorem weigh_append_singleton (batch : List α) (a : α) :
    weigh weight base (batch ++ [a]) = weigh weight base batch + weight a := by
  simp only [weigh, List.map_append, List.map_singleton, List.sum_append, List.sum_singleton]
  omega

theorem weigh_singleton (a : α) : weigh weight base [a] = base + weight a := rfl

theorem flatten_gather (items : List α) : ∀ (batch : List α) (total : Nat),
    (gather weight base limit items batch total).flatten = batch ++ items := by
  induction items with
  | nil =>
    intro batch total
    rw [gather]
    split_ifs with hnil
    · rw [hnil]
      rfl
    · rw [List.flatten_singleton, List.append_nil]
  | cons a rest ih =>
    intro batch total
    rw [gather]
    split_ifs with hfull
    · rw [List.flatten_cons, ih]
      rfl
    · rw [ih, List.append_assoc]
      rfl

/-- The first batch begins with what is at hand. -/
theorem head_gather (items : List α) : ∀ (a : α) (batch : List α) (total : Nat),
    ∃ batch' rest, gather weight base limit items (a :: batch) total = (a :: batch') :: rest := by
  induction items with
  | nil => exact fun a batch total => ⟨batch, [], if_neg (List.cons_ne_nil a batch)⟩
  | cons b items ih =>
    intro a batch total
    rw [gather]
    split_ifs with hfull
    · exact ⟨batch, _, rfl⟩
    · exact ih a (batch ++ [b]) _

theorem light_gather (items : List α) :
    ∀ (batch : List α), batch = [] ∨ Light weight base limit batch →
    ∀ b ∈ gather weight base limit items batch (weigh weight base batch),
      b ≠ [] ∧ Light weight base limit b := by
  induction items with
  | nil =>
    intro batch hbatch b hb
    rw [gather] at hb
    split_ifs at hb with hnil
    · cases hb
    · rw [List.mem_singleton.mp hb]
      exact ⟨hnil, hbatch.resolve_left hnil⟩
  | cons a rest ih =>
    intro batch hbatch b hb
    rw [gather] at hb
    split_ifs at hb with hfull
    · rcases List.mem_cons.mp hb with rfl | hb
      · exact ⟨hfull.1, hbatch.resolve_left hfull.1⟩
      · exact ih [a] (.inr (.inl rfl)) b hb
    · rw [← weigh_append_singleton] at hb
      refine ih (batch ++ [a]) (.inr ?_) b hb
      by_cases hnil : batch = []
      · rw [hnil]
        exact .inl rfl
      · right
        rw [weigh_append_singleton]
        exact Nat.le_of_not_lt fun hlt => hfull ⟨hnil, hlt⟩

theorem full_gather (items : List α) : ∀ batch : List α,
    (gather weight base limit items batch (weigh weight base batch)).IsChain
      (Full weight base limit) := by
  induction items with
  | nil =>
    intro batch
    rw [gather]
    split_ifs
    · exact List.isChain_nil
    · exact List.isChain_singleton batch
  | cons a rest ih =>
    intro batch
    rw [gather]
    split_ifs with hfull
    · obtain ⟨batch', rest', hhead⟩ : ∃ batch' rest',
          gather weight base limit rest [a] (base + weight a) = (a :: batch') :: rest' :=
        head_gather rest a [] _
      have hchain := ih [a]
      rw [weigh_singleton, hhead] at hchain
      rw [hhead]
      refine List.isChain_cons_cons.mpr ⟨fun b hb => ?_, hchain⟩
      rw [← Option.some.inj hb]
      exact hfull.2
    · rw [← weigh_append_singleton]
      exact ih (batch ++ [a])

theorem flatten_batches (items : List α) : (batches weight base limit items).flatten = items :=
  flatten_gather items [] base

theorem light_batches {items : List α} : ∀ b ∈ batches weight base limit items,
    b ≠ [] ∧ Light weight base limit b :=
  light_gather items [] (.inl rfl)

theorem full_batches (items : List α) :
    (batches weight base limit items).IsChain (Full weight base limit) :=
  full_gather items []

end Batches
end RocmTests

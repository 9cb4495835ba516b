import Mathlib.Data.List.Basic

/-!
# Sequences with a terminator

Lists without a separator, each followed by it, are told apart by what they make
together.  A list is cut at its separators into such a sequence.
-/

namespace RocmTests
namespace Collections

variable {α : Type}

theorem append_terminator_inj {a : α} : ∀ {x y r s : List α}, a ∉ x → a ∉ y →
    x ++ a :: r = y ++ a :: s → x = y ∧ r = s := by
  intro x
  induction x with
  | nil =>
    intro y r s _ hy h
    cases y with
    | nil => exact ⟨rfl, (List.cons.inj h).2⟩
    | cons b y => exact absurd ((List.cons.inj h).1 ▸ List.mem_cons_self) hy
  | cons c x ih =>
    intro y r s hx hy h
    cases y with
    | nil => exact absurd ((List.cons.inj h).1 ▸ List.mem_cons_self) hx
    | cons b y =>
      obtain ⟨rfl, htail⟩ := List.cons.inj h
      obtain ⟨rfl, hrest⟩ := ih (fun hm => hx (List.mem_cons_of_mem c hm))
        (fun hm => hy (List.mem_cons_of_mem c hm)) htail
      exact ⟨rfl, hrest⟩

/-- The lists one after the other, each with the separator behind it. -/
def terminated (sep : α) (xs : List (List α)) : List α := xs.flatMap (· ++ [sep])

theorem terminated_cons (sep : α) (x : List α) (xs : List (List α)) :
    terminated sep (x :: xs) = x ++ sep :: terminated sep xs := by
  rw [terminated, List.flatMap_cons, List.append_assoc]
  rfl

theorem terminated_append (sep : α) (xs ys : List (List α)) :
    terminated sep (xs ++ ys) = terminated sep xs ++ terminated sep ys := List.flatMap_append

theorem terminated_inj {sep : α} : ∀ {xs ys : List (List α)}, (∀ x ∈ xs, sep ∉ x) →
    (∀ y ∈ ys, sep ∉ y) → terminated sep xs = terminated sep ys → xs = ys := by
  intro xs
  induction xs with
  | nil =>
    intro ys _ _ h
    cases ys with
    | nil => rfl
    | cons y ys =>
      rw [terminated_cons] at h
      exact absurd h.symm (List.append_ne_nil_of_right_ne_nil _ (List.cons_ne_nil _ _))
  | cons x xs ih =>
    intro ys hx hy h
    cases ys with
    | nil =>
      rw [terminated_cons] at h
      exact absurd h (List.append_ne_nil_of_right_ne_nil _ (List.cons_ne_nil _ _))
    | cons y ys =>
      rw [terminated_cons, terminated_cons] at h
      obtain ⟨rfl, hrest⟩ := append_terminator_inj (hx x List.mem_cons_self)
        (hy y List.mem_cons_self) h
      rw [ih (fun z hz => hx z (List.mem_cons_of_mem _ hz))
        (fun z hz => hy z (List.mem_cons_of_mem _ hz)) hrest]

theorem intercalate_cons (u : α) (w : List α) {ws : List (List α)} (h : ws ≠ []) :
    [u].intercalate (w :: ws) = w ++ u :: [u].intercalate ws := by
  cases ws with
  | nil => exact absurd rfl h
  | cons v vs => simp [List.intercalate, List.intersperse]

theorem not_of_mem_splitOnP {p : α → Bool} (t : List α) :
    ∀ l ∈ t.splitOnP p, ∀ x ∈ l, p x = false := by
  induction t with
  | nil => simp
  | cons d t ih =>
    rw [List.splitOnP_cons_eq_if_modifyHead]
    by_cases hd : p d = true
    · rw [if_pos hd]
      intro l hl
      rcases List.mem_cons.1 hl with rfl | hl
      · exact fun x hx => absurd hx List.not_mem_nil
      · exact ih l hl
    · rw [if_neg hd]
      cases hsplit : t.splitOnP p with
      | nil => exact absurd hsplit (List.splitOnP_ne_nil _ _)
      | cons piece pieces =>
        rw [hsplit] at ih
        rw [List.modifyHead_cons]
        intro l hl x hx
        rcases List.mem_cons.1 hl with rfl | hl
        · rcases List.mem_cons.1 hx with rfl | hx
          · exact Bool.eq_false_iff.2 hd
          · exact ih piece List.mem_cons_self x hx
        · exact ih l (List.mem_cons_of_mem piece hl) x hx

section

variable [BEq α] [LawfulBEq α]

theorem not_mem_of_mem_splitOn {sep : α} (t : List α) : ∀ l ∈ t.splitOn sep, sep ∉ l := by
  intro l hl hmem
  rw [List.splitOn_eq_splitOnP] at hl
  have hsep := not_of_mem_splitOnP t l hl sep hmem
  rw [beq_self_eq_true] at hsep
  cases hsep

theorem terminated_splitOn (sep : α) (t : List α) :
    terminated sep (t.splitOn sep) = t ++ [sep] := by
  induction t with
  | nil => simp [terminated]
  | cons d t ih =>
    rw [List.splitOn_cons_eq_if_modifyHead]
    by_cases hd : d = sep
    · rw [if_pos (beq_iff_eq.2 hd), terminated_cons, ih, hd]
      rfl
    · rw [if_neg (by simpa using hd)]
      cases hsplit : t.splitOn sep with
      | nil => exact absurd hsplit (List.splitOn_ne_nil _ _)
      | cons piece pieces =>
        rw [hsplit, terminated_cons] at ih
        rw [List.modifyHead_cons, terminated_cons, List.cons_append, ih]
        rfl

end

end Collections
end RocmTests

import Mathlib

/-!
# Sorting by a key

A stable sort leaves the elements of one key in the order they had.  Two keys that tell the elements
apart sort a list alike where they agree on which of two elements is the smaller.
-/

namespace RocmTests
namespace Collections

variable {α : Type}

theorem filter_mergeSort {le : α → α → Bool} (htrans : ∀ a b c, le a b → le b c → le a c)
    (htotal : ∀ a b, le a b || le b a) {p : α → Bool}
    (htied : ∀ a b, p a = true → p b = true → le a b = true) (l : List α) :
    (l.mergeSort le).filter p = l.filter p := by
  have hclass : (l.filter p).Pairwise fun a b => le a b = true :=
    List.pairwise_of_forall_mem_list fun a ha b hb =>
      htied a b (List.mem_filter.mp ha).2 (List.mem_filter.mp hb).2
  have hsub : (l.filter p).Sublist ((l.mergeSort le).filter p) := by
    have hsorted := (List.sublist_mergeSort htrans htotal hclass List.filter_sublist).filter p
    rwa [List.filter_filter, List.filter_congr fun x _ => Bool.and_self (p x)] at hsorted
  have hlen : (l.filter p).length = ((l.mergeSort le).filter p).length :=
    ((List.mergeSort_perm l le).symm.filter p).length_eq
  exact (hsub.eq_of_length hlen).symm

section

variable {κ : Type} [LinearOrder κ] {key key' : α → κ} {l s s' : List α}

theorem sorted_eq_of_agree (hs : s.Perm l) (hs' : s'.Perm l)
    (hsorted : s.Pairwise fun a b => key a ≤ key b)
    (hsorted' : s'.Pairwise fun a b => key' a ≤ key' b)
    (hinj : ∀ a ∈ l, ∀ b ∈ l, key a = key b → a = b)
    (hinj' : ∀ a ∈ l, ∀ b ∈ l, key' a = key' b → a = b)
    (hagree : ∀ a ∈ l, ∀ b ∈ l, key a < key b → key' a < key' b) : s = s' := by
  have hsame : s.Pairwise fun a b => key' a ≤ key' b := by
    refine hsorted.imp_of_mem fun {a b} ha hb hab => ?_
    rcases lt_or_eq_of_le hab with hlt | heq
    · exact le_of_lt (hagree a (hs.mem_iff.mp ha) b (hs.mem_iff.mp hb) hlt)
    · rw [hinj a (hs.mem_iff.mp ha) b (hs.mem_iff.mp hb) heq]
  refine List.Perm.eq_of_pairwise (fun a b ha hb hab hba => ?_) hsame hsorted' (hs.trans hs'.symm)
  exact hinj' a (hs.mem_iff.mp ha) b (hs'.mem_iff.mp hb) (le_antisymm hab hba)

theorem agree_of_sorted (hsorted : s.Pairwise fun a b => key a ≤ key b)
    (hsorted' : s.Pairwise fun a b => key' a ≤ key' b)
    (hinj' : ∀ a ∈ s, ∀ b ∈ s, key' a = key' b → a = b) :
    ∀ a ∈ s, ∀ b ∈ s, key a < key b → key' a < key' b := by
  refine fun a ha b hb => List.Pairwise.forall_of_forall_of_flip
    (R := fun a b => key a < key b → key' a < key' b) (fun x _ h => absurd h (lt_irrefl _))
    ?_ ?_ ha hb
  · refine hsorted'.imp_of_mem fun {a b} ha hb hle hlt => ?_
    refine lt_of_le_of_ne hle fun heq => ?_
    obtain rfl := hinj' a ha b hb heq
    exact lt_irrefl _ hlt
  · exact hsorted.imp fun hle hlt => absurd hlt (not_lt.mpr hle)

end

end Collections
end RocmTests

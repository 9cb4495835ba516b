import Mathlib.Data.List.Basic

/-!
# The longest entry that a list begins with

A table of lists is looked up by going through its entries and keeping the longest one seen so
far that begins the list.  Where there is none, the empty list is what is left.
-/

namespace RocmTests
namespace Collections

variable {α : Type} [DecidableEq α]

/-- One entry: it replaces a shorter one. -/
def keepLonger (t found k : List α) : List α :=
  if k.isPrefixOf t && decide (found.length < k.length) then k else found

def longestIn (keys : List (List α)) (t : List α) : List α := keys.foldl (keepLonger t) []

section

variable {t : List α}

theorem keepLonger_cases (found k : List α) :
    k <+: t ∧ found.length < k.length ∧ keepLonger t found k = k ∨
      (k <+: t → k.length ≤ found.length) ∧ keepLonger t found k = found := by
  unfold keepLonger
  by_cases hk : k <+: t
  · by_cases hlen : found.length < k.length
    · left
      rw [List.isPrefixOf_iff_prefix.mpr hk, decide_eq_true hlen]
      exact ⟨hk, hlen, rfl⟩
    · right
      rw [decide_eq_false hlen, Bool.and_false]
      exact ⟨fun _ => Nat.le_of_not_lt hlen, rfl⟩
  · right
    rw [Bool.eq_false_iff.mpr fun h => hk (List.isPrefixOf_iff_prefix.mp h), Bool.false_and]
    exact ⟨fun h => absurd h hk, rfl⟩

/-- What is kept in the end is what was kept before or an entry, and no entry is longer. -/
theorem foldl_keepLonger (keys : List (List α)) : ∀ found : List α, found <+: t →
    (keys.foldl (keepLonger t) found = found ∨ keys.foldl (keepLonger t) found ∈ keys) ∧
      keys.foldl (keepLonger t) found <+: t ∧
        found.length ≤ (keys.foldl (keepLonger t) found).length ∧
          ∀ k ∈ keys, k <+: t → k.length ≤ (keys.foldl (keepLonger t) found).length := by
  induction keys with
  | nil =>
    intro found hfound
    exact ⟨Or.inl rfl, hfound, Nat.le_refl _, fun k hk => nomatch hk⟩
  | cons k keys ih =>
    intro found hfound
    rw [List.foldl_cons]
    rcases keepLonger_cases (t := t) found k with ⟨hk, hlen, heq⟩ | ⟨hlen, heq⟩
    · rw [heq]
      obtain ⟨hmem, hpre, hle, hall⟩ := ih k hk
      refine ⟨Or.inr ?_, hpre, Nat.le_trans (Nat.le_of_lt hlen) hle, ?_⟩
      · rcases hmem with hsame | hmem
        · rw [hsame]
          exact List.mem_cons_self
        · exact List.mem_cons_of_mem k hmem
      · intro k' hk' hpre'
        rcases List.mem_cons.mp hk' with rfl | hk'
        · exact hle
        · exact hall k' hk' hpre'
    · rw [heq]
      obtain ⟨hmem, hpre, hle, hall⟩ := ih found hfound
      refine ⟨hmem.imp_right (List.mem_cons_of_mem k), hpre, hle, ?_⟩
      intro k' hk' hpre'
      rcases List.mem_cons.mp hk' with rfl | hk'
      · exact Nat.le_trans (hlen hpre') hle
      · exact hall k' hk' hpre'

theorem longestIn_isPrefix (keys : List (List α)) : longestIn keys t <+: t :=
  (foldl_keepLonger keys [] List.nil_prefix).2.1

theorem length_le_longestIn {keys : List (List α)} {k : List α} (hk : k ∈ keys)
    (hpre : k <+: t) : k.length ≤ (longestIn keys t).length :=
  (foldl_keepLonger keys [] List.nil_prefix).2.2.2 k hk hpre

theorem prefix_longestIn {keys : List (List α)} {k : List α} (hk : k ∈ keys)
    (hpre : k <+: t) : k <+: longestIn keys t :=
  List.prefix_of_prefix_length_le hpre (longestIn_isPrefix keys) (length_le_longestIn hk hpre)

/-- An entry that is not there stands for no entry. -/
theorem longestIn_mem_iff {keys : List (List α)} :
    longestIn keys t ∈ keys ↔ ∃ k ∈ keys, k <+: t := by
  constructor
  · exact fun h => ⟨_, h, longestIn_isPrefix keys⟩
  · intro ⟨k, hk, hpre⟩
    rcases (foldl_keepLonger keys [] List.nil_prefix).1 with hnil | hmem
    · have hlen := length_le_longestIn hk hpre
      have hempty : longestIn keys t = [] := hnil
      rw [hempty, List.length_nil, Nat.le_zero, List.length_eq_zero_iff] at hlen
      rw [hempty, ← hlen]
      exact hk
    · exact hmem

end

end Collections
end RocmTests

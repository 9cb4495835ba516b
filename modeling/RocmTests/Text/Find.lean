import RocmTests.Collections.Terminated
import RocmTests.Markers.GpuCount
import RocmTests.Text.Lines

/-!
# Finding and cutting

`str.find`, slices, `str.split()` and `str.partition`.  Positions are integers, and count
from the end when they are negative.
-/

namespace RocmTests
namespace Text

open Markers (isSpace)

/-- The first place where `sub` stands. -/
def indexOf (sub : Txt) : Txt → Option Nat
  | [] => if sub = [] then some 0 else none
  | c :: cs => if sub <+: c :: cs then some 0 else (indexOf sub cs).map (· + 1)

/-- A position of a slice, within the text. -/
def position (len : Nat) (i : Int) : Nat := if i < 0 then (i + len).toNat else min i.toNat len

/-- `t.find(sub, pos)`, for a `sub` that is not empty. -/
def find (t sub : Txt) (pos : Int) : Option Nat :=
  (indexOf sub (t.drop (position t.length pos))).map (position t.length pos + ·)

/-- `t[a:b]`. -/
def slice (t : Txt) (a b : Int) : Txt :=
  (t.take (position t.length b)).drop (position t.length a)

/-- `t.split()`. -/
def splitSpace (t : Txt) : List Txt := (t.splitOnP isSpace).filter (· ≠ [])

/-- `t.partition(c)`, without the separator. -/
def partition (t : Txt) (c : Char) : Txt × Txt :=
  (t.takeWhile (· ≠ c), (t.dropWhile (· ≠ c)).drop 1)

theorem indexOf_append_cons {c : Char} {l : Txt} (h : c ∉ l) (r : Txt) :
    indexOf [c] (l ++ c :: r) = some l.length := by
  induction l with
  | nil => simp [indexOf]
  | cons d l ih =>
    have hd : c ≠ d := fun e => h (e ▸ List.mem_cons_self)
    have hl : c ∉ l := fun hmem => h (List.mem_cons_of_mem d hmem)
    simp [indexOf, ih hl, hd]

theorem indexOf_eq_none {c : Char} {l : Txt} (h : c ∉ l) : indexOf [c] l = none := by
  induction l with
  | nil => rfl
  | cons d l ih =>
    have hd : c ≠ d := fun e => h (e ▸ List.mem_cons_self)
    have hl : c ∉ l := fun hmem => h (List.mem_cons_of_mem d hmem)
    simp [indexOf, ih hl, hd]

theorem indexOf_some_drop {sub t : Txt} {i : Nat} (h : indexOf sub t = some i) :
    sub <+: t.drop i := by
  induction t generalizing i with
  | nil =>
    unfold indexOf at h
    split_ifs at h with hsub
    cases h
    simp [hsub]
  | cons c t ih =>
    unfold indexOf at h
    split_ifs at h with hsub
    · cases h
      exact hsub
    · obtain ⟨j, hj, rfl⟩ := Option.map_eq_some_iff.1 h
      exact ih hj

theorem position_natCast (len i : Nat) : position len i = min i len := by
  simp [position]

theorem indexOf_isSome_iff {sub t : Txt} : (indexOf sub t).isSome ↔ sub <:+: t := by
  induction t with
  | nil =>
    rw [indexOf, List.infix_nil]
    split <;> simp_all
  | cons c t ih =>
    rw [indexOf, List.infix_cons_iff]
    by_cases hpre : sub <+: c :: t
    · rw [if_pos hpre]
      exact iff_of_true rfl (Or.inl hpre)
    · rw [if_neg hpre, Option.isSome_map, ih, or_iff_right hpre]

theorem indexOf_add_le {sub t : Txt} {i : Nat} (h : indexOf sub t = some i) :
    i + sub.length ≤ t.length := by
  induction t generalizing i with
  | nil =>
    unfold indexOf at h
    split at h
    · rename_i hsub
      obtain rfl := Option.some.inj h
      rw [hsub]
      exact Nat.le_refl 0
    · cases h
  | cons c t ih =>
    unfold indexOf at h
    split at h
    · rename_i hpre
      obtain rfl := Option.some.inj h
      rw [Nat.zero_add]
      exact hpre.length_le
    · obtain ⟨j, hj, rfl⟩ := Option.map_eq_some_iff.mp h
      have hle := ih hj
      rw [List.length_cons]
      omega

theorem indexOf_append {sub a : Txt} {i : Nat} (h : indexOf sub a = some i) (b : Txt) :
    indexOf sub (a ++ b) = some i := by
  induction a generalizing i with
  | nil =>
    unfold indexOf at h
    split at h
    · rename_i hsub
      obtain rfl := Option.some.inj h
      rw [hsub]
      cases b with
      | nil => rfl
      | cons c b => exact if_pos List.nil_prefix
    · cases h
  | cons c a ih =>
    rw [List.cons_append]
    unfold indexOf at h ⊢
    by_cases hpre : sub <+: c :: a
    · rw [if_pos hpre] at h
      have hpre' : sub <+: c :: (a ++ b) := hpre.trans (List.prefix_append (c :: a) b)
      rw [if_pos hpre', h]
    · rw [if_neg hpre] at h
      obtain ⟨j, hj, rfl⟩ := Option.map_eq_some_iff.mp h
      have hlen : sub.length ≤ (c :: a).length := by
        have hle := indexOf_add_le hj
        rw [List.length_cons]
        omega
      have hnot : ¬ sub <+: c :: (a ++ b) := fun h =>
        hpre (List.prefix_of_prefix_length_le h (List.prefix_append (c :: a) b) hlen)
      rw [if_neg hnot, ih hj, Option.map_some]

theorem indexOf_append_self (sub a : Txt) :
    ∃ i, indexOf sub (a ++ sub) = some i ∧ i ≤ a.length := by
  induction a with
  | nil =>
    refine ⟨0, ?_, Nat.le_refl 0⟩
    cases sub with
    | nil => rfl
    | cons c sub => exact if_pos List.prefix_rfl
  | cons c a ih =>
    obtain ⟨i, hi, hle⟩ := ih
    by_cases hpre : sub <+: c :: (a ++ sub)
    · exact ⟨0, if_pos hpre, Nat.zero_le _⟩
    · refine ⟨i + 1, ?_, Nat.succ_le_succ hle⟩
      rw [List.cons_append, indexOf, if_neg hpre, hi, Option.map_some]

theorem find_natCast (t sub : Txt) {pos : Nat} (h : pos ≤ t.length) :
    find t sub pos = (indexOf sub (t.drop pos)).map (pos + ·) := by
  rw [find, position_natCast, Nat.min_eq_left h]

theorem slice_natCast (t : Txt) (a b : Nat) : slice t a b = (t.drop a).take (b - a) := by
  have htake : t.take (min b t.length) = t.take b := by
    rcases Nat.le_total b t.length with hb | hb
    · rw [Nat.min_eq_left hb]
    · rw [Nat.min_eq_right hb, List.take_length, List.take_of_length_le hb]
  have hdrop : (t.take b).drop (min a t.length) = (t.take b).drop a := by
    rcases Nat.le_total a t.length with ha | ha
    · rw [Nat.min_eq_left ha]
    · rw [Nat.min_eq_right ha, List.drop_eq_nil_of_le (by rw [List.length_take]; omega),
        List.drop_eq_nil_of_le (by rw [List.length_take]; omega)]
  rw [slice, position_natCast, position_natCast, htake, hdrop, List.drop_take]

theorem splitSpace_three {a b c : Txt} (ha : a ≠ [] ∧ ∀ x ∈ a, isSpace x = false)
    (hb : b ≠ [] ∧ ∀ x ∈ b, isSpace x = false) (hc : c ≠ [] ∧ ∀ x ∈ c, isSpace x = false) :
    splitSpace (a ++ ' ' :: (b ++ ' ' :: c)) = [a, b, c] := by
  rw [splitSpace, List.splitOnP_append_cons_of_forall_mem ha.2 ' ' (by decide),
    List.splitOnP_append_cons_of_forall_mem hb.2 ' ' (by decide),
    List.splitOnP_eq_singleton hc.2]
  simp [ha.1, hb.1, hc.1]

theorem isSpace_of_mem_splitOnP {t w : Txt} (hw : w ∈ t.splitOnP isSpace) :
    ∀ c ∈ w, isSpace c = false :=
  Collections.not_of_mem_splitOnP t w hw

theorem partition_append_cons {c : Char} {l : Txt} (h : c ∉ l) (r : Txt) :
    partition (l ++ c :: r) c = (l, r) := by
  have hpass : ∀ x ∈ l, decide (x ≠ c) = true := by
    intro x hx
    exact decide_eq_true fun e => h (e ▸ hx)
  rw [partition, List.takeWhile_append_of_pos hpass, List.dropWhile_append_of_pos hpass]
  simp

end Text
end RocmTests

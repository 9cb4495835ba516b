import Mathlib.Data.List.Basic
import Mathlib.Order.Lattice

/-!
# Stretches without a point

Points on a line cut a window into stretches: one before the first point, one after
the last, one between each point and the next.  A stretch is too wide by a relation
between its ends that only gets truer as the ends move apart.
-/

namespace RocmTests
namespace Collections

variable {α : Type} [LinearOrder α]

/-- What it takes for `wide` to judge stretches by their ends. -/
structure Widening (wide : α → α → Prop) : Prop where
  proper : ∀ {a b}, wide a b → a < b
  mono : ∀ {a a' b b'}, a' ≤ a → b ≤ b' → wide a b → wide a' b'

/-- Two marks of the window, its ends among them, too far apart with no point of the
list in between. -/
def Uncovered (wide : α → α → Prop) (points : List α) (start stop : α) : Prop :=
  ∃ a b, (a = start ∨ a ∈ points) ∧ (b = stop ∨ b ∈ points) ∧ wide a b ∧
    ∀ t ∈ points, t ≤ a ∨ b ≤ t

variable {wide : α → α → Prop}

theorem uncovered_congr {xs ys : List α} (h : ∀ t, t ∈ xs ↔ t ∈ ys) (start stop : α) :
    Uncovered wide xs start stop ↔ Uncovered wide ys start stop := by
  simp only [Uncovered, h]

/-- In an ascending list, neighbours are the pairs with nothing in between. -/
theorem exists_wide_pair_iff (hw : Widening wide) : ∀ {xs : List α}, xs.Pairwise (· < ·) →
    ((∃ p ∈ xs.zip xs.tail, wide p.1 p.2) ↔
      ∃ a ∈ xs, ∃ b ∈ xs, wide a b ∧ ∀ t ∈ xs, t ≤ a ∨ b ≤ t) := by
  intro xs
  induction xs with
  | nil => simp
  | cons x xs ih =>
    intro hsorted
    obtain ⟨hx, hrest⟩ := List.pairwise_cons.mp hsorted
    cases xs with
    | nil =>
      refine iff_of_false (by simp) ?_
      rintro ⟨a, ha, b, hb, hab, -⟩
      rw [List.mem_singleton.mp ha, List.mem_singleton.mp hb] at hab
      exact lt_irrefl x (hw.proper hab)
    | cons y ys =>
      have hfirst : ∀ t ∈ y :: ys, y ≤ t := by
        intro t ht
        rcases List.mem_cons.mp ht with rfl | ht
        · exact le_refl t
        · exact (List.rel_of_pairwise_cons hrest ht).le
      rw [List.tail_cons, List.zip_cons_cons]
      constructor
      · rintro ⟨p, hp, hpw⟩
        rcases List.mem_cons.mp hp with rfl | hp
        · refine ⟨x, List.mem_cons_self, y, by simp, hpw, fun t ht => ?_⟩
          rcases List.mem_cons.mp ht with rfl | ht
          · exact .inl (le_refl t)
          · exact .inr (hfirst t ht)
        · obtain ⟨a, ha, b, hb, hab, hnone⟩ := (ih hrest).mp ⟨p, hp, hpw⟩
          refine ⟨a, List.mem_cons_of_mem x ha, b, List.mem_cons_of_mem x hb, hab, fun t ht => ?_⟩
          rcases List.mem_cons.mp ht with rfl | ht
          · exact .inl (hx a ha).le
          · exact hnone t ht
      · rintro ⟨a, ha, b, hb, hab, hnone⟩
        have hlt := hw.proper hab
        have hb' : b ∈ y :: ys := by
          rcases List.mem_cons.mp hb with rfl | hb
          · rcases List.mem_cons.mp ha with rfl | ha
            · exact absurd hlt (lt_irrefl a)
            · exact absurd hlt (hx a ha).le.not_gt
          · exact hb
        rcases List.mem_cons.mp ha with rfl | ha
        · rcases hnone y (by simp) with hya | hby
          · exact absurd (hx y List.mem_cons_self) hya.not_gt
          · exact ⟨(a, y), List.mem_cons_self, hw.mono (le_refl a) hby hab⟩
        · obtain ⟨p, hp, hpw⟩ := (ih hrest).mpr
            ⟨a, ha, b, hb', hab, fun t ht => hnone t (List.mem_cons_of_mem x ht)⟩
          exact ⟨p, List.mem_cons_of_mem _ hp, hpw⟩

/-- Only the stretches at the two ends and those between neighbours need to be
looked at. -/
theorem uncovered_iff (hw : Widening wide) {points : List α} {start stop first last : α}
    (hsorted : points.Pairwise (· < ·)) (hfirst : first ∈ points) (hlast : last ∈ points)
    (hmin : ∀ t ∈ points, first ≤ t) (hmax : ∀ t ∈ points, t ≤ last)
    (hin : ∀ t ∈ points, start ≤ t ∧ t ≤ stop) :
    Uncovered wide points start stop ↔
      wide start first ∨ wide last stop ∨ ∃ p ∈ points.zip points.tail, wide p.1 p.2 := by
  rw [exists_wide_pair_iff hw hsorted]
  constructor
  · rintro ⟨a, b, ha, hb, hab, hnone⟩
    have hstart : start ≤ a := by
      rcases ha with rfl | ha
      · exact le_refl a
      · exact (hin a ha).1
    have hstop : b ≤ stop := by
      rcases hb with rfl | hb
      · exact le_refl b
      · exact (hin b hb).2
    rcases hnone first hfirst with hfa | hbf
    · rcases hnone last hlast with hla | hbl
      · exact .inr (.inl (hw.mono hla hstop hab))
      · have ha' : a ∈ points := by
          rcases ha with rfl | ha
          · rwa [le_antisymm (hin first hfirst).1 hfa]
          · exact ha
        have hb' : b ∈ points := by
          rcases hb with rfl | hb
          · rwa [le_antisymm hbl (hin last hlast).2]
          · exact hb
        exact .inr (.inr ⟨a, ha', b, hb', hab, hnone⟩)
    · exact .inl (hw.mono hstart hbf hab)
  · rintro (hlead | htrail | ⟨a, ha, b, hb, hab, hnone⟩)
    · exact ⟨start, first, .inl rfl, .inr hfirst, hlead, fun t ht => .inr (hmin t ht)⟩
    · exact ⟨last, stop, .inr hlast, .inl rfl, htrail, fun t ht => .inl (hmax t ht)⟩
    · exact ⟨a, b, .inr ha, .inr hb, hab, hnone⟩

end Collections
end RocmTests

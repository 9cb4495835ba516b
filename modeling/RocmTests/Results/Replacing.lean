import Mathlib.Algebra.Order.BigOperators.Group.List
import Mathlib.Algebra.Order.Ring.Int
import Mathlib.Data.List.Dedup

/-!
# Replacement by key

A table that keeps, of the rows with one key, the one that was inserted last.  What is
summed over the rows is what is summed over the rows kept and over those replaced.

A client sends its requests to such a table one after another and stops at the first that raises,
which may have been served all the same.
-/

namespace RocmTests
namespace Results

section

variable {α κ : Type} [DecidableEq κ] (key : α → κ)

/-- The last row of each key. -/
def keepLast (xs : List α) : List α := xs.pwFilter fun a b => key a ≠ key b

/-- The rows that a later one replaces. -/
def replaced : List α → List α
  | [] => []
  | x :: xs => if key x ∈ xs.map key then x :: replaced xs else replaced xs

theorem keepLast_cons (x : α) (xs : List α) :
    keepLast key (x :: xs) =
      if key x ∈ xs.map key then keepLast key xs else x :: keepLast key xs := by
  have hkept : (∀ y ∈ keepLast key xs, key x ≠ key y) ↔ ∀ y ∈ xs, key x ≠ key y := by
    apply List.forall_mem_pwFilter
    intro a b c hne
    by_cases hab : key a = key b
    · exact Or.inr (hab ▸ hne)
    · exact Or.inl hab
  have hmem : key x ∈ xs.map key ↔ ¬ ∀ y ∈ xs, key x ≠ key y := by
    simp only [List.mem_map, ne_eq, not_forall, not_not, exists_prop, eq_comm]
  by_cases h : key x ∈ xs.map key
  · rw [if_pos h]
    exact List.pwFilter_cons_of_neg fun hall => hmem.mp h (hkept.mp hall)
  · rw [if_neg h]
    exact List.pwFilter_cons_of_pos (hkept.mpr (not_not.mp fun hno => h (hmem.mpr hno)))

/-- A row inserted last stays, and replaces those with its key. -/
theorem keepLast_concat (xs : List α) (t : α) :
    keepLast key (xs ++ [t]) = (keepLast key xs).filter (key · ≠ key t) ++ [t] := by
  induction xs with
  | nil => rfl
  | cons x xs ih =>
    have hmem : key x ∈ (xs ++ [t]).map key ↔ key x ∈ xs.map key ∨ key x = key t := by
      rw [List.map_append, List.mem_append, List.map_singleton, List.mem_singleton]
    rw [List.cons_append, keepLast_cons, keepLast_cons, ih]
    by_cases hlater : key x ∈ xs.map key
    · rw [if_pos hlater, if_pos (hmem.mpr (Or.inl hlater))]
    · rw [if_neg hlater]
      by_cases ht : key x = key t
      · rw [if_pos (hmem.mpr (Or.inr ht)), List.filter_cons_of_neg (by simp [ht])]
      · rw [if_neg fun h => (hmem.mp h).elim hlater ht, List.filter_cons_of_pos (by simp [ht]),
          List.cons_append]

theorem sum_keepLast_add_replaced (f : α → Int) (xs : List α) :
    ((keepLast key xs).map f).sum + ((replaced key xs).map f).sum = (xs.map f).sum := by
  induction xs with
  | nil => rfl
  | cons x xs ih =>
    rw [keepLast_cons, replaced, List.map_cons, List.sum_cons, ← ih]
    by_cases h : key x ∈ xs.map key
    · rw [if_pos h, if_pos h, List.map_cons, List.sum_cons]
      omega
    · rw [if_neg h, if_neg h, List.map_cons, List.sum_cons]
      omega

/-- The row that a key has: the last one with it. -/
def rowOf : List α → κ → Option α
  | [], _ => none
  | x :: xs, k => (rowOf xs k).or (if key x = k then some x else none)

@[simp] theorem rowOf_nil (k : κ) : rowOf key [] k = none := rfl

theorem rowOf_cons (x : α) (xs : List α) (k : κ) :
    rowOf key (x :: xs) k = (rowOf key xs k).or (if key x = k then some x else none) := rfl

/-- What is inserted later comes first. -/
theorem rowOf_append (xs ys : List α) (k : κ) :
    rowOf key (xs ++ ys) k = (rowOf key ys k).or (rowOf key xs k) := by
  induction xs with
  | nil => exact Option.or_none.symm
  | cons x xs ih => rw [List.cons_append, rowOf_cons, ih, rowOf_cons, Option.or_assoc]

theorem rowOf_eq_none_iff {xs : List α} {k : κ} : rowOf key xs k = none ↔ k ∉ xs.map key := by
  induction xs with
  | nil => exact iff_of_true rfl List.not_mem_nil
  | cons x xs ih =>
    rw [rowOf_cons, Option.or_eq_none_iff, ih, List.map_cons, List.mem_cons, not_or]
    by_cases hk : key x = k
    · rw [if_pos hk]
      exact iff_of_false (fun h => Option.some_ne_none x h.2) fun h => h.1 hk.symm
    · rw [if_neg hk]
      exact ⟨fun h => ⟨Ne.symm hk, h.1⟩, fun h => ⟨h.2, rfl⟩⟩

theorem rowOf_spec {xs : List α} {k : κ} {x : α} (h : rowOf key xs k = some x) :
    x ∈ xs ∧ key x = k := by
  induction xs with
  | nil => cases h
  | cons y ys ih =>
    rw [rowOf_cons, Option.or_eq_some_iff] at h
    rcases h with h | h
    · exact ⟨List.mem_cons_of_mem y (ih h).1, (ih h).2⟩
    · by_cases hk : key y = k
      · rw [if_pos hk] at h
        rw [← Option.some.inj h.2]
        exact ⟨List.mem_cons_self, hk⟩
      · rw [if_neg hk] at h
        cases h.2

theorem mem_keepLast_iff {xs : List α} {x : α} :
    x ∈ keepLast key xs ↔ rowOf key xs (key x) = some x := by
  induction xs with
  | nil => exact iff_of_false List.not_mem_nil (Option.some_ne_none x).symm
  | cons y ys ih =>
    rw [keepLast_cons, rowOf_cons]
    by_cases hx : key x ∈ ys.map key
    · obtain ⟨z, hz⟩ := Option.ne_none_iff_exists'.mp
        (mt (rowOf_eq_none_iff key).mp (not_not.mpr hx))
      rw [hz, Option.some_or, ← hz, ← ih]
      by_cases hy : key y ∈ ys.map key
      · rw [if_pos hy]
      · rw [if_neg hy, List.mem_cons]
        exact or_iff_right fun heq => hy (heq ▸ hx)
    · have hout : x ∉ keepLast key ys := by
        intro hmem
        exact hx (List.mem_map_of_mem (List.pwFilter_subset _ hmem))
      rw [(rowOf_eq_none_iff key).mpr hx, Option.none_or]
      by_cases heq : y = x
      · rw [heq, if_neg hx, if_pos rfl]
        exact iff_of_true List.mem_cons_self rfl
      · refine iff_of_false ?_ ?_
        · by_cases hy : key y ∈ ys.map key
          · rw [if_pos hy]
            exact hout
          · rw [if_neg hy, List.mem_cons]
            exact fun h => h.elim (fun hxy => heq hxy.symm) hout
        · intro h
          by_cases hk : key y = key x
          · rw [if_pos hk] at h
            exact heq (Option.some.inj h)
          · rw [if_neg hk] at h
            cases h

theorem nodup_keepLast (xs : List α) : ((keepLast key xs).map key).Nodup := by
  have hpairwise : (keepLast key xs).Pairwise fun a b => key a ≠ key b := List.pairwise_pwFilter _
  exact List.pairwise_map.mpr hpairwise

/-- What is replaced is not looked up. -/
theorem rowOf_keepLast (xs : List α) (k : κ) : rowOf key (keepLast key xs) k = rowOf key xs k := by
  induction xs with
  | nil => rfl
  | cons x xs ih =>
    rw [keepLast_cons, rowOf_cons]
    by_cases hx : key x ∈ xs.map key
    · rw [if_pos hx, ih]
      by_cases hk : key x = k
      · obtain ⟨z, hz⟩ := Option.ne_none_iff_exists'.mp
          (mt (rowOf_eq_none_iff key).mp (not_not.mpr (hk ▸ hx)))
        rw [hz, Option.some_or]
      · rw [if_neg hk, Option.or_none]
    · rw [if_neg hx, rowOf_cons, ih]

end

/-! ## A table and its clients -/

section

variable {α κ : Type} [DecidableEq κ] {key : α → κ}

/-- No key has two rows. -/
structure Table (key : α → κ) where
  rows : List α
  nodup : (rows.map key).Nodup

namespace Table

def empty : Table key := ⟨[], List.nodup_nil⟩

def insert (t : Table key) (xs : List α) : Table key :=
  ⟨keepLast key (t.rows ++ xs), nodup_keepLast key _⟩

theorem mem_rows_iff (t : Table key) {x : α} : x ∈ t.rows ↔ rowOf key t.rows (key x) = some x := by
  constructor
  · intro hx
    obtain ⟨y, hy⟩ := Option.ne_none_iff_exists'.mp
      (mt (rowOf_eq_none_iff key).mp (not_not.mpr (List.mem_map_of_mem hx)))
    rw [hy, List.inj_on_of_nodup_map t.nodup (rowOf_spec key hy).1 hx (rowOf_spec key hy).2]
  · intro h
    exact (rowOf_spec key h).1

theorem mem_insert {t : Table key} {xs : List α} {x : α} (h : x ∈ (t.insert xs).rows) :
    x ∈ t.rows ∨ x ∈ xs :=
  List.mem_append.mp (List.pwFilter_subset _ h)

theorem mem_keys_insert {t : Table key} {xs : List α} {k : κ} :
    k ∈ (t.insert xs).rows.map key ↔ k ∈ t.rows.map key ∨ k ∈ xs.map key := by
  rw [← List.mem_append, ← List.map_append, ← not_iff_not, ← rowOf_eq_none_iff,
    ← rowOf_eq_none_iff]
  show rowOf key (keepLast key (t.rows ++ xs)) k = none ↔ _
  rw [rowOf_keepLast]

end Table

/-- The table, if there is one. -/
abbrev Store (key : α → κ) : Type := Option (Table key)

def Store.rowOf (t : Store key) (k : κ) : Option α := t.bind fun t => Results.rowOf key t.rows k

inductive Request (α : Type) where
  | drop
  | create
  | insert (xs : List α)

/-- How a request ends: served, or with an exception, and then served or not. -/
inductive Answer where
  | done
  | failed
  | lost

variable (accepts : List α → Prop) [DecidablePred accepts]

namespace Request

/-- What a request does when it is served; `none` is a request that is refused.  A table that is
there is not created again. -/
def apply (t : Store key) : Request α → Option (Store key)
  | .drop => some none
  | .create => some (some (t.getD .empty))
  | .insert xs => t.bind fun t => if accepts xs then some (some (t.insert xs)) else none

end Request

/-- The requests up to the first that raises, and whether all were served.  Where the answers end
the client has ended. -/
def send (t : Store key) : List (Request α) → List Answer → Store key × Bool
  | [], _ => (t, true)
  | _ :: _, [] => (t, false)
  | r :: rs, a :: as =>
    match r.apply accepts t with
    | none => (t, false)
    | some t' =>
      match a with
      | .done => send t' rs as
      | .failed => (t, false)
      | .lost => (t', false)

/-- The requests served one after another. -/
def served (t : Store key) : List (Request α) → Option (Store key)
  | [] => some t
  | r :: rs => (r.apply accepts t).bind fun t' => served t' rs

variable {accepts}

theorem served_append (rs rs' : List (Request α)) (t : Store key) :
    served accepts t (rs ++ rs') = (served accepts t rs).bind fun t' => served accepts t' rs' := by
  induction rs generalizing t with
  | nil => rfl
  | cons r rs ih =>
    rw [List.cons_append, served, served]
    cases r.apply accepts t with
    | none => rfl
    | some t' => exact ih t'

/-- A client has the first of its requests served, and all of them when it ends well. -/
theorem exists_served (rs : List (Request α)) (as : List Answer) (t : Store key) :
    ∃ sent, sent <+: rs ∧ served accepts t sent = some (send accepts t rs as).1 ∧
      ((send accepts t rs as).2 = true → sent = rs) := by
  induction rs generalizing as t with
  | nil => exact ⟨[], List.prefix_refl [], rfl, fun _ => rfl⟩
  | cons r rs ih =>
    have hnone : ∃ sent : List (Request α), sent <+: r :: rs ∧ served accepts t sent = some t ∧
        (false = true → sent = r :: rs) := ⟨[], List.nil_prefix, rfl, fun h => by cases h⟩
    cases as with
    | nil => exact hnone
    | cons a as =>
      rw [send]
      cases hr : r.apply accepts t with
      | none => exact hnone
      | some t' =>
        have hone : served accepts t [r] = some t' := by
          rw [served, hr]
          rfl
        cases a with
        | done =>
          obtain ⟨sent, hsent, hserved, hall⟩ := ih as t'
          refine ⟨r :: sent, (List.prefix_cons_inj r).mpr hsent, ?_, fun h =>
            congrArg (r :: ·) (hall h)⟩
          rw [served, hr]
          exact hserved
        | failed => exact hnone
        | lost => exact ⟨[r], (List.prefix_cons_inj r).mpr List.nil_prefix, hone, fun h => by
          cases h⟩

section Rows

variable {t t' : Store key} {k : κ}

theorem rowOf_drop (h : Request.drop.apply accepts t = some t') : t'.rowOf k = none := by
  rw [← Option.some.inj h]
  rfl

theorem rowOf_create (h : Request.create.apply accepts t = some t') : t'.rowOf k = t.rowOf k := by
  rw [← Option.some.inj h]
  cases t <;> rfl

theorem insert_spec {xs : List α} (h : (Request.insert xs).apply accepts t = some t') :
    accepts xs ∧ ∃ u, t = some u ∧ t' = some (u.insert xs) := by
  rw [Request.apply, Option.bind_eq_some_iff] at h
  obtain ⟨u, hu, hinsert⟩ := h
  by_cases haccepts : accepts xs
  · rw [if_pos haccepts] at hinsert
    exact ⟨haccepts, u, hu, (Option.some.inj hinsert).symm⟩
  · rw [if_neg haccepts] at hinsert
    cases hinsert

theorem rowOf_insert {xs : List α} (h : (Request.insert xs).apply accepts t = some t') :
    t'.rowOf k = (rowOf key xs k).or (t.rowOf k) := by
  obtain ⟨-, u, rfl, rfl⟩ := insert_spec h
  show rowOf key (keepLast key (u.rows ++ xs)) k = _
  rw [rowOf_keepLast, rowOf_append]
  rfl

/-- The rows that a request inserts, but for those it replaces itself, are of this kind. -/
def Request.Within (key : α → κ) (kind : α → Prop) (r : Request α) : Prop :=
  ∀ xs, r = .insert xs → ∀ k x, rowOf key xs k = some x → kind x

variable {kind : α → Prop}

theorem rowOf_apply_within {r : Request α} (hwithin : r.Within key kind)
    (ht : ∀ x, t.rowOf k = some x → kind x) (h : r.apply accepts t = some t') :
    ∀ x, t'.rowOf k = some x → kind x := by
  intro x hx
  cases r with
  | drop =>
    rw [rowOf_drop h] at hx
    cases hx
  | create =>
    rw [rowOf_create h] at hx
    exact ht x hx
  | insert xs =>
    rw [rowOf_insert h, Option.or_eq_some_iff] at hx
    rcases hx with hx | ⟨-, hx⟩
    · exact hwithin xs rfl k x hx
    · exact ht x hx

theorem rowOf_served_within {rs : List (Request α)} (hwithin : ∀ r ∈ rs, r.Within key kind)
    (ht : ∀ x, t.rowOf k = some x → kind x) (h : served accepts t rs = some t') :
    ∀ x, t'.rowOf k = some x → kind x := by
  induction rs generalizing t with
  | nil =>
    rw [← Option.some.inj h]
    exact ht
  | cons r rs ih =>
    obtain ⟨u, hu, hrest⟩ := Option.bind_eq_some_iff.mp h
    exact ih (fun q hq => hwithin q (List.mem_cons_of_mem r hq))
      (rowOf_apply_within (hwithin r List.mem_cons_self) ht hu) hrest

theorem rowOf_apply_kept {r : Request α} (hwithin : r.Within key kind) (hkeeps : r ≠ .drop)
    (ht : ∃ x, t.rowOf k = some x ∧ kind x) (h : r.apply accepts t = some t') :
    ∃ x, t'.rowOf k = some x ∧ kind x := by
  cases r with
  | drop => exact absurd rfl hkeeps
  | create =>
    rw [rowOf_create h]
    exact ht
  | insert xs =>
    rw [rowOf_insert h]
    cases hx : rowOf key xs k with
    | none => exact ht
    | some x => exact ⟨x, rfl, hwithin xs rfl k x hx⟩

/-- A key that has a row has one until the table is dropped. -/
theorem rowOf_served_kept {rs : List (Request α)} (hwithin : ∀ r ∈ rs, r.Within key kind)
    (hkeeps : Request.drop ∉ rs) (ht : ∃ x, t.rowOf k = some x ∧ kind x)
    (h : served accepts t rs = some t') : ∃ x, t'.rowOf k = some x ∧ kind x := by
  induction rs generalizing t with
  | nil =>
    rw [← Option.some.inj h]
    exact ht
  | cons r rs ih =>
    obtain ⟨u, hu, hrest⟩ := Option.bind_eq_some_iff.mp h
    rw [List.mem_cons, not_or] at hkeeps
    exact ih (fun q hq => hwithin q (List.mem_cons_of_mem r hq)) hkeeps.2
      (rowOf_apply_kept (hwithin r List.mem_cons_self) (Ne.symm hkeeps.1) ht hu) hrest

end Rows

end

/-- A sum of numbers that are not negative is zero only if they all are. -/
theorem sum_eq_zero_iff {α : Type} (f : α → Int) {xs : List α} (h : ∀ x ∈ xs, 0 ≤ f x) :
    (xs.map f).sum = 0 ↔ ∀ x ∈ xs, f x = 0 := by
  constructor
  · intro hsum x hx
    exact List.all_zero_of_le_zero_le_of_sum_eq_zero (List.forall_mem_map.mpr h) hsum
      (List.mem_map_of_mem hx)
  · intro hzero
    exact List.sum_eq_zero (List.forall_mem_map.mpr hzero)

end Results
end RocmTests

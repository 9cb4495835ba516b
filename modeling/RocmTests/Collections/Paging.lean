import Mathlib.Data.List.Basic

/-!
# Answers that come in pages

A client asks for one page after the other.  A page with fewer than `size` items is the last one,
and a page beyond those that are listed is empty.  A request that is refused ends the pages, and one
that raises ends the client.  What the client makes of the items it gathers in a state, and it may
stop early, so that it does not come to the pages that would raise.
-/

namespace RocmTests
namespace Paging

inductive Answer (α : Type) where
  | page (items : List α)
  | refused
  | raised
deriving DecidableEq

variable {α σ : Type} {size : Nat} {absorb : σ → List α → σ} {stop : σ → Bool}

/-- The pages of a server that has these items. -/
inductive Served (size : Nat) : List α → List (List α) → Prop where
  | done : Served size [] []
  | last {page : List α} (h : page.length < size) : Served size page [page]
  | full {page items : List α} {pages : List (List α)} (h : page.length = size)
      (rest : Served size items pages) : Served size (page ++ items) (page :: pages)

/-- The items that a client can see: those before a failure and on the first short page. -/
def visible (size : Nat) : List (Answer α) → List α
  | [] => []
  | .refused :: _ => []
  | .raised :: _ => []
  | .page items :: rest => if items.length < size then items else items ++ visible size rest

/-- To read all pages raises. -/
def fails (size : Nat) : List (Answer α) → Bool
  | [] => false
  | .refused :: _ => false
  | .raised :: _ => true
  | .page items :: rest => if items.length < size then false else fails size rest

/-- `none` is an exception. -/
def scan (size : Nat) (absorb : σ → List α → σ) (stop : σ → Bool) :
    List (Answer α) → σ → Option σ
  | [], s => some s
  | .refused :: _, s => some s
  | .raised :: _, _ => none
  | .page items :: rest, s =>
    if items.length < size ∨ stop (absorb s items) = true then some (absorb s items)
    else scan size absorb stop rest (absorb s items)

/-- To stop early does no harm, if nothing that comes later would change the state.  What raises
is not reached if the items before it are enough. -/
theorem scan_eq (hnil : ∀ s, absorb s [] = s)
    (happend : ∀ s xs ys, absorb s (xs ++ ys) = absorb (absorb s xs) ys)
    (hstop : ∀ s xs, stop s = true → absorb s xs = s) (pages : List (Answer α)) :
    ∀ s, stop s = false → scan size absorb stop pages s =
      if fails size pages = true ∧ stop (absorb s (visible size pages)) = false then none
      else some (absorb s (visible size pages)) := by
  induction pages with
  | nil =>
    intro s _
    rw [scan, visible, fails, hnil, if_neg fun h => Bool.false_ne_true h.1]
  | cons answer rest ih =>
    intro s hs
    cases answer with
    | refused => rw [scan, visible, fails, hnil, if_neg fun h => Bool.false_ne_true h.1]
    | raised => rw [scan, visible, fails, hnil, if_pos ⟨rfl, hs⟩]
    | page items =>
      rw [scan, visible, fails]
      by_cases hshort : items.length < size
      · rw [if_pos (Or.inl hshort), if_pos hshort, if_pos hshort,
          if_neg fun h => Bool.false_ne_true h.1]
      · rw [if_neg hshort, if_neg hshort, happend]
        by_cases hdone : stop (absorb s items) = true
        · rw [if_pos (Or.inr hdone), hstop _ _ hdone, if_neg]
          rintro ⟨-, hgo⟩
          rw [hdone] at hgo
          cases hgo
        · rw [if_neg (not_or.mpr ⟨hshort, hdone⟩), ih _ (Bool.eq_false_iff.mpr hdone)]

/-- Nothing is hidden where no request fails. -/
theorem visible_served {items : List α} {pages : List (List α)} (h : Served size items pages) :
    visible size (pages.map .page) = items ∧ fails size (pages.map .page) = false := by
  induction h with
  | done => exact ⟨rfl, rfl⟩
  | last hpage =>
    rw [List.map_singleton, visible, fails, if_pos hpage, if_pos hpage]
    exact ⟨rfl, rfl⟩
  | full hpage _ ih =>
    rw [List.map_cons, visible, fails, hpage, if_neg (Nat.lt_irrefl size),
      if_neg (Nat.lt_irrefl size), ih.1, ih.2]
    exact ⟨rfl, rfl⟩

end Paging
end RocmTests

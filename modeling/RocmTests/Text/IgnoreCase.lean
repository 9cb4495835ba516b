import Mathlib.Data.List.Chain
import RocmTests.Text.RegexRemove

/-!
# Texts up to case

`foldCase` sends a character to the letter that it counts as under `re.IGNORECASE`, so
that a match of a literal folds to one fixed text.  That a literal has no word in
common with a match can then be seen from the pairs of neighbours in either.
-/

namespace RocmTests
namespace Text
namespace Re

def foldCase (x : Char) : Char :=
  if x.toNat = 304 ∨ x.toNat = 305 then 'i'
  else if x.toNat = 383 then 's'
  else if x.toNat = 8490 then 'k'
  else x.toLower

theorem toLower_of_not_ascii {x : Char} (h : 128 ≤ x.toNat) : x.toLower = x := by
  unfold Char.toLower
  refine dif_neg fun hup => ?_
  have hle : x.val.toNat ≤ 90 := hup.2
  have heq : x.toNat = x.val.toNat := rfl
  omega

theorem toLower_ascii {x : Char} (h : x.toNat < 128) : x.toLower.toNat < 128 := by
  have hall : ∀ n < 128, (Char.ofNat n).toLower.toNat < 128 := by decide
  have hx := hall x.toNat h
  rwa [Char.ofNat_toNat] at hx

theorem foldCase_ascii {x : Char} (h : x.toNat < 128) : foldCase x = x.toLower := by
  unfold foldCase
  rw [if_neg (by omega), if_neg (by omega), if_neg (by omega)]

theorem foldCase_of_sameLetter {c x : Char} (hc : c.toNat < 128) (h : sameLetter c x = true) :
    foldCase x = c.toLower := by
  unfold sameLetter at h
  simp only [Bool.or_eq_true, decide_eq_true_eq] at h
  rcases h with (rfl | h) | h
  · exact foldCase_ascii hc
  · have hx : x.toNat < 128 := by
      by_contra hx
      have hlow := toLower_ascii hc
      rw [← h, toLower_of_not_ascii (by omega)] at hlow
      exact hx hlow
    rw [foldCase_ascii hx, h]
  · unfold foldCase
    split at h
    · rename_i hi
      rw [if_pos (by simpa using h), hi]
    · rename_i hs
      have hx : x.toNat = 383 := by simpa using h
      rw [if_neg (by omega), if_pos hx, hs]
    · rename_i hk
      have hx : x.toNat = 8490 := by simpa using h
      rw [if_neg (by omega), if_neg (by omega), if_pos hx, hk]
    · cases h

def isAscii (s : String) : Bool := s.toList.all fun c => decide (c.toNat < 128)

theorem Letters.map_foldCase {s : String} {m : Txt} (h : Letters s m) (hs : isAscii s = true) :
    m.map foldCase = s.toList.map Char.toLower := by
  have hs : ∀ c ∈ s.toList, c.toNat < 128 := fun c hc =>
    of_decide_eq_true (List.all_eq_true.mp hs c hc)
  unfold Letters at h
  generalize s.toList = cs at h hs
  induction h with
  | nil => rfl
  | cons hsame _ ih =>
    rw [List.map_cons, List.map_cons, foldCase_of_sameLetter (hs _ List.mem_cons_self) hsame,
      ih fun c hc => hs c (List.mem_cons_of_mem _ hc)]

/-! ## Words by their neighbours -/

/-- Each word of `s` has two neighbours that `R` does not allow. -/
def Broken (R : Char → Char → Prop) (w : Char → Bool) (s : Txt) : Prop :=
  ∀ k < s.length, (s.take k).getLast?.any w = false → (s.drop k).head?.any w = true →
    ¬ ((s.drop k).takeWhile w).IsChain R

instance (R : Char → Char → Prop) [DecidableRel R] (w : Char → Bool) (s : Txt) :
    Decidable (Broken R w s) := by
  unfold Broken
  infer_instance

theorem takeWhile_eq {w w' : Char → Bool} {s : Txt} (h : ∀ c ∈ s, w c = w' c) :
    s.takeWhile w = s.takeWhile w' := by
  induction s with
  | nil => rfl
  | cons c s ih =>
    rw [List.takeWhile_cons, List.takeWhile_cons, h c List.mem_cons_self,
      ih fun x hx => h x (List.mem_cons_of_mem c hx)]

theorem any_eq {w w' : Char → Bool} {o : Option Char} (h : ∀ c ∈ o, w c = w' c) :
    o.any w = o.any w' := by
  cases o with
  | none => rfl
  | some c => exact h c rfl

theorem Broken.congr {R : Char → Char → Prop} {w w' : Char → Bool} {s : Txt} (h : Broken R w s)
    (hw : ∀ c ∈ s, w c = w' c) : Broken R w' s := by
  intro k hk hleft hright
  have htake : (s.take k).getLast?.any w = (s.take k).getLast?.any w' :=
    any_eq fun c hc => hw c (List.mem_of_mem_take (List.mem_of_getLast? hc))
  have hdrop : ∀ c ∈ s.drop k, w c = w' c := fun c hc => hw c (List.mem_of_mem_drop hc)
  have hhead : (s.drop k).head?.any w = (s.drop k).head?.any w' :=
    any_eq fun c hc => hdrop c (List.mem_of_mem_head? hc)
  rw [← takeWhile_eq hdrop]
  exact h k hk (htake.trans hleft) (hhead.trans hright)

variable {isWord : Char → Bool}

theorem any_map_foldCase (hfold : ∀ x, isWord (foldCase x) = isWord x) (o : Option Char) :
    (o.map foldCase).any isWord = o.any isWord := by
  cases o with
  | none => rfl
  | some x => exact hfold x

/-- A text with broken words is foreign to one that `R` allows all along. -/
theorem foreign_of_broken {R : Char → Char → Prop} {t m : Txt}
    (hfold : ∀ x, isWord (foldCase x) = isWord x) (hm : (m.map foldCase).IsChain R)
    (ht : Broken R isWord (t.map foldCase)) : Foreign isWord t m := by
  rintro t₁ t₂ rfl hleft hright hinside
  have htake : ((t₁ ++ t₂).map foldCase).take t₁.length = t₁.map foldCase := by
    rw [List.map_append, List.take_left' (List.length_map _)]
  have hdrop : ((t₁ ++ t₂).map foldCase).drop t₁.length = t₂.map foldCase := by
    rw [List.map_append, List.drop_left' (List.length_map _)]
  have hlen : t₁.length < ((t₁ ++ t₂).map foldCase).length := by
    cases t₂ with
    | nil => cases hright
    | cons c t₂ =>
      rw [List.length_map, List.length_append, List.length_cons]
      omega
  have hcomp : isWord ∘ foldCase = isWord := funext hfold
  refine ht t₁.length hlen ?_ ?_ ?_
  · rw [htake, List.getLast?_map, any_map_foldCase hfold, hleft]
  · rw [hdrop, List.head?_map, any_map_foldCase hfold, hright]
  · rw [hdrop, List.takeWhile_map, hcomp]
    exact hm.infix (hinside.map foldCase)

end Re
end Text
end RocmTests

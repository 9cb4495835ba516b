import Mathlib.Data.List.Induction

/-!
# Histories of calls on one state

Calls come one after the other, each with the choices its environment makes.
`Reached` holds of the states that a sequence of calls can produce when every
call meets a condition on the state it finds.  `Steps` says the same of a given
sequence, so that a statement can speak of what its steps met.
-/

namespace RocmTests
namespace Conc

variable {S L : Type}

inductive Reached (next : L → S → S) (allowed : S → L → Prop) (start : S) : S → Prop where
  | start : Reached next allowed start start
  | step {s : S} {l : L} (h : Reached next allowed start s) (hl : allowed s l) :
      Reached next allowed start (next l s)

namespace Reached

variable {next : L → S → S} {allowed : S → L → Prop} {start : S}

theorem invariant {I : S → Prop} (hstart : I start)
    (hstep : ∀ s l, I s → allowed s l → I (next l s)) {s : S} (h : Reached next allowed start s) :
    I s := by
  induction h with
  | start => exact hstart
  | step _ hl ih => exact hstep _ _ ih hl

end Reached

/-! ## Sequences of steps -/

section

variable (next : L → S → S)

def after (s : S) (ls : List L) : S := ls.foldl (fun s l => next l s) s

/-- Every step of the sequence meets the condition where it stands. -/
def Steps (cond : S → L → Prop) : S → List L → Prop
  | _, [] => True
  | s, l :: ls => cond s l ∧ Steps cond (next l s) ls

instance Steps.decidable (cond : S → L → Prop) [∀ s l, Decidable (cond s l)] :
    ∀ s ls, Decidable (Steps next cond s ls)
  | _, [] => .isTrue trivial
  | s, l :: ls =>
    have := Steps.decidable cond (next l s) ls
    inferInstanceAs (Decidable (_ ∧ _))

variable {next} {cond : S → L → Prop}

theorem after_snoc (s : S) (ls : List L) (l : L) :
    after next s (ls ++ [l]) = next l (after next s ls) := by
  unfold after
  rw [List.foldl_append]
  rfl

theorem steps_snoc (s : S) (ls : List L) (l : L) :
    Steps next cond s (ls ++ [l]) ↔ Steps next cond s ls ∧ cond (after next s ls) l := by
  induction ls generalizing s with
  | nil => simp [Steps, after]
  | cons k ls ih =>
    have hafter : after next s (k :: ls) = after next (next k s) ls := rfl
    rw [List.cons_append, Steps, Steps, ih, hafter, and_assoc]

theorem steps_append (s : S) (ls ls' : List L) :
    Steps next cond s (ls ++ ls') ↔
      Steps next cond s ls ∧ Steps next cond (after next s ls) ls' := by
  induction ls generalizing s with
  | nil => exact (true_and _).symm.to_iff
  | cons l ls ih =>
    have hafter : after next s (l :: ls) = after next (next l s) ls := rfl
    rw [List.cons_append, Steps, Steps, ih, hafter, and_assoc]

/-- A part of the state that only the steps of its owner change is what these steps make of it. -/
theorem after_part {K A : Type} [DecidableEq K] {I : S → Prop} (part : S → K → A) (owner : L → K)
    (own : L → A → A) (hkeep : ∀ s l, I s → I (next l s))
    (hpart : ∀ s l k, I s →
      part (next l s) k = if owner l = k then own l (part s k) else part s k)
    {s : S} (h : I s) (ls : List L) (k : K) :
    part (after next s ls) k = after own (part s k) (ls.filter fun l => owner l = k) := by
  induction ls generalizing s with
  | nil => rfl
  | cons l ls ih =>
    have hafter : after next s (l :: ls) = after next (next l s) ls := rfl
    rw [hafter, ih (hkeep s l h), hpart s l k h]
    by_cases hk : owner l = k
    · have hfilter : ((l :: ls).filter fun l => owner l = k) =
          l :: ls.filter fun l => owner l = k := List.filter_cons_of_pos (by simpa using hk)
      rw [if_pos hk, hfilter]
      rfl
    · have hfilter : ((l :: ls).filter fun l => owner l = k) = ls.filter fun l => owner l = k :=
        List.filter_cons_of_neg (by simpa using hk)
      rw [if_neg hk, hfilter]

theorem Steps.of_append {s : S} {ls ls' : List L} (h : Steps next cond s (ls ++ ls')) :
    Steps next cond s ls := by
  induction ls generalizing s with
  | nil => trivial
  | cons l ls ih => exact ⟨h.1, ih h.2⟩

/-- A property of a sequence and the state it leads to, kept by every step that
meets the condition. -/
theorem Steps.invariant {I : List L → S → Prop} {start : S} (hstart : I [] start)
    (hstep : ∀ ls s l, I ls s → cond s l → I (ls ++ [l]) (next l s)) {ls : List L}
    (h : Steps next cond start ls) : I ls (after next start ls) := by
  induction ls using List.reverseRecOn with
  | nil => exact hstart
  | append_singleton ls l ih =>
    obtain ⟨hls, hl⟩ := (steps_snoc start ls l).mp h
    rw [after_snoc]
    exact hstep ls _ l (ih hls) hl

/-- What follows from the condition where an invariant holds holds at every step, if steps
that meet the condition keep the invariant. -/
theorem Steps.imp {cond' : S → L → Prop} {I : S → Prop}
    (himp : ∀ s l, I s → cond s l → cond' s l) (hstep : ∀ s l, I s → cond s l → I (next l s))
    {ls : List L} {s : S} (hI : I s) (h : Steps next cond s ls) : Steps next cond' s ls := by
  induction ls generalizing s with
  | nil => trivial
  | cons l ls ih => exact ⟨himp s l hI h.1, ih (hstep s l hI h.1) h.2⟩

/-- Two conditions that agree wherever an invariant holds are met by the same sequences. -/
theorem steps_congr {cond' : S → L → Prop} {I : S → Prop}
    (hiff : ∀ s l, I s → (cond s l ↔ cond' s l))
    (hstep : ∀ s l, I s → cond' s l → I (next l s)) (ls : List L) {s : S} (hI : I s) :
    Steps next cond s ls ↔ Steps next cond' s ls := by
  constructor
  · exact Steps.imp (fun s l hs => (hiff s l hs).mp)
      (fun s l hs hl => hstep s l hs ((hiff s l hs).mp hl)) hI
  · exact Steps.imp (fun s l hs => (hiff s l hs).mpr) hstep hI

end

end Conc
end RocmTests

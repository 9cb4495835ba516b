import RocmTests.Text.Lines

/-!
# The kernel log of the test window

`_write_dmesg_delta` compares the kernel log before and after a workload.  Old
lines may have left the ring buffer meanwhile, so the end of the old log is
looked for in the new one by content: the position up to which the most lines
agree with the end of the old log, the earliest such position among equals.
-/

namespace RocmTests
namespace Monitored
namespace DmesgDelta

open Text

/-! ## The anchor -/

section

variable {α : Type} [DecidableEq α]

/-- How many lines agree, from the end backwards.  Both lists are reversed. -/
def runLength : List α → List α → Nat → Nat
  | p :: ps, q :: qs, n + 1 => if p = q then runLength ps qs n + 1 else 0
  | _, _, _ => 0

/-- The loop over the positions of `post`.  `seen` is the part before the current
position, reversed. -/
def findAnchor (preRev : List α) (maxDepth : Nat) :
    List α → List α → Nat → Option Nat → Option Nat
  | _, [], _, matchedAt => matchedAt
  | seen, line :: rest, bestLen, matchedAt =>
    if preRev.head? = some line then
      let run := runLength (line :: seen) preRev (min (seen.length + 1) maxDepth)
      if bestLen < run then
        if run = maxDepth then some (seen.length + 1)
        else findAnchor preRev maxDepth (line :: seen) rest run (some (seen.length + 1))
      else findAnchor preRev maxDepth (line :: seen) rest bestLen matchedAt
    else findAnchor preRev maxDepth (line :: seen) rest bestLen matchedAt

def anchorMaxDepth : Nat := 256

def maxDepth (pre post : List α) : Nat := min (min pre.length post.length) anchorMaxDepth

/-- `matched_at`. -/
def matchedAt (pre post : List α) : Option Nat :=
  findAnchor pre.reverse (maxDepth pre post) [] post 0 none

/-- The lines of the delta. -/
def deltaLines (banner : α) (pre post : List α) : List α :=
  if pre = [] then post
  else
    match matchedAt pre post with
    | some n => post.drop n
    | none => banner :: post

end

/-! ## The file -/

def snapshotUnavailable : Txt := "# [dmesg-capture] snapshot unavailable\n".toList

def pretestUnavailable : Txt :=
  ("# [dmesg-delta] pretest snapshot unavailable; cannot " ++
    "validate kernel health for this workload\n").toList

def posttestUnavailable : Txt :=
  ("# [dmesg-delta] posttest snapshot unavailable; cannot " ++
    "validate kernel health for this workload\n").toList

def banner : Txt :=
  ("# [dmesg-delta] pretest anchor evicted from ring " ++
    "buffer; showing full post-test dmesg (may include " ++ "pre-existing entries)").toList

/-- `_write_dmesg_delta`: the text written, given the pretest file if there is one
and what `capture_dmesg_text` returned. -/
def writeDmesgDelta (pretest : Option Txt) (posttest : Bool × Txt) : Txt :=
  match pretest with
  | none => pretestUnavailable
  | some text =>
    if text = snapshotUnavailable then pretestUnavailable
    else if posttest.1 then
      let delta := deltaLines banner (splitlines text) (splitlines posttest.2)
      joinLines delta ++ (if delta = [] then [] else ['\n'])
    else posttestUnavailable

/-! ## The position that is found -/

section

variable {α : Type}

theorem take_seen (seen rest : List α) (line : α) :
    ((seen.reverse ++ line :: rest).take (seen.length + 1)).reverse = line :: seen := by
  have hpost : seen.reverse ++ line :: rest = (line :: seen).reverse ++ rest := by simp
  rw [hpost, List.take_left' (by simp), List.reverse_reverse]

variable [DecidableEq α]

theorem le_runLength_iff (m : Nat) : ∀ (xs ys : List α) (n : Nat),
    m ≤ runLength xs ys n ↔
      m ≤ n ∧ m ≤ xs.length ∧ m ≤ ys.length ∧ xs.take m = ys.take m := by
  induction m with
  | zero => simp
  | succ m ih =>
    intro xs ys n
    cases xs with
    | nil => simp [runLength]
    | cons p ps =>
      cases ys with
      | nil => simp [runLength]
      | cons q qs =>
        cases n with
        | zero => simp [runLength]
        | succ n =>
          rw [runLength]
          by_cases hpq : p = q
          · rw [if_pos hpq, Nat.succ_le_succ_iff, ih ps qs n]
            simp [hpq]
          · rw [if_neg hpq]
            simp [hpq]

theorem runLength_le_left (xs ys : List α) (n : Nat) : runLength xs ys n ≤ xs.length :=
  ((le_runLength_iff _ xs ys n).mp (Nat.le_refl _)).2.1

theorem runLength_le_limit (xs ys : List α) (n : Nat) : runLength xs ys n ≤ n :=
  ((le_runLength_iff _ xs ys n).mp (Nat.le_refl _)).1

theorem runLength_min (xs ys : List α) (n : Nat) :
    runLength xs ys (min xs.length n) = runLength xs ys n := by
  apply Nat.le_antisymm
  · rw [le_runLength_iff]
    have h := (le_runLength_iff _ xs ys (min xs.length n)).mp (Nat.le_refl _)
    exact ⟨by omega, h.2⟩
  · rw [le_runLength_iff]
    have h := (le_runLength_iff _ xs ys n).mp (Nat.le_refl _)
    exact ⟨by omega, h.2⟩

/-- The earliest position from 1 to `n` at which `f` is largest, if it is ever
positive. -/
def EarliestMax (f : Nat → Nat) (n : Nat) : Option Nat → Prop
  | none => ∀ e, 1 ≤ e → e ≤ n → f e = 0
  | some m => 1 ≤ m ∧ m ≤ n ∧ 0 < f m ∧ (∀ e, 1 ≤ e → e ≤ n → f e ≤ f m) ∧
      ∀ e, 1 ≤ e → e < m → f e < f m

/-- The value at the position found so far. -/
def bestOf (f : Nat → Nat) : Option Nat → Nat
  | none => 0
  | some m => f m

theorem EarliestMax.le_best {f : Nat → Nat} {n : Nat} {m : Option Nat} (h : EarliestMax f n m)
    {e : Nat} (h1 : 1 ≤ e) (hn : e ≤ n) : f e ≤ bestOf f m := by
  cases m with
  | none =>
    show f e ≤ 0
    exact Nat.le_of_eq (h e h1 hn)
  | some m => exact h.2.2.2.1 e h1 hn

theorem EarliestMax.skip {f : Nat → Nat} {n : Nat} {m : Option Nat} (h : EarliestMax f n m)
    (hle : f (n + 1) ≤ bestOf f m) : EarliestMax f (n + 1) m := by
  cases m with
  | none =>
    intro e h1 hn
    rcases Nat.lt_or_ge n e with hlt | hge
    · have heq : e = n + 1 := by omega
      rw [heq]
      exact Nat.le_zero.mp hle
    · exact h e h1 hge
  | some m =>
    obtain ⟨h1, hmn, hpos, hmax, hearliest⟩ := h
    refine ⟨h1, by omega, hpos, fun e he hn => ?_, hearliest⟩
    rcases Nat.lt_or_ge n e with hlt | hge
    · have heq : e = n + 1 := by omega
      rw [heq]
      exact hle
    · exact hmax e he hge

theorem EarliestMax.take {f : Nat → Nat} {n : Nat} {m : Option Nat} (h : EarliestMax f n m)
    (hlt : bestOf f m < f (n + 1)) : EarliestMax f (n + 1) (some (n + 1)) := by
  refine ⟨by omega, Nat.le_refl _, by omega, fun e h1 hn => ?_, fun e h1 hn => ?_⟩
  · rcases Nat.lt_or_ge n e with hlt' | hge
    · have heq : e = n + 1 := by omega
      exact Nat.le_of_eq (congrArg f heq)
    · have hle := h.le_best h1 hge
      omega
  · have hle := h.le_best h1 (by omega)
    omega

/-- A position at which `f` reaches its bound need not be compared with later
ones. -/
theorem EarliestMax.of_bound {f : Nat → Nat} {n m bound : Nat} (h : EarliestMax f m (some m))
    (hmn : m ≤ n) (hbound : ∀ e, f e ≤ bound) (hm : f m = bound) : EarliestMax f n (some m) :=
  ⟨h.1, hmn, h.2.2.1, fun e _ _ => hm ▸ hbound e, h.2.2.2.2⟩

/-- How far the lines before position `e` of `post` agree with the end of the old
log. -/
def agreement (preRev : List α) (depth : Nat) (post : List α) (e : Nat) : Nat :=
  runLength (post.take e).reverse preRev depth

theorem agreement_eq_zero {preRev : List α} {line : α} (depth : Nat) (seen rest : List α)
    (h : preRev.head? ≠ some line) :
    agreement preRev depth (seen.reverse ++ line :: rest) (seen.length + 1) = 0 := by
  unfold agreement
  rw [take_seen]
  cases preRev with
  | nil => simp [runLength]
  | cons q qs =>
    have hne : line ≠ q := fun heq => h (by simp [heq])
    cases depth with
    | zero => rfl
    | succ depth => rw [runLength, if_neg hne]

theorem findAnchor_spec (preRev : List α) (depth : Nat) (rest : List α) :
    ∀ (seen : List α) (best : Nat) (m : Option Nat),
      EarliestMax (agreement preRev depth (seen.reverse ++ rest)) seen.length m →
      best = bestOf (agreement preRev depth (seen.reverse ++ rest)) m →
      EarliestMax (agreement preRev depth (seen.reverse ++ rest)) (seen.length + rest.length)
        (findAnchor preRev depth seen rest best m) := by
  induction rest with
  | nil =>
    intro seen best m h _
    exact h
  | cons line rest ih =>
    intro seen best m h hbest
    have hpost : (line :: seen).reverse ++ rest = seen.reverse ++ line :: rest := by simp
    have hlen : (line :: seen).length + rest.length = seen.length + (line :: rest).length := by
      simp only [List.length_cons]
      omega
    have hnext := ih (line :: seen)
    rw [hpost, hlen] at hnext
    have hrun : runLength (line :: seen) preRev (min (seen.length + 1) depth) =
        agreement preRev depth (seen.reverse ++ line :: rest) (seen.length + 1) := by
      unfold agreement
      rw [take_seen]
      exact runLength_min (line :: seen) preRev depth
    rw [findAnchor]
    by_cases hanchor : preRev.head? = some line
    · simp only [if_pos hanchor, hrun]
      split
      · rename_i hlt
        rw [hbest] at hlt
        have htaken := h.take hlt
        split
        · rename_i hfull
          refine htaken.of_bound ?_ (fun e => runLength_le_limit _ _ _) hfull
          simp only [List.length_cons]
          omega
        · exact hnext _ _ htaken rfl
      · rename_i hge
        rw [hbest] at hge
        exact hnext _ _ (h.skip (by omega)) hbest
    · rw [if_neg hanchor]
      have hzero := agreement_eq_zero depth seen rest hanchor
      exact hnext _ _ (h.skip (by omega)) hbest

theorem matchedAt_spec (pre post : List α) :
    EarliestMax (agreement pre.reverse (maxDepth pre post) post) post.length
      (matchedAt pre post) := by
  have h := findAnchor_spec pre.reverse (maxDepth pre post) post [] 0 none
    (fun e h1 h0 => by simp only [List.length_nil] at h0; omega) rfl
  rw [List.reverse_nil, List.nil_append, List.length_nil, Nat.zero_add] at h
  exact h

end

/-! ## The boundary in a log that lost its oldest lines -/

section

variable {α : Type}

theorem drop_boundary (pre new : List α) (k : Nat) :
    ((pre ++ new).drop k).drop (pre.length - k) = new.drop (k - pre.length) := by
  rw [List.drop_append, List.drop_left' (by simp)]

theorem take_boundary (pre new : List α) (k : Nat) :
    ((pre ++ new).drop k).take (pre.length - k) = pre.drop k := by
  rw [List.drop_append, List.take_left' (by simp)]

theorem boundary_le (pre new : List α) (k : Nat) :
    pre.length - k ≤ ((pre ++ new).drop k).length := by
  simp only [List.length_drop, List.length_append]
  omega

theorem drop_suffix_drop_iff {post : List α} {b n : Nat} (hn : n ≤ post.length)
    (hb : b ≤ post.length) : post.drop b <:+ post.drop n ↔ n ≤ b := by
  constructor
  · intro h
    have hlen := h.length_le
    simp only [List.length_drop] at hlen
    omega
  · intro h
    have heq : post.drop b = (post.drop n).drop (b - n) := by
      rw [List.drop_drop]
      congr 1
      omega
    rw [heq]
    exact List.drop_suffix _ _

theorem take_reverse_eq_iff {xs ys : List α} {m : Nat} (hy : m ≤ ys.length) :
    xs.reverse.take m = ys.reverse.take m ↔ ys.drop (ys.length - m) <:+ xs := by
  rw [List.take_reverse, List.take_reverse, List.reverse_inj]
  constructor
  · intro h
    rw [← h]
    exact List.drop_suffix _ _
  · intro h
    have hlen : (ys.drop (ys.length - m)).length = m := by
      rw [List.length_drop]
      omega
    have heq := List.suffix_iff_eq_drop.mp h
    rw [hlen] at heq
    exact heq.symm

variable [DecidableEq α]

theorem agreement_le (preRev : List α) (depth : Nat) (post : List α) (e : Nat) :
    agreement preRev depth post e ≤ e ∧ agreement preRev depth post e ≤ depth := by
  have hleft := runLength_le_left (post.take e).reverse preRev depth
  rw [List.length_reverse, List.length_take] at hleft
  exact ⟨by unfold agreement; omega, runLength_le_limit _ _ _⟩

/-- Beyond `b` lines of agreement at a position means the last `b + 1` lines of
the old log before it. -/
theorem lt_agreement_iff (pre post : List α) {b e : Nat} (hb : b < maxDepth pre post)
    (he : b < e) (hlen : e ≤ post.length) :
    b < agreement pre.reverse (maxDepth pre post) post e ↔
      pre.drop (pre.length - (b + 1)) <:+ post.take e := by
  have hpre : b + 1 ≤ pre.length := by
    unfold maxDepth at hb
    omega
  have htake : b + 1 ≤ (post.take e).length := by
    rw [List.length_take]
    omega
  rw [← take_reverse_eq_iff hpre]
  unfold agreement
  rw [← Nat.succ_le_iff, le_runLength_iff, List.length_reverse, List.length_reverse]
  constructor
  · intro h
    exact h.2.2.2
  · intro h
    exact ⟨hb, htake, hpre, h⟩

theorem agreement_boundary (pre new : List α) (k : Nat) :
    agreement pre.reverse (maxDepth pre ((pre ++ new).drop k)) ((pre ++ new).drop k)
      (pre.length - k) = min (pre.length - k) (maxDepth pre ((pre ++ new).drop k)) := by
  have hle := agreement_le pre.reverse (maxDepth pre ((pre ++ new).drop k)) ((pre ++ new).drop k)
    (pre.length - k)
  apply Nat.le_antisymm (by omega)
  unfold agreement
  rw [take_boundary, le_runLength_iff, List.length_reverse, List.length_drop, List.length_reverse]
  refine ⟨by omega, by omega, by omega, ?_⟩
  rw [List.reverse_drop, List.take_take]
  congr 1
  omega

/-- The last lines of the old log, one more than are left of it, come again among
the new ones. -/
def Repeats (pre post : List α) (b : Nat) : Prop :=
  ∃ e, b < e ∧ e ≤ post.length ∧ pre.drop (pre.length - (b + 1)) <:+ post.take e

/-- The anchor does not lie beyond the boundary. -/
theorem matchedAt_le_iff (pre new : List α) (k : Nat) :
    (∀ n, matchedAt pre ((pre ++ new).drop k) = some n → n ≤ pre.length - k) ↔
      maxDepth pre ((pre ++ new).drop k) ≤ pre.length - k ∨
        ¬ Repeats pre ((pre ++ new).drop k) (pre.length - k) := by
  have hspec := matchedAt_spec pre ((pre ++ new).drop k)
  have hboundary := agreement_boundary pre new k
  have hle := agreement_le pre.reverse (maxDepth pre ((pre ++ new).drop k)) ((pre ++ new).drop k)
  have hlt {e : Nat} := lt_agreement_iff pre ((pre ++ new).drop k) (b := pre.length - k) (e := e)
  have hblen := boundary_le pre new k
  generalize (pre ++ new).drop k = post at *
  generalize maxDepth pre post = depth at *
  generalize pre.length - k = b at *
  constructor
  · intro h
    by_contra hnot
    rw [not_or, not_not] at hnot
    obtain ⟨hdepth, e, hbe, helen, hsuffix⟩ := hnot
    have hlarge : b < agreement pre.reverse depth post e :=
      (hlt (by omega) hbe helen).mpr hsuffix
    cases hm : matchedAt pre post with
    | none =>
      rw [hm] at hspec
      have hzero : agreement pre.reverse depth post e = 0 := hspec e (by omega) helen
      omega
    | some n =>
      rw [hm] at hspec
      have hn := h n hm
      have hmax := hspec.2.2.2.1 e (by omega) helen
      have hsmall := (hle n).1
      omega
  · intro h n hm
    rw [hm] at hspec
    obtain ⟨_, hlen, hpos, _, hearliest⟩ := hspec
    by_contra hbn
    have hbn' : b < n := by omega
    have hnle : agreement pre.reverse depth post n ≤ min b depth := by
      have hn := hle n
      rcases h with hdepth | hrepeats
      · omega
      · by_contra hbig
        rcases Nat.lt_or_ge b depth with hb | hb
        · exact hrepeats ⟨n, hbn', hlen, (hlt hb hbn' hlen).mp (by omega)⟩
        · omega
    rcases Nat.eq_zero_or_pos b with hb | hb
    · omega
    · have hfirst := hearliest b hb hbn'
      omega

theorem deltaLines_keeps_iff (banner : α) {pre : List α} (hpre : pre ≠ []) (new : List α)
    (k : Nat) :
    new.drop (k - pre.length) <:+ deltaLines banner pre ((pre ++ new).drop k) ↔
      maxDepth pre ((pre ++ new).drop k) ≤ pre.length - k ∨
        ¬ Repeats pre ((pre ++ new).drop k) (pre.length - k) := by
  have hspec := matchedAt_spec pre ((pre ++ new).drop k)
  rw [← matchedAt_le_iff, ← drop_boundary]
  unfold deltaLines
  rw [if_neg hpre]
  cases hm : matchedAt pre ((pre ++ new).drop k) with
  | none =>
    have hall : ((pre ++ new).drop k).drop (pre.length - k) <:+ banner :: (pre ++ new).drop k :=
      (List.drop_suffix _ _).trans (List.suffix_cons _ _)
    exact iff_of_true hall fun n h => by cases h
  | some n =>
    rw [hm] at hspec
    simp only [Option.some.injEq, forall_eq']
    exact drop_suffix_drop_iff hspec.2.1 (boundary_le pre new k)

end

theorem isLine_banner : IsLine banner := by
  have h : banner.all (fun c => !isBoundary c) = true := by
    unfold banner
    simp only [String.toList_append]
    simp only [String.reduceToList]
    decide
  intro c hc
  have hnot := List.all_eq_true.mp h c hc
  simpa using hnot

/-- What is written reads back as the lines of the delta. -/
theorem splitlines_writeDmesgDelta {text post : Txt} (h : text ≠ snapshotUnavailable) :
    splitlines (writeDmesgDelta (some text) (true, post)) =
      deltaLines banner (splitlines text) (splitlines post) := by
  have hlines : ∀ l ∈ deltaLines banner (splitlines text) (splitlines post), IsLine l := by
    intro l hl
    unfold deltaLines at hl
    split at hl
    · exact isLine_splitlines hl
    · split at hl
      · exact isLine_splitlines (List.mem_of_mem_drop hl)
      · rcases List.mem_cons.mp hl with hl | hl
        · rw [hl]
          exact isLine_banner
        · exact isLine_splitlines hl
  unfold writeDmesgDelta
  simp only [if_neg h, if_true]
  by_cases hnil : deltaLines banner (splitlines text) (splitlines post) = []
  · rw [hnil]
    rfl
  · rw [if_neg hnil, joinLines_newline hnil, splitlines_unlines hlines]

/-- With `b` lines of the old log left, the delta ends with every new line that is
still in the buffer exactly when at least the anchor depth is left, or the last
`b + 1` lines of the old log do not come again among the new ones. -/
theorem writeDmesgDelta_keeps_new_iff (text post : Txt) (new : List Txt) (k : Nat)
    (hcaptured : text ≠ snapshotUnavailable) (hpre : splitlines text ≠ [])
    (hpost : splitlines post = (splitlines text ++ new).drop k) :
    new.drop (k - (splitlines text).length) <:+
        splitlines (writeDmesgDelta (some text) (true, post)) ↔
      maxDepth (splitlines text) (splitlines post) ≤ (splitlines text).length - k ∨
        ¬ Repeats (splitlines text) (splitlines post) ((splitlines text).length - k) := by
  rw [splitlines_writeDmesgDelta hcaptured, hpost]
  exact deltaLines_keeps_iff banner hpre new k

/-! ## Two logs -/

def reset : Txt := ['r', 'e', 's', 'e', 't']

def fault : Txt := ['f', 'a', 'u', 'l', 't']

theorem reset_captured : unlines [reset] ≠ snapshotUnavailable := by
  intro h
  have hhead := congrArg List.head? h
  unfold snapshotUnavailable at hhead
  simp only [String.reduceToList] at hhead
  revert hhead
  decide

/-- One line has left the buffer, and the last line of the old log comes again after a fault. -/
theorem writeDmesgDelta_keeps_new_iff_evicted :
    [fault, reset] <:+ splitlines (writeDmesgDelta (some (unlines [fault, reset, reset]))
      (true, unlines [reset, reset, fault, reset])) := by
  have hcaptured : unlines [fault, reset, reset] ≠ snapshotUnavailable := by decide +kernel
  refine (writeDmesgDelta_keeps_new_iff (unlines [fault, reset, reset])
    (unlines [reset, reset, fault, reset]) [fault, reset] 1 hcaptured (by decide)
    (by decide)).mpr (.inr ?_)
  rintro ⟨e, hlt, hle, hsuffix⟩
  have hnot : ∀ e ≤ 4, 2 < e →
      ¬ [fault, reset, reset] <:+ [reset, reset, fault, reset].take e := by decide
  exact hnot e hle hlt hsuffix

/-- The old log is a single line, which has left the buffer and comes again after
a fault: the fault is lost. -/
theorem writeDmesgDelta_loses_fault :
    unlines [reset] ≠ snapshotUnavailable ∧ splitlines (unlines [reset]) ≠ [] ∧
      splitlines (unlines [fault, reset]) =
        (splitlines (unlines [reset]) ++ [fault, reset]).drop 1 ∧
      ¬ [fault, reset].drop (1 - (splitlines (unlines [reset])).length) <:+ splitlines
        (writeDmesgDelta (some (unlines [reset])) (true, unlines [fault, reset])) := by
  refine ⟨reset_captured, by decide, by decide, ?_⟩
  rw [splitlines_writeDmesgDelta reset_captured]
  have hdelta : deltaLines banner (splitlines (unlines [reset]))
      (splitlines (unlines [fault, reset])) = [] := by decide
  rw [hdelta]
  decide

end DmesgDelta
end Monitored
end RocmTests

import Mathlib.Data.List.DropRight
import RocmTests.Collections.Terminated
import RocmTests.Text.RegexMatch

/-!
# Replacing runs of characters

`re.sub(r"[...]+", repl, t)` writes the replacement once for each longest run of characters of the
class.  That is one pass over the text, which remembers whether it is in a run.
-/

namespace RocmTests
namespace Text

/-- One replacement for each run; the flag says that the run before has its own already. -/
def squeeze (p : Char → Bool) (repl : Txt) : Bool → Txt → Txt
  | _, [] => []
  | inside, c :: t =>
    if p c then (if inside then squeeze p repl true t else repl ++ squeeze p repl true t)
    else c :: squeeze p repl false t

section

variable {p q : Char → Bool} {repl : Txt}

theorem squeeze_cons_neg {c : Char} (hc : p c = false) (inside : Bool) (t : Txt) :
    squeeze p repl inside (c :: t) = c :: squeeze p repl false t := by
  rw [squeeze, hc]
  rfl

theorem squeeze_cons_inside {c : Char} (hc : p c = true) (t : Txt) :
    squeeze p repl true (c :: t) = squeeze p repl true t := by
  rw [squeeze, hc]
  rfl

theorem squeeze_cons_outside {c : Char} (hc : p c = true) (t : Txt) :
    squeeze p repl false (c :: t) = repl ++ squeeze p repl true t := by
  rw [squeeze, hc]
  rfl

/-- Behind a character that is kept it does not matter what was before. -/
theorem squeeze_append_cons {c : Char} (hc : p c = false) (l r : Txt) (inside : Bool) :
    squeeze p repl inside (l ++ c :: r) =
      squeeze p repl inside l ++ c :: squeeze p repl false r := by
  induction l generalizing inside with
  | nil => exact squeeze_cons_neg hc inside r
  | cons d l ih =>
    rw [List.cons_append]
    by_cases hd : p d = true
    · cases inside with
      | true => rw [squeeze_cons_inside hd, squeeze_cons_inside hd, ih]
      | false => rw [squeeze_cons_outside hd, squeeze_cons_outside hd, ih, List.append_assoc]
    · rw [squeeze_cons_neg (Bool.eq_false_iff.mpr hd), squeeze_cons_neg (Bool.eq_false_iff.mpr hd),
        ih, List.cons_append]

theorem mem_squeeze {c : Char} (t : Txt) : ∀ {inside : Bool}, c ∈ squeeze p repl inside t →
    c ∈ repl ∨ c ∈ t ∧ p c = false := by
  induction t with
  | nil => exact fun h => nomatch h
  | cons d t ih =>
    intro inside h
    by_cases hd : p d = true
    · have hrest : c ∈ squeeze p repl true t ∨ c ∈ repl := by
        cases inside with
        | true => exact Or.inl (squeeze_cons_inside hd t ▸ h)
        | false =>
          rw [squeeze_cons_outside hd, List.mem_append] at h
          exact h.symm
      rcases hrest with h | h
      · exact (ih h).imp_right fun h => ⟨List.mem_cons_of_mem d h.1, h.2⟩
      · exact Or.inl h
    · have hd := Bool.eq_false_iff.mpr hd
      rw [squeeze_cons_neg hd, List.mem_cons] at h
      rcases h with rfl | h
      · exact Or.inr ⟨List.mem_cons_self, hd⟩
      · exact (ih h).imp_right fun h => ⟨List.mem_cons_of_mem d h.1, h.2⟩

theorem squeeze_kept {x : Txt} (hx : ∀ c ∈ x, p c = false) (t : Txt) :
    squeeze p repl false (x ++ t) = x ++ squeeze p repl false t := by
  induction x with
  | nil => rfl
  | cons c x ih =>
    rw [List.cons_append, squeeze_cons_neg (hx c List.mem_cons_self),
      ih fun d hd => hx d (List.mem_cons_of_mem c hd)]
    rfl

theorem squeeze_run {m : Txt} (hm : ∀ c ∈ m, p c = true) (t : Txt) :
    squeeze p repl true (m ++ t) = squeeze p repl true t := by
  induction m with
  | nil => rfl
  | cons c m ih =>
    rw [List.cons_append, squeeze_cons_inside (hm c List.mem_cons_self),
      ih fun d hd => hm d (List.mem_cons_of_mem c hd)]

theorem squeeze_true_eq {v : Txt} (hv : ∀ c, v.head? = some c → p c = false) :
    squeeze p repl true v = squeeze p repl false v := by
  cases v with
  | nil => rfl
  | cons c v =>
    have hc := hv c rfl
    rw [squeeze_cons_neg hc, squeeze_cons_neg hc]

/-- What is written for the runs of one class and then squeezed together with another is one run
of both. -/
theorem squeeze_squeeze {u : Char} (hu : q u = true) (t : Txt) : ∀ {inside inner : Bool},
    (inner = true → inside = true) →
      squeeze q [u] inside (squeeze p [u] inner t) =
        squeeze (fun c => p c || q c) [u] inside t := by
  induction t with
  | nil => exact fun _ => rfl
  | cons c t ih =>
    intro inside inner hin
    by_cases hp : p c = true
    · have hor : (p c || q c) = true := by rw [hp, Bool.true_or]
      cases inner with
      | true =>
        obtain rfl := hin rfl
        rw [squeeze_cons_inside hp, squeeze_cons_inside hor, ih fun _ => rfl]
      | false =>
        rw [squeeze_cons_outside hp, List.singleton_append]
        cases inside with
        | true => rw [squeeze_cons_inside hu, squeeze_cons_inside hor, ih fun _ => rfl]
        | false => rw [squeeze_cons_outside hu, squeeze_cons_outside hor, ih fun _ => rfl]
    · rw [squeeze_cons_neg (Bool.eq_false_iff.mpr hp)]
      by_cases hq : q c = true
      · have hor : (p c || q c) = true := by rw [hq, Bool.or_true]
        cases inside with
        | true => rw [squeeze_cons_inside hq, squeeze_cons_inside hor, ih fun _ => rfl]
        | false => rw [squeeze_cons_outside hq, squeeze_cons_outside hor, ih fun _ => rfl]
      · have hor : (p c || q c) = false := by
          rw [Bool.eq_false_iff.mpr hp, Bool.eq_false_iff.mpr hq]
          rfl
        rw [squeeze_cons_neg (Bool.eq_false_iff.mpr hq), squeeze_cons_neg hor,
          ih fun h => h]

end

/-! ## Words -/

/-- The longest runs of other characters. -/
def wordsOf (p : Char → Bool) (t : Txt) : List Txt := (t.splitOnP p).filter (· ≠ [])

section

variable {p : Char → Bool}

theorem wordsOf_cons_pos {c : Char} (hc : p c = true) (t : Txt) :
    wordsOf p (c :: t) = wordsOf p t := by
  unfold wordsOf
  rw [List.splitOnP_cons_eq_if_modifyHead, if_pos hc]
  rfl

theorem wordsOf_singleton {c : Char} (hc : p c = false) : wordsOf p [c] = [[c]] := by
  unfold wordsOf
  rw [List.splitOnP_cons_eq_if_modifyHead, hc]
  rfl

/-- A word of one character. -/
theorem wordsOf_cons_cons_pos {c d : Char} (hc : p c = false) (hd : p d = true) (t : Txt) :
    wordsOf p (c :: d :: t) = [c] :: wordsOf p (d :: t) := by
  unfold wordsOf
  rw [List.splitOnP_cons_eq_if_modifyHead c, hc, List.splitOnP_cons_eq_if_modifyHead d, if_pos hd]
  rfl

/-- A longer word. -/
theorem wordsOf_cons_cons_neg {c d : Char} (hc : p c = false) (hd : p d = false) (t : Txt) :
    ∃ w ws, wordsOf p (d :: t) = w :: ws ∧ wordsOf p (c :: d :: t) = (c :: w) :: ws := by
  unfold wordsOf
  cases hsplit : t.splitOnP p with
  | nil => exact absurd hsplit (List.splitOnP_ne_nil p t)
  | cons w ws =>
    refine ⟨d :: w, ws.filter (· ≠ []), ?_, ?_⟩
    · rw [List.splitOnP_cons_eq_if_modifyHead d, hd, hsplit]
      rfl
    · rw [List.splitOnP_cons_eq_if_modifyHead c, hc, List.splitOnP_cons_eq_if_modifyHead d, hd,
        hsplit]
      rfl

theorem mem_wordsOf {w t : Txt} (hw : w ∈ wordsOf p t) : ∀ c ∈ w, p c = false :=
  Collections.not_of_mem_splitOnP t w (List.mem_of_mem_filter hw)

/-- In a text that ends outside a run, one character for each run stands between the words. -/
theorem squeeze_eq_intercalate (u : Char) (t : Txt) :
    (∀ c, t.getLast? = some c → p c = false) →
      squeeze p [u] true t = [u].intercalate (wordsOf p t) ∧ (t ≠ [] → wordsOf p t ≠ []) := by
  induction t with
  | nil => exact fun _ => ⟨rfl, fun h => absurd rfl h⟩
  | cons c t ih =>
    intro hlast
    cases t with
    | nil =>
      have hc := hlast c rfl
      rw [wordsOf_singleton hc, squeeze_cons_neg hc]
      exact ⟨rfl, fun _ => List.cons_ne_nil _ _⟩
    | cons d t =>
      obtain ⟨hsq, hne⟩ := ih fun e he => hlast e he
      have hne := hne (List.cons_ne_nil d t)
      by_cases hc : p c = true
      · rw [squeeze_cons_inside hc, wordsOf_cons_pos hc]
        exact ⟨hsq, fun _ => hne⟩
      · have hc := Bool.eq_false_iff.mpr hc
        rw [squeeze_cons_neg hc]
        by_cases hd : p d = true
        · rw [squeeze_cons_inside hd] at hsq
          rw [wordsOf_cons_cons_pos hc hd, Collections.intercalate_cons u [c] hne,
            squeeze_cons_outside hd, hsq]
          exact ⟨rfl, fun _ => List.cons_ne_nil _ _⟩
        · have hd := Bool.eq_false_iff.mpr hd
          obtain ⟨w, ws, hw, hcw⟩ := wordsOf_cons_cons_neg hc hd t
          have hhead : ∀ e, (d :: t).head? = some e → p e = false :=
            fun e he => Option.some.inj he ▸ hd
          rw [← squeeze_true_eq hhead, hsq, hw, hcw]
          refine ⟨?_, fun _ => List.cons_ne_nil _ _⟩
          cases ws with
          | nil => simp [List.intercalate]
          | cons v vs =>
            rw [Collections.intercalate_cons u w (List.cons_ne_nil v vs),
              Collections.intercalate_cons u (c :: w) (List.cons_ne_nil v vs)]
            rfl

end

/-! ## Both ends -/

section

variable {p : Char → Bool}

theorem trim_pad {l m r : Txt} (hl : ∀ c ∈ l, p c = true) (hr : ∀ c ∈ r, p c = true)
    (hhead : ∀ c, m.head? = some c → p c = false)
    (hlast : ∀ c, m.getLast? = some c → p c = false) :
    ((l ++ (m ++ r)).dropWhile p).rdropWhile p = m := by
  rw [List.dropWhile_append_of_pos hl]
  cases m with
  | nil => rw [List.nil_append, List.dropWhile_eq_nil_iff.mpr hr, List.rdropWhile_nil]
  | cons c m =>
    have hc := hhead c rfl
    have hself : (c :: m).rdropWhile p = c :: m := by
      rw [List.rdropWhile_eq_self_iff]
      intro hne
      rw [hlast _ (List.getLast?_eq_some_getLast hne)]
      exact Bool.false_ne_true
    rw [List.cons_append, List.dropWhile_cons_of_neg (by rw [hc]; exact Bool.false_ne_true),
      ← List.cons_append, List.rdropWhile, List.reverse_append,
      List.dropWhile_append_of_pos fun d hd => hr d (List.mem_reverse.mp hd)]
    exact hself

theorem trim_split (p : Char → Bool) (t : Txt) :
    ∃ l r, t = l ++ ((t.dropWhile p).rdropWhile p ++ r) ∧ (∀ c ∈ l, p c = true) ∧
      (∀ c ∈ r, p c = true) ∧
      (∀ c, ((t.dropWhile p).rdropWhile p).head? = some c → p c = false) ∧
      ∀ c, ((t.dropWhile p).rdropWhile p).getLast? = some c → p c = false := by
  refine ⟨t.takeWhile p, (t.dropWhile p).rtakeWhile p, ?_, fun c hc => List.mem_takeWhile_imp hc,
    fun c hc => List.mem_rtakeWhile_imp hc, ?_, ?_⟩
  · rw [List.rdropWhile_append_rtakeWhile, List.takeWhile_append_dropWhile]
  · intro c hc
    have hhead := List.head?_dropWhile_not p t
    obtain ⟨u, hu⟩ := List.rdropWhile_prefix p (t.dropWhile p)
    have hne : (t.dropWhile p).rdropWhile p ≠ [] := fun h => by rw [h] at hc; cases hc
    rw [← hu, List.head?_append_of_ne_nil _ hne, hc] at hhead
    simpa using hhead
  · intro c hc
    have hne : (t.dropWhile p).rdropWhile p ≠ [] := fun h => by rw [h] at hc; cases hc
    rw [List.getLast?_eq_some_getLast hne, Option.some.injEq] at hc
    exact hc ▸ Bool.eq_false_iff.mpr (List.rdropWhile_last_not p _ hne)

end

/-! ## `re.sub` -/

namespace Re

variable {isWord : Char → Bool} {p : Char → Bool}

theorem matchAt_plus_none {b a : Txt} (ha : ∀ c, a.head? = some c → p c = false) :
    matchAt isWord (plus p) ⟨b, a⟩ = none := by
  cases a with
  | nil => rfl
  | cons c a =>
    have hc := ha c rfl
    unfold matchAt plus
    rw [run, run]
    simp only [hc, Bool.false_eq_true, if_false, List.flatMap_nil, List.head?_nil]

theorem searchFrom_plus {x : Txt} (hx : ∀ c ∈ x, p c = false) (before rest : Txt) :
    searchFrom isWord (plus p) before (x ++ rest) =
      searchFrom isWord (plus p) (x.reverse ++ before) rest := by
  induction x generalizing before with
  | nil => rfl
  | cons c x ih =>
    have hnone : matchAt isWord (plus p) ⟨before, c :: (x ++ rest)⟩ = none :=
      matchAt_plus_none fun d hd => Option.some.inj hd ▸ hx c List.mem_cons_self
    rw [List.cons_append, searchFrom, hnone]
    show searchFrom isWord (plus p) (c :: before) (x ++ rest) = _
    rw [ih fun d hd => hx d (List.mem_cons_of_mem c hd), List.reverse_cons, List.append_assoc]
    rfl

theorem searchFrom_plus_none {x : Txt} (hx : ∀ c ∈ x, p c = false) (before : Txt) :
    searchFrom isWord (plus p) before x = none := by
  induction x generalizing before with
  | nil => rfl
  | cons c x ih =>
    rw [searchFrom, matchAt_plus_none fun d hd => Option.some.inj hd ▸ hx c List.mem_cons_self]
    exact ih (fun d hd => hx d (List.mem_cons_of_mem c hd)) (c :: before)

theorem substFrom_plus (repl : Txt) (fuel : Nat) : ∀ before after : Txt, after.length ≤ fuel →
    substFrom isWord (plus p) repl fuel before after = squeeze p repl false after := by
  induction fuel with
  | zero =>
    intro before after hlen
    rw [List.length_eq_zero_iff.mp (Nat.le_zero.mp hlen)]
    rfl
  | succ fuel ih =>
    intro before after hlen
    let x := after.takeWhile fun c => !p c
    let rest := after.dropWhile fun c => !p c
    have hsplit : after = x ++ rest := List.takeWhile_append_dropWhile.symm
    have hx : ∀ c ∈ x, p c = false := by
      intro c hc
      have hc' := List.mem_takeWhile_imp hc
      simpa using hc'
    rw [hsplit, squeeze_kept hx, substFrom]
    cases hrest : rest with
    | nil => rw [List.append_nil, searchFrom_plus_none hx]; simp [squeeze]
    | cons c t =>
      have hc : p c = true := by
        have hhead := List.head?_dropWhile_not (fun c => !p c) after
        rw [show after.dropWhile _ = c :: t from hrest] at hhead
        simpa using hhead
      let m := t.takeWhile p
      let v := t.dropWhile p
      have hm : ∀ d ∈ m, p d = true := fun d hd => List.mem_takeWhile_imp hd
      have hv : ∀ d, v.head? = some d → p d = false := by
        intro d hd
        have hhead := List.head?_dropWhile_not p t
        rw [show t.dropWhile p = v from rfl, hd] at hhead
        simpa using hhead
      have ht : c :: t = (c :: m) ++ v := by
        rw [List.cons_append, List.takeWhile_append_dropWhile]
      have htakes : matchAt isWord (plus p) ⟨x.reverse ++ before, (c :: m) ++ v⟩ =
          some ⟨⟨(c :: m).reverse ++ (x.reverse ++ before), v⟩, []⟩ := by
        refine takes_plus (List.cons_ne_nil c m) ?_ hv
        intro d hd
        rcases List.mem_cons.mp hd with rfl | hd
        · exact hc
        · exact hm d hd
      have hsearch : searchFrom isWord (plus p) before (x ++ c :: t) =
          some (⟨x.reverse ++ before, c :: t⟩,
            ⟨⟨(c :: m).reverse ++ (x.reverse ++ before), v⟩, []⟩) := by
        rw [searchFrom_plus hx before, searchFrom, ht, htakes]
      have hvlen : v.length ≤ fuel := by
        have hle : v.length ≤ t.length := (List.dropWhile_suffix p).length_le
        have hlen' : after.length = x.length + (t.length + 1) := by
          conv_lhs => rw [hsplit, hrest]
          rw [List.length_append, List.length_cons]
        omega
      rw [hsearch]
      simp only []
      rw [ih _ v hvlen, squeeze_cons_outside hc]
      have hrun : squeeze p repl true t = squeeze p repl false v := by
        conv_lhs => rw [← List.takeWhile_append_dropWhile (p := p) (l := t)]
        rw [squeeze_run hm, squeeze_true_eq hv]
      rw [hrun]
      simp [List.append_assoc]

theorem subst_plus (repl t : Txt) : subst isWord (plus p) repl t = squeeze p repl false t :=
  substFrom_plus repl t.length [] t (Nat.le_refl _)

end Re
end Text
end RocmTests

import Mathlib
import RocmTests.Collections.Terminated

/-!
# Text and its lines

A text is a list of characters.  `splitlines` is `str.splitlines`: it knows the
eleven line boundaries of Unicode text, takes `\r\n` as one, and gives no empty
line after a boundary at the end.  `unlines` ends every line with a newline.
-/

namespace RocmTests
namespace Text

abbrev Txt := List Char

/-- A constant for the instance, so that every membership test names the same one. -/
instance instLawfulBEqTxt : LawfulBEq Txt := inferInstance

/-- All characters of a text, without a search over all characters there are. -/
theorem forall_of_all {p : Char → Prop} [DecidablePred p] {t : Txt}
    (h : t.all (fun c => decide (p c)) = true) : ∀ c ∈ t, p c :=
  fun c hc => of_decide_eq_true (List.all_eq_true.mp h c hc)

/-- The single characters at which `str.splitlines` breaks. -/
def isBoundary (c : Char) : Bool :=
  c.toNat ∈ [10, 11, 12, 13, 28, 29, 30, 133, 8232, 8233]

/-- The lines of a text that continues the line `cur`, which is held reversed. -/
def splitlinesFrom : Txt → Txt → List Txt
  | [], [] => []
  | [], c :: cur => [(c :: cur).reverse]
  | '\r' :: '\n' :: cs, cur => cur.reverse :: splitlinesFrom cs []
  | c :: cs, cur =>
    if isBoundary c then cur.reverse :: splitlinesFrom cs [] else splitlinesFrom cs (c :: cur)

def splitlines (text : Txt) : List Txt := splitlinesFrom text []

def unlines (ls : List Txt) : Txt := ls.flatMap (· ++ ['\n'])

/-- `"\n".join(ls)`. -/
def joinLines : List Txt → Txt
  | [] => []
  | [l] => l
  | l :: ls => l ++ '\n' :: joinLines ls

/-- A line without boundaries of its own. -/
def IsLine (l : Txt) : Prop := ∀ c ∈ l, isBoundary c = false

theorem joinLines_newline {ls : List Txt} (h : ls ≠ []) : joinLines ls ++ ['\n'] = unlines ls := by
  induction ls with
  | nil => exact absurd rfl h
  | cons l ls ih =>
    cases ls with
    | nil => simp [joinLines, unlines]
    | cons l' ls =>
      have hrest := ih (by simp)
      rw [joinLines, unlines, List.flatMap_cons, List.append_assoc, List.cons_append, hrest]
      · simp [unlines]
      · simp

theorem splitlinesFrom_cons {c : Char} (hc : isBoundary c = false) (cs cur : Txt) :
    splitlinesFrom (c :: cs) cur = splitlinesFrom cs (c :: cur) := by
  have hr : c ≠ '\r' := by
    intro h
    rw [h] at hc
    revert hc
    decide
  rw [splitlinesFrom]
  · simp [hc]
  · intro cs' h
    exact absurd h hr

theorem splitlinesFrom_line {l : Txt} (h : IsLine l) :
    ∀ rest cur : Txt, splitlinesFrom (l ++ '\n' :: rest) cur =
      (cur.reverse ++ l) :: splitlinesFrom rest [] := by
  induction l with
  | nil =>
    intro rest cur
    rw [List.nil_append, List.append_nil, splitlinesFrom]
    · have hn : isBoundary '\n' = true := by decide
      rw [if_pos hn]
    · intro cs' h
      cases h
  | cons c cs ih =>
    intro rest cur
    have hc := h c List.mem_cons_self
    have hcs : IsLine cs := fun x hx => h x (List.mem_cons_of_mem _ hx)
    rw [List.cons_append, splitlinesFrom_cons hc, ih hcs]
    simp

theorem splitlinesFrom_end {l : Txt} (h : IsLine l) :
    ∀ cur : Txt, cur.reverse ++ l ≠ [] → splitlinesFrom l cur = [cur.reverse ++ l] := by
  induction l with
  | nil =>
    intro cur hne
    cases cur with
    | nil => exact absurd rfl hne
    | cons c cur => rw [splitlinesFrom, List.append_nil]
  | cons c cs ih =>
    intro cur hne
    have hcs : IsLine cs := fun x hx => h x (List.mem_cons_of_mem _ hx)
    rw [splitlinesFrom_cons (h c List.mem_cons_self), ih hcs]
    · simp
    · simp

/-- A line by itself is its only line. -/
theorem splitlines_line {l : Txt} (h : IsLine l) (hne : l ≠ []) : splitlines l = [l] :=
  splitlinesFrom_end h [] hne

/-- Lines without boundaries come back. -/
theorem splitlines_unlines {ls : List Txt} (h : ∀ l ∈ ls, IsLine l) :
    splitlines (unlines ls) = ls := by
  induction ls with
  | nil => rfl
  | cons l ls ih =>
    have hl := h l List.mem_cons_self
    have hrest : splitlinesFrom (unlines ls) [] = ls :=
      ih fun x hx => h x (List.mem_cons_of_mem _ hx)
    unfold splitlines unlines
    rw [List.flatMap_cons, List.append_assoc, List.cons_append, List.nil_append,
      splitlinesFrom_line hl]
    show ([] ++ l) :: splitlinesFrom (unlines ls) [] = l :: ls
    rw [hrest]
    rfl

theorem splitlinesFrom_newline (a b cur : Txt) :
    splitlinesFrom (a ++ '\n' :: b) cur = splitlinesFrom a cur ++ splitlinesFrom b [] ∨
      splitlinesFrom (a ++ '\n' :: b) cur =
        splitlinesFrom a cur ++ ([] : Txt) :: splitlinesFrom b [] := by
  have hnewline (cur : Txt) :
      splitlinesFrom ('\n' :: b) cur = cur.reverse :: splitlinesFrom b [] := by
    rw [splitlinesFrom]
    · exact if_pos (by decide)
    · intro cs h
      cases h
  fun_induction splitlinesFrom a cur with
  | case1 =>
    right
    exact hnewline []
  | case2 c cur =>
    left
    exact hnewline (c :: cur)
  | case3 cs cur ih =>
    have hpair : splitlinesFrom ('\r' :: '\n' :: cs ++ '\n' :: b) cur =
        cur.reverse :: splitlinesFrom (cs ++ '\n' :: b) [] := by
      rw [List.cons_append, List.cons_append, splitlinesFrom]
    rw [hpair]
    exact ih.imp (congrArg (cur.reverse :: ·)) (congrArg (cur.reverse :: ·))
  | case4 c cs cur hne hc ih =>
    by_cases hpair : c = '\r' ∧ cs = []
    · -- the text ends in a carriage return, of which the newline is a part
      left
      obtain ⟨rfl, rfl⟩ := hpair
      rw [List.cons_append, List.nil_append, splitlinesFrom]
      rfl
    · have hstep : splitlinesFrom (c :: cs ++ '\n' :: b) cur =
          cur.reverse :: splitlinesFrom (cs ++ '\n' :: b) [] := by
        rw [List.cons_append, splitlinesFrom, if_pos hc]
        intro rest hr hrest
        cases cs with
        | nil => exact hpair ⟨hr, rfl⟩
        | cons d cs =>
          obtain ⟨rfl, rfl⟩ := List.cons.inj hrest
          exact hne cs hr rfl
      rw [hstep]
      exact ih.imp (congrArg (cur.reverse :: ·)) (congrArg (cur.reverse :: ·))
  | case5 c cs cur hne hc ih =>
    rw [List.cons_append, splitlinesFrom_cons (Bool.eq_false_iff.mpr hc)]
    exact ih

/-- A newline between two texts keeps their lines apart, with an empty line at most between
them. -/
theorem splitlines_newline (a b : Txt) :
    splitlines (a ++ '\n' :: b) = splitlines a ++ splitlines b ∨
      splitlines (a ++ '\n' :: b) = splitlines a ++ ([] : Txt) :: splitlines b :=
  splitlinesFrom_newline a b []

theorem isLine_reverse {l : Txt} (h : IsLine l) : IsLine l.reverse :=
  fun c hc => h c (List.mem_reverse.mp hc)

theorem isLine_splitlinesFrom (text cur : Txt) (hcur : IsLine cur) :
    ∀ l ∈ splitlinesFrom text cur, IsLine l := by
  fun_induction splitlinesFrom text cur with
  | case1 => simp
  | case2 c cur =>
    intro l hl
    rw [List.mem_singleton.mp hl]
    exact isLine_reverse hcur
  | case3 cs cur ih =>
    intro l hl
    rcases List.mem_cons.mp hl with hl | hl
    · rw [hl]
      exact isLine_reverse hcur
    · exact ih (by simp [IsLine]) l hl
  | case4 c cs cur hne hc ih =>
    intro l hl
    rcases List.mem_cons.mp hl with hl | hl
    · rw [hl]
      exact isLine_reverse hcur
    · exact ih (by simp [IsLine]) l hl
  | case5 c cs cur hne hc ih =>
    apply ih
    intro x hx
    rcases List.mem_cons.mp hx with hx | hx
    · rw [hx]
      exact Bool.eq_false_iff.mpr hc
    · exact hcur x hx

theorem isLine_splitlines {text l : Txt} (h : l ∈ splitlines text) : IsLine l :=
  isLine_splitlinesFrom text [] (by simp [IsLine]) l h

theorem infix_of_mem_splitlinesFrom (text cur : Txt) :
    ∀ l ∈ splitlinesFrom text cur, l <:+: cur.reverse ++ text := by
  fun_induction splitlinesFrom text cur with
  | case1 => simp
  | case2 c cur =>
    intro l hl
    rw [List.append_nil]
    exact List.mem_singleton.mp hl ▸ List.infix_rfl
  | case3 cs cur ih =>
    intro l hl
    rcases List.mem_cons.mp hl with rfl | hl
    · exact (List.prefix_append cur.reverse _).isInfix
    · have hsuffix : cs <:+ cur.reverse ++ '\r' :: '\n' :: cs :=
        ⟨cur.reverse ++ ['\r', '\n'], by simp⟩
      exact (ih l hl).trans hsuffix.isInfix
  | case4 c cs cur hne hc ih =>
    intro l hl
    rcases List.mem_cons.mp hl with rfl | hl
    · exact (List.prefix_append cur.reverse _).isInfix
    · have hsuffix : cs <:+ cur.reverse ++ c :: cs := ⟨cur.reverse ++ [c], by simp⟩
      exact (ih l hl).trans hsuffix.isInfix
  | case5 c cs cur hne hc ih =>
    intro l hl
    have hinfix := ih l hl
    rw [List.reverse_cons, List.append_assoc] at hinfix
    exact hinfix

/-- A line is a piece of its text. -/
theorem infix_of_mem_splitlines {text l : Txt} (h : l ∈ splitlines text) : l <:+: text :=
  infix_of_mem_splitlinesFrom text [] l h

/-- What holds no line end lies on one side of it. -/
theorem infix_of_newline {s a b : Txt} (h : s <:+: a ++ '\n' :: b) (hs : '\n' ∉ s) :
    s <:+: a ∨ s <:+: b := by
  obtain ⟨p, q, hpq⟩ := h
  rw [List.append_assoc] at hpq
  rcases List.append_eq_append_iff.mp hpq with ⟨t, ha, hsq⟩ | ⟨t, hp, hb⟩
  · -- it begins before the line end, so it stops before it
    left
    rcases List.append_eq_append_iff.mp hsq with ⟨t', ht, _⟩ | ⟨t', hst, hq⟩
    · exact ⟨p, t', by rw [ha, ht, List.append_assoc]⟩
    · cases t' with
      | nil =>
        rw [List.append_nil] at hst
        exact ⟨p, [], by rw [ha, hst, List.append_nil]⟩
      | cons c t' =>
        rw [List.cons_append, List.cons.injEq] at hq
        apply absurd _ hs
        rw [hst, ← hq.1]
        exact List.mem_append_right t List.mem_cons_self
  · cases t with
    | nil =>
      cases s with
      | nil => exact Or.inl (List.nil_infix)
      | cons c s =>
        rw [List.nil_append, List.cons_append, List.cons.injEq] at hb
        exact absurd (hb.1 ▸ List.mem_cons_self) hs
    | cons c t =>
      rw [List.cons_append, List.cons.injEq] at hb
      exact Or.inr ⟨t, q, by rw [hb.2, List.append_assoc]⟩

/-- A piece of two texts lies in one of them or reaches over the place where they meet. -/
theorem infix_append_cases {s x y : Txt} (h : s <:+: x ++ y) :
    s <:+: x ∨ s <:+: y ∨ ∃ a b, s = a ++ b ∧ a <:+ x ∧ b <+: y := by
  obtain ⟨p, q, hpq⟩ := h
  rw [List.append_assoc] at hpq
  rcases List.append_eq_append_iff.mp hpq with ⟨t, hx, hsq⟩ | ⟨t, _, hy⟩
  · rcases List.append_eq_append_iff.mp hsq with ⟨t', ht, _⟩ | ⟨t', hst, hy⟩
    · exact Or.inl ⟨p, t', by rw [hx, ht, List.append_assoc]⟩
    · exact Or.inr (Or.inr ⟨t, t', hst, ⟨p, hx.symm⟩, ⟨q, hy.symm⟩⟩)
  · exact Or.inr (Or.inl ⟨t, q, by rw [hy, List.append_assoc]⟩)

/-- A piece that begins with a character which `p` lacks begins after `p`. -/
theorem infix_of_not_mem {s p x : Txt} {c : Char} (h : c :: s <:+: p ++ x) (hc : c ∉ p) :
    c :: s <:+: x := by
  induction p with
  | nil => exact h
  | cons d p ih =>
    rw [List.mem_cons, not_or] at hc
    rcases List.infix_cons_iff.mp h with hpre | hinfix
    · rw [List.cons_prefix_cons] at hpre
      exact absurd hpre.1 hc.1
    · exact ih hinfix hc.2

theorem infix_of_unlines {s : Txt} {ls : List Txt} (h : s <:+: unlines ls) (hs : '\n' ∉ s)
    (hne : s ≠ []) : ∃ l ∈ ls, s <:+: l := by
  induction ls with
  | nil => exact absurd (List.infix_nil.mp h) hne
  | cons l ls ih =>
    unfold unlines at h
    rw [List.flatMap_cons, List.append_assoc] at h
    rcases infix_of_newline h hs with h | h
    · exact ⟨l, List.mem_cons_self, h⟩
    · obtain ⟨l', hl', hinfix⟩ := ih h
      exact ⟨l', List.mem_cons_of_mem _ hl', hinfix⟩

/-! ## Lines of a text file -/

/-- The pieces between newlines, of which the last is a line only when it is not empty. -/
def fileLines (text : Txt) : List Txt :=
  let pieces := text.splitOn '\n'
  if pieces.getLast? = some [] then pieces.dropLast else pieces

theorem splitOn_unlines_append {ls : List Txt} (h : ∀ l ∈ ls, '\n' ∉ l) {b : Txt} (hb : '\n' ∉ b) :
    (unlines ls ++ b).splitOn '\n' = ls ++ [b] := by
  induction ls with
  | nil => exact List.splitOn_eq_singleton hb
  | cons l ls ih =>
    have hl : '\n' ∉ l := h l List.mem_cons_self
    have hcons : unlines (l :: ls) ++ b = l ++ '\n' :: (unlines ls ++ b) := by simp [unlines]
    rw [hcons, List.splitOn_append_cons_self_of_not_mem hl,
      ih fun l' hl' => h l' (List.mem_cons_of_mem l hl'), List.cons_append]

/-- What is left after the last newline becomes a line of its own. -/
theorem fileLines_unlines_append {ls : List Txt} (h : ∀ l ∈ ls, '\n' ∉ l) {b : Txt}
    (hb : '\n' ∉ b) : fileLines (unlines ls ++ b) = ls ++ if b = [] then [] else [b] := by
  rw [fileLines, splitOn_unlines_append h hb]
  by_cases hempty : b = []
  · simp [hempty]
  · simp [hempty]

theorem fileLines_unlines {ls : List Txt} (h : ∀ l ∈ ls, '\n' ∉ l) :
    fileLines (unlines ls) = ls := by
  simpa using fileLines_unlines_append h (b := []) List.not_mem_nil

theorem joinLines_splitOn (t : Txt) : joinLines (t.splitOn '\n') = t := by
  have hjoin (ls : List Txt) : joinLines ls = ['\n'].intercalate ls := by
    induction ls with
    | nil => rfl
    | cons l ls ih =>
      cases ls with
      | nil => simp [joinLines]
      | cons l' ls =>
        rw [joinLines, ih, List.intercalate_cons_cons]
        · simp
        · simp
  rw [hjoin, List.intercalate_splitOn]

/-- `lines = t.split("\n")` and `rest = lines.pop()`. -/
def splitRest (t : Txt) : List Txt × Txt :=
  let pieces := t.splitOn '\n'
  (pieces.dropLast, pieces.getLast?.getD [])

theorem unlines_splitRest (t : Txt) : unlines (splitRest t).1 ++ (splitRest t).2 = t := by
  have hne := List.splitOn_ne_nil '\n' t
  have hlast (ls : List Txt) (h : ls ≠ []) :
      unlines ls.dropLast ++ ls.getLast?.getD [] = joinLines ls := by
    obtain ⟨init, l, rfl⟩ := (List.eq_nil_or_concat' ls).resolve_left h
    rw [List.dropLast_concat, List.getLast?_concat, Option.getD_some]
    induction init with
    | nil => simp [unlines, joinLines]
    | cons m init ih =>
      have hne : init ++ [l] ≠ [] := by simp
      rw [List.cons_append, joinLines.eq_3 _ _ (by simp), ← ih hne]
      simp [unlines]
  rw [splitRest, hlast _ hne, joinLines_splitOn]

theorem splitRest_newline_free (t : Txt) :
    (∀ l ∈ (splitRest t).1, '\n' ∉ l) ∧ '\n' ∉ (splitRest t).2 := by
  constructor
  · exact fun l hl => Collections.not_mem_of_mem_splitOn t l (List.mem_of_mem_dropLast hl)
  · rw [splitRest]
    cases hlast : (t.splitOn '\n').getLast? with
    | none => exact List.not_mem_nil
    | some l => exact Collections.not_mem_of_mem_splitOn t l (List.mem_of_getLast? hlast)

end Text
end RocmTests

import RocmTests.Text.Utf8

/-!
# The console log

`append_console` ends every text it writes with a newline, so the log is a
sequence of texts that each end a line.  The validators read it in text mode,
where the line ends of all texts have become newlines.
-/

namespace RocmTests
namespace Monitored

open Text

/-- What `append_console` adds to the log. -/
def consoleText (text : Txt) : Txt :=
  if text = [] then []
  else if text.getLast? = some '\n' then text
  else text ++ ['\n']

/-- The same as a validator reads it. -/
def logged (text : Txt) : Txt := universalNewlines (consoleText text)

/-- The log of a sequence of texts, as a validator reads it.  Decoding gives back
what was encoded. -/
def logText (texts : List Txt) : Txt := universalNewlines (texts.flatMap consoleText)

/-! ## The log is made of lines -/

/-- The text is empty or ends a line. -/
def EndsLine (t : Txt) : Prop := t = [] ∨ t.getLast? = some '\n'

theorem endsLine_consoleText (t : Txt) : EndsLine (consoleText t) := by
  unfold consoleText
  by_cases hempty : t = []
  · rw [if_pos hempty]
    exact Or.inl rfl
  · rw [if_neg hempty]
    by_cases hlast : t.getLast? = some '\n'
    · rw [if_pos hlast]
      exact Or.inr hlast
    · rw [if_neg hlast]
      exact Or.inr List.getLast?_concat

theorem EndsLine.tail {c : Char} {t : Txt} (h : EndsLine (c :: t)) : EndsLine t := by
  cases t with
  | nil => exact Or.inl rfl
  | cons d t =>
    rcases h with h | h
    · cases h
    · rw [List.getLast?_cons_cons] at h
      exact Or.inr h

/-- No line end spans the place where a text that ends a line stops. -/
theorem universalNewlines_append {a : Txt} (h : EndsLine a) (b : Txt) :
    universalNewlines (a ++ b) = universalNewlines a ++ universalNewlines b := by
  fun_induction universalNewlines a with
  | case1 => rfl
  | case2 cs ih =>
    show universalNewlines ('\r' :: '\n' :: (cs ++ b)) = '\n' :: (universalNewlines cs ++ _)
    rw [universalNewlines, ih h.tail.tail]
  | case3 cs hne ih =>
    show universalNewlines ('\r' :: (cs ++ b)) = '\n' :: (universalNewlines cs ++ _)
    cases cs with
    | nil =>
      rcases h with h | h
      · cases h
      · exact absurd h (by decide)
    | cons d cs =>
      have hd : ∀ rest, d :: cs ++ b ≠ '\n' :: rest := by
        intro rest hrest
        rw [List.cons_append, List.cons.injEq] at hrest
        exact hne cs (by rw [hrest.1])
      rw [universalNewlines, ih h.tail]
      exact hd
  | case4 c cs hr hrn ih =>
    show universalNewlines (c :: (cs ++ b)) = c :: (universalNewlines cs ++ _)
    have hc : c ≠ '\r' := by
      intro hc
      exact hrn hc
    rw [universalNewlines, ih h.tail]
    · intro rest hcr
      exact absurd hcr hc
    · exact hc

theorem logText_eq (texts : List Txt) : logText texts = texts.flatMap logged := by
  unfold logText
  induction texts with
  | nil => rfl
  | cons t texts ih =>
    rw [List.flatMap_cons, List.flatMap_cons, universalNewlines_append (endsLine_consoleText t), ih]
    rfl

theorem endsLine_universalNewlines {t : Txt} (h : EndsLine t) : EndsLine (universalNewlines t) := by
  fun_induction universalNewlines t with
  | case1 => exact h
  | case2 cs ih =>
    rcases ih h.tail.tail with hnil | hlast
    · rw [hnil]
      exact Or.inr rfl
    · exact Or.inr (by rw [List.getLast?_cons, hlast]; rfl)
  | case3 cs hne ih =>
    rcases ih h.tail with hnil | hlast
    · rw [hnil]
      exact Or.inr rfl
    · exact Or.inr (by rw [List.getLast?_cons, hlast]; rfl)
  | case4 c cs hr hrn ih =>
    rcases ih h.tail with hnil | hlast
    · have hcs := universalNewlines_eq_nil hnil
      rw [hcs] at h
      rw [hnil]
      rcases h with h | h
      · cases h
      · exact Or.inr h
    · exact Or.inr (by rw [List.getLast?_cons, hlast]; rfl)

theorem endsLine_logged (t : Txt) : EndsLine (logged t) :=
  endsLine_universalNewlines (endsLine_consoleText t)

theorem isPrefix_universalNewlines {s t : Txt} (h : s <+: t) (hs : '\r' ∉ s) :
    s <+: universalNewlines t := by
  induction s generalizing t with
  | nil => exact List.nil_prefix
  | cons c s ih =>
    obtain ⟨q, rfl⟩ := h
    rw [List.mem_cons, not_or] at hs
    rw [List.cons_append, universalNewlines_cons (Ne.symm hs.1)]
    exact List.prefix_cons_iff.mpr (Or.inr ⟨s, rfl, ih (List.prefix_append s q) hs.2⟩)

/-- What holds no line end stays as it is. -/
theorem isInfix_universalNewlines {s t : Txt} (h : s <:+: t) (hr : '\r' ∉ s) (hn : '\n' ∉ s) :
    s <:+: universalNewlines t := by
  have hskip : ∀ {c : Char} {cs : Txt}, c ∉ s → s <:+: c :: cs → s <:+: cs := by
    intro c cs hc hinfix
    rcases List.infix_cons_iff.mp hinfix with hpre | hinfix
    · rcases List.prefix_cons_iff.mp hpre with rfl | ⟨s', rfl, _⟩
      · exact List.nil_infix
      · exact absurd List.mem_cons_self hc
    · exact hinfix
  fun_induction universalNewlines t with
  | case1 => exact h
  | case2 cs ih => exact List.infix_cons (ih (hskip hn (hskip hr h)))
  | case3 cs hne ih => exact List.infix_cons (ih (hskip hr h))
  | case4 c cs hr' hrn ih =>
    rcases List.infix_cons_iff.mp h with hpre | hinfix
    · rcases List.prefix_cons_iff.mp hpre with rfl | ⟨s', rfl, hs'⟩
      · exact List.nil_infix
      · have htail : '\r' ∉ s' := fun hmem => hr (List.mem_cons_of_mem _ hmem)
        exact (List.prefix_cons_iff.mpr
          (Or.inr ⟨s', rfl, isPrefix_universalNewlines hs' htail⟩)).isInfix
    · exact List.infix_cons (ih hinfix)

/-- Reading in text mode makes up nothing but line ends. -/
theorem isInfix_of_universalNewlines {s t : Txt} (h : s <:+: universalNewlines t)
    (hn : '\n' ∉ s) : s <:+: t := by
  have hskip : ∀ {cs : Txt}, s <:+: '\n' :: cs → s <:+: cs := by
    intro cs hinfix
    rcases List.infix_cons_iff.mp hinfix with hpre | hinfix
    · rcases List.prefix_cons_iff.mp hpre with rfl | ⟨s', rfl, _⟩
      · exact List.nil_infix
      · exact absurd List.mem_cons_self hn
    · exact hinfix
  fun_induction universalNewlines t with
  | case1 => exact h
  | case2 cs ih => exact List.infix_cons (List.infix_cons (ih (hskip h)))
  | case3 cs hne ih => exact List.infix_cons (ih (hskip h))
  | case4 c cs hr hrn ih =>
    rcases List.infix_cons_iff.mp h with hpre | hinfix
    · rcases List.prefix_cons_iff.mp hpre with rfl | ⟨s', rfl, hs'⟩
      · exact List.nil_infix
      · have htail : '\n' ∉ s' := fun hmem => hn (List.mem_cons_of_mem _ hmem)
        exact (List.prefix_cons_iff.mpr
          (Or.inr ⟨s', rfl, isPrefix_of_universalNewlines hs' htail⟩)).isInfix
    · exact List.infix_cons (ih hinfix)

theorem isInfix_logged {s t : Txt} (h : s <:+: t) (hr : '\r' ∉ s) (hn : '\n' ∉ s) :
    s <:+: logged t := by
  have hconsole : t <:+: consoleText t := by
    unfold consoleText
    by_cases hempty : t = []
    · subst hempty
      exact List.infix_rfl
    · rw [if_neg hempty]
      split_ifs
      · exact List.infix_rfl
      · exact (List.prefix_append t _).isInfix
  exact isInfix_universalNewlines (h.trans hconsole) hr hn

/-- A line without line ends of its own is logged as it is. -/
theorem logged_line {t : Txt} (hne : t ≠ []) (hr : '\r' ∉ t) (hn : '\n' ∉ t) :
    logged t = t ++ ['\n'] := by
  have hlast : t.getLast? ≠ some '\n' := by
    intro h
    exact hn (List.mem_of_getLast? h)
  unfold logged consoleText
  rw [if_neg hne, if_neg hlast, universalNewlines_of_not_mem]
  rw [List.mem_append, List.mem_singleton, not_or]
  exact ⟨hr, by decide⟩

end Monitored
end RocmTests

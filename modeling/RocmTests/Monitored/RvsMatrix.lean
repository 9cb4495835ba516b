import RocmTests.Monitored.Rvs
import RocmTests.Text.RegexCapture
import RocmTests.Text.RegexWhole

/-!
# The result matrix of an RVS log

A result line names an action and a GPU and gives a verdict.  Two of them have no text in
common, so the rows that `_validate_rvs` finds are all of them, and a log that passes has
each action on each GPU once.
-/

namespace RocmTests
namespace Monitored
namespace Rvs

open Text Text.Re Validation DmesgCategories
open Markers (isSpace strip)

/-! ## Result lines -/

/-- The pieces of `[RESULT] [stamp] [action] [GPU:: gpu] pass: verdict`. -/
structure ResultLine where
  gap₁ : Txt
  stamp : Txt
  gap₂ : Txt
  action : Txt
  gap₃ : Txt
  lead : Txt
  gpu : Txt
  trail : Txt
  gap₄ : Txt
  gap₅ : Txt
  verdict : Txt
  gaps : ∀ gap ∈ [gap₁, gap₂, gap₃, gap₄], gap ≠ []
  spaces : ∀ gap ∈ [gap₁, gap₂, gap₃, lead, trail, gap₄, gap₅], ∀ c ∈ gap, isSpace c = true
  fields : ∀ field ∈ [stamp, action, gpu], field ≠ [] ∧ ∀ c ∈ field, inBracket c = true
  verdict_ok : verdict = "TRUE".toList ∨ verdict = "FALSE".toList

namespace ResultLine

variable (l : ResultLine)

/-- What is left after the `]` of the GPU. -/
def tail : Txt := l.gap₄ ++ ("pass:".toList ++ (l.gap₅ ++ l.verdict))

def text : Txt :=
  "[RESULT]".toList ++ (l.gap₁ ++ ("[".toList ++ (l.stamp ++ ("]".toList ++ (l.gap₂ ++
    ("[".toList ++ (l.action ++ ("]".toList ++ (l.gap₃ ++ ("[GPU::".toList ++ (l.lead ++
      (l.gpu ++ (l.trail ++ ("]".toList ++ l.tail))))))))))))))

/-- The line stands in the text after `u`, with only space before it on its line and no
word that goes on behind it. -/
def At (alnum : Char → Bool) (text u : Txt) : Prop :=
  ∃ x w v, u = x ++ w ∧ (x = [] ∨ x.getLast? = some '\n') ∧ (∀ c ∈ w, isSpace c = true) ∧
    text = u ++ (l.text ++ v) ∧ v.head?.any (isWordChar alnum) = false

end ResultLine

/-- The result lines of the text are the actions on the GPUs, each once and with `TRUE`. -/
structure CompleteMatrix (alnum : Char → Bool) (text : Txt) (g c : Nat)
    (expectedActions : Option (Finset Txt)) (actions gpus : Finset Txt) : Prop where
  actions_card : actions.card = c
  gpus_card : gpus.card = g
  expected : ∀ e, expectedActions = some e → actions = e
  lines : ∀ (l : ResultLine) (u : Txt), l.At alnum text u →
    strip l.action ∈ actions ∧ strip l.gpu ∈ gpus ∧ l.verdict = "TRUE".toList
  once : ∀ a ∈ actions, ∀ i ∈ gpus, ∃! u, ∃ l : ResultLine,
    l.At alnum text u ∧ strip l.action = a ∧ strip l.gpu = i

/-! ## The pattern and the lines -/

variable {alnum : Char → Bool} {text u : Txt}

theorem atLineStart_iff {b a : Txt} : atLineStart ⟨b, a⟩ = true ↔
    b.reverse = [] ∨ b.reverse.getLast? = some '\n' := by
  cases b with
  | nil => simp [atLineStart]
  | cons c b => simp [atLineStart]

theorem isWordChar_E : isWordChar alnum 'E' = true := by
  have hE : ('E' : Char).isAlphanum = true := by decide
  unfold isWordChar
  rw [hE]
  rfl

/-- Behind the verdict no word goes on. -/
theorem boundary_iff {b v verdict : Txt} (h : verdict = "TRUE".toList ∨ verdict = "FALSE".toList) :
    atBoundary (isWordChar alnum) ⟨verdict.reverse ++ b, v⟩ = true ↔
      v.head?.any (isWordChar alnum) = false := by
  have hhead : (verdict.reverse ++ b).head? = some 'E' := by
    rcases h with rfl | rfl <;> rfl
  unfold atBoundary
  rw [hhead, Option.any_some, isWordChar_E]
  cases v.head?.any (isWordChar alnum) <;> simp

/-- What a match of the pattern has captured is a line. -/
theorem line_of_captures {b m v : Txt} {gs : List (Nat × Txt)}
    (h : Captures (isWordChar alnum) resultPattern b m v gs) :
    ∃ (w : Txt) (l : ResultLine), m = w ++ l.text ∧ gs = [(1, l.action), (2, l.gpu)] ∧
      (∀ c ∈ w, isSpace c = true) ∧ atLineStart ⟨b, m ++ v⟩ = true ∧
        v.head?.any (isWordChar alnum) = false := by
  unfold resultPattern at h
  obtain ⟨x₀, m, rfl, h₀, h⟩ := captures_piece rfl h
  obtain ⟨w, m, rfl, hw, h⟩ := captures_piece rfl h
  obtain ⟨x₁, m, rfl, h₁, h⟩ := captures_piece (by decide) h
  obtain ⟨gap₁, m, rfl, hgap₁, h⟩ := captures_piece rfl h
  obtain ⟨x₂, m, rfl, h₂, h⟩ := captures_piece (by decide) h
  obtain ⟨stamp, m, rfl, hstamp, h⟩ := captures_piece rfl h
  obtain ⟨x₃, m, rfl, h₃, h⟩ := captures_piece (by decide) h
  obtain ⟨gap₂, m, rfl, hgap₂, h⟩ := captures_piece rfl h
  obtain ⟨x₄, m, rfl, h₄, h⟩ := captures_piece (by decide) h
  obtain ⟨action, m, gs₁, rfl, rfl, haction, h⟩ := captures_group_piece rfl h
  obtain ⟨x₅, m, rfl, h₅, h⟩ := captures_piece (by decide) h
  obtain ⟨gap₃, m, rfl, hgap₃, h⟩ := captures_piece rfl h
  obtain ⟨x₆, m, rfl, h₆, h⟩ := captures_piece (by decide) h
  obtain ⟨lead, m, rfl, hlead, h⟩ := captures_piece rfl h
  obtain ⟨gpu, m, gs₂, rfl, rfl, hgpu, h⟩ := captures_group_piece rfl h
  obtain ⟨trail, m, rfl, htrail, h⟩ := captures_piece rfl h
  obtain ⟨x₇, m, rfl, h₇, h⟩ := captures_piece (by decide) h
  obtain ⟨gap₄, m, rfl, hgap₄, h⟩ := captures_piece rfl h
  obtain ⟨x₈, m, rfl, h₈, h⟩ := captures_piece (by decide) h
  obtain ⟨gap₅, m, rfl, hgap₅, h⟩ := captures_piece rfl h
  obtain ⟨verdict, e, rfl, hverdict, h⟩ := captures_piece (by decide) h
  have hgs := captures_plain rfl h
  obtain ⟨rfl, hboundary⟩ := matches_wordBoundary.mp h.matches
  obtain ⟨rfl, hstart⟩ := matches_lineStart.mp h₀
  obtain rfl := matches_lit.mp h₁
  obtain rfl := matches_lit.mp h₂
  obtain rfl := matches_lit.mp h₃
  obtain rfl := matches_lit.mp h₄
  obtain rfl := matches_lit.mp h₅
  obtain rfl := matches_lit.mp h₆
  obtain rfl := matches_lit.mp h₇
  obtain rfl := matches_lit.mp h₈
  have hverdict' : verdict = "TRUE".toList ∨ verdict = "FALSE".toList := by
    obtain ⟨r, hr, hmatch⟩ := matches_alts.mp hverdict
    simp only [List.mem_cons, List.not_mem_nil, or_false] at hr
    rcases hr with rfl | rfl
    · exact .inl (matches_lit.mp hmatch)
    · exact .inr (matches_lit.mp hmatch)
  obtain ⟨hgap₁, hspace₁⟩ := matches_plus.mp hgap₁
  obtain ⟨hgap₂, hspace₂⟩ := matches_plus.mp hgap₂
  obtain ⟨hgap₃, hspace₃⟩ := matches_plus.mp hgap₃
  obtain ⟨hgap₄, hspace₄⟩ := matches_plus.mp hgap₄
  have hgaps : ∀ gap ∈ [gap₁, gap₂, gap₃, gap₄], gap ≠ [] := by
    simp only [List.forall_mem_cons]
    exact ⟨hgap₁, hgap₂, hgap₃, hgap₄, by simp⟩
  have hspaces : ∀ gap ∈ [gap₁, gap₂, gap₃, lead, trail, gap₄, gap₅], ∀ c ∈ gap,
      isSpace c = true := by
    simp only [List.forall_mem_cons]
    exact ⟨hspace₁, hspace₂, hspace₃, matches_star.mp hlead, matches_star.mp htrail, hspace₄,
      matches_star.mp hgap₅, by simp⟩
  have hfields : ∀ field ∈ [stamp, action, gpu], field ≠ [] ∧ ∀ c ∈ field, inBracket c = true := by
    simp only [List.forall_mem_cons]
    exact ⟨matches_plus.mp hstamp, matches_plus.mp haction, matches_plus.mp hgpu, by simp⟩
  have hnil : verdict ++ ([] : Txt) = verdict := List.append_nil verdict
  refine ⟨w, ⟨gap₁, stamp, gap₂, action, gap₃, lead, gpu, trail, gap₄, gap₅, verdict, hgaps,
    hspaces, hfields, hverdict'⟩, ?_, by rw [hgs], matches_star.mp hw, hstart,
    (boundary_iff hverdict').mp hboundary⟩
  rw [hnil]
  rfl

/-- A line that begins at a line start is a match. -/
theorem matches_line (l : ResultLine) {b w v : Txt} (hstart : ∀ a, atLineStart ⟨b, a⟩ = true)
    (hw : ∀ c ∈ w, isSpace c = true) (hv : v.head?.any (isWordChar alnum) = false) :
    Matches (isWordChar alnum) resultPattern b (w ++ l.text) v := by
  have hgaps := l.gaps
  have hspaces := l.spaces
  have hfields := l.fields
  simp only [List.forall_mem_cons] at hgaps hspaces hfields
  obtain ⟨hgap₁, hgap₂, hgap₃, hgap₄, -⟩ := hgaps
  obtain ⟨hspace₁, hspace₂, hspace₃, hlead, htrail, hspace₄, hspace₅, -⟩ := hspaces
  obtain ⟨hstamp, haction, hgpu, -⟩ := hfields
  unfold resultPattern ResultLine.text ResultLine.tail
  refine matches_cat_cons.mpr ⟨[], _, rfl, matches_lineStart.mpr ⟨rfl, hstart _⟩, ?_⟩
  refine matches_cat_cons.mpr ⟨w, _, rfl, matches_star.mpr hw, ?_⟩
  refine matches_cat_cons.mpr ⟨_, _, rfl, matches_lit.mpr rfl, ?_⟩
  refine matches_cat_cons.mpr ⟨l.gap₁, _, rfl, matches_plus.mpr ⟨hgap₁, hspace₁⟩, ?_⟩
  refine matches_cat_cons.mpr ⟨_, _, rfl, matches_lit.mpr rfl, ?_⟩
  refine matches_cat_cons.mpr ⟨l.stamp, _, rfl, matches_plus.mpr hstamp, ?_⟩
  refine matches_cat_cons.mpr ⟨_, _, rfl, matches_lit.mpr rfl, ?_⟩
  refine matches_cat_cons.mpr ⟨l.gap₂, _, rfl, matches_plus.mpr ⟨hgap₂, hspace₂⟩, ?_⟩
  refine matches_cat_cons.mpr ⟨_, _, rfl, matches_lit.mpr rfl, ?_⟩
  refine matches_cat_cons.mpr ⟨l.action, _, rfl, matches_group.mpr (matches_plus.mpr haction), ?_⟩
  refine matches_cat_cons.mpr ⟨_, _, rfl, matches_lit.mpr rfl, ?_⟩
  refine matches_cat_cons.mpr ⟨l.gap₃, _, rfl, matches_plus.mpr ⟨hgap₃, hspace₃⟩, ?_⟩
  refine matches_cat_cons.mpr ⟨_, _, rfl, matches_lit.mpr rfl, ?_⟩
  refine matches_cat_cons.mpr ⟨l.lead, _, rfl, matches_star.mpr hlead, ?_⟩
  refine matches_cat_cons.mpr ⟨l.gpu, _, rfl, matches_group.mpr (matches_plus.mpr hgpu), ?_⟩
  refine matches_cat_cons.mpr ⟨l.trail, _, rfl, matches_star.mpr htrail, ?_⟩
  refine matches_cat_cons.mpr ⟨_, _, rfl, matches_lit.mpr rfl, ?_⟩
  refine matches_cat_cons.mpr ⟨l.gap₄, _, rfl, matches_plus.mpr ⟨hgap₄, hspace₄⟩, ?_⟩
  refine matches_cat_cons.mpr ⟨_, _, rfl, matches_lit.mpr rfl, ?_⟩
  refine matches_cat_cons.mpr ⟨l.gap₅, _, rfl, matches_star.mpr hspace₅, ?_⟩
  refine matches_cat_cons.mpr ⟨l.verdict, [], (List.append_nil _).symm, ?_, ?_⟩
  · rw [matches_alts]
    rcases l.verdict_ok with h | h
    · exact ⟨lit "TRUE", .head _, by rw [h]; exact matches_lit.mpr rfl⟩
    · exact ⟨lit "FALSE", .tail _ (.head _), by rw [h]; exact matches_lit.mpr rfl⟩
  · exact matches_wordBoundary.mpr ⟨rfl, (boundary_iff l.verdict_ok).mpr hv⟩

/-! ## One line is read in one way -/

theorem split_at {c : Char} {x x' z z' : Txt} (h : x ++ c :: z = x' ++ c :: z') (hx : c ∉ x)
    (hx' : c ∉ x') : x = x' ∧ z = z' := by
  have hne {y : Txt} (hy : c ∉ y) : ∀ d ∈ y, decide (d ≠ c) = true := by
    intro d hd
    rw [decide_eq_true_iff]
    rintro rfl
    exact hy hd
  have hstop (y : Txt) : ∀ d, (c :: y).head? = some d → decide (d ≠ c) = false := by
    intro d hd
    cases hd
    simp
  obtain ⟨rfl, hrest⟩ := run_unique h (hne hx) (hne hx') (hstop z) (hstop z')
  exact ⟨rfl, (List.cons.inj hrest).2⟩

namespace ResultLine

variable (l l' : ResultLine)

theorem not_mem_of_space {c : Char} {gap : Txt} (h : ∀ x ∈ gap, isSpace x = true)
    (hc : isSpace c = false) : c ∉ gap := by
  intro hmem
  rw [h c hmem] at hc
  cases hc

theorem spaces' : (∀ c ∈ l.gap₁, isSpace c = true) ∧ (∀ c ∈ l.gap₂, isSpace c = true) ∧
    (∀ c ∈ l.gap₃, isSpace c = true) ∧ (∀ c ∈ l.lead, isSpace c = true) ∧
    (∀ c ∈ l.trail, isSpace c = true) ∧ (∀ c ∈ l.gap₄, isSpace c = true) ∧
    ∀ c ∈ l.gap₅, isSpace c = true := by
  have h := l.spaces
  simp only [List.forall_mem_cons] at h
  obtain ⟨h₁, h₂, h₃, h₄, h₅, h₆, h₇, -⟩ := h
  exact ⟨h₁, h₂, h₃, h₄, h₅, h₆, h₇⟩

theorem close_not_mem : ']' ∉ l.stamp ∧ ']' ∉ l.action ∧ ']' ∉ l.gpu := by
  have h := l.fields
  simp only [List.forall_mem_cons] at h
  obtain ⟨⟨-, hstamp⟩, ⟨-, haction⟩, ⟨-, hgpu⟩, -⟩ := h
  have hout : inBracket ']' ≠ true := by decide
  exact ⟨fun h => hout (hstamp _ h), fun h => hout (haction _ h), fun h => hout (hgpu _ h)⟩

/-- What stands in the bracket of the GPU. -/
def gpuField : Txt := l.lead ++ (l.gpu ++ l.trail)

theorem close_not_mem_gpuField : ']' ∉ l.gpuField := by
  obtain ⟨-, -, -, hlead, htrail, -, -⟩ := l.spaces'
  unfold gpuField
  rw [List.mem_append, List.mem_append, not_or, not_or]
  exact ⟨not_mem_of_space hlead (by decide), l.close_not_mem.2.2,
    not_mem_of_space htrail (by decide)⟩

theorem strip_gpuField : strip l.gpuField = strip l.gpu := by
  obtain ⟨-, -, -, hlead, htrail, -, -⟩ := l.spaces'
  exact strip_pad hlead htrail

/-- The text up to each closing bracket. -/
theorem text_append (v : Txt) : l.text ++ v =
    "[RESULT".toList ++ ']' :: (l.gap₁ ++ '[' :: (l.stamp ++ ']' :: (l.gap₂ ++ '[' ::
      (l.action ++ ']' :: (l.gap₃ ++ '[' :: ("GPU::".toList ++ (l.gpuField ++ ']' ::
        (l.tail ++ v)))))))) := by
  unfold text gpuField
  simp only [List.append_assoc]
  rfl

variable {l l'}

theorem unique {v v' : Txt} (h : l.text ++ v = l'.text ++ v') :
    strip l.action = strip l'.action ∧ strip l.gpu = strip l'.gpu := by
  obtain ⟨hgap₁, hgap₂, hgap₃, -⟩ := l.spaces'
  obtain ⟨hgap₁', hgap₂', hgap₃', -⟩ := l'.spaces'
  obtain ⟨hstamp, haction, -⟩ := l.close_not_mem
  obtain ⟨hstamp', haction', -⟩ := l'.close_not_mem
  have hopen {gap : Txt} (hgap : ∀ c ∈ gap, isSpace c = true) : '[' ∉ gap :=
    not_mem_of_space hgap (by decide)
  rw [text_append, text_append] at h
  have h := (List.cons.inj (List.append_cancel_left h)).2
  obtain ⟨-, h⟩ := split_at h (hopen hgap₁) (hopen hgap₁')
  obtain ⟨-, h⟩ := split_at h hstamp hstamp'
  obtain ⟨-, h⟩ := split_at h (hopen hgap₂) (hopen hgap₂')
  obtain ⟨hact, h⟩ := split_at h haction haction'
  obtain ⟨-, h⟩ := split_at h (hopen hgap₃) (hopen hgap₃')
  obtain ⟨hfield, -⟩ := split_at (List.append_cancel_left h) l.close_not_mem_gpuField
    l'.close_not_mem_gpuField
  refine ⟨congrArg strip hact, ?_⟩
  rw [← strip_gpuField, hfield, strip_gpuField]

/-! ## Two lines have no text in common -/

/-- What follows the n-th closing bracket. -/
def closing : Nat → Txt → Txt
  | 0, t => t
  | n + 1, t => closing n (t.dropWhile (· ≠ ']')).tail

theorem closing_cons {c : Char} (hc : c ≠ ']') (n : Nat) (t : Txt) :
    closing (n + 1) (c :: t) = closing (n + 1) t := by
  unfold closing
  rw [List.dropWhile_cons_of_pos (by simpa using hc)]

theorem closing_close (n : Nat) (t : Txt) : closing (n + 1) (']' :: t) = closing n t := by
  rw [closing, List.dropWhile_cons_of_neg (by simp)]
  rfl

theorem closing_append (k : Txt) (n : Nat) (t : Txt) :
    closing (n + 1 + k.count ']') (k ++ t) = closing (n + 1) t := by
  induction k with
  | nil => rfl
  | cons c k ih =>
    rw [List.cons_append]
    by_cases hc : c = ']'
    · rw [hc, List.count_cons_self, ← Nat.add_assoc, closing_close]
      exact ih
    · rw [List.count_cons_of_ne (by simpa using hc)]
      have hcons := closing_cons hc (n + k.count ']') (k ++ t)
      rw [Nat.add_right_comm] at hcons
      rw [hcons]
      exact ih

theorem closing_field {t : Txt} (ht : ']' ∉ t) (n : Nat) (z : Txt) :
    closing (n + 1) (t ++ ']' :: z) = closing n z := by
  have happ := closing_append t n (']' :: z)
  rw [List.count_eq_zero_of_not_mem ht, Nat.add_zero] at happ
  rw [happ, closing_close]

/-- The next character that is no space. -/
def next (t : Txt) : Option Char := (t.dropWhile isSpace).head?

theorem next_gap {gap : Txt} (hgap : ∀ c ∈ gap, isSpace c = true) {c : Char}
    (hc : isSpace c = false) (z : Txt) : next (gap ++ c :: z) = some c := by
  unfold next
  rw [List.dropWhile_append_of_pos hgap, List.dropWhile_cons_of_neg (by simp [hc])]
  rfl

variable (l) in
/-- Behind the first three closing brackets a bracket opens, behind the fourth is
`pass:`. -/
theorem next_closing (v : Txt) :
    (∀ n, 1 ≤ n → n ≤ 3 → next (closing n (l.text ++ v)) = some '[') ∧
      next (closing 4 (l.text ++ v)) = some 'p' := by
  obtain ⟨hgap₁, hgap₂, hgap₃, -, -, hgap₄, -⟩ := l.spaces'
  obtain ⟨hstamp, haction, -⟩ := l.close_not_mem
  have htag : ']' ∉ "[RESULT".toList := by decide
  have hgpu : ']' ∉ "GPU::".toList ++ l.gpuField := by
    rw [List.mem_append, not_or]
    exact ⟨by decide, l.close_not_mem_gpuField⟩
  have hopen {gap t : Txt} (hgap : ∀ c ∈ gap, isSpace c = true) (ht : ']' ∉ t) :
      ']' ∉ gap ++ '[' :: t := by
    rw [List.mem_append, List.mem_cons, not_or, not_or]
    exact ⟨not_mem_of_space hgap (by decide), by decide, ht⟩
  have h₁ (n : Nat) := closing_field htag n (l.gap₁ ++ '[' :: (l.stamp ++ ']' :: (l.gap₂ ++ '[' ::
      (l.action ++ ']' :: (l.gap₃ ++ '[' :: ("GPU::".toList ++ (l.gpuField ++ ']' ::
        (l.tail ++ v))))))))
  rw [← text_append] at h₁
  have h₂ (n : Nat) := closing_field (hopen hgap₁ hstamp) n (l.gap₂ ++ '[' ::
      (l.action ++ ']' :: (l.gap₃ ++ '[' :: ("GPU::".toList ++ (l.gpuField ++ ']' ::
        (l.tail ++ v))))))
  have h₃ (n : Nat) := closing_field (hopen hgap₂ haction) n
    (l.gap₃ ++ '[' :: ("GPU::".toList ++ (l.gpuField ++ ']' :: (l.tail ++ v))))
  have h₄ (n : Nat) := closing_field (hopen hgap₃ hgpu) n (l.tail ++ v)
  simp only [List.append_assoc, List.cons_append] at h₂ h₃ h₄
  refine ⟨?_, ?_⟩
  · intro n hone hthree
    obtain rfl | rfl | rfl : n = 1 ∨ n = 2 ∨ n = 3 := by omega
    · rw [h₁ 0]
      exact next_gap hgap₁ (by decide) _
    · rw [h₁ 1, h₂ 0]
      exact next_gap hgap₂ (by decide) _
    · rw [h₁ 2, h₂ 1, h₃ 0]
      exact next_gap hgap₃ (by decide) _
  · rw [h₁ 3, h₂ 2, h₃ 1, h₄ 0]
    unfold tail closing
    rw [List.append_assoc]
    exact next_gap hgap₄ (by decide) _

theorem brackets_not_mem_tail : '[' ∉ l.tail ∧ ']' ∉ l.tail := by
  obtain ⟨-, -, -, -, -, hgap₄, hgap₅⟩ := l.spaces'
  have hverdict : '[' ∉ l.verdict ∧ ']' ∉ l.verdict := by
    rcases l.verdict_ok with h | h
    · rw [h]
      decide
    · rw [h]
      decide
  unfold tail
  simp only [List.mem_append, not_or]
  exact ⟨⟨not_mem_of_space hgap₄ (by decide), by decide, not_mem_of_space hgap₅ (by decide),
      hverdict.1⟩,
    ⟨not_mem_of_space hgap₄ (by decide), by decide, not_mem_of_space hgap₅ (by decide),
      hverdict.2⟩⟩

theorem count_close : l.text.count ']' = 4 := by
  obtain ⟨hgap₁, hgap₂, hgap₃, -⟩ := l.spaces'
  obtain ⟨hstamp, haction, -⟩ := l.close_not_mem
  have hspace {gap : Txt} (hgap : ∀ c ∈ gap, isSpace c = true) : gap.count ']' = 0 :=
    List.count_eq_zero_of_not_mem (not_mem_of_space hgap (by decide))
  have htext := l.text_append []
  rw [List.append_nil, List.append_nil] at htext
  have hne : ('[' == ']') = false := by decide
  rw [htext]
  simp only [List.count_append, List.count_cons, hspace hgap₁, hspace hgap₂, hspace hgap₃,
    List.count_eq_zero_of_not_mem hstamp, List.count_eq_zero_of_not_mem haction,
    List.count_eq_zero_of_not_mem l.close_not_mem_gpuField,
    List.count_eq_zero_of_not_mem l.brackets_not_mem_tail.2, hne, beq_self_eq_true, if_true]
  decide

/-- A later part of a line that begins with an opening bracket has a closing one. -/
theorem close_mem_of_suffix {k m : Txt} (h : l.text = k ++ m) (hm : '[' ∈ m) : ']' ∈ m := by
  by_contra hclose
  have htext := l.text_append []
  rw [List.append_nil, List.append_nil] at htext
  have hsuffix : ']' :: l.tail <:+ l.text := by
    rw [htext]
    refine ⟨"[RESULT".toList ++ ']' :: (l.gap₁ ++ '[' :: (l.stamp ++ ']' :: (l.gap₂ ++ '[' ::
      (l.action ++ ']' :: (l.gap₃ ++ '[' :: ("GPU::".toList ++ l.gpuField)))))), ?_⟩
    simp only [List.append_assoc, List.cons_append]
  have hsuffix' : m <:+ l.text := ⟨k, h.symm⟩
  rcases List.suffix_or_suffix_of_suffix hsuffix hsuffix' with hle | hle
  · exact hclose (hle.subset (.head _))
  · rcases List.suffix_cons_iff.mp hle with rfl | hle
    · exact hclose (.head _)
    · exact l.brackets_not_mem_tail.1 (hle.subset hm)

/-- A line that begins behind the tag of another does not begin before its end. -/
theorem not_overlap {k m v v' : Txt} (hk : k ≠ []) (hm : m ≠ []) (h : l'.text = k ++ m)
    (hrest : m ++ v' = l.text ++ v) : False := by
  obtain ⟨c, m, rfl⟩ := List.exists_cons_of_ne_nil hm
  have hc : c = '[' := by
    rw [text_append] at hrest
    exact (List.cons.inj hrest).1
  subst hc
  have hclose := close_mem_of_suffix h (.head _)
  have hcount := l'.count_close
  rw [h, List.count_append] at hcount
  have hpos := List.count_pos_iff.mpr hclose
  obtain hzero | hsome : k.count ']' = 0 ∨ 1 ≤ k.count ']' := by omega
  · -- the other line would begin within the tag
    have hnot : ']' ∉ k := List.count_eq_zero.mp hzero
    have htext := l'.text_append []
    rw [List.append_nil, h] at htext
    rcases List.append_eq_append_iff.mp htext with ⟨t, htag, ht⟩ | ⟨t, rfl, ht⟩
    · cases t with
      | nil =>
        rw [List.nil_append] at ht
        exact absurd (List.cons.inj ht).1 (by decide)
      | cons d t =>
        obtain ⟨rfl, -⟩ := List.cons.inj ht
        obtain ⟨x, k, rfl⟩ := List.exists_cons_of_ne_nil hk
        have hmem : '[' ∈ "RESULT".toList := by
          have hword : "RESULT".toList = k ++ '[' :: t := (List.cons.inj htag).2
          rw [hword]
          simp
        exact absurd hmem (by decide)
    · cases t with
      | nil =>
        rw [List.nil_append] at ht
        exact absurd (List.cons.inj ht).1 (by decide)
      | cons d t =>
        obtain ⟨rfl, -⟩ := List.cons.inj ht
        exact hnot (by simp)
  · obtain ⟨n, hn⟩ : ∃ n, n + 1 + k.count ']' = 4 := ⟨3 - k.count ']', by omega⟩
    have hother := (l'.next_closing v').2
    rw [h, List.append_assoc, ← hn, closing_append, hrest,
      (l.next_closing v).1 (n + 1) (by omega) (by omega)] at hother
    exact absurd hother (by decide)

/-- Lines in different places: the first ends before the second begins. -/
theorem At.disjoint {u' : Txt} (h' : l'.At alnum text u') (h : l.At alnum text u)
    (hlt : u'.length < u.length) : u'.length + l'.text.length ≤ u.length := by
  obtain ⟨-, -, v, -, -, -, htext, -⟩ := h
  obtain ⟨-, -, v', -, -, -, htext', -⟩ := h'
  rw [htext] at htext'
  by_contra hover
  obtain ⟨k, rfl⟩ : ∃ k, u = u' ++ k := by
    rcases List.append_eq_append_iff.mp htext' with ⟨k, hk, -⟩ | ⟨k, hk, -⟩
    · rw [hk, List.length_append] at hlt
      omega
    · exact ⟨k, hk⟩
  rw [List.append_assoc] at htext'
  have hrest := List.append_cancel_left htext'
  rw [List.length_append] at hlt hover
  rcases List.append_eq_append_iff.mp hrest with ⟨m, hm, hrest⟩ | ⟨m, rfl, -⟩
  · refine not_overlap ?_ ?_ hm hrest.symm
    · rintro rfl
      simp at hlt
    · rintro rfl
      rw [hm, List.append_nil] at hover
      omega
  · rw [List.length_append] at hover
    omega

end ResultLine

/-! ## The rows that are found -/

/-- A row and the line it is. -/
structure RowAt (alnum : Char → Bool) (text : Txt) (f : Found) (l : ResultLine) (u : Txt) :
    Prop where
  at_ : l.At alnum text u
  end_ : f.pos.before.length = u.length + l.text.length
  action : f.group 1 = l.action
  gpu : f.group 2 = l.gpu

theorem row_of_foundAt {f : Found} {b m v : Txt}
    (h : FoundAt (isWordChar alnum) resultPattern text f b m v) :
    ∃ (w : Txt) (l : ResultLine), RowAt alnum text f l (b.reverse ++ w) ∧ m = w ++ l.text ∧
      ∀ c ∈ w, isSpace c = true := by
  obtain ⟨w, l, rfl, hgroups, hw, hstart, hv⟩ := line_of_captures h.captures
  have htext := h.text_eq
  have hpos := h.pos_eq
  refine ⟨w, l, ⟨⟨b.reverse, w, v, rfl, atLineStart_iff.mp hstart, hw, ?_, hv⟩, ?_, ?_, ?_⟩, rfl,
    hw⟩
  · rw [htext]
    simp only [List.append_assoc]
  · rw [hpos]
    simp only [List.length_append, List.length_reverse]
    omega
  · unfold Found.group
    rw [hgroups]
    rfl
  · unfold Found.group
    rw [hgroups]
    rfl

theorem exists_row {f : Found} (hf : f ∈ findAll (isWordChar alnum) resultPattern text) :
    ∃ l u, RowAt alnum text f l u := by
  obtain ⟨b, m, v, hfound⟩ := foundAt_of_mem_findAll hf
  obtain ⟨w, l, hrow, -⟩ := row_of_foundAt hfound
  exact ⟨l, _, hrow⟩

theorem length_text_pos (l : ResultLine) : 0 < l.text.length := by
  have htext := congrArg List.length (l.text_append [])
  rw [List.append_nil, List.length_append, List.length_cons] at htext
  omega

theorem getElem?_E (l : ResultLine) (u v : Txt) :
    (u ++ (l.text ++ v))[u.length + (l.text.length - 1)]? = some 'E' := by
  have hverdict : l.verdict.getLast? = some 'E' := by
    rcases l.verdict_ok with h | h
    · rw [h]
      rfl
    · rw [h]
      rfl
  have hlast : l.text.getLast? = some 'E' := by
    unfold ResultLine.text ResultLine.tail
    simp only [List.getLast?_append, hverdict, Option.some_or]
  have hpos := length_text_pos l
  rw [List.getElem?_append_right (Nat.le_add_right _ _), Nat.add_sub_cancel_left,
    List.getElem?_append_left (by omega), ← List.getLast?_eq_getElem?]
  exact hlast

theorem mem_of_getElem? {x w z : Txt} {n : Nat} {c : Char} (h : (x ++ (w ++ z))[n]? = some c)
    (hle : x.length ≤ n) (hlt : n < x.length + w.length) : c ∈ w := by
  rw [List.getElem?_append_right hle, List.getElem?_append_left (by omega)] at h
  exact List.mem_of_getElem? h

/-- Every line is found. -/
theorem row_of_line {l : ResultLine} (h : l.At alnum text u) :
    ∃ f ∈ findAll (isWordChar alnum) resultPattern text, ∃ l', RowAt alnum text f l' u := by
  obtain ⟨x, w, v, hu, hx, hw, htext, hv⟩ := id h
  have hmatch := matches_line l (b := x.reverse) (fun a => atLineStart_iff.mpr
    (by rwa [List.reverse_reverse])) hw hv
  have hne (b v : Txt) : ¬ Matches (isWordChar alnum) resultPattern b [] v := by
    intro hmatch
    obtain ⟨gs, hcaptures⟩ := hmatch.captures
    obtain ⟨w, l, hnil, -⟩ := line_of_captures hcaptures
    have hpos := length_text_pos l
    rw [(List.append_eq_nil_iff.mp hnil.symm).2] at hpos
    exact absurd hpos (by decide)
  have htext' : text = x ++ (w ++ (l.text ++ v)) := by
    rw [htext, hu, List.append_assoc]
  obtain ⟨f, hf, b, m, v', hfound, hle, hlt⟩ := findAll_covers hne (show text = _ by
    rw [List.reverse_reverse, htext', List.append_assoc]) hmatch
  obtain ⟨w', l', hrow, rfl, hw'⟩ := row_of_foundAt hfound
  refine ⟨f, hf, l', ?_⟩
  obtain ⟨-, -, v'', -, -, -, htext'', -⟩ := id hrow.at_
  have hlen := length_text_pos l'
  rw [List.length_append] at hlt
  rw [List.length_reverse] at hle hlt
  have hulen := congrArg List.length hu
  rw [List.length_append] at hulen
  have hrowlen : (b.reverse ++ w').length = b.length + w'.length := by
    rw [List.length_append, List.length_reverse]
  rcases Nat.lt_trichotomy (b.reverse ++ w').length u.length with hcmp | hcmp | hcmp
  · -- the row would end in the space before the line
    have hdisjoint := hrow.at_.disjoint h hcmp
    have hE := getElem?_E l' (b.reverse ++ w') v''
    rw [← htext'', htext'] at hE
    have hmem := hw _ (mem_of_getElem? hE (by omega) (by omega))
    exact absurd hmem (by decide)
  · have heq : b.reverse ++ w' = u := by
      rw [htext''] at htext
      exact (List.append_inj htext hcmp).1
    rw [← heq]
    exact hrow
  · -- the tag of the line would be in the space before the row
    have hopen : text[u.length]? = some '[' := by
      rw [htext, List.getElem?_append_right (Nat.le_refl _), Nat.sub_self, l.text_append]
      rfl
    rw [htext'', List.append_assoc] at hopen
    have hmem := hw' _ (mem_of_getElem? hopen (by rw [List.length_reverse]; omega)
      (by rw [List.length_reverse]; omega))
    exact absurd hmem (by decide)

theorem identity_of_row {f : Found} {l l' : ResultLine} (hrow : RowAt alnum text f l' u)
    (h : l.At alnum text u) : (strip (f.group 1), strip (f.group 2)) =
      (strip l.action, strip l.gpu) := by
  obtain ⟨-, -, v, -, -, -, htext, -⟩ := h
  obtain ⟨-, -, v', -, -, -, htext', -⟩ := hrow.at_
  rw [htext] at htext'
  obtain ⟨haction, hgpu⟩ := ResultLine.unique (List.append_cancel_left htext')
  rw [hrow.action, hrow.gpu, haction, hgpu]

/-- A row is in one place. -/
theorem RowAt.place_eq {f : Found} {l l' : ResultLine} {u' : Txt} (h : RowAt alnum text f l u)
    (h' : RowAt alnum text f l' u') : u = u' := by
  have hend := h.end_.symm.trans h'.end_
  have hpos := length_text_pos l
  have hpos' := length_text_pos l'
  rcases Nat.lt_trichotomy u.length u'.length with hlt | heq | hlt
  · have hdisjoint := h.at_.disjoint h'.at_ hlt
    omega
  · obtain ⟨-, -, v, -, -, -, htext, -⟩ := h.at_
    obtain ⟨-, -, v', -, -, -, htext', -⟩ := h'.at_
    rw [htext] at htext'
    exact (List.append_inj htext' heq).1
  · have hdisjoint := h'.at_.disjoint h.at_ hlt
    omega

theorem isWordChar_of_isSpace (hspace : ∀ c, isSpace c = true → alnum c = false) {c : Char}
    (hc : isSpace c = true) : isWordChar alnum c = false := by
  have hall : ∀ n ∈ spaces, (Char.ofNat n).isAlphanum = false ∧ Char.ofNat n ≠ '_' := by decide
  obtain ⟨halnum, hne⟩ := hall c.toNat (of_decide_eq_true hc)
  rw [Char.ofNat_toNat] at halnum hne
  unfold isWordChar
  rw [halnum, hspace c hc]
  simp [hne]

/-- A line that says `FALSE` has the token. -/
theorem findAll_false_ne_nil (hspace : ∀ c, isSpace c = true → alnum c = false) {l : ResultLine}
    (h : l.At alnum text u) (hverdict : l.verdict = "FALSE".toList) :
    findAll (isWordChar alnum) falsePattern text ≠ [] := by
  obtain ⟨-, -, v, -, -, -, htext, hv⟩ := h
  obtain ⟨-, -, -, -, -, hgap₄, hgap₅⟩ := l.spaces'
  have hne : l.gap₄ ≠ [] := l.gaps _ (by simp)
  obtain ⟨pre, htext'⟩ : ∃ pre, text = (pre ++ l.gap₄) ++
      (("pass:".toList ++ (l.gap₅ ++ "FALSE".toList)) ++ v) := by
    refine ⟨u ++ ("[RESULT".toList ++ ']' :: (l.gap₁ ++ '[' :: (l.stamp ++ ']' :: (l.gap₂ ++ '[' ::
      (l.action ++ ']' :: (l.gap₃ ++ '[' :: ("GPU::".toList ++ (l.gpuField ++ [']'])))))))), ?_⟩
    rw [htext, l.text_append, ← hverdict]
    unfold ResultLine.tail
    simp only [List.append_assoc, List.cons_append, List.nil_append]
  rw [Ne, findAll_eq_nil_iff]
  intro hquiet
  have hat := hquiet _ _ htext' (by simp)
  rw [matchAt_eq_none_iff] at hat
  refine hat ("pass:".toList ++ (l.gap₅ ++ "FALSE".toList)) v (List.append_nil _) ?_
  rw [List.append_nil]
  unfold falsePattern
  refine matches_cat_cons.mpr ⟨[], _, rfl, matches_wordBoundary.mpr ⟨rfl, ?_⟩, ?_⟩
  · have hc := List.getLast?_eq_some_getLast hne
    generalize l.gap₄.getLast hne = c at hc
    have hbefore : (pre ++ l.gap₄).reverse.head? = some c := by
      rw [List.head?_reverse, List.getLast?_append, hc]
      rfl
    have hp : isWordChar alnum 'p' = true := by
      have hp : ('p' : Char).isAlphanum = true := by decide
      unfold isWordChar
      rw [hp]
      rfl
    unfold atBoundary
    rw [hbefore, Option.any_some,
      isWordChar_of_isSpace hspace (hgap₄ c (List.mem_of_getLast? hc))]
    show (false != isWordChar alnum 'p') = true
    rw [hp]
    rfl
  · refine matches_cat_cons.mpr ⟨_, _, rfl, matches_lit.mpr rfl, ?_⟩
    refine matches_cat_cons.mpr ⟨l.gap₅, _, rfl, matches_star.mpr hgap₅, ?_⟩
    refine matches_cat_cons.mpr ⟨_, [], (List.append_nil _).symm, matches_lit.mpr rfl, ?_⟩
    exact matches_wordBoundary.mpr ⟨rfl, (boundary_iff (.inr rfl)).mpr hv⟩

/-- The checks of the identities: one fails, or all hold. -/
theorem checkIdentities_cases (printable : Char → Bool) (ids : List (Txt × Txt)) (total : Nat)
    (g c : Int) (expectedActions : Option (Finset Txt)) :
    (∃ r, checkIdentities printable ids total g c expectedActions = some r ∧ r.failed = true) ∨
      checkIdentities printable ids total g c expectedActions = none ∧ ids.Nodup ∧
        (∀ e, expectedActions = some e → (ids.map Prod.fst).toFinset = e) ∧
        ((ids.map Prod.fst).toFinset.card : Int) = c ∧
        ((ids.map Prod.snd).toFinset.card : Int) = g ∧
        ∀ a ∈ (ids.map Prod.fst).toFinset, ∀ i ∈ (ids.map Prod.snd).toFinset, (a, i) ∈ ids := by
  unfold checkIdentities
  simp only
  by_cases hlen : ids.length ≠ total
  · rw [if_pos hlen]
    exact .inl ⟨_, rfl, rfl⟩
  rw [if_neg hlen]
  by_cases hnodup : ids.Nodup
  · rw [if_neg (not_not.mpr hnodup)]
    cases hactions : expectedActions.filter fun e => (ids.map Prod.fst).toFinset ≠ e with
    | some e => exact .inl ⟨_, rfl, rfl⟩
    | none =>
      simp only
      split_ifs with hcards hmatrix
      · exact .inl ⟨_, rfl, rfl⟩
      · exact .inl ⟨_, rfl, rfl⟩
      · rw [not_or, not_not, not_not] at hcards
        simp only [not_exists, not_and, not_not] at hmatrix
        refine .inr ⟨rfl, hnodup, ?_, hcards.1, hcards.2, hmatrix⟩
        rintro e rfl
        by_contra hne
        simp [hne] at hactions
  · rw [if_pos hnodup]
    exact .inl ⟨_, rfl, rfl⟩

theorem checks_of_pass {printable : Char → Bool} {checks : Option Int} {g c : Int}
    {expectedActions : Option (Finset Txt)}
    (h : (validateRvs alnum printable ⟨checks, some g, some c, expectedActions⟩ text).failed =
      false) :
    findAll (isWordChar alnum) falsePattern text = [] ∧ ∃ total,
      checkIdentities printable (identities alnum text) total g c expectedActions = none := by
  unfold validateRvs at h
  simp only at h
  split_ifs at h with hempty hwatchdog habort htotal
  unfold checkResults at h
  simp only at h
  split_ifs at h with hfalse
  split at h
  · cases h
  · refine ⟨List.length_eq_zero_iff.mp (by omega),
      (findAll (isWordChar alnum) truePattern text).length +
        (findAll (isWordChar alnum) falsePattern text).length, ?_⟩
    rcases checkIdentities_cases printable (identities alnum text) _ g c expectedActions with
      ⟨r, hr, hfailed⟩ | ⟨hnone, -⟩
    · rw [hr, Option.getD_some, hfailed] at h
      cases h
    · exact hnone

/-- A log that passes has each action on each GPU once, and nothing else. -/
theorem complete_of_pass (hspace : ∀ c, isSpace c = true → alnum c = false)
    (printable : Char → Bool) (g c : Nat) (expectedActions : Option (Finset Txt))
    (h : (validateRvs alnum printable ⟨some (g * c), some g, some c, expectedActions⟩ text).failed =
      false) :
    ∃ actions gpus, CompleteMatrix alnum text g c expectedActions actions gpus := by
  obtain ⟨hfalse, total, hnone⟩ := checks_of_pass h
  rcases checkIdentities_cases printable (identities alnum text) total g c expectedActions with
    ⟨r, hr, -⟩ | ⟨-, hnodup, hexpected, hc, hg, hmatrix⟩
  · rw [hnone] at hr
    cases hr
  have hmem {l : ResultLine} {u : Txt} (hl : l.At alnum text u) :
      (strip l.action, strip l.gpu) ∈ identities alnum text := by
    obtain ⟨f, hf, l', hrow⟩ := row_of_line hl
    rw [← identity_of_row hrow hl]
    exact List.mem_map_of_mem hf
  refine ⟨_, _, Int.ofNat_inj.mp hc, Int.ofNat_inj.mp hg, hexpected, ?_, ?_⟩
  · intro l u hl
    refine ⟨List.mem_toFinset.mpr (List.mem_map_of_mem (hmem hl)),
      List.mem_toFinset.mpr (List.mem_map_of_mem (hmem hl)), ?_⟩
    rcases l.verdict_ok with hverdict | hverdict
    · exact hverdict
    · exact absurd hfalse (findAll_false_ne_nil hspace hl hverdict)
  · intro a ha i hi
    obtain ⟨f, hf, hidentity⟩ := List.mem_map.mp (hmatrix a ha i hi)
    obtain ⟨l, u, hrow⟩ := exists_row hf
    have hid := identity_of_row hrow hrow.at_
    refine ⟨u, ⟨l, hrow.at_, ?_⟩, ?_⟩
    · rw [hidentity] at hid
      exact ⟨(Prod.mk.inj hid).1.symm, (Prod.mk.inj hid).2.symm⟩
    · rintro u' ⟨l', hl', rfl, rfl⟩
      obtain ⟨f', hf', l'', hrow'⟩ := row_of_line hl'
      have heq := List.inj_on_of_nodup_map hnodup hf' hf
        ((identity_of_row hrow' hl').trans hidentity.symm)
      rw [heq] at hrow'
      exact hrow'.place_eq hrow

/-- A log of two actions on two GPUs. -/
def fourChecks : Txt :=
  ("[INFO  ] [ 0.1] gst_1 has begun\n" ++
    "[RESULT] [ 1.2] [gst_1] [GPU:: 7] pass: TRUE\n" ++
    "[RESULT] [ 1.3] [gst_1] [GPU:: 9] pass: TRUE\n" ++
    "[RESULT] [ 2.1] [gst_2] [GPU:: 9] pass: TRUE\n" ++
    "[RESULT] [ 2.4] [gst_2] [GPU:: 7] pass: TRUE\n").toList

theorem complete_fourChecks :
    (∀ c, isSpace c = true → (fun _ => false : Char → Bool) c = false) ∧
      (validateRvs (fun _ => false) (fun _ => true) ⟨some (2 * 2), some 2, some 2,
        some {"gst_1".toList, "gst_2".toList}⟩ fourChecks).failed = false ∧
      ∃ actions gpus, CompleteMatrix (fun _ => false) fourChecks 2 2
        (some {"gst_1".toList, "gst_2".toList}) actions gpus :=
  ⟨fun _ _ => rfl, by decide +kernel,
    complete_of_pass (fun _ _ => rfl) (fun _ => true) 2 2 _ (by decide +kernel)⟩

end Rvs
end Monitored
end RocmTests

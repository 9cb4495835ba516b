import RocmTests.Monitored.Hipblaslt
import RocmTests.Text.RegexWhole

/-!
# Reading the GEMM sweep's log

The log of a sweep without failures is made of lines of which each is the harness's
or a line of the benchmark's output.  No error pattern reaches over the end of such a
line, so the log has an error only if an output has one.
-/

namespace RocmTests
namespace Monitored
namespace Hipblaslt

open Text Text.Re Validation DmesgCategories
open Cudamemtest (isDecimal showOption)
open Markers (isSpace strip)

variable {isWord : Char → Bool}

/-! ## What an error match looks like -/

/-- What an error match takes.  `b` matters for the word boundary only. -/
inductive ErrorText (isWord : Char → Bool) (b : Txt) : Txt → Prop
  | hip {a s c : Txt} (word : Letters "HIP error" a) (space : ∀ x ∈ s, isSpace x = true)
      (colon : Letters ":" c) : ErrorText isWord b (a ++ (s ++ c))
  | hipblaslt {a s e t c : Txt} (boundary : atBoundary isWord ⟨b, a⟩ = true)
      (word : Letters "hipblaslt" a) (space : s ≠ [] ∧ ∀ x ∈ s, isSpace x = true)
      (error : Letters "error" e) (gap : ∀ x ∈ t, isSpace x = true)
      (colon : Letters ":" c) : ErrorText isWord b (a ++ (s ++ (e ++ (t ++ c))))
  | fault {a : Txt} (word : Letters "Segmentation fault" a) : ErrorText isWord b a

theorem errorText_of_matches {b m v : Txt} (h : Matches isWord errPat b m v) :
    ErrorText isWord b m := by
  unfold errPat at h
  rw [matches_alts] at h
  obtain ⟨r, hr, h⟩ := h
  simp only [List.mem_cons, List.not_mem_nil, or_false] at hr
  rcases hr with rfl | rfl | rfl
  · obtain ⟨a, m₂, rfl, ha, h⟩ := matches_cat_cons.mp h
    obtain ⟨s, c, rfl, hs, hc⟩ := matches_cat_cons.mp h
    exact .hip (matches_ilit.mp ha) (matches_star.mp hs) (matches_ilit.mp hc)
  · obtain ⟨m₁, m₂, rfl, h₁, h⟩ := matches_cat_cons.mp h
    obtain ⟨a, m₃, rfl, ha, h⟩ := matches_cat_cons.mp h
    obtain ⟨s, m₄, rfl, hs, h⟩ := matches_cat_cons.mp h
    obtain ⟨e, m₅, rfl, he, h⟩ := matches_cat_cons.mp h
    obtain ⟨t, c, rfl, ht, hc⟩ := matches_cat_cons.mp h
    obtain ⟨rfl, hbound⟩ := matches_wordBoundary.mp h₁
    have hword : Letters "hipblaslt" a := matches_ilit.mp ha
    obtain ⟨x, hx, _⟩ := hword.head (c := 'h') (by decide)
    have hbound' : atBoundary isWord ⟨b, a⟩ = true := by
      unfold atBoundary at *
      simp only [List.append_assoc] at hbound
      rw [head_append hx] at hbound
      rw [hx]
      exact hbound
    show ErrorText isWord b (a ++ (s ++ (e ++ (t ++ c))))
    exact .hipblaslt hbound' hword (matches_plus.mp hs) (matches_ilit.mp he) (matches_star.mp ht)
      (matches_ilit.mp hc)
  · exact .fault (matches_ilit.mp h)

theorem matches_of_errorText {b m v : Txt} (h : ErrorText isWord b m) :
    Matches isWord errPat b m v := by
  unfold errPat
  rw [matches_alts]
  cases h with
  | @hip a s c word space colon =>
    refine ⟨hipError, by simp, ?_⟩
    unfold hipError
    exact matches_cat_cons.mpr ⟨a, s ++ c, rfl, matches_ilit.mpr word,
      matches_cat_cons.mpr ⟨s, c, rfl, matches_star.mpr space, matches_ilit.mpr colon⟩⟩
  | @hipblaslt a s e t c boundary word space error gap colon =>
    refine ⟨hipblasltError, by simp, ?_⟩
    obtain ⟨x, hx, _⟩ := word.head (c := 'h') (by decide)
    have hbound : atBoundary isWord ⟨b, (a ++ (s ++ (e ++ (t ++ c)))) ++ v⟩ = true := by
      unfold atBoundary at *
      rw [List.append_assoc, head_append hx]
      rw [hx] at boundary
      exact boundary
    unfold hipblasltError
    exact matches_cat_cons.mpr ⟨[], _, rfl, matches_wordBoundary.mpr ⟨rfl, hbound⟩,
      matches_cat_cons.mpr ⟨a, _, rfl, matches_ilit.mpr word,
      matches_cat_cons.mpr ⟨s, _, rfl, matches_plus.mpr space,
      matches_cat_cons.mpr ⟨e, _, rfl, matches_ilit.mpr error,
      matches_cat_cons.mpr ⟨t, c, rfl, matches_star.mpr gap, matches_ilit.mpr colon⟩⟩⟩⟩⟩
  | fault word => exact ⟨segmentationFault, by simp, matches_ilit.mpr word⟩

theorem ErrorText.congr {b b' m : Txt} (h : ErrorText isWord b m)
    (hb : b.head?.any isWord = b'.head?.any isWord) : ErrorText isWord b' m := by
  cases h with
  | hip word space colon => exact .hip word space colon
  | hipblaslt boundary word space error gap colon =>
    refine .hipblaslt ?_ word space error gap colon
    unfold atBoundary at *
    rw [← hb]
    exact boundary
  | fault word => exact .fault word

/-- An error match begins with a letter. -/
theorem ErrorText.head {b m : Txt} (h : ErrorText isWord b m) :
    ∃ x, m.head? = some x ∧ isSpace x = false ∧ x ≠ '[' := by
  have hletter : ∀ {c x : Char}, sameLetter c x = true →
      (∀ n ∈ spaces, sameLetter c (Char.ofNat n) = false) → sameLetter c '[' = false →
      isSpace x = false ∧ x ≠ '[' := by
    intro c x hsame hspaces hbracket
    refine ⟨isSpace_of_sameLetter hsame hspaces, ?_⟩
    rintro rfl
    rw [hsame] at hbracket
    cases hbracket
  cases h with
  | hip word _ _ =>
    obtain ⟨x, hx, hsame⟩ := word.head (c := 'H') (by decide)
    exact ⟨x, head_append hx, hletter hsame (by decide) (by decide)⟩
  | hipblaslt _ word _ _ _ _ =>
    obtain ⟨x, hx, hsame⟩ := word.head (c := 'h') (by decide)
    exact ⟨x, head_append hx, hletter hsame (by decide) (by decide)⟩
  | fault word =>
    obtain ⟨x, hx, hsame⟩ := word.head (c := 'S') (by decide)
    exact ⟨x, hx, hletter hsame (by decide) (by decide)⟩

/-! ## Lines without an error -/

/-- Behind its white space the line goes on with a character that continues no match. -/
def Opens (t : Txt) : Prop :=
  ∃ x c z, t = x ++ (c :: z) ∧ (∀ d ∈ x, isSpace d = true) ∧ isSpace c = false ∧
    sameLetter ':' c = false ∧ sameLetter 'e' c = false

theorem Opens.append {t : Txt} (h : Opens t) (w : Txt) : Opens (t ++ w) := by
  obtain ⟨x, c, z, rfl, hrest⟩ := h
  exact ⟨x, c, z ++ w, by rw [List.append_assoc, List.cons_append], hrest⟩

theorem Opens.ne {y s e r : Txt} {w : String} {d : Char} (h : y = [] ∨ Opens y)
    (hs : ∀ x ∈ s, isSpace x = true) (he : Letters w e) (hd : w.toList.head? = some d)
    (hletter : d = ':' ∨ d = 'e') : y ≠ s ++ (e ++ r) := by
  intro heq
  obtain ⟨x, hx, hsame⟩ := he.head hd
  rcases h with hnil | ⟨sp, c, z, hy, hsp, hc, hcolon, hword⟩
  · rw [hnil] at heq
    have hempty := (List.append_eq_nil_iff.mp (List.append_eq_nil_iff.mp heq.symm).2).1
    rw [hempty] at hx
    cases hx
  · have hxspace : isSpace x = false := by
      rcases hletter with rfl | rfl
      · exact isSpace_of_sameLetter hsame (by decide)
      · exact isSpace_of_sameLetter hsame (by decide)
    rw [hy] at heq
    obtain ⟨_, hrest⟩ := run_unique heq hsp hs (stops rfl hc) (stops (head_append hx) hxspace)
    have hcx := congrArg List.head? hrest
    rw [head_append hx, List.head?_cons, Option.some.injEq] at hcx
    rw [← hcx] at hsame
    rcases hletter with rfl | rfl
    · rw [hcolon] at hsame
      cases hsame
    · rw [hword] at hsame
      cases hsame

/-- A line that no error match begins in, and that continues none. -/
structure Calm (isWord : Char → Bool) (t : Txt) : Prop where
  opens : Opens t
  inside : ∀ b u m v : Txt, t = u ++ (m ++ v) → ¬ ErrorText isWord (u.reverse ++ b) m

/-- An error match that begins in a line lies within it, unless the next line continues it. -/
theorem inside_of_errorText {b m v w y : Txt} (h : ErrorText isWord b m) (hwm : w ++ y = m ++ v)
    (hw : w.getLast? = some '\n') (hy : y = [] ∨ Opens y) :
    ∃ t, w = m ++ t ∧ t.getLast? = some '\n' := by
  cases h with
  | @hip a s c word space colon =>
    simp only [List.append_assoc] at hwm
    obtain ⟨w₁, rfl, h₁, hw₁⟩ := inside_of_not_mem hwm hw (word.not_mem (forall_of_all (by decide)))
    obtain ⟨w₂, rfl, h₂, hw₂⟩ := inside_of_isSpace h₁.symm hw₁ space
      fun s' hs' => Opens.ne hy hs' colon (by decide) (Or.inl rfl)
    obtain ⟨w₃, rfl, _, hw₃⟩ :=
      inside_of_not_mem h₂.symm hw₂ (colon.not_mem (forall_of_all (by decide)))
    exact ⟨w₃, by simp only [List.append_assoc], hw₃⟩
  | @hipblaslt a s e t c boundary word space error gap colon =>
    simp only [List.append_assoc] at hwm
    obtain ⟨w₁, rfl, h₁, hw₁⟩ := inside_of_not_mem hwm hw (word.not_mem (forall_of_all (by decide)))
    obtain ⟨w₂, rfl, h₂, hw₂⟩ := inside_of_isSpace h₁.symm hw₁ space.2
      fun s' hs' => Opens.ne hy hs' error (by decide) (Or.inr rfl)
    obtain ⟨w₃, rfl, h₃, hw₃⟩ :=
      inside_of_not_mem h₂.symm hw₂ (error.not_mem (forall_of_all (by decide)))
    obtain ⟨w₄, rfl, h₄, hw₄⟩ := inside_of_isSpace h₃.symm hw₃ gap
      fun s' hs' => Opens.ne hy hs' colon (by decide) (Or.inl rfl)
    obtain ⟨w₅, rfl, _, hw₅⟩ :=
      inside_of_not_mem h₄.symm hw₄ (colon.not_mem (forall_of_all (by decide)))
    exact ⟨w₅, by simp only [List.append_assoc], hw₅⟩
  | fault word =>
    obtain ⟨w₁, hw₁, _, hlast⟩ :=
      inside_of_not_mem hwm hw (word.not_mem (forall_of_all (by decide)))
    exact ⟨w₁, hw₁, hlast⟩

theorem Calm.quiet {t b y : Txt} (h : Calm isWord t) (hy : y = [] ∨ Opens y) :
    Quiet isWord errPat b (t ++ ['\n']) y := by
  intro u w huw hw
  rw [matchAt_eq_none_iff]
  intro m v hmv hm
  have hlast : w.getLast? = some '\n' := by
    have hall : (t ++ ['\n']).getLast? = some '\n' := List.getLast?_concat
    rw [huw, List.getLast?_append_of_ne_nil u hw] at hall
    exact hall
  obtain ⟨w', hwm, hw'⟩ := inside_of_errorText (errorText_of_matches hm) hmv hlast hy
  have hdrop : t = u ++ (m ++ w'.dropLast) := by
    have hconcat := List.dropLast_append_getLast? _ hw'
    rw [hwm, ← hconcat, ← List.append_assoc, ← List.append_assoc] at huw
    have hcancel := List.append_cancel_right huw
    rw [hcancel, List.append_assoc]
  exact h.inside b u m _ hdrop (errorText_of_matches hm)

theorem unlines_cons (t : Txt) (ls : List Txt) :
    unlines (t :: ls) = (t ++ ['\n']) ++ unlines ls := List.flatMap_cons

theorem errPat_quiet_unlines {ls : List Txt} (h : ∀ t ∈ ls, Calm isWord t) :
    ∀ b : Txt, Quiet isWord errPat b (unlines ls) [] := by
  induction ls with
  | nil =>
    intro b u w huw hw
    exact absurd (List.append_eq_nil_iff.mp huw.symm).2 hw
  | cons t ls ih =>
    intro b
    have hnext : unlines ls ++ [] = [] ∨ Opens (unlines ls ++ []) := by
      rw [List.append_nil]
      cases ls with
      | nil => exact Or.inl rfl
      | cons t' ls =>
        right
        have hopens := (h t' (List.mem_cons_of_mem _ List.mem_cons_self)).opens
        rw [unlines_cons, List.append_assoc]
        exact hopens.append _
    rw [unlines_cons]
    exact ((h t List.mem_cons_self).quiet hnext).append
      (ih (fun t' ht' => h t' (List.mem_cons_of_mem _ ht')) _)

/-- A line of an output without an error, if it does not begin with a letter. -/
theorem calm_of_output {alnum : Char → Bool} {output t : Txt} {c : Char}
    (ht : t ∈ splitlines output) (hclean : found alnum errPat output = false) (hopens : Opens t)
    (hhead : t.head? = some c) (hc : isSpace c = true ∨ c = '[') :
    Calm (isWordChar alnum) t := by
  refine ⟨hopens, ?_⟩
  intro b u m v htext herr
  have hne : u ≠ [] := by
    rintro rfl
    obtain ⟨x, hx, hspace, hbracket⟩ := herr.head
    rw [htext, List.nil_append, head_append hx, Option.some.injEq] at hhead
    rcases hc with hc | hc
    · rw [← hhead, hspace] at hc
      cases hc
    · exact hbracket (hhead.trans hc)
  obtain ⟨p, q, hpq⟩ := infix_of_mem_splitlines ht
  -- the same match in the output, where the line has the same left neighbours
  have herr' : ErrorText (isWordChar alnum) (p ++ u).reverse m := by
    apply herr.congr
    rw [List.reverse_append]
    cases hrev : u.reverse with
    | nil => exact absurd (List.reverse_eq_nil_iff.mp hrev) hne
    | cons d u' => rfl
  have hfound : found alnum errPat output = true := by
    unfold found
    rw [search_iff_matches]
    refine ⟨p ++ u, m, v ++ q, ?_, matches_of_errorText herr'⟩
    rw [← hpq, htext]
    simp only [List.append_assoc]
  rw [hclean] at hfound
  cases hfound

/-- A line that lacks a letter of each of the words. -/
theorem calm_of_letters {t : Txt} (hopens : Opens t) {d e : Char}
    (hd : d ∈ "HIP error".toList ∧ d.toLower ≠ 'i' ∧ d.toLower ≠ 's' ∧ d.toLower ≠ 'k')
    (he : e ∈ "Segmentation fault".toList ∧ e.toLower ≠ 'i' ∧ e.toLower ≠ 's' ∧ e.toLower ≠ 'k')
    (ht : ∀ x ∈ t, x.toLower ≠ d.toLower ∧ x.toLower ≠ 'b' ∧ x.toLower ≠ e.toLower) :
    Calm isWord t := by
  refine ⟨hopens, ?_⟩
  intro b u m v htext herr
  have hmem : ∀ x ∈ m, x ∈ t := by
    intro x hx
    rw [htext]
    exact List.mem_append_right u (List.mem_append_left v hx)
  cases herr with
  | @hip a s c word space colon =>
    obtain ⟨x, hx, hlower⟩ := word.exists_toLower hd.1 hd.2.1 hd.2.2.1 hd.2.2.2
    exact (ht x (hmem x (List.mem_append_left _ hx))).1 hlower
  | @hipblaslt a s e' t' c boundary word space error gap colon =>
    obtain ⟨x, hx, hlower⟩ :=
      word.exists_toLower (c := 'b') (by decide) (by decide) (by decide) (by decide)
    exact (ht x (hmem x (List.mem_append_left _ hx))).2.1 hlower
  | fault word =>
    obtain ⟨x, hx, hlower⟩ := word.exists_toLower he.1 he.2.1 he.2.2.1 he.2.2.2
    exact (ht x (hmem x hx)).2.2 hlower

theorem calm_runningLine : Calm isWord runningLine := by
  have hopens : Opens runningLine :=
    ⟨"  ".toList, 'R', runningLine.drop 3, by decide, forall_of_all (by decide), by decide,
      by decide, by decide⟩
  exact calm_of_letters (d := 'o') (e := 'o') hopens (by decide) (by decide)
    (forall_of_all (by decide))

/-- The summary of a sweep without failures. -/
theorem calm_summaryLine : Calm isWord (summaryLine totalShapes 0) := by
  have hopens : Opens (summaryLine totalShapes 0) :=
    ⟨"  ".toList, 'C', (summaryLine totalShapes 0).drop 3, by decide, forall_of_all (by decide),
      by decide, by decide, by decide⟩
  exact calm_of_letters (d := 'r') (e := 'n') hopens (by decide) (by decide)
    (forall_of_all (by decide))

/-! ## Headers and result rows -/

variable {alnum : Char → Bool}

theorem matchesStart_iff {r : Re} {t : Txt} : matchesStart alnum r t = true ↔
    ∃ m v, t = m ++ v ∧ Matches (isWordChar alnum) r [] m v := by
  unfold matchesStart
  rw [matchAt_isSome_iff]
  constructor
  · rintro ⟨q, hq⟩
    obtain ⟨m, hm, hmatch⟩ := hq.exists_matches
    exact ⟨m, q.after, hm, hmatch⟩
  · rintro ⟨m, v, rfl, hmatch⟩
    exact ⟨_, hmatch⟩

theorem head_of_isHeader {t : Txt} (h : isHeader alnum t = true) : ∃ z, t = '[' :: z := by
  obtain ⟨m, v, rfl, hm⟩ := matchesStart_iff.mp h
  obtain ⟨m₁, m₂, rfl, h₁, _⟩ := matches_cat_cons.mp hm
  have hbracket : "[".toList = ['['] := by decide
  rw [matches_lit.mp h₁, hbracket]
  exact ⟨m₂ ++ v, rfl⟩

/-- A result row is white space and one of the two letters. -/
theorem head_of_isDataRow {t : Txt} (h : isDataRow alnum t = true) :
    ∃ x c z, t = x ++ (c :: z) ∧ x ≠ [] ∧ (∀ d ∈ x, isSpace d = true) ∧ (c = 'N' ∨ c = 'T') := by
  obtain ⟨m, v, rfl, hm⟩ := matchesStart_iff.mp h
  obtain ⟨x, m₂, rfl, hx, hm⟩ := matches_cat_cons.mp hm
  obtain ⟨m₃, m₄, rfl, h₃, _⟩ := matches_cat_cons.mp hm
  obtain ⟨c, rfl, hc⟩ := matches_cls.mp h₃
  have hx' := matches_plus.mp hx
  refine ⟨x, c, m₄ ++ v, ?_, hx'.1, hx'.2, ?_⟩
  · simp only [List.append_assoc, List.cons_append, List.nil_append]
  · simpa using hc

theorem isDataRow_eq_false {x z : Txt} {c : Char} (hx : ∀ d ∈ x, isSpace d = true)
    (hc : isSpace c = false) (hN : c ≠ 'N') (hT : c ≠ 'T') :
    isDataRow alnum (x ++ (c :: z)) = false := by
  by_contra h
  obtain ⟨x', c', z', heq, _, hx', hc'⟩ := head_of_isDataRow (Bool.not_eq_false _ ▸ h)
  have hspace : isSpace c' = false := by
    rcases hc' with rfl | rfl <;> decide
  obtain ⟨_, hrest⟩ := run_unique heq hx hx' (stops rfl hc) (stops rfl hspace)
  rw [List.cons.injEq] at hrest
  rcases hc' with hc' | hc'
  · exact hN (hrest.1.trans hc')
  · exact hT (hrest.1.trans hc')

/-! ## The lines of a sweep without failures -/

def completedMark : Txt := "Completed:".toList

/-- The output of the benchmark holds no mark of the harness. -/
def Unmarked (output : Txt) : Prop :=
  contains "[hipblaslt]".toList output = false ∧ contains completedMark output = false

/-- A line that is no sign of a failure and not the summary. -/
structure Fine (alnum : Char → Bool) (t : Txt) : Prop where
  line : IsLine t
  calm : Calm (isWordChar alnum) t
  watchdog : ¬ watchdogMark <:+: t
  warning : ¬ warningMark <:+: t
  completed : ¬ completedMark <:+: t

theorem not_infix_of_contains {s t output : Txt} (hs : contains s output = false)
    (ht : t <:+: output) : ¬ s <:+: t := by
  intro h
  rw [contains_eq_true_iff.mpr (h.trans ht)] at hs
  cases hs

theorem fine_of_output {output t : Txt} (ht : t ∈ splitlines output)
    (hunmarked : Unmarked output) (hclean : found alnum errPat output = false)
    (hkind : isHeader alnum t = true ∨ isDataRow alnum t = true) : Fine alnum t := by
  have hinfix := infix_of_mem_splitlines ht
  have hmark := not_infix_of_contains hunmarked.1 hinfix
  have hwatchdog : "[hipblaslt]".toList <+: watchdogMark := by decide
  have hwarning : "[hipblaslt]".toList <+: warningMark := by decide
  have hcalm : Calm (isWordChar alnum) t := by
    rcases hkind with hheader | hrow
    · obtain ⟨z, rfl⟩ := head_of_isHeader hheader
      have hopens : Opens ('[' :: z) :=
        ⟨[], '[', z, rfl, by simp, by decide, by decide, by decide⟩
      exact calm_of_output ht hclean hopens rfl (Or.inr rfl)
    · obtain ⟨x, c, z, rfl, hne, hx, hc⟩ := head_of_isDataRow hrow
      have hopens : Opens (x ++ c :: z) := by
        rcases hc with rfl | rfl
        · exact ⟨x, 'N', z, rfl, hx, by decide, by decide, by decide⟩
        · exact ⟨x, 'T', z, rfl, hx, by decide, by decide, by decide⟩
      cases x with
      | nil => exact absurd rfl hne
      | cons d x =>
        exact calm_of_output ht hclean hopens rfl (Or.inl (hx d List.mem_cons_self))
  exact ⟨isLine_splitlines ht, hcalm, fun h => hmark (hwatchdog.isInfix.trans h),
    fun h => hmark (hwarning.isInfix.trans h), not_infix_of_contains hunmarked.2 hinfix⟩

theorem isLine_of_decide {t : Txt} (h : t.all (fun c => !isBoundary c) = true) : IsLine t := by
  intro c hc
  have hall := List.all_eq_true.mp h c hc
  simpa using hall

theorem fine_runningLine : Fine alnum runningLine :=
  ⟨isLine_of_decide (by decide), calm_runningLine, by decide, by decide,
    by decide⟩

theorem ne_nil_of_calm {t : Txt} (h : Calm isWord t) : t ≠ [] := by
  obtain ⟨x, c, z, rfl, _⟩ := h.opens
  simp

/-- A log of lines is read line by line. -/
theorem logText_eq_unlines {ls : List Txt} (h : ∀ t ∈ ls, IsLine t ∧ t ≠ []) :
    logText ls = unlines ls := by
  rw [logText_eq]
  unfold unlines
  rw [List.flatMap_congr]
  intro t ht
  have hr : '\r' ∉ t := by
    intro hmem
    have hb := (h t ht).1 _ hmem
    revert hb
    decide
  have hn : '\n' ∉ t := by
    intro hmem
    have hb := (h t ht).1 _ hmem
    revert hb
    decide
  exact logged_line (h t ht).2 hr hn

/-! ## The summary -/

theorem quiet_of_not_completed (isWord : Char → Bool) {ls : List Txt}
    (h : ∀ t ∈ ls, ¬ completedMark <:+: t) :
    ∀ b y : Txt, Quiet isWord completedPattern b (unlines ls) y := by
  have hbegins : BeginsWith isWord completedPattern completedMark := (beginsWith_lit _).cat _
  have hnewline : '\n' ∉ completedMark := by decide
  induction ls with
  | nil =>
    intro b y u w huw hw
    exact absurd (List.append_eq_nil_iff.mp huw.symm).2 hw
  | cons t ls ih =>
    intro b y
    have hline : ¬ completedMark <:+: t ++ ['\n'] := by
      intro hinfix
      rcases infix_of_newline hinfix hnewline with hinfix | hinfix
      · exact h t List.mem_cons_self hinfix
      · have hnil := List.infix_nil.mp hinfix
        revert hnil
        decide
    rw [unlines_cons]
    exact (hbegins.quiet_of_not_infix hline (Or.inr List.getLast?_concat) hnewline).append
      (ih (fun t' ht' => h t' (List.mem_cons_of_mem _ ht')) _ _)

/-- What the pattern takes of the summary of a sweep without failures. -/
def summaryText : Txt :=
  completedMark ++ ([' '] ++ ("19".toList ++ ("/".toList ++ ("19".toList ++
    (" shapes passed,".toList ++ ([' '] ++ ("0".toList ++ " failed".toList)))))))

theorem takes_summary {b v : Txt} : Takes isWord completedPattern b summaryText v
    [(1, "19".toList), (2, "19".toList), (3, "0".toList)] := by
  have hlit : ∀ (s : String) (b w : Txt), Takes isWord (lit s) b s.toList w [] :=
    fun s b w => takes_lit s
  have hspace : ∀ {w : Txt} {c : Char} (b : Txt), w.head? = some c → isSpace c = false →
      Takes isWord (star isSpace) b [' '] w [] :=
    fun b hw hc => takes_star (forall_of_all (by decide)) (stops hw hc)
  have hnumber : ∀ (i : Nat) {n w : Txt} {c : Char} (b : Txt), n ≠ [] →
      (∀ d ∈ n, isDecimal d = true) → w.head? = some c → isDecimal c = false →
      Takes isWord (group i (plus isDecimal)) b n w [(i, n)] :=
    fun i n w c b hne hn hw hc => (takes_plus hne hn (stops hw hc)).group i
  have h₁ : ∀ w : Txt, ("19".toList ++ w).head? = some '1' := fun w => head_append (by decide)
  have h₂ : ∀ w : Txt, ("/".toList ++ w).head? = some '/' := fun w => head_append (by decide)
  have h₃ : ∀ w : Txt, (" shapes passed,".toList ++ w).head? = some ' ' :=
    fun w => head_append (by decide)
  have h₄ : ∀ w : Txt, ("0".toList ++ w).head? = some '0' := fun w => head_append (by decide)
  have h₅ : ∀ w : Txt, (" failed".toList ++ w).head? = some ' ' :=
    fun w => head_append (by decide)
  exact (hlit "Completed:" _ _).piece <| (hspace _ (h₁ _) (by decide)).piece <|
    (hnumber 1 _ (by decide) (forall_of_all (by decide)) (h₂ _) (by decide)).piece <|
    (hlit "/" _ _).piece <|
    (hnumber 2 _ (by decide) (forall_of_all (by decide)) (h₃ _) (by decide)).piece <|
    (hlit " shapes passed," _ _).piece <| (hspace _ (h₄ _) (by decide)).piece <|
    (hnumber 3 _ (by decide) (forall_of_all (by decide)) (h₅ _) (by decide)).cat_cons
      (hlit " failed" _ _)

end Hipblaslt
end Monitored
end RocmTests

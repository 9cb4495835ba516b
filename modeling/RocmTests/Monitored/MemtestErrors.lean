import RocmTests.Monitored.MemtestLog
import RocmTests.Text.RegexWhole

/-!
# Error patterns in the memory test's log

The harness's own lines about a run without failures match no error pattern, and a
match that begins in the output of a sub-test ends before the word of the next
harness line.  So the log has an error only if some output, followed by the tag of
the harness, has one.
-/

namespace RocmTests
namespace Monitored
namespace Cudamemtest

open Text Text.Re Validation DmesgCategories
open Markers (digitValue isSpace)

variable {isWord : Char → Bool}

/-! ## What an error match looks like -/

/-- Every error pattern needs such a character. -/
def loud (c : Char) : Bool := c.toLower = 'o' || c.toLower = ':'

theorem loud_of_letters {s : String} {m : Txt} (h : Letters s m) {c : Char} (hc : c ∈ s.toList)
    (hloud : loud c = true) : ∃ x ∈ m, loud x = true := by
  have hlower : c.toLower = 'o' ∨ c.toLower = ':' := by
    unfold loud at hloud
    simpa using hloud
  have hne : c.toLower ≠ 'i' ∧ c.toLower ≠ 's' ∧ c.toLower ≠ 'k' := by
    rcases hlower with hl | hl <;> rw [hl] <;> decide
  obtain ⟨x, hx, heq⟩ := h.exists_toLower hc hne.1 hne.2.1 hne.2.2
  refine ⟨x, hx, ?_⟩
  unfold loud at *
  rw [heq]
  exact hloud

/-- What an error match takes: a word that needs a loud character, with at most one
character behind it, or the form with the colon. -/
inductive ErrorText (b : Txt) : Txt → Txt → Prop
  | word {m r v : Txt} (newline : '\n' ∉ m) (loud : ∃ x ∈ m, loud x = true)
      (short : r.length ≤ 1) : ErrorText b (m ++ r) v
  | colon {a s e t v : Txt} {c : Char}
      (start : a = [] ∧ atLineStart ⟨b, s ++ (e ++ (t ++ ([c] ++ v)))⟩ = true ∨ Letters "]:" a)
      (space : ∀ x ∈ s, isSpace x = true) (word : Letters "ERROR:" e)
      (gap : t ≠ [] ∧ ∀ x ∈ t, isSpace x = true) (text : isSpace c = false) :
      ErrorText b (a ++ (s ++ (e ++ (t ++ [c])))) v

theorem errorText_of_matches {b m v : Txt} (h : Matches isWord errPat b m v) :
    ErrorText b m v := by
  unfold errPat at h
  rw [matches_alts] at h
  obtain ⟨r, hr, h⟩ := h
  simp only [List.mem_cons, List.not_mem_nil, or_false] at hr
  rcases hr with rfl | rfl | rfl | rfl
  · obtain ⟨m₁, m₂, rfl, h₁, h⟩ := matches_cat_cons.mp h
    rw [matches_ilit] at h₁
    obtain ⟨c, rfl, _⟩ := matches_cls.mp h
    have hword : Letters "[ERROR]" m₁ := h₁
    exact .word (hword.not_mem (forall_of_all (by decide)))
      (loud_of_letters hword (c := 'O') (by decide) (by decide)) (by simp)
  · obtain ⟨a, m₂, rfl, ha, h⟩ := matches_cat_cons.mp h
    obtain ⟨s, m₃, rfl, hs, h⟩ := matches_cat_cons.mp h
    obtain ⟨e, m₄, rfl, he, h⟩ := matches_cat_cons.mp h
    obtain ⟨t, m₅, rfl, ht, h⟩ := matches_cat_cons.mp h
    obtain ⟨c, rfl, hc⟩ := matches_cls.mp h
    have hc' : isSpace c = false := by simpa using hc
    have ht' := matches_plus.mp ht
    have hstart : a = [] ∧ atLineStart ⟨b, s ++ (e ++ (t ++ ([c] ++ v)))⟩ = true ∨
        Letters "]:" a := by
      obtain ⟨r, hr, ha⟩ := matches_alts.mp ha
      simp only [List.mem_cons, List.not_mem_nil, or_false] at hr
      rcases hr with rfl | rfl
      · obtain ⟨rfl, hline⟩ := matches_lineStart.mp ha
        simp only [List.append_assoc] at hline
        exact Or.inl ⟨rfl, hline⟩
      · exact Or.inr (matches_ilit.mp ha)
    exact .colon hstart (matches_star.mp hs) (matches_ilit.mp he) ht' hc'
  · obtain ⟨m₁, m₂, rfl, h₁, h⟩ := matches_cat_cons.mp h
    obtain ⟨m₃, m₄, rfl, h₃, h⟩ := matches_cat_cons.mp h
    obtain ⟨rfl, _⟩ := matches_wordBoundary.mp h₁
    obtain ⟨rfl, _⟩ := matches_wordBoundary.mp h
    have hword : Letters "Memory access fault" m₃ := matches_ilit.mp h₃
    exact .word (m := m₃) (r := []) (hword.not_mem (forall_of_all (by decide)))
      (loud_of_letters hword (c := 'o') (by decide) (by decide)) (by simp)
  · obtain ⟨m₁, m₂, rfl, h₁, h⟩ := matches_cat_cons.mp h
    obtain ⟨rfl, _⟩ := matches_wordBoundary.mp h₁
    have hword : Letters "HIP error:" m₂ := matches_ilit.mp h
    have hnil : [] ++ m₂ = m₂ ++ [] := by simp
    rw [hnil]
    exact .word (hword.not_mem (forall_of_all (by decide)))
      (loud_of_letters hword (c := 'o') (by decide) (by decide)) (by simp)

/-! ## Lines without an error -/

def Hush (t : Txt) : Prop := ∀ c ∈ t, loud c = false

theorem Hush.append {a b : Txt} (ha : Hush a) (hb : Hush b) : Hush (a ++ b) := by
  intro c hc
  rcases List.mem_append.mp hc with hc | hc
  · exact ha c hc
  · exact hb c hc

/-- No error match begins in a line without loud characters whose first word does
not begin like the word `ERROR`. -/
theorem quiet_of_hush {b y x z : Txt} {c : Char} (hspace : ∀ d ∈ x, isSpace d = true)
    (hhead : z.head? = some c) (hc : isSpace c = false) (hE : sameLetter 'E' c = false)
    (hhush : Hush (x ++ z)) (hline : '\n' ∉ x ++ z) :
    Quiet isWord errPat b (x ++ z ++ ['\n']) y := by
  intro u w huw hw
  rw [matchAt_eq_none_iff]
  intro m v hmv hm
  have hlast : w.getLast? = some '\n' := by
    have hall : (x ++ z ++ ['\n']).getLast? = some '\n' := List.getLast?_concat
    rw [huw, List.getLast?_append_of_ne_nil u hw] at hall
    exact hall
  have hnone : ∀ m₁ v₁ : Txt, w ++ y = m₁ ++ v₁ → '\n' ∉ m₁ → ¬ ∃ d ∈ m₁, loud d = true := by
    intro m₁ v₁ hm₁ hnl hloud
    obtain ⟨d, hd, hdloud⟩ := hloud
    obtain ⟨t, hwt, _, _⟩ := inside_of_not_mem hm₁ hlast hnl
    have hmem : d ∈ x ++ z ++ ['\n'] := by
      rw [huw, hwt]
      exact List.mem_append_right u (List.mem_append_left t hd)
    have hall : Hush (x ++ z ++ ['\n']) := hhush.append (forall_of_all (by decide))
    rw [hall d hmem] at hdloud
    cases hdloud
  cases errorText_of_matches hm with
  | word newline loud short =>
    rw [List.append_assoc] at hmv
    exact hnone _ _ hmv newline loud
  | @colon a s e t _ d start space word gap text =>
    rcases start with ⟨rfl, hstart⟩ | ha
    · -- the match begins where the line begins, so the word `ERROR` is its first
      have hu := begin_of_atLineStart huw hw hline hstart
      rw [hu, List.nil_append] at huw
      obtain ⟨d', hd', hsame⟩ := word.head (c := 'E') (by decide)
      rw [← huw] at hmv
      simp only [List.append_assoc, List.nil_append] at hmv
      obtain ⟨_, hrest⟩ := run_unique hmv hspace space (stops (head_append hhead) hc)
        (stops (head_append hd') (isSpace_of_sameLetter hsame (by decide)))
      have heq := congrArg List.head? hrest
      rw [head_append hhead, head_append hd', Option.some.injEq] at heq
      rw [heq, hsame] at hE
      cases hE
    · rw [List.append_assoc] at hmv
      exact hnone a _ hmv (ha.not_mem (forall_of_all (by decide)))
        (loud_of_letters ha (c := ':') (by decide) (by decide))

/-! ## The harness's lines about a run without failures -/

theorem hush_of_isDigit {c : Char} (h : c.isDigit = true) : loud c = false := by
  obtain ⟨hlow, hhigh⟩ := toNat_of_isDigit h
  have hall : ∀ n < 58, 48 ≤ n → loud (Char.ofNat n) = false := by decide
  have hc := hall c.toNat (by omega) hlow
  rw [Char.ofNat_toNat] at hc
  exact hc

theorem hush_showNat (n : Nat) : Hush (showNat n) :=
  fun _ hc => hush_of_isDigit (isDigit_of_mem_showNat hc)

theorem hush_showInt (n : Int) : Hush (showInt n) := by
  cases n with
  | ofNat n => exact hush_showNat n
  | negSucc n =>
    have hminus : Hush ['-'] := forall_of_all (by decide)
    exact hminus.append (hush_showNat (n + 1))

theorem hush_showTenths (q : ℚ) : Hush (showTenths q) := by
  have hsign : Hush (if q < 0 then ['-'] else []) := by
    split_ifs
    · exact forall_of_all (by decide)
    · exact forall_of_all (by decide)
  have hdot : Hush ['.'] := forall_of_all (by decide)
  exact (hsign.append (hush_showNat _)).append (hdot.append (hush_showNat _))

/-- The lines that a run without failures writes. -/
def Entry.isProgress : Entry → Bool
  | .finished _ _ _ => true
  | .coverage _ _ _ => true
  | _ => false

theorem hush_body {l : Entry} (h : l.isProgress = true) : Hush l.body := by
  cases l with
  | finished n d rc =>
    have h₁ : Hush " enable_test ".toList := forall_of_all (by decide)
    have h₂ : Hush " finished in ".toList := forall_of_all (by decide)
    have h₃ : Hush "s (rc=".toList := forall_of_all (by decide)
    have h₄ : Hush [')'] := forall_of_all (by decide)
    exact (((((h₁.append (hush_showNat n)).append h₂).append (hush_showTenths d)).append
      h₃).append (hush_showInt rc)).append h₄
  | coverage ran total rc =>
    have h₁ : Hush " Ran ".toList := forall_of_all (by decide)
    have h₂ : Hush ['/'] := forall_of_all (by decide)
    have h₃ : Hush " sub-test(s), first_fail_rc=".toList := forall_of_all (by decide)
    exact (((h₁.append (hush_showNat ran)).append (h₂.append (hush_showNat total))).append
      h₃).append (hush_showInt rc)
  | _ => cases h

theorem errPat_quiet_line {l : Entry} {b y : Txt} (h : l.isProgress = true) :
    Quiet isWord errPat b (logged l.text) y := by
  have hout : l.isOutput = false := by
    cases l with
    | output t => cases h
    | _ => rfl
  have hmark : mark.head? = some '[' := by decide
  have hmarkHush : Hush mark := forall_of_all (by decide)
  have hmarkLine : '\n' ∉ mark := by decide
  have hline : '\n' ∉ [' ', ' '] ++ (mark ++ l.body) := by
    rw [List.mem_append, List.mem_append, not_or, not_or]
    refine ⟨by decide, hmarkLine, ?_⟩
    intro hmem
    have hplain := plain_body l _ hmem
    revert hplain
    decide
  have hspaces : Hush [' ', ' '] := forall_of_all (by decide)
  have htext : logged l.text = [' ', ' '] ++ (mark ++ l.body) ++ ['\n'] := by
    rw [logged_harness hout]
    simp only [List.append_assoc]
  rw [htext]
  exact quiet_of_hush (forall_of_all (by decide)) (head_append hmark) (by decide) (by decide)
    (hspaces.append (hmarkHush.append (hush_body h))) hline

/-! ## From the output into the next line -/

theorem tag_cons : tag = [' ', ' '] ++ ('[' :: mark.tail) := by decide

theorem isSpace_bracket : isSpace '[' = false := by decide

/-- Behind the white space of a match comes the word `ERROR`, not a harness line. -/
theorem not_tag_of_word {s e r y : Txt} (hs : ∀ x ∈ s, isSpace x = true) (he : Letters "ERROR:" e) :
    tag ++ y ≠ s ++ (e ++ r) := by
  intro h
  obtain ⟨d, hd, hsame⟩ := he.head (c := 'E') (by decide)
  rw [tag_cons, List.append_assoc] at h
  obtain ⟨_, hrest⟩ := run_unique h (forall_of_all (by decide)) hs (stops rfl isSpace_bracket)
    (stops (head_append hd) (isSpace_of_sameLetter hsame (by decide)))
  have heq := congrArg List.head? hrest
  rw [head_append hd] at heq
  rw [← Option.some.inj heq] at hsame
  revert hsame
  decide

/-- Only white space and one more character can be behind the last gap of a match. -/
theorem short_of_gap {t t' m v y : Txt} {c : Char} (ht : ∀ x ∈ t, isSpace x = true)
    (h : t ++ [c] = t' ++ m) (hm : tag ++ y = m ++ v) : m.length ≤ 3 := by
  by_contra hlong
  have htake := take_eq_of_append_eq (n := 4) hm (by decide) (by omega)
  have hfour : tag.take 4 = [' ', ' ', '[', 'c'] := by decide
  have hsplit : m = ' ' :: ' ' :: '[' :: 'c' :: m.drop 4 := by
    have htd := List.take_append_drop 4 m
    rw [← htake, hfour] at htd
    exact htd.symm
  have hdrop := congrArg List.dropLast h
  rw [List.dropLast_concat, hsplit, List.dropLast_append_of_ne_nil (List.cons_ne_nil _ _)] at hdrop
  have hmem : '[' ∈ t := by
    rw [hdrop]
    simp [List.dropLast]
  have hspace := ht _ hmem
  rw [isSpace_bracket] at hspace
  cases hspace

/-- A match that goes on into a harness line ends before its word. -/
theorem short_of_crossing {b w m v y : Txt} (h : ErrorText b (w ++ m) v)
    (hw : w.getLast? = some '\n') (hm : tag ++ y = m ++ v) : m.length ≤ 3 := by
  generalize hx : w ++ m = x at h
  cases h with
  | @word m₀ r _ newline loud short =>
    obtain ⟨t, _, hr, _⟩ := inside_of_not_mem hx hw newline
    rw [hr, List.length_append] at short
    omega
  | @colon a s e t _ c start space word gap text =>
    have ha : '\n' ∉ a := by
      rcases start with ⟨rfl, _⟩ | ha
      · exact List.not_mem_nil
      · exact ha.not_mem (forall_of_all (by decide))
    obtain ⟨w₁, _, hrest, hw₁⟩ := inside_of_not_mem hx hw ha
    rcases List.append_eq_append_iff.mp hrest with ⟨w₂, hw₂, hrest₂⟩ | ⟨s', hs', hms⟩
    · -- the output ends behind the first gap
      have hnil : w₂ = [] → m.length ≤ 3 := by
        intro hnil
        rw [hnil, List.nil_append] at hrest₂
        rw [← hrest₂] at hm
        simp only [List.append_assoc] at hm
        exact absurd hm (not_tag_of_word (s := []) (by simp) word)
      by_cases hne : w₂ = []
      · exact hnil hne
      · rw [hw₂, List.getLast?_append_of_ne_nil s hne] at hw₁
        obtain ⟨t', _, hgap, _⟩ :=
          inside_of_not_mem hrest₂.symm hw₁ (word.not_mem (forall_of_all (by decide)))
        exact short_of_gap gap.2 hgap hm
    · -- the output ends in the first gap
      rw [hms] at hm
      simp only [List.append_assoc] at hm
      have hspace : ∀ x ∈ s', isSpace x = true := by
        intro x hx
        apply space
        rw [hs']
        exact List.mem_append_right w₁ hx
      exact absurd hm (not_tag_of_word hspace word)

/-- What stands before a chunk of the log: nothing, or a line end. -/
def Fresh (b : Txt) : Prop := b = [] ∨ b.head? = some '\n'

variable {alnum : Char → Bool}

theorem Fresh.leftAlike {b : Txt} (h : Fresh b) : LeftAlike (isWordChar alnum) b [] := by
  rcases h with rfl | h
  · exact ⟨rfl, rfl⟩
  · cases b with
    | nil => exact ⟨rfl, rfl⟩
    | cons c b =>
      rw [List.head?_cons, Option.some.injEq] at h
      have hword : isWordChar alnum '\n' = false := by
        unfold isWordChar
        have hascii : (127 < ('\n' : Char).toNat) = False := by decide
        simp only [hascii, decide_false, Bool.false_and, Bool.or_false]
        decide
      rw [h]
      refine ⟨?_, rfl⟩
      rw [List.head?_cons, Option.any_some, hword]
      rfl

theorem fresh_reverse {x : Txt} (h : EndsLine x) {b : Txt} (hb : Fresh b) :
    Fresh (x.reverse ++ b) := by
  rcases h with rfl | h
  · exact hb
  · rw [← List.head?_reverse] at h
    exact Or.inr (head_append h)

/-- No error match begins in an output that shows none before the harness's tag. -/
theorem errPat_quiet_output {output b y : Txt} (hb : Fresh b)
    (h : found alnum errPat (logged output ++ tag) = false) :
    Quiet (isWordChar alnum) errPat b (logged output) (tag ++ y) := by
  intro u w huw hw
  rw [matchAt_eq_none_iff]
  intro m v hmv hm
  have hlast : w.getLast? = some '\n' := by
    rcases endsLine_logged output with hnil | hlast
    · rw [huw] at hnil
      exact absurd (List.append_eq_nil_iff.mp hnil).2 hw
    · rw [huw, List.getLast?_append_of_ne_nil u hw] at hlast
      exact hlast
  -- the match is also one in the output with the tag
  have hinside : ∃ t, w ++ tag = m ++ t ∧ t.head? = v.head? := by
    rcases List.append_eq_append_iff.mp hmv with ⟨m', hmw, htag⟩ | ⟨t, hwm, hv⟩
    · rw [hmw] at hm
      have hshort := short_of_crossing (errorText_of_matches hm) hlast htag
      have hlen : tag.length = 15 := by decide
      rcases List.append_eq_append_iff.mp htag with ⟨t, hm', _⟩ | ⟨t, htag', hv⟩
      · rw [hm', List.length_append] at hshort
        omega
      · have hne : t ≠ [] := by
          rintro rfl
          rw [htag', List.append_nil] at hlen
          omega
        refine ⟨t, by rw [hmw, htag', List.append_assoc], ?_⟩
        rw [hv]
        cases t with
        | nil => exact absurd rfl hne
        | cons c t => rfl
    · refine ⟨t ++ tag, by rw [hwm, List.append_assoc], ?_⟩
      rw [hv, tag_cons]
      cases t <;> rfl
  obtain ⟨t, ht, hhead⟩ := hinside
  have hleft : LeftAlike (isWordChar alnum) (u.reverse ++ b) u.reverse := by
    have halike : LeftAlike (isWordChar alnum) (u.reverse ++ b) (u.reverse ++ []) :=
      hb.leftAlike.append u.reverse
    rw [List.append_nil] at halike
    exact halike
  have hright : RightAlike (isWordChar alnum) v t := by
    unfold RightAlike
    rw [hhead]
  have hsearch : found alnum errPat (logged output ++ tag) = true := by
    unfold found
    rw [search_iff_matches]
    exact ⟨u, m, t, by rw [huw, List.append_assoc, ht], hm.congr hleft hright⟩
  rw [h] at hsearch
  cases hsearch

/-! ## The log of a run without failures -/

/-- Output without an error pattern, each followed by the line about its end. -/
inductive Progress (alnum : Char → Bool) : List Entry → Prop
  | start : Progress alnum []
  | test {entries : List Entry} {output : Txt} {testNum : Nat} {iterDur : ℚ} {rc : Int}
      (before : Progress alnum entries)
      (silent : found alnum errPat (logged output ++ tag) = false) :
      Progress alnum (entries ++ [.output output, .finished testNum iterDur rc])

theorem endsLine_flatMap (entries : List Entry) :
    EndsLine (entries.flatMap fun l => logged l.text) := by
  induction entries with
  | nil => exact Or.inl rfl
  | cons l entries ih =>
    rw [List.flatMap_cons]
    rcases ih with hnil | hlast
    · rw [hnil, List.append_nil]
      exact endsLine_logged l.text
    · right
      rw [List.getLast?_append, hlast]
      rfl

theorem errPat_quiet_progress {entries : List Entry} (h : Progress alnum entries) (y : Txt) :
    Quiet (isWordChar alnum) errPat [] (entries.flatMap fun l => logged l.text) y := by
  induction h generalizing y with
  | start =>
    intro u w huw hw
    exact absurd (List.append_eq_nil_iff.mp huw.symm).2 hw
  | @test entries output n d rc _ silent ih =>
    have hfresh : Fresh ((entries.flatMap fun l => logged l.text).reverse ++ []) :=
      fresh_reverse (endsLine_flatMap entries) (Or.inl rfl)
    have htag : ∃ z, logged (Entry.finished n d rc).text = tag ++ z := by
      have hmark : tag = [' ', ' '] ++ mark := by decide
      refine ⟨(Entry.finished n d rc).body ++ ['\n'], ?_⟩
      rw [logged_harness rfl, hmark, List.append_assoc]
    have hline : Quiet (isWordChar alnum) errPat
        ((logged output).reverse ++ ((entries.flatMap fun l => logged l.text).reverse ++ []))
        (logged (Entry.finished n d rc).text) y := errPat_quiet_line rfl
    obtain ⟨z, hz⟩ := htag
    have hchunk := errPat_quiet_output hfresh silent (y := z ++ y)
    rw [← List.append_assoc, ← hz] at hchunk
    rw [List.flatMap_append, List.flatMap_cons, List.flatMap_cons, List.flatMap_nil,
      List.append_nil]
    exact (ih _).append (hchunk.append hline)

/-- The log of a run without failures has no error. -/
theorem errPat_not_found {entries : List Entry} (h : Progress alnum entries) (ran total : Nat)
    (rc : Int) :
    findAll (isWordChar alnum) errPat (log (entries ++ [.coverage ran total rc])) = [] := by
  have hline : Quiet (isWordChar alnum) errPat
      ((entries.flatMap fun l => logged l.text).reverse ++ [])
      (logged (Entry.coverage ran total rc).text) [] := errPat_quiet_line rfl
  have hquiet := ((errPat_quiet_progress h _).append hline)
  have hnone := findAllFrom_quiet hquiet
  rw [List.append_nil] at hnone
  unfold findAll
  rw [log_eq, List.flatMap_append, List.flatMap_cons, List.flatMap_nil, List.append_nil, hnone]
  rfl

end Cudamemtest
end Monitored
end RocmTests

import RocmTests.Apex.ResultParser

/-!
# Reading the header line of a sub-test

Whatever stands behind it, the header of a sub-test is read as its header: the name is
found, the rest of the line is found up to its surrounding space, and the line is none
of the other lines that the parser knows.
-/

namespace RocmTests
namespace Apex

open Text Text.Re
open Markers (isSpace strip)
open Monitored.Cudamemtest (isDecimal)

variable {b v : Txt}

/-! ## Surrounding space -/

theorem rdropWhile_append (p : Char → Bool) (a c : Txt) : (a ++ c).rdropWhile p =
    if c.rdropWhile p = [] then a.rdropWhile p else a ++ c.rdropWhile p := by
  unfold List.rdropWhile
  rw [List.reverse_append, List.dropWhile_append]
  by_cases h : List.dropWhile p c.reverse = []
  · rw [h]
    simp
  · rw [if_neg (fun hempty => h (List.isEmpty_iff.mp hempty)),
      if_neg (fun hempty => h (List.reverse_eq_nil_iff.mp hempty)), List.reverse_append,
      List.reverse_reverse]

/-- A text that neither begins nor ends with space keeps what follows up to the space at
its end. -/
theorem strip_append {a : Txt} {c d : Char} (hfirst : a.head? = some c) (hc : isSpace c = false)
    (hlast : a.getLast? = some d) (hd : isSpace d = false) (y : Txt) :
    ∃ s, (∀ x ∈ s, isSpace x = true) ∧ strip (a ++ y) = a ++ (s ++ strip y) := by
  have hdrop : ∀ z : Txt, (a ++ z).dropWhile isSpace = a ++ z := by
    intro z
    cases a with
    | nil => cases hfirst
    | cons e a =>
      rw [List.head?_cons, Option.some.injEq] at hfirst
      rw [List.cons_append, List.dropWhile_cons_of_neg]
      rw [hfirst, hc]
      exact Bool.false_ne_true
  have hkeep : a.rdropWhile isSpace = a := by
    rw [List.rdropWhile_eq_self_iff]
    intro hne hspace
    rw [List.getLast?_eq_some_getLast hne, Option.some.injEq] at hlast
    rw [hlast, hd] at hspace
    exact Bool.false_ne_true hspace
  have hsplit : y = y.takeWhile isSpace ++ y.dropWhile isSpace :=
    (List.takeWhile_append_dropWhile).symm
  have hall : ∀ x ∈ y.takeWhile isSpace, isSpace x = true :=
    fun x hx => List.mem_takeWhile_imp hx
  rw [strip_eq, hdrop, strip_eq y]
  by_cases hblank : (y.dropWhile isSpace).rdropWhile isSpace = []
  · refine ⟨[], by simp, ?_⟩
    have hy : y.rdropWhile isSpace = [] := by
      rw [hsplit, rdropWhile_append, if_pos hblank, List.rdropWhile_eq_nil_iff]
      exact hall
    rw [rdropWhile_append, if_pos hy, hkeep, hblank, List.append_nil, List.append_nil]
  · refine ⟨y.takeWhile isSpace, hall, ?_⟩
    have hy : y.rdropWhile isSpace =
        y.takeWhile isSpace ++ (y.dropWhile isSpace).rdropWhile isSpace := by
      conv_lhs => rw [hsplit, rdropWhile_append, if_neg hblank]
    rw [rdropWhile_append, hy, if_neg]
    intro hnil
    exact hblank (List.append_eq_nil_iff.mp hnil).2

theorem not_isSpace_head_strip {t : Txt} {c : Char} (h : (strip t).head? = some c) :
    isSpace c = false := by
  rw [strip_eq] at h
  have hpre : (t.dropWhile isSpace).rdropWhile isSpace <+: t.dropWhile isSpace :=
    List.rdropWhile_prefix isSpace _
  obtain ⟨q, hq⟩ := hpre
  have hhead : (t.dropWhile isSpace).head? = some c := by
    rw [← hq]
    exact head_append h
  have hstop := List.head?_dropWhile_not isSpace t
  rw [hhead] at hstop
  exact hstop

/-! ## The name -/

theorem isNameChar_iff {c : Char} : isNameChar c = true ↔ isSpace c = false ∧ c ≠ '(' := by
  unfold isNameChar
  simp

/-- What follows the bracket is taken up to the last dot and then to the end. -/
theorem takes_qualname {q : Txt} (hdot : '.' ∈ q) (hclose : ')' ∉ q) :
    Takes noWord (seq (star notClose) (cat [lit ".", star notClose, lit ")"])) b
      (q ++ ")".toList) v [] := by
  obtain ⟨r₂, r₁, hr, hlast⟩ := List.eq_append_cons_of_mem (List.mem_reverse.mpr hdot)
  have hq : q = r₁.reverse ++ ([('.' : Char)] ++ r₂.reverse) := by
    have hrev := congrArg List.reverse hr
    rw [List.reverse_reverse] at hrev
    rw [hrev]
    simp
  have hnot : '.' ∉ r₂.reverse := fun hmem => hlast (List.mem_reverse.mp hmem)
  generalize r₁.reverse = q₁ at hq
  generalize r₂.reverse = q₂ at hq hnot
  have hchars : ∀ c ∈ q, notClose c = true := by
    intro c hc
    exact decide_eq_true fun heq => hclose (heq ▸ hc)
  subst hq
  have hq₁ : ∀ c ∈ q₁, notClose c = true := fun c hc => hchars c (by simp [hc])
  have hq₂ : ∀ c ∈ q₂, notClose c = true := fun c hc => hchars c (by simp [hc])
  have htail : ∀ b, Takes noWord (cat [lit ".", star notClose, lit ")"]) b
      (['.'] ++ (q₂ ++ ")".toList)) v [] := by
    intro b
    apply Takes.piece_plain (takes_lit ".")
    exact (takes_star hq₂ (stops rfl (by decide))).cat_cons (takes_lit ")")
  rw [List.append_assoc, List.append_assoc]
  refine takes_star_seq htail ?_ hq₁ b
  intro p t b' hsplit hne hp
  rw [matchAt_eq_none_iff]
  intro m w ht hm
  obtain ⟨m₁, m₂, rfl, hm₁, _⟩ := matches_cat_cons.mp hm
  rw [matches_lit.mp hm₁] at ht
  cases p with
  | nil => exact hne rfl
  | cons c p =>
    -- what is given up begins behind the last dot
    have hrest : q₂ ++ (")".toList ++ v) = p ++ t := by
      have hcons := hsplit
      simp only [List.append_assoc, List.cons_append, List.nil_append, List.cons.injEq] at hcons
      exact hcons.2
    have hp' : ∀ c ∈ p, notClose c = true := fun c hc => hp c (List.mem_cons_of_mem _ hc)
    rcases List.append_eq_append_iff.mp hrest with ⟨u, hu, hv⟩ | ⟨u, hu, hv⟩
    · -- the repetition would take the closing bracket, or stop right before it
      cases u with
      | nil =>
        rw [ht] at hv
        exact absurd (List.cons.inj hv).1 (by decide)
      | cons d u =>
        have hd : d = ')' := (List.cons.inj hv).1.symm
        have hmem : d ∈ p := by simp [hu]
        rw [hd] at hmem
        exact absurd (hp' _ hmem) (by decide)
    · cases u with
      | nil =>
        rw [ht] at hv
        exact absurd (List.cons.inj hv).1 (by decide)
      | cons d u =>
        rw [ht] at hv
        have hd : d = '.' := (List.cons.inj hv).1.symm
        exact hnot (by rw [hu, ← hd]; simp)

theorem takes_testId (i : TestId) : Takes noWord testId b
    (i.method ++ ([' '] ++ ("(".toList ++ (i.qualname ++ ")".toList)))) v [] := by
  have hmethod : Takes noWord (plus isNameChar) b i.method
      ([' '] ++ ("(".toList ++ (i.qualname ++ ")".toList) ++ v)) [] :=
    takes_plus i.method_ne (fun c hc => (i.method_chars c hc).1) (stops rfl (by decide))
  have hspace : Takes noWord (plus isSpace) (i.method.reverse ++ b) [' ']
      ("(".toList ++ (i.qualname ++ ")".toList ++ v)) [] :=
    takes_plus (by simp) (by simp; decide) (stops rfl (by decide))
  unfold testId
  apply Takes.piece hmethod
  apply Takes.piece hspace
  exact Takes.cat_cons (takes_lit "(") (takes_qualname i.qualname_dot i.qualname_close)

theorem takes_testParam {p : Txt} (hne : p ≠ []) (hp : ']' ∉ p) :
    Takes noWord testParam b ([' '] ++ ("[".toList ++ (p ++ "]".toList))) v [] := by
  have hspace : Takes noWord (plus isSpace) b [' '] ("[".toList ++ (p ++ "]".toList ++ v)) [] :=
    takes_plus (by simp) (by simp; decide) (stops rfl (by decide))
  have hchars : ∀ c ∈ p, decide (c ≠ ']') = true := by
    intro c hc
    exact decide_eq_true fun heq => hp (heq ▸ hc)
  unfold testParam
  apply Takes.piece hspace
  apply Takes.piece_plain (takes_lit "[")
  exact (takes_plus hne hchars (stops rfl (by decide))).cat_cons (takes_lit "]")

/-- The dots behind the name are no parameter. -/
theorem testParam_dots : matchAt noWord testParam ⟨b, ' ' :: '.' :: v⟩ = none := by
  rw [matchAt_eq_none_iff]
  intro m w hmw hm
  obtain ⟨s, m₂, rfl, hs, hm⟩ := matches_cat_cons.mp hm
  obtain ⟨o, m₃, rfl, ho, _⟩ := matches_cat_cons.mp hm
  rw [matches_lit.mp ho] at hmw
  obtain ⟨hne, hspace⟩ := matches_plus.mp hs
  cases s with
  | nil => exact hne rfl
  | cons c s =>
    cases s with
    | nil => exact absurd (List.cons.inj (List.cons.inj hmw).2).1 (by decide)
    | cons d s =>
      have hd : '.' = d := (List.cons.inj (List.cons.inj hmw).2).1
      have hsp := hspace d (by simp)
      rw [← hd] at hsp
      exact absurd hsp (by decide)

theorem takes_name (i : TestId) {n : Nat} (hn : i.params.length ≤ n) :
    Takes noWord (cat [testId, many n testParam]) b i.text (' ' :: '.' :: v) [] := by
  have hparams : Takes noWord (many n testParam)
      ((i.method ++ ([' '] ++ ("(".toList ++ (i.qualname ++ ")".toList)))).reverse ++ b)
      (i.params.map fun p => [' '] ++ ("[".toList ++ (p ++ "]".toList))).flatten
      (' ' :: '.' :: v) [] := by
    apply takes_many
    · intro x hx b v
      obtain ⟨p, hp, rfl⟩ := List.mem_map.mp hx
      exact takes_testParam (i.params_ok p hp).1 (i.params_ok p hp).2
    · exact fun _ => testParam_dots
    · rw [List.length_map]
      exact hn
  exact (takes_testId i).cat_cons hparams

/-! ## The line -/

/-- A header line with `s` between the dots and the rest. -/
def headerText (i : TestId) (s r : Txt) : Txt := i.text ++ ([' '] ++ ("...".toList ++ (s ++ r)))

theorem params_length (i : TestId) : i.params.length ≤ i.text.length := by
  have hflatten : ∀ ps : List Txt,
      ps.length ≤ ((ps.map fun p => [' '] ++
        ("[".toList ++ (p ++ "]".toList))).flatten).length := by
    intro ps
    induction ps with
    | nil => exact Nat.zero_le _
    | cons p ps ih =>
      rw [List.map_cons, List.flatten_cons, List.length_append, List.length_cons]
      simp only [List.length_append, List.length_cons, List.length_nil]
      omega
  have hparams := hflatten i.params
  show _ ≤ (_ ++ _ : Txt).length
  rw [List.length_append]
  omega

theorem startLine_headerText (i : TestId) {s r : Txt} (hs : ∀ c ∈ s, isSpace c = true)
    (hr : ∀ c, r.head? = some c → isSpace c = false) (hline : IsLine r) :
    ∃ m, startLine (headerText i s r) = some m ∧ m.group 1 = i.text ∧ m.group 2 = r := by
  have hn : i.params.length ≤ (headerText i s r).length := by
    have hparams := params_length i
    unfold headerText
    rw [List.length_append]
    omega
  have hdots : ∀ c ∈ r, decide (c ≠ '\n') = true := by
    intro c hc
    apply decide_eq_true
    rintro rfl
    exact absurd (hline _ hc) (by decide)
  have hname : Takes noWord (group 1 (cat [testId, many (headerText i s r).length testParam])) []
      i.text ([' '] ++ ("...".toList ++ (s ++ r) ++ [])) [(1, i.text)] := by
    rw [List.append_nil]
    exact (takes_name i hn).group 1
  have hrest : Takes noWord (cat [plus isSpace, lit "...", star isSpace, group 2 dots])
      (i.text.reverse ++ []) ([' '] ++ ("...".toList ++ (s ++ r))) [] [(2, r)] := by
    have hspace : Takes noWord (plus isSpace) (i.text.reverse ++ []) [' ']
        ("...".toList ++ ((s ++ r) ++ [])) [] :=
      takes_plus (by simp) (by simp; decide) (stops rfl (by decide))
    apply Takes.piece_plain hspace
    apply Takes.piece_plain (takes_lit "...")
    have hstar : ∀ b, Takes noWord (star isSpace) b s (r ++ []) [] := by
      intro b
      rw [List.append_nil]
      exact takes_star hs hr
    apply (hstar _).cat_plain
    exact (takes_star hdots (by simp)).group 2
  have htakes : Takes noWord (startPattern (headerText i s r).length) [] (headerText i s r) []
      [(1, i.text), (2, r)] := Takes.piece hname hrest
  exact ⟨_, matchToEnd_of_takes htakes, rfl, rfl⟩

/-- The first word of a header line is its method. -/
theorem headerText_eq (i : TestId) (s r : Txt) :
    ∃ z, headerText i s r = i.method ++ ' ' :: '(' :: z := by
  refine ⟨i.qualname ++ ")".toList ++
    (i.params.map fun p => [' '] ++ ("[".toList ++ (p ++ "]".toList))).flatten ++
    ([' '] ++ ("...".toList ++ (s ++ r))), ?_⟩
  unfold headerText TestId.text idText
  simp only [List.append_assoc]
  rfl

/-- What `strip` makes of a header line. -/
theorem strip_startLine (t : SubTest) (rest : Txt) :
    ∃ s, (∀ c ∈ s, isSpace c = true) ∧
    strip (t.startLine rest) = headerText t.id s (strip rest) := by
  obtain ⟨c, m, hmethod⟩ := List.exists_cons_of_ne_nil t.id.method_ne
  have hc : isNameChar c = true := (t.id.method_chars c (by rw [hmethod]; simp)).1
  have hfirst : (t.name ++ " ...".toList).head? = some c := by
    have hname : t.name.head? = some c := by
      show (t.id.method ++ _ ++ _ : Txt).head? = some c
      rw [hmethod]
      rfl
    exact head_append hname
  have hlast : (t.name ++ " ...".toList).getLast? = some '.' := by
    have hdots : " ...".toList = " ..".toList ++ ['.'] := by decide
    rw [hdots, ← List.append_assoc, List.getLast?_concat]
  obtain ⟨s, hs, hstrip⟩ := strip_append hfirst (isNameChar_iff.mp hc).1 hlast (by decide)
    (' ' :: rest)
  have hspace : strip (' ' :: rest) = strip rest := by
    rw [strip_eq, strip_eq, List.dropWhile_cons_of_pos (by decide)]
  refine ⟨s, hs, ?_⟩
  rw [hspace] at hstrip
  have hline : t.startLine rest = (t.name ++ " ...".toList) ++ ' ' :: rest := by
    have hdots : " ... ".toList = " ...".toList ++ [' '] := by decide
    unfold SubTest.startLine
    rw [hdots]
    simp only [List.append_assoc, List.singleton_append]
  rw [hline, hstrip, List.append_assoc]
  rfl

/-- Text without space before a word and a space is the word's beginning. -/
theorem isPrefix_method {w z : Txt} (i : TestId) (hw : w <+: i.method ++ ' ' :: z)
    (hspace : ' ' ∉ w) : w <+: i.method := by
  obtain ⟨q, hq⟩ := hw
  rcases List.append_eq_append_iff.mp hq with ⟨u, hu, _⟩ | ⟨u, hu, hrest⟩
  · exact ⟨u, hu.symm⟩
  · cases u with
    | nil => exact ⟨[], by rw [List.append_nil, hu, List.append_nil]⟩
    | cons d u =>
      have hd : ' ' = d := (List.cons.inj hrest).1
      exact absurd (by rw [hu, ← hd]; simp) hspace

theorem headerLine_headerText (i : TestId) (s r : Txt) : headerLine (headerText i s r) = none := by
  apply matchToEnd_eq_none
  intro hm
  obtain ⟨z, hz⟩ := headerText_eq i s r
  obtain ⟨k, m₂, htext, hk, hm⟩ := matches_cat_cons.mp hm
  obtain ⟨o, m₃, rfl, ho, _⟩ := matches_cat_cons.mp hm
  rw [matches_lit.mp ho] at htext
  have hcolon : ∀ w : Txt, w = k ++ ":".toList → ' ' ∉ w → False := by
    intro w hw hspace
    have hpre : w <+: i.method ++ ' ' :: '(' :: z := by
      rw [← hz, htext, hw]
      exact ⟨m₃, List.append_assoc _ _ _⟩
    have hmem : ':' ∈ i.method := (isPrefix_method i hpre hspace).subset (by rw [hw]; simp)
    exact (i.method_chars _ hmem).2 rfl
  obtain ⟨x, hx, hk⟩ := matches_alts.mp (matches_group.mp hk)
  simp only [List.mem_cons, List.not_mem_nil, or_false] at hx
  rcases hx with rfl | rfl
  · rw [matches_lit.mp hk] at hcolon
    exact hcolon _ rfl (by decide)
  · rw [matches_lit.mp hk] at hcolon
    exact hcolon _ rfl (by decide)

theorem notSpace_of_method {i : TestId} : ∀ c ∈ i.method, (!isSpace c) = true := by
  intro c hc
  rw [(isNameChar_iff.mp (i.method_chars c hc).1).1]
  rfl

theorem ranLine_headerText (i : TestId) (s r : Txt) : ranLine (headerText i s r) = none := by
  unfold ranLine
  rw [matchAt_eq_none_iff]
  intro m v htext hm
  obtain ⟨z, hz⟩ := headerText_eq i s r
  obtain ⟨a, m₂, rfl, ha, hm⟩ := matches_cat_cons.mp hm
  obtain ⟨d, m₃, rfl, hd, _⟩ := matches_cat_cons.mp hm
  have hran : "Ran ".toList = "Ran".toList ++ [' '] := by decide
  rw [hz, matches_lit.mp ha, hran] at htext
  simp only [List.append_assoc, List.singleton_append] at htext
  have hword : ∀ c ∈ "Ran".toList, (!isSpace c) = true := forall_of_all (by decide)
  obtain ⟨_, hrest⟩ := run_unique htext notSpace_of_method hword (stops rfl (by decide))
    (stops rfl (by decide))
  obtain ⟨hne, hdigits⟩ := matches_plus.mp (matches_group.mp hd)
  cases d with
  | nil => exact hne rfl
  | cons c d =>
    have hc : '(' = c := (List.cons.inj (List.cons.inj hrest).2).1
    have hdigit := hdigits c List.mem_cons_self
    rw [← hc] at hdigit
    exact absurd hdigit (by decide)

theorem failedLine_headerText (i : TestId) (s r : Txt) : failedLine (headerText i s r) = none := by
  apply matchToEnd_eq_none
  intro hm
  obtain ⟨z, hz⟩ := headerText_eq i s r
  obtain ⟨a, m₂, htext, ha, hm⟩ := matches_cat_cons.mp hm
  obtain ⟨w, m₃, rfl, hw, _⟩ := matches_cat_cons.mp hm
  rw [hz, matches_lit.mp ha] at htext
  have hword : ∀ c ∈ "FAILED".toList, (!isSpace c) = true := forall_of_all (by decide)
  obtain ⟨hne, hspace⟩ := matches_plus.mp hw
  cases w with
  | nil => exact hne rfl
  | cons c w =>
    have hc : (!isSpace c) = false := by rw [hspace c List.mem_cons_self]; rfl
    obtain ⟨hmethod, _⟩ := run_unique htext notSpace_of_method hword (stops rfl (by decide))
      (stops rfl hc)
    exact i.method_failed hmethod

end Apex
end RocmTests

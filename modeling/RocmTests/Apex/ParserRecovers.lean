import RocmTests.Apex.StartLine
import RocmTests.Monitored.MarkerLanguage

/-!
# What the parser recovers of a run

After the lines of a sub-test the dictionary holds for it what the classifiers first
read as an outcome.  So the summary has the numbers of the run exactly if what is read
of the sub-tests has, and it has them where no printed line looks like an outcome.
-/

namespace RocmTests
namespace Apex

open Text Text.Re
open Markers (isSpace strip)
open Monitored (reprTxt reprChar singleQuote doubleQuote hex hexDigit)
open Monitored.Validation (contains startsWith contains_eq_true_iff)

variable {printable : Char → Bool}

/-! ## Outcomes as lines -/

/-- What a skipped sub-test prints: a word, and its reason between quotes. -/
theorem token_skipped (printable : Char → Bool) (reason : Txt) :
    ∃ q w, (q = singleQuote ∨ q = doubleQuote) ∧
    (Outcome.skipped reason).token printable = "skipped".toList ++ (' ' :: q :: (w ++ [q])) := by
  have hword : "skipped ".toList = "skipped".toList ++ [' '] := by decide
  unfold Outcome.token reprTxt
  rw [hword]
  by_cases hquote : singleQuote ∈ reason ∧ doubleQuote ∉ reason
  · exact ⟨doubleQuote, _, Or.inr rfl, by simp only [if_pos hquote]; simp only
      [List.append_assoc, List.cons_append, List.nil_append]; rfl⟩
  · exact ⟨singleQuote, _, Or.inl rfl, by simp only [if_neg hquote]; simp only
      [List.append_assoc, List.cons_append, List.nil_append]; rfl⟩

/-- The outcomes without a reason. -/
def words : List Txt :=
  ["ok".toList, "FAIL".toList, "ERROR".toList, "expected failure".toList,
    "unexpected success".toList]

theorem token_cases (printable : Char → Bool) (o : Outcome) :
    (∃ reason, o = .skipped reason) ∨ o.token printable ∈ words := by
  cases o with
  | skipped reason => exact Or.inl ⟨reason, rfl⟩
  | ok => exact Or.inr (.head _)
  | fail => exact Or.inr (.tail _ (.head _))
  | error => exact Or.inr (.tail _ (.tail _ (.head _)))
  | expectedFailure => exact Or.inr (.tail _ (.tail _ (.tail _ (.head _))))
  | unexpectedSuccess => exact Or.inr (.tail _ (.tail _ (.tail _ (.tail _ (.head _)))))

theorem isBoundary_hexDigit (n : Nat) : isBoundary (hexDigit (n % 16)) = false := by
  have hall : ∀ k < 16, isBoundary (hexDigit k) = false := by decide
  exact hall _ (Nat.mod_lt n (by decide))

theorem isLine_hex (width n : Nat) : IsLine (hex width n) := by
  induction width generalizing n with
  | zero => simp [hex, IsLine]
  | succ width ih =>
    intro c hc
    rw [hex, List.mem_append, List.mem_singleton] at hc
    rcases hc with hc | rfl
    · exact ih _ c hc
    · exact isBoundary_hexDigit n

theorem isLine_reprChar {q c : Char} (hq : isBoundary q = false) :
    IsLine (reprChar (fun c => printable c && !isBoundary c) q c) := by
  have hcons : ∀ {x : Char} {t : Txt}, isBoundary x = false → IsLine t → IsLine (x :: t) :=
    fun hx ht => List.forall_mem_cons.mpr ⟨hx, ht⟩
  have hnil : IsLine [] := by simp [IsLine]
  unfold reprChar
  split_ifs with h₁ h₂ h₃ h₄ h₅ h₆ h₇ h₈
  · rcases h₁ with rfl | rfl
    · exact hcons (by decide) (hcons hq hnil)
    · exact hcons (by decide) (hcons (by decide) hnil)
  · exact hcons (by decide) (hcons (by decide) hnil)
  · exact hcons (by decide) (hcons (by decide) hnil)
  · exact hcons (by decide) (hcons (by decide) hnil)
  · exact hcons (by decide) (hcons (by decide) (isLine_hex 2 _))
  · -- a character of ASCII beyond the control characters, or a printable one
    refine hcons ?_ hnil
    rcases h₆ with h₆ | h₆
    · apply decide_eq_false
      simp only [List.mem_cons, List.not_mem_nil, or_false]
      omega
    · simpa using (Bool.and_eq_true_iff.mp h₆).2
  · exact hcons (by decide) (hcons (by decide) (isLine_hex 2 _))
  · exact hcons (by decide) (hcons (by decide) (isLine_hex 4 _))
  · exact hcons (by decide) (hcons (by decide) (isLine_hex 8 _))

theorem isLine_token (printable : Char → Bool) (o : Outcome) : IsLine (o.token printable) := by
  rcases token_cases printable o with ⟨reason, rfl⟩ | hword
  · intro c hc
    unfold Outcome.token reprTxt at hc
    simp only [List.mem_append, List.mem_cons, List.not_mem_nil, or_false, List.mem_flatMap] at hc
    have hquote : isBoundary (if singleQuote ∈ reason ∧ doubleQuote ∉ reason then doubleQuote
        else singleQuote) = false := by split_ifs <;> decide
    have hskipped : ∀ c ∈ "skipped ".toList, isBoundary c = false := forall_of_all (by decide)
    rcases hc with hc | hc
    · exact hskipped c hc
    · rcases hc with (rfl | ⟨x, _, hc⟩) | rfl
      · exact hquote
      · exact isLine_reprChar hquote c hc
      · exact hquote
  · have hwords : ∀ t ∈ words, t.all (fun c => decide (isBoundary c = false)) = true := by decide
    exact forall_of_all (hwords _ hword)

/-- A line that begins otherwise is no header of a report, no count and no verdict. -/
theorem other_lines {line : Txt} {c : Char} (h : line.head? = some c)
    (hE : c ≠ 'E') (hF : c ≠ 'F') (hR : c ≠ 'R') :
    headerLine line = none ∧ ranLine line = none ∧ failedLine line = none := by
  have hfirst : ∀ {w x : Txt} {d : Char}, line = w ++ x → w.head? = some d → c = d := by
    intro w x d hline hw
    rw [hline, head_append hw, Option.some.injEq] at h
    exact h.symm
  refine ⟨matchToEnd_eq_none ?_, ?_, matchToEnd_eq_none ?_⟩
  · intro hm
    obtain ⟨k, m₂, htext, hk, _⟩ := matches_cat_cons.mp hm
    obtain ⟨x, hx, hk⟩ := matches_alts.mp (matches_group.mp hk)
    simp only [List.mem_cons, List.not_mem_nil, or_false] at hx
    rcases hx with rfl | rfl
    · rw [matches_lit.mp hk] at htext
      exact hE (hfirst htext (by decide))
    · rw [matches_lit.mp hk] at htext
      exact hF (hfirst htext (by decide))
  · unfold ranLine
    rw [matchAt_eq_none_iff]
    intro m v htext hm
    obtain ⟨a, m₂, rfl, ha, _⟩ := matches_cat_cons.mp hm
    rw [matches_lit.mp ha, List.append_assoc] at htext
    exact hR (hfirst htext (by decide))
  · intro hm
    obtain ⟨a, m₂, htext, ha, _⟩ := matches_cat_cons.mp hm
    rw [matches_lit.mp ha] at htext
    exact hF (hfirst htext (by decide))

/-- A word and a quote are no header of a sub-test. -/
theorem startLine_quote {w z : Txt} {q : Char} (hw : ∀ c ∈ w, isSpace c = false)
    (hq : isSpace q = false) (hopen : q ≠ '(') : startLine (w ++ ' ' :: q :: z) = none := by
  apply matchToEnd_eq_none
  intro hm
  obtain ⟨m₁, m₂, htext, hname, _⟩ := matches_cat_cons.mp hm
  obtain ⟨i, m₃, rfl, hi, _⟩ := matches_cat_cons.mp (matches_group.mp hname)
  obtain ⟨a, m₄, rfl, ha, hi⟩ := matches_cat_cons.mp hi
  obtain ⟨s, m₅, rfl, hs, hi⟩ := matches_cat_cons.mp hi
  obtain ⟨o, m₆, rfl, ho, _⟩ := matches_cat_cons.mp hi
  rw [matches_lit.mp ho] at htext
  simp only [List.append_assoc] at htext
  obtain ⟨_, hachars⟩ := matches_plus.mp ha
  obtain ⟨hsne, hschars⟩ := matches_plus.mp hs
  have hword : ∀ c ∈ w, (!isSpace c) = true := fun c hc => by rw [hw c hc]; rfl
  have ha' : ∀ c ∈ a, (!isSpace c) = true :=
    fun c hc => by rw [(isNameChar_iff.mp (hachars c hc)).1]; rfl
  cases s with
  | nil => exact hsne rfl
  | cons c s =>
    have hc : (!isSpace c) = false := by rw [hschars c List.mem_cons_self]; rfl
    obtain ⟨_, hrest⟩ := run_unique htext hword ha' (stops rfl (by decide)) (stops rfl hc)
    have hrest' := (List.cons.inj hrest).2
    cases s with
    | nil => exact hopen (List.cons.inj hrest').1
    | cons d s =>
      have hd := hschars d (by simp)
      rw [← (List.cons.inj hrest').1, hq] at hd
      exact Bool.false_ne_true hd

theorem strip_token (printable : Char → Bool) (o : Outcome) :
    strip (o.token printable) = o.token printable := by
  rcases token_cases printable o with ⟨reason, rfl⟩ | hword
  · obtain ⟨q, w, hq, htoken⟩ := token_skipped printable reason
    have hspace : isSpace q = false := by rcases hq with rfl | rfl <;> decide
    have hfirst : (Outcome.token printable (.skipped reason)).head? = some 's' := by
      rw [htoken]
      rfl
    have hlast : (Outcome.token printable (.skipped reason)).getLast? = some q := by
      have hsplit : "skipped".toList ++ (' ' :: q :: (w ++ [q])) =
          ("skipped".toList ++ (' ' :: q :: w)) ++ [q] := by
        simp only [List.append_assoc, List.cons_append]
      rw [htoken, hsplit, List.getLast?_concat]
    exact strip_of_ends hfirst (by decide) hlast hspace
  · have hwords : ∀ t ∈ words, strip t = t := by decide
    exact hwords _ hword

/-- An outcome is none of the lines that the parser knows by their form. -/
theorem noiseLine_token (o : Outcome) : NoiseLine (o.token printable) := by
  have hline := isLine_token printable o
  have hstrip := strip_token printable o
  rcases token_cases printable o with ⟨reason, rfl⟩ | hword
  · obtain ⟨q, w, hq, htoken⟩ := token_skipped printable reason
    have hfirst : (Outcome.token printable (.skipped reason)).head? = some 's' := by
      rw [htoken]
      rfl
    obtain ⟨hheader, hran, hfailed⟩ := other_lines hfirst (by decide) (by decide) (by decide)
    have hspace : isSpace q = false := by rcases hq with rfl | rfl <;> decide
    have hopen : q ≠ '(' := by rcases hq with rfl | rfl <;> decide
    refine ⟨hline, ?_, ?_, ?_, ?_⟩
    · rw [hstrip, hheader]
    · rw [hstrip, hran]
    · rw [hstrip, hfailed]
    · rw [hstrip, htoken]
      exact startLine_quote (forall_of_all (by decide)) hspace hopen
  · have hwords : ∀ t ∈ words, headerLine (strip t) = none ∧ ranLine (strip t) = none ∧
        failedLine (strip t) = none ∧ startLine (strip t) = none := by decide
    obtain ⟨hheader, hran, hfailed, hstart⟩ := hwords _ hword
    exact ⟨hline, hheader, hran, hfailed, hstart⟩

/-- An outcome behind the header is read as what it is. -/
theorem classifyRest_token (o : Outcome) : classifyRest (o.token printable) = some o.bucket := by
  have hstrip := strip_token printable o
  cases o with
  | skipped reason =>
    obtain ⟨q, w, _, htoken⟩ := token_skipped printable reason
    unfold classifyRest
    rw [hstrip, htoken]
    have hlower : lower ("skipped".toList ++ (' ' :: q :: (w ++ [q]))) =
        "skipped".toList ++ lower (' ' :: q :: (w ++ [q])) := by
      have hword : lower "skipped".toList = "skipped".toList := by decide
      conv_rhs => rw [← hword]
      exact List.flatMap_append
    generalize lower (' ' :: q :: (w ++ [q])) = z at hlower
    simp only [hlower]
    have hnot : ∀ {d : Char} {t : Txt}, d ≠ 's' →
        startsWith ("skipped".toList ++ z) (d :: t) = false := by
      intro d t hd
      rw [Bool.eq_false_iff]
      intro hpre
      have hcons := List.cons_prefix_cons.mp (List.isPrefixOf_iff_prefix.mp hpre)
      exact hd hcons.1
    have hyes : startsWith ("skipped".toList ++ z) "skipped".toList = true :=
      List.isPrefixOf_iff_prefix.mpr (List.prefix_append _ _)
    have hx : startsWith ("skipped".toList ++ z) "expected failure".toList = false :=
      hnot (by decide)
    have hu : startsWith ("skipped".toList ++ z) "unexpected success".toList = false :=
      hnot (by decide)
    have ho : startsWith ("skipped".toList ++ z) "ok".toList = false := hnot (by decide)
    rw [if_neg (by simp), hx, hu, ho, hyes]
    rfl
  | ok => exact (by decide : classifyRest "ok".toList = some .pass)
  | fail => exact (by decide : classifyRest "FAIL".toList = some .fail)
  | error => exact (by decide : classifyRest "ERROR".toList = some .error)
  | expectedFailure => exact (by decide : classifyRest "expected failure".toList = some .xfail)
  | unexpectedSuccess => exact (by decide : classifyRest "unexpected success".toList = some .fail)

/-- An outcome on a line of its own is read as one. -/
theorem classifyContinuation_token (o : Outcome) :
    (classifyContinuation (o.token printable)).isSome = true := by
  have hstrip := strip_token printable o
  rcases token_cases printable o with ⟨reason, rfl⟩ | hword
  · obtain ⟨q, w, _, htoken⟩ := token_skipped printable reason
    have hskipped : startsWith (Outcome.token printable (.skipped reason)) "skipped".toList =
        true := by
      rw [htoken]
      exact List.isPrefixOf_iff_prefix.mpr (List.prefix_append _ _)
    unfold classifyContinuation
    rw [hstrip]
    simp only [hskipped, true_or, if_true]
    split_ifs <;> rfl
  · have hwords : ∀ t ∈ words, (classifyContinuation t).isSome = true := by decide
    exact hwords _ hword

/-! ## The dictionary -/

theorem assign_assign (name : Txt) (o o' : Option Bucket) (ps : Parsed) :
    assign name o' (assign name o ps) = assign name o' ps := by
  induction ps with
  | nil => simp [assign]
  | cons p ps ih =>
    rw [assign]
    by_cases h : p.1 = name
    · rw [if_pos h]
      simp [assign, h]
    · rw [if_neg h]
      simp [assign, h, ih]

theorem assign_fresh {name : Txt} {ps : Parsed} (h : name ∉ ps.map Prod.fst) (o : Option Bucket) :
    assign name o ps = ps ++ [(name, o)] := by
  induction ps with
  | nil => rfl
  | cons p ps ih =>
    rw [List.map_cons, List.mem_cons, not_or] at h
    rw [assign, if_neg (Ne.symm h.1), ih h.2]
    rfl

/-! ## One line -/

theorem text_ends (i : TestId) : ∃ c d, i.text.head? = some c ∧ isSpace c = false ∧
    i.text.getLast? = some d ∧ isSpace d = false := by
  obtain ⟨c, m, hmethod⟩ := List.exists_cons_of_ne_nil i.method_ne
  have hc := (isNameChar_iff.mp (i.method_chars c (by rw [hmethod]; simp)).1).1
  have hfirst : i.text.head? = some c := by
    show (i.method ++ _ ++ _ : Txt).head? = some c
    rw [hmethod]
    rfl
  have hlast : ∀ (x : Txt) (ps : List Txt), (∃ y, x = y ++ ")".toList) →
      ∃ d, (x ++ (ps.map fun p => [' '] ++ ("[".toList ++ (p ++ "]".toList))).flatten).getLast? =
        some d ∧ isSpace d = false := by
    intro x ps hx
    rcases List.eq_nil_or_concat ps with rfl | ⟨ps, p, rfl⟩
    · obtain ⟨y, rfl⟩ := hx
      refine ⟨')', ?_, by decide⟩
      rw [List.map_nil, List.flatten_nil, List.append_nil]
      exact List.getLast?_concat
    · refine ⟨']', ?_, by decide⟩
      rw [List.concat_eq_append, List.map_append, List.flatten_append, List.map_singleton,
        List.flatten_singleton]
      simp only [← List.append_assoc]
      exact List.getLast?_concat
  obtain ⟨d, hd, hspace⟩ :=
    hlast (i.method ++ ([' '] ++ ("(".toList ++ (i.qualname ++ ")".toList))))
    i.params ⟨i.method ++ ([' '] ++ ("(".toList ++ i.qualname)), by simp only [List.append_assoc]⟩
  exact ⟨c, d, hfirst, hc, hd, hspace⟩

/-- The header line of a sub-test, with what is printed behind it. -/
theorem step_startLine (s : State) (t : SubTest) {rest : Txt} (hrest : IsLine rest) :
    step s (t.startLine rest) = some { s with
      parsed := assign t.name (classifyRest rest) s.parsed
      pending := if (classifyRest rest).isNone then some t.name else none } := by
  obtain ⟨sp, hsp, hstrip⟩ := strip_startLine t rest
  have hline : IsLine (strip rest) := by
    intro c hc
    rw [strip_eq] at hc
    exact hrest c ((List.dropWhile_sublist _).subset ((List.rdropWhile_prefix _ _).subset hc))
  obtain ⟨m, hm, hname, hgroup⟩ := startLine_headerText t.id hsp
    (fun c hc => not_isSpace_head_strip hc) hline
  obtain ⟨c, d, hfirst, hc, hlast, hd⟩ := text_ends t.id
  have hclassify : classifyRest (strip rest) = classifyRest rest := by
    unfold classifyRest
    rw [strip_strip]
  unfold step
  simp only [hstrip, headerLine_headerText, ranLine_headerText, failedLine_headerText, hm, hname,
    hgroup, hclassify, strip_of_ends hfirst hc hlast hd]
  rfl

/-- What a line does that has none of the forms. -/
theorem step_noise (s : State) {l : Txt} (h : NoiseLine l) : step s l =
    match s.pending with
    | some name =>
      match classifyContinuation l with
      | some outcome =>
        some { s with parsed := assign name (some outcome) s.parsed, pending := none }
      | none => some s
    | none => some s := by
  have hclassify : classifyContinuation (strip l) = classifyContinuation l := by
    unfold classifyContinuation
    rw [strip_strip]
  unfold step
  cases s.pending with
  | none => simp only [h.header, h.ran, h.failed, h.start]
  | some name =>
    cases hc : classifyContinuation l with
    | none => simp only [h.header, h.ran, h.failed, h.start, hclassify, hc]
    | some outcome => simp only [h.header, h.ran, h.failed, h.start, hclassify, hc]

theorem foldlM_idle {s : State} (hs : s.pending = none) {ls : List Txt}
    (h : ∀ l ∈ ls, NoiseLine l) : ls.foldlM step s = some s := by
  induction ls with
  | nil => rfl
  | cons l ls ih =>
    have hstep : step s l = some s := by rw [step_noise s (h l List.mem_cons_self), hs]
    rw [List.foldlM_cons, hstep]
    exact ih fun x hx => h x (List.mem_cons_of_mem _ hx)

theorem foldlM_pending {s : State} {name : Txt} (hs : s.pending = some name) {ls : List Txt}
    (h : ∀ l ∈ ls, NoiseLine l) : ls.foldlM step s =
      match ls.findSome? classifyContinuation with
      | some outcome =>
        some { s with parsed := assign name (some outcome) s.parsed, pending := none }
      | none => some s := by
  induction ls with
  | nil => rfl
  | cons l ls ih =>
    have hrest : ∀ x ∈ ls, NoiseLine x := fun x hx => h x (List.mem_cons_of_mem _ hx)
    rw [List.foldlM_cons, step_noise s (h l List.mem_cons_self), hs, List.findSome?_cons]
    cases classifyContinuation l with
    | none => exact ih hrest
    | some outcome => exact foldlM_idle rfl hrest

/-! ## One sub-test -/

/-- The sub-test after its header line, which was read as `first`. -/
def State.began (s : State) (name : Txt) (first : Option Bucket) : State :=
  { s with
    parsed := assign name first s.parsed
    pending := if first.isNone then some name else none }

theorem foldlM_began (s : State) (name : Txt) (first : Option Bucket) {ls : List Txt}
    (h : ∀ l ∈ ls, NoiseLine l) : ls.foldlM step (s.began name first) =
      some (s.began name (first.or (ls.findSome? classifyContinuation))) := by
  cases first with
  | some outcome => exact foldlM_idle rfl h
  | none =>
    have hpending : (s.began name none).pending = some name := rfl
    rw [foldlM_pending hpending h]
    cases ls.findSome? classifyContinuation with
    | none => rfl
    | some outcome =>
      simp only [State.began, assign_assign]
      rfl

theorem step_lines (s : State) (t : SubTest) (h : ∀ l ∈ t.body printable, NoiseLine l) :
    (t.lines printable).foldlM step s = some (s.began t.name (t.reads printable)) := by
  unfold SubTest.lines SubTest.reads
  cases hbody : t.body printable with
  | nil =>
    have hnil : IsLine ([] : Txt) := by simp [IsLine]
    have hrest : classifyRest [] = none := by decide
    simp only [List.foldlM_cons, List.foldlM_nil, step_startLine s t hnil, hrest]
    rfl
  | cons l ls =>
    rw [hbody] at h
    simp only [List.foldlM_cons, step_startLine s t (h l List.mem_cons_self).line]
    exact foldlM_began s t.name (classifyRest l) fun x hx => h x (List.mem_cons_of_mem _ hx)

/-! ## All sub-tests -/

theorem foldlM_tests (tests : List SubTest) : ∀ s : State,
    (∀ t ∈ tests, ∀ l ∈ t.body printable, NoiseLine l) →
    (s.parsed.map Prod.fst ++ tests.map SubTest.name).Nodup →
    ∃ pending, (tests.flatMap (SubTest.lines printable)).foldlM step s = some { s with
      parsed := s.parsed ++ tests.map fun t => (t.name, t.reads printable)
      pending := pending } := by
  induction tests with
  | nil =>
    intro s _ _
    refine ⟨s.pending, ?_⟩
    simp
  | cons t tests ih =>
    intro s hnoise hnodup
    have hfresh : t.name ∉ s.parsed.map Prod.fst := by
      intro hmem
      exact (List.disjoint_of_nodup_append hnodup) hmem List.mem_cons_self
    have hbegan : (s.began t.name (t.reads printable)).parsed =
        s.parsed ++ [(t.name, t.reads printable)] := assign_fresh hfresh _
    have hnodup' : ((s.began t.name (t.reads printable)).parsed.map Prod.fst ++
        tests.map SubTest.name).Nodup := by
      rw [hbegan, List.map_append, List.append_assoc]
      exact hnodup
    obtain ⟨pending, hrun⟩ := ih (s.began t.name (t.reads printable))
      (fun x hx => hnoise x (List.mem_cons_of_mem _ hx)) hnodup'
    refine ⟨pending, ?_⟩
    rw [List.flatMap_cons, List.foldlM_append, step_lines s t (hnoise t List.mem_cons_self)]
    show List.foldlM step _ _ = _
    rw [hrun, hbegan, List.append_assoc]
    rfl

/-! ## What comes after -/

theorem addCounts_isSome (ms : List Found) (total total' : Int × Int) :
    (addCounts ms total).isSome = (addCounts ms total').isSome := by
  induction ms generalizing total total' with
  | nil => rfl
  | cons m ms ih =>
    rw [addCounts, addCounts]
    cases parseInt (m.group 2) with
    | none => rfl
    | some n => exact ih _ _

/-- A line of the report leaves the dictionary alone, and only a verdict has counts. -/
theorem step_closing (s : State) {l : Txt} (h : ClosingLine l) :
    ∃ s', step s l = some s' ∧ s'.parsed = s.parsed ∧ (failedLine (strip l) = none →
      s'.summaryFailures = s.summaryFailures ∧ s'.summaryErrors = s.summaryErrors) := by
  have hreadable := h.readable
  have hquiet := h.quiet
  have hclassify : classifyContinuation (strip l) = classifyContinuation l := by
    unfold classifyContinuation
    rw [strip_strip]
  unfold step at hreadable ⊢
  simp only [h.start, hclassify] at hreadable ⊢
  cases hheader : headerLine (strip l) with
  | some m =>
    simp only
    split_ifs
    · exact ⟨_, rfl, rfl, fun _ => ⟨rfl, rfl⟩⟩
    · exact ⟨_, rfl, rfl, fun _ => ⟨rfl, rfl⟩⟩
  | none =>
    simp only [hheader] at hreadable ⊢
    cases hran : ranLine (strip l) with
    | some m =>
      simp only [hran] at hreadable ⊢
      cases hn : parseInt (m.group 1) with
      | none =>
        rw [hn] at hreadable
        cases hreadable
      | some n => exact ⟨_, rfl, rfl, fun _ => ⟨rfl, rfl⟩⟩
    | none =>
      simp only [hran] at hreadable ⊢
      cases hfailed : failedLine (strip l) with
      | some m =>
        simp only [hfailed] at hreadable ⊢
        have hsome : (addCounts (findAll noWord countPattern (m.group 1))
            (s.summaryFailures, s.summaryErrors)).isSome = true := by
          rw [addCounts_isSome _ _ (start.summaryFailures, start.summaryErrors)]
          cases hcounts : addCounts (findAll noWord countPattern (m.group 1))
              (start.summaryFailures, start.summaryErrors) with
          | none =>
            rw [hcounts] at hreadable
            cases hreadable
          | some _ => rfl
        obtain ⟨counts, hcounts⟩ := Option.isSome_iff_exists.mp hsome
        rw [hcounts]
        exact ⟨_, rfl, rfl, fun hnone => by cases hnone⟩
      | none =>
        have hnone : classifyContinuation l = none := by
          simpa [hheader, hran, hfailed] using hquiet
        simp only [hnone]
        cases s.pending with
        | none => exact ⟨s, rfl, rfl, fun _ => ⟨rfl, rfl⟩⟩
        | some name => exact ⟨s, rfl, rfl, fun _ => ⟨rfl, rfl⟩⟩

theorem foldlM_closing (ls : List Txt) : ∀ s : State, (∀ l ∈ ls, ClosingLine l) →
    ∃ s', ls.foldlM step s = some s' ∧ s'.parsed = s.parsed ∧
      ((∀ l ∈ ls, failedLine (strip l) = none) →
        s'.summaryFailures = s.summaryFailures ∧ s'.summaryErrors = s.summaryErrors) := by
  induction ls with
  | nil =>
    intro s _
    exact ⟨s, rfl, rfl, fun _ => ⟨rfl, rfl⟩⟩
  | cons l ls ih =>
    intro s h
    obtain ⟨s₁, hstep, hparsed, hcounts⟩ := step_closing s (h l List.mem_cons_self)
    obtain ⟨s₂, hrun, hparsed₂, hcounts₂⟩ := ih s₁ fun x hx => h x (List.mem_cons_of_mem _ hx)
    refine ⟨s₂, ?_, hparsed₂.trans hparsed, ?_⟩
    · rw [List.foldlM_cons, hstep]
      exact hrun
    · intro hnone
      have h₁ := hcounts (hnone l List.mem_cons_self)
      have h₂ := hcounts₂ fun x hx => hnone x (List.mem_cons_of_mem _ hx)
      exact ⟨h₂.1.trans h₁.1, h₂.2.trans h₁.2⟩

/-! ## The tally -/

/-- The number of entries with an outcome. -/
def entries (o : Option Bucket) (ps : Parsed) : Nat := ps.countP fun p => p.2 = o

/-- Every entry is in one bucket or in none. -/
theorem entries_total (ps : Parsed) :
    entries (some .pass) ps + entries (some .skip) ps + entries (some .fail) ps +
      entries (some .error) ps + entries (some .xfail) ps + entries none ps = ps.length := by
  induction ps with
  | nil => rfl
  | cons p ps ih =>
    simp only [entries, List.countP_cons, List.length_cons] at ih ⊢
    rcases hp : p.2 with _ | (_ | _ | _ | _ | _) <;> simp <;> omega

theorem foldl_tally (ps : Parsed) : ∀ x : ApexRunSummary,
    (ps.foldl tally x).passed = x.passed + entries (some .pass) ps ∧
    (ps.foldl tally x).skipped = x.skipped + entries (some .skip) ps ∧
    (ps.foldl tally x).failed = x.failed + entries (some .fail) ps ∧
    (ps.foldl tally x).errored = x.errored + (entries (some .error) ps + entries none ps) ∧
    (ps.foldl tally x).expectedFailures = x.expectedFailures + entries (some .xfail) ps ∧
    (ps.foldl tally x).unresolvedNames =
      x.unresolvedNames ++ (ps.filter fun p => p.2 = none).map Prod.fst := by
  induction ps with
  | nil => simp [entries]
  | cons p ps ih =>
    intro x
    obtain ⟨name, o⟩ := p
    rw [List.foldl_cons]
    obtain ⟨h₁, h₂, h₃, h₄, h₅, h₆⟩ := ih (tally x (name, o))
    rw [h₁, h₂, h₃, h₄, h₅, h₆]
    rcases o with _ | (_ | _ | _ | _ | _) <;>
      simp [tally, entries] <;> omega

/-- The summary of a dictionary.  The counts of the report stand in where no sub-test
failed. -/
theorem aggregate_eq (s : State) :
    (aggregate s).passed = entries (some .pass) s.parsed ∧
    (aggregate s).skipped = entries (some .skip) s.parsed ∧
    (aggregate s).expectedFailures = entries (some .xfail) s.parsed ∧
    (aggregate s).unresolvedNames = (s.parsed.filter fun p => p.2 = none).map Prod.fst ∧
    (if entries (some .fail) s.parsed = 0 ∧
        entries (some .error) s.parsed + entries none s.parsed = 0 then
      (aggregate s).failed = s.summaryFailures ∧ (aggregate s).errored = s.summaryErrors
    else (aggregate s).failed = entries (some .fail) s.parsed ∧
      (aggregate s).errored = entries (some .error) s.parsed + entries none s.parsed) := by
  obtain ⟨h₁, h₂, h₃, h₄, h₅, h₆⟩ := foldl_tally s.parsed
    { passed := 0, skipped := 0, failed := 0, errored := 0, expectedFailures := 0,
      failedNames := [], erroredNames := [], unresolvedNames := [], ranTotal := s.ranTotal }
  unfold aggregate
  generalize s.parsed.foldl tally
    { passed := 0, skipped := 0, failed := 0, errored := 0, expectedFailures := 0,
      failedNames := [], erroredNames := [], unresolvedNames := [],
      ranTotal := s.ranTotal } = x at *
  have hzero : (x.failed = 0 ∧ x.errored = 0) ↔ (entries (some .fail) s.parsed = 0 ∧
      entries (some .error) s.parsed + entries none s.parsed = 0) := by
    rw [h₃, h₄]
    simp only
    omega
  simp only [Int.zero_add] at h₁ h₂ h₃ h₄ h₅
  by_cases hfallback : x.failed = 0 ∧ x.errored = 0
  · rw [if_pos (hzero.mp hfallback)]
    simp only [if_pos hfallback]
    split_ifs <;> exact ⟨h₁, h₂, h₅, h₆, rfl, rfl⟩
  · rw [if_neg fun h => hfallback (hzero.mpr h)]
    simp only [if_neg hfallback]
    split_ifs <;> exact ⟨h₁, h₂, h₅, h₆, h₃, h₄⟩

theorem entries_map (f : SubTest → Option Bucket) (o : Option Bucket) (tests : List SubTest) :
    entries o (tests.map fun t => (t.name, f t)) = countIn f o tests := by
  unfold entries countIn
  rw [List.countP_map]
  rfl

/-! ## The run -/

theorem reads_isSome (printable : Char → Bool) {t : SubTest} {o : Outcome}
    (h : t.outcome = some o) :
    (t.reads printable).isSome = true := by
  unfold SubTest.reads SubTest.body
  rw [h]
  cases hnoise : t.noise with
  | nil =>
    show ((classifyRest (o.token printable)).or _).isSome = true
    rw [classifyRest_token]
    rfl
  | cons l ls =>
    have hfind : ((ls ++ [o.token printable]).findSome? classifyContinuation).isSome = true := by
      rw [List.findSome?_append, Option.isSome_or, List.findSome?_singleton,
        classifyContinuation_token, Bool.or_true]
    show ((classifyRest l).or ((ls ++ [o.token printable]).findSome? _)).isSome = true
    rw [Option.isSome_or, hfind, Bool.or_true]

theorem ended_eq_none {t : SubTest} : t.ended = none ↔ t.outcome = none := Option.map_eq_none_iff

theorem isLine_startLine (t : SubTest) {rest : Txt} (h : IsLine rest) :
    IsLine (t.startLine rest) := by
  have hdots : ∀ c ∈ " ... ".toList, isBoundary c = false := forall_of_all (by decide)
  intro c hc
  rcases List.mem_append.mp hc with hc | hc
  · exact t.id.line c hc
  · rcases List.mem_append.mp hc with hc | hc
    · exact hdots c hc
    · exact h c hc

theorem isLine_lines {t : SubTest} (h : ∀ l ∈ t.body printable, IsLine l) :
    ∀ l ∈ t.lines printable, IsLine l := by
  unfold SubTest.lines
  cases hbody : t.body printable with
  | nil =>
    intro l hl
    rw [List.mem_singleton.mp hl]
    exact isLine_startLine t (by simp [IsLine])
  | cons x xs =>
    rw [hbody] at h
    intro l hl
    rcases List.mem_cons.mp hl with rfl | hl
    · exact isLine_startLine t (h x List.mem_cons_self)
    · exact h l (List.mem_cons_of_mem _ hl)

/-- The log is read without an error, and the dictionary holds what is read of each
sub-test. -/
theorem parse_log (printable : Char → Bool) (r : Run) :
    ∃ s, parseUnittestOutput (r.log printable) = some (aggregate s) ∧
    s.parsed = r.tests.map (fun t => (t.name, t.reads printable)) ∧
    ((∃ t ∈ r.tests, t.Failing) ∨ (s.summaryFailures = 0 ∧ s.summaryErrors = 0)) := by
  have hbody : ∀ t ∈ r.tests, ∀ l ∈ t.body printable, NoiseLine l := by
    intro t ht l hl
    rcases List.mem_append.mp hl with hl | hl
    · exact r.noise_ok t ht l hl
    · obtain ⟨o, _, rfl⟩ := Option.map_eq_some_iff.mp (Option.mem_toList.mp hl)
      exact noiseLine_token o
  have hlines : ∀ l ∈ r.tests.flatMap (SubTest.lines printable) ++ r.closing, IsLine l := by
    intro l hl
    rcases List.mem_append.mp hl with hl | hl
    · obtain ⟨t, ht, hl⟩ := List.mem_flatMap.mp hl
      exact isLine_lines (fun x hx => (hbody t ht x hx).line) l hl
    · exact (r.closing_ok l hl).line
  obtain ⟨pending, htests⟩ := foldlM_tests r.tests start hbody r.distinct
  obtain ⟨s, hclosing, hparsed, hcounts⟩ := foldlM_closing r.closing
    { start with
      parsed := start.parsed ++ r.tests.map fun t => (t.name, t.reads printable)
      pending := pending } r.closing_ok
  refine ⟨s, ?_, hparsed, ?_⟩
  · unfold parseUnittestOutput Run.log
    rw [splitlines_unlines hlines, List.foldlM_append, htests]
    show Option.map aggregate (List.foldlM step _ r.closing) = _
    rw [hclosing]
    rfl
  · rcases r.closing_failed with hfailing | hnone
    · exact Or.inl hfailing
    · exact Or.inr (hcounts hnone)

/-- The sub-tests that nothing is read of are those without outcome exactly if nothing is
read of those. -/
theorem unresolved_iff {tests : List SubTest} (hnodup : (tests.map SubTest.name).Nodup) :
    (tests.filter fun t => t.reads printable = none).map SubTest.name =
        (tests.filter fun t => t.ended = none).map SubTest.name ↔
      ∀ t ∈ tests, t.outcome = none → t.reads printable = none := by
  constructor
  · intro h t ht hdied
    have hmem : t.name ∈ (tests.filter fun t => t.ended = none).map SubTest.name :=
      List.mem_map_of_mem (List.mem_filter.mpr ⟨ht, decide_eq_true (ended_eq_none.mpr hdied)⟩)
    rw [← h] at hmem
    obtain ⟨t', ht', hname⟩ := List.mem_map.mp hmem
    obtain ⟨ht', hreads⟩ := List.mem_filter.mp ht'
    rw [List.inj_on_of_nodup_map hnodup ht' ht hname] at hreads
    exact of_decide_eq_true hreads
  · intro h
    congr 1
    apply List.filter_congr
    intro t ht
    apply decide_eq_decide.mpr
    rw [ended_eq_none]
    constructor
    · intro hreads
      cases houtcome : t.outcome with
      | none => rfl
      | some o =>
        have hsome := reads_isSome printable houtcome
        rw [hreads] at hsome
        cases hsome
    · exact h t ht

/-- The number of the sub-tests without outcome is read right if they are. -/
theorem countIn_none {tests : List SubTest}
    (h : (tests.filter fun t => t.reads printable = none).map SubTest.name =
      (tests.filter fun t => t.ended = none).map SubTest.name) :
    countIn (SubTest.reads printable) none tests = countIn SubTest.ended none tests := by
  have hlength := congrArg List.length h
  rw [List.length_map, List.length_map] at hlength
  unfold countIn
  rw [List.countP_eq_length_filter, List.countP_eq_length_filter]
  exact hlength

/-- What the summary has, in the numbers of what is read. -/
theorem summary_of_log (printable : Char → Bool) (r : Run) :
    ∃ x, parseUnittestOutput (r.log printable) = some x ∧
    x.passed = countIn (SubTest.reads printable) (some .pass) r.tests ∧
    x.skipped = countIn (SubTest.reads printable) (some .skip) r.tests ∧
    x.expectedFailures = countIn (SubTest.reads printable) (some .xfail) r.tests ∧
    x.unresolvedNames = (r.tests.filter fun t => t.reads printable = none).map SubTest.name ∧
    (if countIn (SubTest.reads printable) (some .fail) r.tests = 0 ∧
        countIn (SubTest.reads printable) (some .error) r.tests +
          countIn (SubTest.reads printable) none r.tests = 0 then
      (∃ t ∈ r.tests, t.Failing) ∨ (x.failed = 0 ∧ x.errored = 0)
    else x.failed = countIn (SubTest.reads printable) (some .fail) r.tests ∧
      x.errored = countIn (SubTest.reads printable) (some .error) r.tests +
        countIn (SubTest.reads printable) none r.tests) := by
  obtain ⟨s, hparse, hparsed, hfailing⟩ := parse_log printable r
  obtain ⟨hpass, hskip, hxfail, hnames, hcounts⟩ := aggregate_eq s
  simp only [hparsed, entries_map] at hpass hskip hxfail hcounts
  refine ⟨_, hparse, hpass, hskip, hxfail, ?_, ?_⟩
  · rw [hnames, hparsed, List.filter_map, List.map_map]
    rfl
  · split_ifs at hcounts ⊢
    · rcases hfailing with hfailing | hfailing
      · exact Or.inl hfailing
      · exact Or.inr ⟨hcounts.1.trans hfailing.1, hcounts.2.trans hfailing.2⟩
    · exact hcounts

theorem recovers_of_balanced {r : Run} (h : Balanced printable r.tests) :
    ∃ x, parseUnittestOutput (r.log printable) = some x ∧ Recovers r.tests x := by
  obtain ⟨x, hx, hpass, hskip, hxfail, hnames, hcounts⟩ := summary_of_log printable r
  have hdied := (unresolved_iff r.distinct).mpr h.died
  have hnone := countIn_none hdied
  have hp := h.counts .pass
  have hs := h.counts .skip
  have hf := h.counts .fail
  have he := h.counts .error
  have hxf := h.counts .xfail
  have hfails : x.failed = countIn SubTest.ended (some .fail) r.tests ∧
      x.errored = countIn SubTest.ended (some .error) r.tests +
        countIn SubTest.ended none r.tests := by
    split_ifs at hcounts with hzero
    · -- nothing failed, so the report has no counts either
      have hnofail : ¬ ∃ t ∈ r.tests, t.Failing := by
        intro hex
        obtain ⟨t, ht, hfails⟩ := hex
        have hcount : ∀ o, t.ended = o → 0 < countIn SubTest.ended o r.tests :=
          fun o ho => List.countP_pos_iff.mpr ⟨t, ht, decide_eq_true ho⟩
        rcases hfails with hfails | hfails | hfails
        · have hpos := hcount _ hfails
          omega
        · have hpos := hcount _ hfails
          omega
        · have hpos := hcount _ hfails
          omega
      rcases hcounts with hcounts | hcounts
      · exact absurd hcounts hnofail
      · omega
    · omega
  exact ⟨x, hx, by omega, by omega, hfails.1, hfails.2, by omega, by rw [hnames, hdied]⟩

/-! ## Lines that look like an outcome -/

/-- What begins, in any case, with a word of an outcome. -/
def BeginsOutcome (rest : Txt) : Prop :=
  ∃ w ∈ ["expected failure".toList, "unexpected success".toList, "ok".toList, "skipped".toList,
    "error".toList, "fail".toList], w <+: lower (strip rest)

def SaysOk (line : Txt) : Prop := strip line = "ok".toList ∨ "... ok".toList <:+: strip line

def SaysSkipped (line : Txt) : Prop :=
  "skipped".toList <+: strip line ∨ "... skipped".toList <:+: strip line

/-- A failure, an error or an unexpected success. -/
def SaysFailed (line : Txt) : Prop :=
  (strip line = "FAIL".toList ∨ "... FAIL".toList <:+ strip line) ∨
    (strip line = "ERROR".toList ∨ "... ERROR".toList <:+ strip line) ∨
      "unexpected success".toList <+: strip line

/-- A line that looks like an outcome. -/
def LooksOutcome (line : Txt) : Prop :=
  SaysOk line ∨ SaysSkipped line ∨ SaysFailed line ∨ "expected failure".toList <+: strip line

instance (rest : Txt) : Decidable (BeginsOutcome rest) := by
  unfold BeginsOutcome
  infer_instance

instance (line : Txt) : Decidable (LooksOutcome line) := by
  unfold LooksOutcome SaysOk SaysSkipped SaysFailed
  infer_instance

theorem ite_some_eq_none {α : Type} {p : Prop} [Decidable p] {a : α} {x : Option α} :
    (if p then some a else x) = none ↔ ¬ p ∧ x = none := by
  by_cases h : p
  · simp [h]
  · simp [h]

theorem startsWith_iff {t w : Txt} : startsWith t w = true ↔ w <+: t := List.isPrefixOf_iff_prefix

theorem endsWith_iff {t w : Txt} : endsWith t w = true ↔ w <:+ t := List.isSuffixOf_iff_suffix

theorem classifyRest_eq_none_iff {rest : Txt} :
    classifyRest rest = none ↔ ¬ BeginsOutcome rest := by
  unfold BeginsOutcome classifyRest
  simp only [List.mem_cons, List.not_mem_nil, or_false, exists_eq_or_imp, exists_eq_left, not_or]
  by_cases hempty : lower (strip rest) = []
  · rw [if_pos hempty, hempty]
    exact iff_of_true rfl (by decide)
  · rw [if_neg hempty]
    simp only [ite_some_eq_none, startsWith_iff, and_true]

theorem classifyContinuation_eq_none_iff {line : Txt} :
    classifyContinuation line = none ↔ ¬ LooksOutcome line := by
  have hsuffix : "... ok".toList <:+ strip line → "... ok".toList <:+: strip line :=
    List.IsSuffix.isInfix
  unfold LooksOutcome SaysOk SaysSkipped SaysFailed classifyContinuation
  simp only [ite_some_eq_none, startsWith_iff, endsWith_iff, contains_eq_true_iff]
  tauto

/-- An outcome on a line of its own is read as what it is, unless the reason of a skipped
sub-test hides it. -/
theorem classifyContinuation_eq_bucket {o : Outcome}
    (h : ∀ reason, o = .skipped reason → ¬ "... ok".toList <:+: o.token printable) :
    classifyContinuation (o.token printable) = some o.bucket := by
  cases o with
  | skipped reason =>
    obtain ⟨q, w, _, htoken⟩ := token_skipped printable reason
    have hnot := h reason rfl
    have hskipped : "skipped".toList <+: Outcome.token printable (.skipped reason) := by
      rw [htoken]
      exact List.prefix_append _ _
    have hok : Outcome.token printable (.skipped reason) ≠ "ok".toList := by
      intro heq
      rw [heq] at hskipped
      exact absurd hskipped (by decide)
    unfold classifyContinuation
    simp only [strip_token, startsWith_iff, endsWith_iff, contains_eq_true_iff]
    rw [if_neg, if_pos (Or.inl hskipped)]
    · rfl
    · rintro (heq | hend | hin)
      · exact hok heq
      · exact hnot hend.isInfix
      · exact hnot hin
  | ok => exact (by decide : classifyContinuation "ok".toList = some .pass)
  | fail => exact (by decide : classifyContinuation "FAIL".toList = some .fail)
  | error => exact (by decide : classifyContinuation "ERROR".toList = some .error)
  | expectedFailure =>
    exact (by decide : classifyContinuation "expected failure".toList = some .xfail)
  | unexpectedSuccess =>
    exact (by decide : classifyContinuation "unexpected success".toList = some .fail)

/-- No line that is printed while the sub-test runs looks like an outcome, and no reason
hides that it was skipped. -/
structure SubTest.Quiet (printable : Char → Bool) (t : SubTest) : Prop where
  first : ∀ l, t.noise.head? = some l → ¬ BeginsOutcome l
  later : ∀ l ∈ t.noise.tail, ¬ LooksOutcome l
  reason : ∀ reason, t.outcome = some (.skipped reason) → t.noise ≠ [] →
    ¬ "... ok".toList <:+: Outcome.token printable (.skipped reason)

theorem SubTest.Quiet.reads_eq {t : SubTest} (h : t.Quiet printable) :
    t.reads printable = t.ended := by
  unfold SubTest.reads SubTest.body SubTest.ended
  cases hnoise : t.noise with
  | nil =>
    cases houtcome : t.outcome with
    | none => rfl
    | some o =>
      show ((classifyRest (o.token printable)).or _) = some o.bucket
      rw [classifyRest_token, Option.some_or]
  | cons l ls =>
    have hfirst : classifyRest l = none :=
      classifyRest_eq_none_iff.mpr (h.first l (by rw [hnoise]; rfl))
    have hlater : ls.findSome? classifyContinuation = none := by
      rw [List.findSome?_eq_none_iff]
      intro x hx
      exact classifyContinuation_eq_none_iff.mpr (h.later x (by rw [hnoise]; exact hx))
    show ((classifyRest l).or ((ls ++ _).findSome? classifyContinuation)) = _
    rw [hfirst, Option.none_or, List.findSome?_append, hlater, Option.none_or]
    cases houtcome : t.outcome with
    | none => rfl
    | some o =>
      show [o.token printable].findSome? classifyContinuation = some o.bucket
      have hreason (reason : Txt) (ho : o = .skipped reason) :
          ¬ "... ok".toList <:+: o.token printable := by
        rw [ho]
        exact h.reason reason (by rw [houtcome, ho]) (by rw [hnoise]; exact List.cons_ne_nil _ _)
      rw [List.findSome?_singleton, classifyContinuation_eq_bucket hreason]

/-- Where nothing that is printed looks like an outcome, the run is recovered. -/
theorem recovers_of_quiet (r : Run) (h : ∀ t ∈ r.tests, t.Quiet printable) :
    ∃ x, parseUnittestOutput (r.log printable) = some x ∧ Recovers r.tests x := by
  apply recovers_of_balanced
  refine ⟨fun t ht hdied => (h t ht).reads_eq.trans (ended_eq_none.mpr hdied), ?_⟩
  intro b
  apply List.countP_congr
  intro t ht
  rw [(h t ht).reads_eq]

/-- The name of a method of one class. -/
def isMethod (method : Txt) : Bool :=
  method ≠ [] && method ≠ "FAILED".toList && method.all (fun c => isNameChar c && c ≠ ':') &&
    (idText method "test_adam.TestFusedAdam".toList []).all fun c => isBoundary c = false

def methodTest (method : Txt) (h : isMethod method = true) (noise : List Txt)
    (outcome : Option Outcome) : SubTest where
  id := {
    method := method
    qualname := "test_adam.TestFusedAdam".toList
    params := []
    method_ne := by
      simp only [isMethod, Bool.and_eq_true, decide_eq_true_eq] at h
      exact h.1.1.1
    method_chars := by
      simp only [isMethod, Bool.and_eq_true, decide_eq_true_eq, List.all_eq_true] at h
      exact h.1.2
    method_failed := by
      simp only [isMethod, Bool.and_eq_true, decide_eq_true_eq] at h
      exact h.1.1.2
    qualname_dot := by decide
    qualname_close := by decide
    params_ok := by simp
    line := by
      simp only [isMethod, Bool.and_eq_true, decide_eq_true_eq, List.all_eq_true] at h
      exact h.2 }
  noise := noise
  outcome := outcome

/-- A run with noise, a skipped sub-test, failures and a crash. -/
def mixed : Run where
  tests := [
    methodTest "test_fused".toList (by decide) [[], "Building extension".toList] (some .ok),
    methodTest "test_half".toList (by decide) [] (some (.skipped "no GPU".toList)),
    methodTest "test_flat".toList (by decide) [[], "tolerance exceeded".toList] (some .fail),
    methodTest "test_multi".toList (by decide) [[], "loading kernel".toList] none,
    methodTest "test_state".toList (by decide) [] (some .unexpectedSuccess)]
  closing := ["Ran 5 tests in 0.2s".toList, "FAILED (failures=2)".toList]
  distinct := by decide
  noise_ok := by
    have hforms : ∀ l ∈ [[], "Building extension".toList, "tolerance exceeded".toList,
        "loading kernel".toList], l.all (fun c => decide (isBoundary c = false)) = true ∧
          headerLine (strip l) = none ∧ ranLine (strip l) = none ∧
            failedLine (strip l) = none ∧ startLine (strip l) = none := by decide
    intro t ht l hl
    have hmem : l ∈ [[], "Building extension".toList, "tolerance exceeded".toList,
        "loading kernel".toList] := by
      simp only [List.mem_cons, List.not_mem_nil, or_false] at ht
      rcases ht with rfl | rfl | rfl | rfl | rfl <;> revert l <;> simp [methodTest]
    obtain ⟨hline, hheader, hran, hfailed, hstart⟩ := hforms l hmem
    exact ⟨forall_of_all hline, hheader, hran, hfailed, hstart⟩
  closing_ok := by
    intro l hl
    simp only [List.mem_cons, List.not_mem_nil, or_false] at hl
    rcases hl with rfl | rfl
    · exact ⟨forall_of_all (by decide), by decide, Or.inr (Or.inl (by decide)), by decide⟩
    · exact ⟨forall_of_all (by decide), by decide, Or.inr (Or.inr (Or.inl (by decide))), by decide⟩
  closing_failed := Or.inl ⟨_, .tail _ (.tail _ (.head _)), Or.inl rfl⟩

theorem quiet_mixed : ∀ t ∈ mixed.tests, t.Quiet noWord := by
  have hquiet : ∀ t ∈ mixed.tests, (∀ l ∈ t.noise.head?, ¬ BeginsOutcome l) ∧
      ∀ l ∈ t.noise.tail, ¬ LooksOutcome l := by decide
  have hreason : ∀ t ∈ mixed.tests, t.noise ≠ [] →
      ∀ reason, t.outcome ≠ some (.skipped reason) := by
    intro t ht
    simp only [mixed, List.mem_cons, List.not_mem_nil, or_false] at ht
    rcases ht with rfl | rfl | rfl | rfl | rfl <;> simp [methodTest]
  intro t ht
  obtain ⟨hfirst, hlater⟩ := hquiet t ht
  exact ⟨hfirst, hlater, fun reason ho hne => absurd ho (hreason t ht hne reason)⟩

theorem recovers_of_quiet_mixed :
    ∃ x, parseUnittestOutput (mixed.log noWord) = some x ∧ Recovers mixed.tests x :=
  recovers_of_quiet mixed quiet_mixed

theorem noiseLine_building :
    NoiseLine "Building extension ... ok, launching the kernel".toList := by
  have hforms : ∀ l ∈ ["Building extension ... ok, launching the kernel".toList],
      headerLine (strip l) = none ∧ ranLine (strip l) = none ∧ failedLine (strip l) = none ∧
        startLine (strip l) = none := by decide
  obtain ⟨hheader, hran, hfailed, hstart⟩ := hforms _ (List.mem_singleton_self _)
  exact ⟨forall_of_all (by decide), hheader, hran, hfailed, hstart⟩

/-- A sub-test in which the process dies after a line of its log. -/
def crashed : Run where
  tests := [{
    id := {
      method := "test_fused".toList
      qualname := "test_adam.TestFusedAdam.test_fused".toList
      params := []
      method_ne := by decide
      method_chars := forall_of_all (by decide)
      method_failed := by decide
      qualname_dot := by decide
      qualname_close := by decide
      params_ok := by simp
      line := forall_of_all (by decide) }
    noise := [[], "Building extension ... ok, launching the kernel".toList]
    outcome := none }]
  closing := []
  distinct := List.nodup_singleton _
  noise_ok := by
    intro t ht l hl
    rw [List.mem_singleton.mp ht] at hl
    simp only [List.mem_cons, List.not_mem_nil, or_false] at hl
    rcases hl with rfl | rfl
    · exact ⟨by simp [IsLine], by decide, by decide, by decide, by decide⟩
    · exact noiseLine_building
  closing_ok := by simp
  closing_failed := Or.inl ⟨_, List.mem_singleton_self _, Or.inr (Or.inr rfl)⟩

/-- No line of the crashed sub-test is an outcome, and it is counted as passed. -/
theorem crashed_passes :
    (∀ t ∈ crashed.tests, ∀ l ∈ t.noise, ∀ o : Outcome, strip l ≠ o.token noWord) ∧
    (∃ x, parseUnittestOutput (crashed.log noWord) = some x ∧ x.passed = 1 ∧ x.errored = 0 ∧
      x.unresolvedNames = []) ∧
    ¬ ∃ x, parseUnittestOutput (crashed.log noWord) = some x ∧ Recovers crashed.tests x := by
  have hparse : ((parseUnittestOutput (crashed.log noWord)).map fun x =>
      (x.passed, x.errored, x.unresolvedNames)) = some (1, 0, []) := by decide
  obtain ⟨x, hx, hfields⟩ := Option.map_eq_some_iff.mp hparse
  simp only [Prod.mk.injEq] at hfields
  refine ⟨?_, ⟨x, hx, hfields⟩, ?_⟩
  · intro t ht l hl o htoken
    have hfirst : l = [] ∨ (strip l).head? = some 'B' := by
      rw [List.mem_singleton.mp ht] at hl
      simp only [List.mem_cons, List.not_mem_nil, or_false] at hl
      rcases hl with rfl | rfl
      · exact Or.inl rfl
      · exact Or.inr (by decide)
    rw [htoken] at hfirst
    rcases hfirst with rfl | hfirst
    · cases o <;> cases htoken
    · cases o <;> cases hfirst
  · intro h
    obtain ⟨y, hy, hrecovers⟩ := h
    rw [hx, Option.some.injEq] at hy
    subst hy
    have hpassed := hrecovers.passed
    rw [hfields.1] at hpassed
    exact absurd hpassed (by decide)

end Apex
end RocmTests

import RocmTests.Monitored.MarkerLanguage
import RocmTests.Monitored.TransferBench

/-!
# Whether a watchdog kill is named

A workload whose command is killed prints a line about it, and its validator looks for
the mark of that line.  The RVS workloads print another line than the one that their
validator looks for.
-/

namespace RocmTests
namespace Monitored

open Text Text.Re Validation DmesgCategories
open Markers (strip)

/-! ## The memory test -/

namespace Cudamemtest

variable {e : Env}

/-- How many sub-tests the run starts. -/
def Env.started (e : Env) : Nat :=
  if e.duration < 1 then 0 else (e.loop Env.start (subTests e.includeBitFade)).ran

/-- A killed sub-test has its line in the log. -/
theorem loop_watchdog (rest : List Nat) : ∀ {s : State} {k : Nat}, s.ran ≤ k →
    k < (e.loop s rest).ran → e.rc k = 124 →
      ∃ n, Entry.watchdog n e.watchdog ∈ (e.loop s rest).log := by
  induction rest with
  | nil =>
    intro s k hle hlt _
    rw [Env.loop] at hlt
    omega
  | cons testNum rest ih =>
    intro s k hle hlt hrc
    rw [Env.loop] at hlt ⊢
    by_cases hdeadline : e.deadline ≤ e.clock s.reads
    · rw [if_pos hdeadline] at hlt
      omega
    · rw [if_neg hdeadline] at hlt ⊢
      by_cases hkilled : e.rc s.ran = 124
      · simp only [if_pos hkilled]
        exact ⟨testNum, List.mem_append_right _ (List.mem_singleton_self _)⟩
      · have hne : k ≠ s.ran := fun heq => hkilled (heq ▸ hrc)
        have hran : (e.execute s testNum).ran = s.ran + 1 := rfl
        simp only [if_neg hkilled] at hlt ⊢
        by_cases hfirst : e.rc s.ran ≠ 0 ∧ (e.execute s testNum).firstFailRc = 0
        · rw [if_pos hfirst] at hlt ⊢
          exact ih (show s.ran + 1 ≤ k by omega) hlt hrc
        · rw [if_neg hfirst] at hlt ⊢
          exact ih (by omega) hlt hrc

theorem run_watchdog {k : Nat} (hk : k < e.started) (hrc : e.rc k = 124) :
    ∃ n, Entry.watchdog n e.watchdog ∈ e.run.2 := by
  unfold Env.started at hk
  unfold Env.run
  by_cases hduration : e.duration < 1
  · rw [if_pos hduration] at hk
    omega
  · rw [if_neg hduration] at hk
    simp only [if_neg hduration]
    obtain ⟨n, hn⟩ := loop_watchdog (subTests e.includeBitFade) (Nat.zero_le k) hk hrc
    refine ⟨n, ?_⟩
    have hlog : ∀ l : List Entry, Entry.watchdog n e.watchdog ∈
        (e.loop Env.start (subTests e.includeBitFade)).log ++ l :=
      fun _ => List.mem_append_left _ hn
    split_ifs
    · exact List.mem_append_left _ (hlog _)
    · exact List.mem_append_left _ (hlog _)
    · exact hlog _

theorem watchdogText_isInfix (n : Nat) (timeout : Option Int) :
    "[cudamemtest] FAIL: watchdog timeout".toList <:+: (Entry.watchdog n timeout).text := by
  have hmark : tag ++ " FAIL: watchdog timeout — enable_test ".toList =
      "  ".toList ++ ("[cudamemtest] FAIL: watchdog timeout".toList ++
        " — enable_test ".toList) := by decide
  show _ <:+: tag ++ (Entry.watchdog n timeout).body
  unfold Entry.body
  simp only [List.append_assoc]
  rw [← List.append_assoc tag, hmark]
  generalize "[cudamemtest] FAIL: watchdog timeout".toList = mark
  generalize " — enable_test ".toList = x₁
  generalize " did not complete within --per-iter-watchdog ".toList = x₂
  generalize "s. GPU is likely wedged; stopping further sub-tests.".toList = x₃
  exact ⟨"  ".toList, x₁ ++ (showNat n ++ (x₂ ++ (showOption timeout ++ x₃))), by
    simp only [List.append_assoc]⟩

theorem log_watchdog {k : Nat} (hk : k < e.started) (hrc : e.rc k = 124) :
    "[cudamemtest] FAIL: watchdog timeout".toList <:+: log e.run.2 := by
  obtain ⟨n, hn⟩ := run_watchdog hk hrc
  obtain ⟨pre, post, hsplit⟩ := List.append_of_mem hn
  rw [log_eq, hsplit, List.flatMap_append, List.flatMap_cons]
  exact (isInfix_logged (watchdogText_isInfix n e.watchdog) (by decide) (by decide)).trans
    ⟨_, _, List.append_assoc _ _ _⟩

/-- A killed sub-test is named. -/
theorem validate_killed (alnum : Char → Bool) {k : Nat} (hk : k < e.started) (hrc : e.rc k = 124)
    (hclean : found alnum hmmWatchdog (log e.run.2) = false) :
    validateCudamemtest alnum (log e.run.2) = some ⟨watchdogMessage, true⟩ := by
  have hinfix := log_watchdog hk hrc
  have hne : log e.run.2 ≠ [] := by
    intro hnil
    rw [hnil] at hinfix
    exact absurd (List.infix_nil.mp hinfix) (by decide)
  have hfound : found alnum memtestWatchdog (log e.run.2) = true := search_lit.mpr hinfix
  unfold validateCudamemtest validateMemtest
  rw [if_neg hne, hclean, if_neg Bool.false_ne_true, if_pos hfound]

end Cudamemtest

/-! ## The GEMM sweep -/

namespace Hipblaslt

variable {alnum : Char → Bool} {e : Env}

/-- A loop keeps the log so far, counts its shapes and names the killed ones. -/
theorem loop_watchdog (alnum : Char → Bool) (e : Env) (transB : Char) (first : Bool)
    (shapes : List (Int × Int × Int × Int)) :
    ∀ s : State, s.log ⊆ (e.loop alnum transB first s shapes).log ∧
      (e.loop alnum transB first s shapes).shapeNum = s.shapeNum + shapes.length ∧
      ∀ k, s.shapeNum ≤ k → k < s.shapeNum + shapes.length → e.exitCode k = 124 →
        ∃ n g, watchdogLine n g e.watchdog ∈ (e.loop alnum transB first s shapes).log := by
  induction shapes with
  | nil =>
    intro s
    refine ⟨fun _ ht => ht, rfl, ?_⟩
    intro k hle hlt
    exact absurd hlt (by simp only [List.length_nil]; omega)
  | cons shape shapes ih =>
    intro s
    rw [Env.loop]
    obtain ⟨hlog, hnum, hkilled⟩ := ih
      { shapeNum := s.shapeNum + 1
        passed := if (e.runShape alnum (gemm transB shape) (s.shapeNum + 1)
          (first && s.shapeNum + 1 = 1)).1 then s.passed + 1 else s.passed
        failed := if (e.runShape alnum (gemm transB shape) (s.shapeNum + 1)
          (first && s.shapeNum + 1 = 1)).1 then s.failed else s.failed + 1
        log := s.log ++ (e.runShape alnum (gemm transB shape) (s.shapeNum + 1)
          (first && s.shapeNum + 1 = 1)).2 }
    refine ⟨fun t ht => hlog (List.mem_append_left _ ht), ?_, ?_⟩
    · rw [hnum, List.length_cons]
      show s.shapeNum + 1 + shapes.length = _
      omega
    · intro k hle hlt hcode
      rw [List.length_cons] at hlt
      by_cases heq : k = s.shapeNum
      · refine ⟨s.shapeNum + 1, gemm transB shape, hlog (List.mem_append_right _ ?_)⟩
        unfold Env.runShape
        rw [Nat.add_sub_cancel, ← heq, if_pos hcode]
        exact List.mem_cons_self
      · exact hkilled k (show s.shapeNum + 1 ≤ k by omega)
          (show k < s.shapeNum + 1 + shapes.length by omega) hcode

theorem run_watchdog (alnum : Char → Bool) {k : Nat} (hk : k < totalShapes)
    (hcode : e.exitCode k = 124) :
    ∃ n g, watchdogLine n g e.watchdog ∈ (e.run alnum).2 := by
  obtain ⟨_, hnum, hnn⟩ := loop_watchdog alnum e 'N' true nnShapes Env.start
  obtain ⟨hlog, _, hnt⟩ := loop_watchdog alnum e 'T' false ntShapes
    (e.loop alnum 'N' true Env.start nnShapes)
  have htotal : totalShapes = nnShapes.length + ntShapes.length := rfl
  have hstart : Env.start.shapeNum = 0 := rfl
  rw [hstart, Nat.zero_add] at hnum
  have hmem : ∃ n g, watchdogLine n g e.watchdog ∈
      (e.loop alnum 'T' false (e.loop alnum 'N' true Env.start nnShapes) ntShapes).log := by
    by_cases hfirst : k < nnShapes.length
    · obtain ⟨n, g, hmem⟩ := hnn k (Nat.zero_le k) (by omega) hcode
      exact ⟨n, g, hlog hmem⟩
    · exact hnt k (by omega) (by omega) hcode
  obtain ⟨n, g, hmem⟩ := hmem
  exact ⟨n, g, List.mem_append_left _ hmem⟩

/-- The rows can be read exactly if `csv.reader` reads each of them. -/
theorem scanRows_isSome_iff (ls : List Txt) : (scanRows alnum ls).isSome = true ↔
    ∀ line ∈ ls, isDataRow alnum line = true → (fieldsOf line).isSome = true := by
  induction ls with
  | nil => simp [scanRows]
  | cons line ls ih =>
    rw [scanRows, List.forall_mem_cons, ← ih]
    cases hrow : isDataRow alnum line with
    | false => simp
    | true =>
      cases fieldsOf line with
      | none => simp
      | some fields => cases scanRows alnum ls <;> simp

/-- A killed shape is named exactly if the rows of the log can be read. -/
theorem validate_killed {k : Nat} (hk : k < totalShapes) (hcode : e.exitCode k = 124)
    (hclean : found alnum errPat (logText (e.run alnum).2) = false) :
    validateHipblaslt alnum (logText (e.run alnum).2) = some ⟨watchdogMessage, true⟩ ↔
      ∀ line ∈ splitlines (logText (e.run alnum).2), isDataRow alnum line = true →
        (fieldsOf line).isSome = true := by
  obtain ⟨n, g, hmem⟩ := run_watchdog alnum hk hcode
  have hinfix : watchdogMark <:+: logText (e.run alnum).2 := by
    obtain ⟨pre, post, hsplit⟩ := List.append_of_mem hmem
    rw [logText_eq, hsplit, List.flatMap_append, List.flatMap_cons]
    exact (isInfix_logged (watchdogMark_isInfix n g e.watchdog) (by decide) (by decide)).trans
      ⟨_, _, List.append_assoc _ _ _⟩
  have hne : logText (e.run alnum).2 ≠ [] := by
    intro hnil
    rw [hnil] at hinfix
    exact absurd (List.infix_nil.mp hinfix) (by decide)
  have herrors : (findAll (isWordChar alnum) errPat (logText (e.run alnum).2)).length = 0 := by
    rw [findAll_eq_nil_of_search hclean]
    rfl
  rw [← scanRows_isSome_iff]
  unfold validateHipblaslt
  simp only [if_neg hne, herrors, contains_eq_true_iff.mpr hinfix]
  cases scanRows alnum (splitlines (logText (e.run alnum).2)) <;> simp

end Hipblaslt

/-! ## The bandwidth sweep -/

namespace TransferBench

variable {printable : Char → Bool} {e : Env}

/-- What is printed about a variable is a line of the harness or nothing. -/
theorem positiveEnvInt_snd (name value : Txt) (default : Int) :
    (e.positiveEnvInt printable name value default).2 = [] ∨
      (e.positiveEnvInt printable name value default).2.head? = some ' ' := by
  unfold Env.positiveEnvInt
  simp only
  by_cases hraw : strip value = []
  · rw [if_pos hraw]
    exact Or.inl rfl
  · rw [if_neg hraw]
    cases parseInt (strip value) with
    | none => exact Or.inr rfl
    | some n =>
      simp only
      split_ifs
      · exact Or.inr rfl
      · exact Or.inl rfl

theorem head?_delivered (printable : Char → Bool) (e : Env) (tbBin : Txt) :
    (e.delivered printable tbBin).head? = some ' ' := by
  have hskip : ∀ {a b : Txt}, a = [] ∨ a.head? = some ' ' → b.head? = some ' ' →
      (a ++ b).head? = some ' ' := by
    intro a b ha hb
    rcases ha with rfl | ha
    · exact hb
    · exact head_append ha
  unfold Env.delivered
  simp only [List.append_assoc]
  apply hskip (positiveEnvInt_snd _ _ _)
  apply hskip (positiveEnvInt_snd _ _ _)
  apply hskip (positiveEnvInt_snd _ _ _)
  exact head_append rfl

theorem watchdogMark_isInfix (timeout : Option Int) (log : Txt) :
    watchdogMark <:+: log ++ printed (watchdogLine timeout) := by
  unfold printed watchdogLine
  generalize " — rsweep did not complete within ".toList = x
  generalize watchdogMark = mark
  exact ⟨log ++ "  ".toList, x ++ (limitText timeout ++ ['\n']), by simp only [List.append_assoc]⟩

/-- A killed sweep is named. -/
theorem validate_killed (alnum : Char → Bool) {tbBin : Txt} (hbin : e.tbBin = some tbBin)
    (hrc : e.rc = 124) (expectedGpus : Option Int) :
    validateTransferbench alnum expectedGpus (universalNewlines (e.run printable).2) =
      some ⟨watchdogMessage, true⟩ := by
  have hrun : (e.run printable).2 =
      e.delivered printable tbBin ++ printed (watchdogLine e.watchdog) := by
    unfold Env.run
    rw [hbin]
    simp only [if_pos hrc]
  have hinfix := isInfix_universalNewlines
    (watchdogMark_isInfix e.watchdog (e.delivered printable tbBin)) (by decide) (by decide)
  have hhead : (universalNewlines (e.run printable).2).head? = some ' ' := by
    have hdelivered := head_append (v := printed (watchdogLine e.watchdog))
      (head?_delivered printable e tbBin)
    rw [hrun]
    cases hlog : e.delivered printable tbBin ++ printed (watchdogLine e.watchdog) with
    | nil =>
      rw [hlog] at hdelivered
      cases hdelivered
    | cons c log =>
      rw [hlog] at hdelivered
      rw [Option.some.inj hdelivered, universalNewlines_cons (by decide)]
      rfl
  rw [← hrun] at hinfix
  have hne : universalNewlines (e.run printable).2 ≠ [] := by
    intro hnil
    rw [hnil] at hhead
    cases hhead
  have hread : startsWith (universalNewlines (e.run printable).2) readFailed = false := by
    rw [Bool.eq_false_iff]
    intro hprefix
    obtain ⟨q, hq⟩ := List.isPrefixOf_iff_prefix.mp hprefix
    have hfirst : (readFailed ++ q).head? = some '_' := head_append (by decide)
    rw [hq, hhead] at hfirst
    exact absurd hfirst (by decide)
  unfold validateTransferbench
  rw [if_neg hne, hread, if_neg Bool.false_ne_true, if_pos (contains_eq_true_iff.mpr hinfix)]

end TransferBench

/-! ## The RVS workloads -/

namespace Rvs

/-- What the validator looks for. -/
def Module.mark : Module → Txt
  | .ietStress => "[rvs_iet_stress] FAIL: watchdog timeout".toList
  | .tst => "[rvs_tst] FAIL: watchdog timeout".toList

/-- The text holds a mark that the validator looks for. -/
def Names (text : Txt) : Prop := ∃ m : Module, m.mark <:+: text

theorem mark_ietStress : Module.mark .ietStress =
    "[rvs_".toList ++ ("iet_stress".toList ++ "] FAIL: watchdog timeout".toList) := by decide

theorem mark_tst : Module.mark .tst =
    "[rvs_".toList ++ ("tst".toList ++ "] FAIL: watchdog timeout".toList) := by decide

theorem search_watchdogPattern (isWord : Char → Bool) {text : Txt} :
    search isWord watchdogPattern text = true ↔ Names text := by
  rw [search_iff_matches]
  unfold watchdogPattern
  constructor
  · intro h
    obtain ⟨u, m, v, htext, hm⟩ := h
    obtain ⟨a, m₁, rfl, ha, hm⟩ := matches_cat_cons.mp hm
    obtain ⟨b, c, rfl, hb, hc⟩ := matches_cat_cons.mp hm
    obtain ⟨r, hr, hb⟩ := matches_alts.mp hb
    rw [matches_lit.mp ha, matches_lit.mp hc] at htext
    simp only [List.mem_cons, List.not_mem_nil, or_false] at hr
    rcases hr with rfl | rfl
    · rw [matches_lit.mp hb, ← mark_ietStress] at htext
      exact ⟨.ietStress, u, v, by rw [htext, List.append_assoc]⟩
    · rw [matches_lit.mp hb, ← mark_tst] at htext
      exact ⟨.tst, u, v, by rw [htext, List.append_assoc]⟩
  · intro h
    obtain ⟨m, u, v, htext⟩ := h
    refine ⟨u, m.mark, v, by rw [← htext, List.append_assoc], ?_⟩
    cases m with
    | ietStress =>
      rw [mark_ietStress]
      exact matches_cat_cons.mpr ⟨_, _, rfl, matches_lit.mpr rfl, matches_cat_cons.mpr
        ⟨_, _, rfl, matches_alts.mpr ⟨lit "iet_stress", by simp, matches_lit.mpr rfl⟩,
          matches_lit.mpr rfl⟩⟩
    | tst =>
      rw [mark_tst]
      exact matches_cat_cons.mpr ⟨_, _, rfl, matches_lit.mpr rfl, matches_cat_cons.mpr
        ⟨_, _, rfl, matches_alts.mpr ⟨lit "tst", by simp, matches_lit.mpr rfl⟩,
          matches_lit.mpr rfl⟩⟩

/-! ### No other message is the watchdog's -/

theorem ne_watchdog {message : Txt} {c : Char} (h : message.head? = some c) (hc : c ≠ 'w') :
    (⟨message, true⟩ : ValidationResult) ≠ ⟨watchdogMessage, true⟩ := by
  intro heq
  rw [(ValidationResult.mk.inj heq).1] at h
  exact hc (Option.some.inj h).symm

theorem pass_ne {message : Txt} :
    (⟨message, false⟩ : ValidationResult) ≠ ⟨watchdogMessage, true⟩ := by
  intro heq
  exact Bool.false_ne_true (ValidationResult.mk.inj heq).2

theorem checkIdentities_ne (printable : Char → Bool) (ids : List (Txt × Txt)) (total : Nat)
    (gpus checksPerGpu : Int) (actions : Option (Finset Txt)) :
    checkIdentities printable ids total gpus checksPerGpu actions ≠
      some ⟨watchdogMessage, true⟩ := by
  have hmessage : ∀ {message : Txt} {c : Char}, message.head? = some c → c ≠ 'w' →
      some (⟨message, true⟩ : ValidationResult) ≠ some ⟨watchdogMessage, true⟩ :=
    fun h hc heq => ne_watchdog h hc (Option.some.inj heq)
  unfold checkIdentities
  simp only
  by_cases hlength : ids.length ≠ total
  · rw [if_pos hlength]
    exact hmessage (c := 'i') rfl (by decide)
  rw [if_neg hlength]
  by_cases hdup : ¬ ids.Nodup
  · rw [if_pos hdup]
    exact hmessage (c := 'd') rfl (by decide)
  rw [if_neg hdup]
  cases actions.filter fun expected => (ids.map Prod.fst).toFinset ≠ expected with
  | some expected => exact hmessage (c := 'u') rfl (by decide)
  | none =>
    simp only
    split_ifs
    · exact hmessage (c := 'i') rfl (by decide)
    · exact hmessage (c := 'i') rfl (by decide)
    · intro heq
      cases heq

theorem checkResults_ne (alnum printable : Char → Bool) (x : Expected) (text : Txt)
    (trueCount falseCount : Nat) :
    checkResults alnum printable x text trueCount falseCount ≠ ⟨watchdogMessage, true⟩ := by
  unfold checkResults
  simp only
  by_cases hfalse : 0 < falseCount
  · rw [if_pos hfalse]
    obtain ⟨c, hc, hdecimal, _⟩ := Cudamemtest.head_showNat falseCount
    have hw : c ≠ 'w' := by
      rintro rfl
      exact absurd hdecimal (by decide)
    exact ne_watchdog (head_append (head_append hc)) hw
  rw [if_neg hfalse]
  cases x.checks.filter fun n => ((trueCount + falseCount : Nat) : Int) ≠ n with
  | some n => exact ne_watchdog (c := 'i') rfl (by decide)
  | none =>
    simp only
    cases x.gpus with
    | none => exact pass_ne
    | some gpus =>
      cases x.checksPerGpu with
      | none => exact pass_ne
      | some checksPerGpu =>
        simp only
        have hne := checkIdentities_ne printable (identities alnum text) (trueCount + falseCount)
          gpus checksPerGpu x.actions
        cases hcheck : checkIdentities printable (identities alnum text) (trueCount + falseCount)
            gpus checksPerGpu x.actions with
        | none => exact pass_ne
        | some result =>
          rw [hcheck] at hne
          exact fun heq => hne (congrArg some heq)

/-- The validator names the watchdog exactly if it finds one of its marks. -/
theorem validateRvs_watchdog (alnum printable : Char → Bool) (x : Expected) (text : Txt) :
    validateRvs alnum printable x text = ⟨watchdogMessage, true⟩ ↔ Names text := by
  rw [← search_watchdogPattern (isWordChar alnum)]
  unfold validateRvs
  by_cases hempty : text = []
  · rw [if_pos hempty, hempty]
    apply iff_of_false (ne_watchdog (c := 'n') rfl (by decide))
    rw [search_watchdogPattern]
    intro h
    obtain ⟨m, hm⟩ := h
    have hnil := List.infix_nil.mp hm
    cases m <;> exact absurd hnil (by decide)
  rw [if_neg hempty]
  by_cases hmark : search (isWordChar alnum) watchdogPattern text = true
  · rw [if_pos hmark]
    exact iff_of_true rfl hmark
  rw [if_neg hmark]
  refine iff_of_false ?_ hmark
  simp only
  split_ifs
  · exact ne_watchdog (c := 'A') rfl (by decide)
  · exact checkResults_ne alnum printable x text _ _
  · exact ne_watchdog (c := 'n') rfl (by decide)

/-! ### The line that is printed -/

theorem mark_cons (m : Module) : ∃ rest, m.mark = '[' :: rest := by
  cases m
  · exact ⟨_, rfl⟩
  · exact ⟨_, rfl⟩

theorem not_mem_name (m : Module) : '[' ∉ m.name := by
  cases m
  · decide
  · decide

theorem not_mem_limitText (watchdog : Option Int) : '[' ∉ limitText watchdog := by
  intro hmem
  cases watchdog with
  | none =>
    have hdefault : '[' ∉ limitText none := by decide
    exact hdefault hmem
  | some n =>
    rcases List.mem_append.mp hmem with hmem | hmem
    · rcases List.mem_append.mp hmem with hmem | hmem
      · have hoption : '[' ∉ "--per-iter-watchdog ".toList := by decide
        exact hoption hmem
      · exact Cudamemtest.not_mem_of_plain (Cudamemtest.plain_showInt n) hmem
    · exact absurd (List.mem_singleton.mp hmem) (by decide)

/-- The line about the timeout holds no mark. -/
theorem not_isInfix_timeoutLine (m m' : Module) (watchdog : Option Int) :
    ¬ m.mark <:+: timeoutLine m'.name watchdog := by
  intro h
  let rest : Txt := m'.name ++ ("] FAIL: timeout — RVS did not complete within ".toList ++
    limitText watchdog)
  have hline : timeoutLine m'.name watchdog = "  ".toList ++ ('[' :: rest) := by
    show "  [".toList ++ _ ++ _ ++ _ = "  [".toList ++ (_ ++ (_ ++ _))
    simp only [List.append_assoc]
  obtain ⟨w, hw⟩ := mark_cons m
  rw [hline, hw] at h
  have hrest : '[' ∉ rest := by
    intro hmem
    rcases List.mem_append.mp hmem with hmem | hmem
    · exact not_mem_name m' hmem
    rcases List.mem_append.mp hmem with hmem | hmem
    · have htext : '[' ∉ "] FAIL: timeout — RVS did not complete within ".toList := by decide
      exact htext hmem
    · exact not_mem_limitText watchdog hmem
  rcases List.infix_cons_iff.mp (infix_of_not_mem h (by decide)) with hpre | hrun
  · -- both say `FAIL`, and then the mark says `watchdog` and the line says `timeout`
    obtain ⟨q, hq⟩ := hpre
    rw [← hw] at hq
    have hfixed : '[' :: rest = ('[' :: m'.name ++
        "] FAIL: timeout — RVS did not complete within ".toList) ++ limitText watchdog := by
      simp only [rest, List.cons_append, List.append_assoc]
    rw [hfixed] at hq
    have htake := Cudamemtest.take_eq_of_append_eq (n := 24) hq (by cases m <;> decide)
      (by cases m' <;> decide)
    revert htake
    cases m <;> cases m' <;> decide
  · exact hrest (hrun.subset List.mem_cons_self)

/-- No mark reaches from the text before it into the line about the timeout. -/
theorem isInfix_of_timeoutLine {m m' : Module} {watchdog : Option Int} {text : Txt}
    (h : m.mark <:+: text ++ timeoutLine m'.name watchdog) : m.mark <:+: text := by
  rcases infix_append_cases h with h | h | ⟨a, b, hab, ha, hb⟩
  · exact h
  · exact absurd h (not_isInfix_timeoutLine m m' watchdog)
  · -- the line begins with two spaces, which no mark holds
    have hline : ∃ rest, timeoutLine m'.name watchdog = ' ' :: ' ' :: rest := ⟨_, rfl⟩
    obtain ⟨rest, hline⟩ := hline
    rw [hline] at hb
    rcases List.prefix_cons_iff.mp hb with rfl | ⟨b', rfl, hb'⟩
    · rw [hab, List.append_nil]
      exact ha.isInfix
    · exfalso
      rcases List.prefix_cons_iff.mp hb' with rfl | ⟨b'', rfl, _⟩
      · have hlast : m.mark.getLast? = some ' ' := by rw [hab, List.getLast?_concat]
        revert hlast
        cases m <;> decide
      · have hspaces : [' ', ' '] <:+: m.mark := ⟨a, b'', by rw [hab, List.append_assoc]; rfl⟩
        have hcontains := contains_eq_true_iff.mpr hspaces
        revert hcontains
        cases m <;> decide

theorem not_mem_mark (m : Module) : '\r' ∉ m.mark ∧ '\n' ∉ m.mark := by
  cases m
  · exact ⟨by decide, by decide⟩
  · exact ⟨by decide, by decide⟩

variable {e : Env}

theorem run_killed {rvsBin : Txt} (m : Module) (hbin : e.rvsBin = some rvsBin) (hconf : e.conf ≠ [])
    (hrc : e.rc = 124) : (e.run m).2 = printed (usingLine e.conf) ++ e.delivered ++
      printed (timeoutLine m.name e.watchdog) := by
  unfold Env.run
  rw [hbin]
  simp only [if_neg hconf, if_pos hrc]

/-- The log of a killed run holds a mark only if one was there before the line that
the run prints. -/
theorem names_log (m : Module) {rvsBin : Txt} (hbin : e.rvsBin = some rvsBin)
    (hconf : e.conf ≠ []) (hrc : e.rc = 124) :
    Names (universalNewlines (e.run m).2) ↔ Names e.conf ∨ Names e.delivered := by
  rw [run_killed m hbin hconf hrc]
  constructor
  · intro h
    obtain ⟨m', h⟩ := h
    have hraw := isInfix_of_universalNewlines h (not_mem_mark m').2
    have hsplit : printed (usingLine e.conf) ++ e.delivered ++
        printed (timeoutLine m.name e.watchdog) = usingLine e.conf ++
          '\n' :: (e.delivered ++ timeoutLine m.name e.watchdog ++ '\n' :: []) := by
      simp only [printed, List.append_assoc, List.cons_append, List.nil_append]
    rw [hsplit] at hraw
    obtain ⟨w, hw⟩ := mark_cons m'
    rcases infix_of_newline hraw (not_mem_mark m').2 with hraw | hraw
    · rw [hw] at hraw
      have hinfix := infix_of_not_mem hraw (by decide)
      rw [← hw] at hinfix
      exact Or.inl ⟨m', hinfix⟩
    · rcases infix_of_newline hraw (not_mem_mark m').2 with hraw | hraw
      · exact Or.inr ⟨m', isInfix_of_timeoutLine hraw⟩
      · rw [hw] at hraw
        exact absurd (List.infix_nil.mp hraw) (List.cons_ne_nil _ _)
  · generalize printed (timeoutLine m.name e.watchdog) = line
    have hkeep : ∀ {t : Txt}, Names t → t <:+: printed (usingLine e.conf) ++ e.delivered ++ line →
        Names (universalNewlines (printed (usingLine e.conf) ++ e.delivered ++ line)) := by
      intro t h ht
      obtain ⟨m', h⟩ := h
      exact ⟨m', isInfix_universalNewlines (h.trans ht) (not_mem_mark m').1 (not_mem_mark m').2⟩
    intro h
    rcases h with h | h
    · have hconfig : e.conf <:+: usingLine e.conf := (List.suffix_append _ _).isInfix
      have hprinted : usingLine e.conf <:+: printed (usingLine e.conf) ++ (e.delivered ++ line) :=
        ((List.prefix_append _ _).trans (List.prefix_append _ _)).isInfix
      rw [← List.append_assoc] at hprinted
      exact hkeep h (hconfig.trans hprinted)
    · exact hkeep h (List.infix_append _ _ _)

end Rvs

/-! ## All workloads -/

/-- A run of a workload, with what its validator is told to expect. -/
inductive Workload where
  | cudamemtest (e : Cudamemtest.Env)
  | hipblasltBench (e : Hipblaslt.Env)
  | transferbench (e : TransferBench.Env) (expectedGpus : Option Int)
  | rvs (m : Rvs.Module) (e : Rvs.Env) (x : Rvs.Expected)

namespace Workload

variable (alnum printable : Char → Bool)

/-- The console log, as the validator reads it. -/
def log : Workload → Txt
  | cudamemtest e => Cudamemtest.log e.run.2
  | hipblasltBench e => logText (e.run alnum).2
  | transferbench e _ => universalNewlines (e.run printable).2
  | rvs m e _ => universalNewlines (e.run m).2

/-- The answer of layer 2.  `none` is an exception. -/
def validate (w : Workload) : Option ValidationResult :=
  match w with
  | cudamemtest _ => Cudamemtest.validateCudamemtest alnum (w.log alnum printable)
  | hipblasltBench _ => Hipblaslt.validateHipblaslt alnum (w.log alnum printable)
  | transferbench _ gpus =>
    TransferBench.validateTransferbench alnum gpus (w.log alnum printable)
  | rvs _ _ x => some (Rvs.validateRvs alnum printable x (w.log alnum printable))

def watchdogMessage : Workload → Txt
  | cudamemtest _ => Cudamemtest.watchdogMessage
  | hipblasltBench _ => Hipblaslt.watchdogMessage
  | transferbench _ _ => TransferBench.watchdogMessage
  | rvs _ _ _ => Rvs.watchdogMessage

/-- A command that the run starts returns 124. -/
def Killed : Workload → Prop
  | cudamemtest e => ∃ k < e.started, e.rc k = 124
  | hipblasltBench e => ∃ k < Hipblaslt.totalShapes, e.exitCode k = 124
  | transferbench e _ => (∃ tbBin, e.tbBin = some tbBin) ∧ e.rc = 124
  | rvs _ e _ => (∃ rvsBin, e.rvsBin = some rvsBin) ∧ e.conf ≠ [] ∧ e.rc = 124

/-- The log has none of the patterns that the validator looks for first. -/
def FreeOfOtherErrors (w : Workload) : Prop :=
  match w with
  | cudamemtest _ => found alnum Cudamemtest.hmmWatchdog (w.log alnum printable) = false
  | hipblasltBench _ => found alnum Hipblaslt.errPat (w.log alnum printable) = false
  | transferbench _ _ => True
  | rvs _ _ _ => True

/-- What it takes for the kill to be named.  `csv.reader` fails on a result row only if
a field of it is too long. -/
def KillReadable (w : Workload) : Prop :=
  match w with
  | cudamemtest _ => True
  | hipblasltBench _ => ∀ line ∈ splitlines (w.log alnum printable),
      Hipblaslt.isDataRow alnum line = true → (Hipblaslt.fieldsOf line).isSome = true
  | transferbench _ _ => True
  | rvs _ e _ => Rvs.Names e.conf ∨ Rvs.Names e.delivered

/-- A kill is named by all workloads but those of RVS, unless a result row of the GEMM
sweep cannot be read.  The log of an RVS workload names it only if the mark comes from
somewhere else. -/
theorem killed_named_iff {w : Workload} (hkilled : w.Killed)
    (hfree : w.FreeOfOtherErrors alnum printable) :
    w.validate alnum printable = some ⟨w.watchdogMessage, true⟩ ↔
      w.KillReadable alnum printable := by
  cases w with
  | cudamemtest e =>
    simp only [validate, log, watchdogMessage, KillReadable, iff_true]
    simp only [FreeOfOtherErrors, log] at hfree
    obtain ⟨k, hk, hrc⟩ := hkilled
    exact Cudamemtest.validate_killed alnum hk hrc hfree
  | hipblasltBench e =>
    simp only [validate, log, watchdogMessage, KillReadable]
    simp only [FreeOfOtherErrors, log] at hfree
    obtain ⟨k, hk, hcode⟩ := hkilled
    exact Hipblaslt.validate_killed hk hcode hfree
  | transferbench e gpus =>
    simp only [validate, log, watchdogMessage, KillReadable, iff_true]
    obtain ⟨⟨tbBin, hbin⟩, hrc⟩ := hkilled
    exact TransferBench.validate_killed alnum hbin hrc gpus
  | rvs m e x =>
    simp only [validate, log, watchdogMessage, KillReadable, Option.some.injEq]
    obtain ⟨⟨rvsBin, hbin⟩, hconf, hrc⟩ := hkilled
    rw [Rvs.validateRvs_watchdog, Rvs.names_log m hbin hconf hrc]

/-- One GPU reported, then the tool hung until the ceiling. -/
def hungRvs : Workload :=
  rvs .ietStress
    { rvsBin := some "/opt/rocm/bin/rvs".toList
      conf := "/opt/rocm/share/rocm-validation-suite/conf/iet_stress.conf".toList
      perIterWatchdog := 0
      rc := 124
      delivered := "[RESULT] [ 412.8] [action_1] [GPU:: 7217] pass: TRUE\n".toList }
    { checks := some 1, gpus := some 1, checksPerGpu := some 1 }

theorem killed_named_iff_hungRvs :
    hungRvs.validate asciiOnly asciiOnly = some ⟨hungRvs.watchdogMessage, true⟩ ↔
      hungRvs.KillReadable asciiOnly asciiOnly :=
  killed_named_iff asciiOnly asciiOnly ⟨⟨_, rfl⟩, by decide, rfl⟩ trivial

/-- The log of the hung run has no error of the tool and is accepted. -/
theorem hungRvs_accepted :
    hungRvs.Killed ∧ hungRvs.FreeOfOtherErrors asciiOnly asciiOnly ∧
      found asciiOnly Rvs.abortPattern (hungRvs.log asciiOnly asciiOnly) = false ∧
      found asciiOnly Rvs.falsePattern (hungRvs.log asciiOnly asciiOnly) = false ∧
      hungRvs.validate asciiOnly asciiOnly =
        some ⟨"PASS (1/1 GPU checks passed)".toList, false⟩ := by
  have hpatterns : found asciiOnly Rvs.abortPattern (hungRvs.log asciiOnly asciiOnly) = false ∧
      found asciiOnly Rvs.falsePattern (hungRvs.log asciiOnly asciiOnly) = false := by
    decide +kernel
  exact ⟨⟨⟨_, rfl⟩, by decide, rfl⟩, trivial, hpatterns.1, hpatterns.2, by decide +kernel⟩

end Workload
end Monitored
end RocmTests

import RocmTests.Monitored.Cudamemtest
import RocmTests.Text.RegexMatch

/-!
# Reading the memory test's log

What the patterns of the validator find in a log of harness lines and command
output, provided the output does not hold the harness's marks: the lines about
ended sub-tests come back with their numbers, the coverage line comes back, and the
watchdog line is found exactly if it was written.
-/

namespace RocmTests
namespace Monitored
namespace Cudamemtest

open Text Text.Re Validation DmesgCategories
open Markers (digitValue isSpace)

/-! ## Harness lines -/

def mark : Txt := "[cudamemtest]".toList

def hmmMark : Txt := "[hmm_memtest]".toList

/-- Neither a line end nor a bracket that could begin a mark. -/
def plainChar (c : Char) : Bool := c ≠ '\r' && c ≠ '\n' && c ≠ '['

def Plain (t : Txt) : Prop := ∀ c ∈ t, plainChar c = true

theorem Plain.append {a b : Txt} (ha : Plain a) (hb : Plain b) : Plain (a ++ b) := by
  intro c hc
  rcases List.mem_append.mp hc with hc | hc
  · exact ha c hc
  · exact hb c hc

theorem plain_of_isDigit {c : Char} (h : c.isDigit = true) : plainChar c = true := by
  obtain ⟨hlow, hhigh⟩ := toNat_of_isDigit h
  unfold plainChar
  simp only [ne_eq, Bool.and_eq_true, decide_eq_true_eq]
  refine ⟨⟨?_, ?_⟩, ?_⟩
  · rintro rfl
    revert hlow
    decide
  · rintro rfl
    revert hlow
    decide
  · rintro rfl
    revert hhigh
    decide

theorem plain_showNat (n : Nat) : Plain (showNat n) :=
  fun _ hc => plain_of_isDigit (isDigit_of_mem_showNat hc)

theorem plain_showInt (n : Int) : Plain (showInt n) := by
  cases n with
  | ofNat n => exact plain_showNat n
  | negSucc n =>
    have hminus : Plain ['-'] := forall_of_all (by decide)
    exact hminus.append (plain_showNat (n + 1))

theorem plain_showOption (n : Option Int) : Plain (showOption n) := by
  cases n with
  | none => exact forall_of_all (by decide)
  | some n => exact plain_showInt n

theorem plain_showTenths (q : ℚ) : Plain (showTenths q) := by
  have hsign : Plain (if q < 0 then ['-'] else []) := by
    split_ifs
    · exact forall_of_all (by decide)
    · exact forall_of_all (by decide)
  have hdot : Plain ['.'] := forall_of_all (by decide)
  exact (hsign.append (plain_showNat _)).append (hdot.append (plain_showNat _))

theorem plain_joinSpace {ts : List Txt} (h : ∀ t ∈ ts, Plain t) : Plain (joinSpace ts) := by
  induction ts with
  | nil => intro c hc; cases hc
  | cons t ts ih =>
    cases ts with
    | nil => exact h t List.mem_cons_self
    | cons t' ts =>
      have hspace : Plain [' '] := forall_of_all (by decide)
      exact (h t List.mem_cons_self).append
        (hspace.append (ih fun x hx => h x (List.mem_cons_of_mem _ hx)))

theorem plain_body (l : Entry) : Plain l.body := by
  cases l with
  | output t => intro c hc; cases hc
  | finished n d rc =>
    have h₁ : Plain " enable_test ".toList := forall_of_all (by decide)
    have h₂ : Plain " finished in ".toList := forall_of_all (by decide)
    have h₃ : Plain "s (rc=".toList := forall_of_all (by decide)
    have h₄ : Plain [')'] := forall_of_all (by decide)
    exact (((((h₁.append (plain_showNat n)).append h₂).append (plain_showTenths d)).append
      h₃).append (plain_showInt rc)).append h₄
  | watchdog n timeout =>
    have h₁ : Plain " FAIL: watchdog timeout — enable_test ".toList := forall_of_all (by decide)
    have h₂ : Plain " did not complete within --per-iter-watchdog ".toList :=
      forall_of_all (by decide)
    have h₃ : Plain "s. GPU is likely wedged; stopping further sub-tests.".toList :=
      forall_of_all (by decide)
    exact (((h₁.append (plain_showNat n)).append h₂).append (plain_showOption timeout)).append h₃
  | exited n rc =>
    have h₁ : Plain " enable_test ".toList := forall_of_all (by decide)
    have h₂ : Plain " exited rc=".toList := forall_of_all (by decide)
    have h₃ : Plain " — continuing remaining sub-tests".toList := forall_of_all (by decide)
    exact (((h₁.append (plain_showNat n)).append h₂).append (plain_showInt rc)).append h₃
  | coverage ran total rc =>
    have h₁ : Plain " Ran ".toList := forall_of_all (by decide)
    have h₂ : Plain ['/'] := forall_of_all (by decide)
    have h₃ : Plain " sub-test(s), first_fail_rc=".toList := forall_of_all (by decide)
    exact (((h₁.append (plain_showNat ran)).append (h₂.append (plain_showNat total))).append
      h₃).append (plain_showInt rc)
  | incomplete ran total missing duration =>
    have h₁ : Plain " FAIL: incomplete coverage — ".toList := forall_of_all (by decide)
    have h₂ : Plain " of ".toList := forall_of_all (by decide)
    have h₃ : Plain " required sub-tests ran; ".toList := forall_of_all (by decide)
    have h₄ : Plain " never started within --memtest-duration ".toList := forall_of_all (by decide)
    have h₅ : Plain
        "s. Raise --memtest-duration or lower the footprint with --memtest-blocks.".toList :=
      forall_of_all (by decide)
    have hmissing : Plain (joinSpace (missing.map showNat)) := by
      apply plain_joinSpace
      intro t ht
      obtain ⟨n, _, rfl⟩ := List.mem_map.mp ht
      exact plain_showNat n
    exact (((((((h₁.append (plain_showNat ran)).append h₂).append (plain_showNat total)).append
      h₃).append hmissing).append h₄).append (plain_showInt duration)).append h₅

theorem text_eq {l : Entry} (h : l.isOutput = false) : l.text = tag ++ l.body := by
  cases l with
  | output t => cases h
  | _ => rfl

/-- How a harness line stands in the log: two spaces, the mark, the body, and the
end of the line. -/
theorem logged_harness {l : Entry} (h : l.isOutput = false) :
    logged l.text = [' ', ' '] ++ (mark ++ (l.body ++ ['\n'])) := by
  have htag : tag = [' ', ' '] ++ mark := by decide
  have hends : ∀ c ∈ l.text, c ≠ '\r' ∧ c ≠ '\n' := by
    intro c hc
    rw [text_eq h] at hc
    rcases List.mem_append.mp hc with hc | hc
    · have htagEnds : ∀ c ∈ tag, c ≠ '\r' ∧ c ≠ '\n' := forall_of_all (by decide)
      exact htagEnds c hc
    · have hplain := plain_body l c hc
      simp only [plainChar, ne_eq, Bool.and_eq_true, decide_eq_true_eq] at hplain
      exact hplain.1
  have hne : l.text ≠ [] := by
    rw [text_eq h, htag]
    simp
  rw [logged_line hne (fun hr => (hends _ hr).1 rfl) (fun hn => (hends _ hn).2 rfl), text_eq h,
    htag]
  simp only [List.append_assoc]

/-! ## Where the mark stands -/

/-- The output of a command does not hold a mark of the harness. -/
def Unmarked (output : Txt) : Prop :=
  contains mark (logged output) = false ∧ contains hmmMark (logged output) = false

/-- The output in a log is unmarked, and no sub-test took negative time. -/
def Entry.Ok : Entry → Prop
  | .output text => Unmarked text
  | .finished _ iterDur _ => 0 ≤ iterDur
  | _ => True

def log (entries : List Entry) : Txt := logText (entries.map Entry.text)

theorem log_eq (entries : List Entry) : log entries = entries.flatMap fun l => logged l.text := by
  unfold log
  rw [logText_eq, List.flatMap_map]

variable {isWord : Char → Bool}

theorem beginsWith_mark (rs : List Re) :
    BeginsWith isWord (cat (lit "[cudamemtest]" :: rs)) mark :=
  (beginsWith_lit "[cudamemtest]").cat rs

theorem mark_cons : mark = '[' :: mark.tail := by decide

theorem quiet_output {r : Re} {s output b y : Txt} (h : BeginsWith isWord r s)
    (hout : contains s (logged output) = false) (hs : '\n' ∉ s) :
    Quiet isWord r b (logged output) y := by
  refine h.quiet_of_not_infix ?_ (endsLine_logged output) hs
  intro hinfix
  rw [contains_eq_true_iff.mpr hinfix] at hout
  cases hout

theorem not_mem_of_plain {t : Txt} (h : Plain t) : '[' ∉ t := by
  intro hmem
  have hc := h _ hmem
  revert hc
  decide

/-- In a harness line, a match of a pattern that begins with a bracket can begin at
the mark only. -/
theorem quiet_harness {r : Re} {s : Txt} {l : Entry} {b y : Txt}
    (h : BeginsWith isWord r ('[' :: s)) (hl : l.isOutput = false)
    (hnone : matchAt isWord r ⟨[' ', ' '] ++ b, mark ++ (l.body ++ ['\n']) ++ y⟩ = none) :
    Quiet isWord r b (logged l.text) y := by
  rw [logged_harness hl]
  apply Quiet.append
  · exact h.quiet_of_not_mem (by decide)
  · -- at the mark, and nowhere behind its first character
    have hrest : '[' ∉ mark.tail ++ (l.body ++ ['\n']) := by
      rw [List.mem_append, List.mem_append, not_or, not_or]
      exact ⟨by decide, not_mem_of_plain (plain_body l), by decide⟩
    have hsplit : mark ++ (l.body ++ ['\n']) = ['['] ++ (mark.tail ++ (l.body ++ ['\n'])) := by
      conv_lhs => rw [mark_cons]
      rfl
    rw [hsplit]
    apply Quiet.append
    · intro u w huw hw
      cases u with
      | nil =>
        rw [List.nil_append] at huw
        rw [hsplit, List.append_assoc] at hnone
        rw [← huw]
        exact hnone
      | cons c u =>
        rw [List.cons_append, List.cons.injEq] at huw
        exact absurd (List.append_eq_nil_iff.mp huw.2.symm).2 hw
    · exact h.quiet_of_not_mem hrest

theorem quiet_log {r : Re} {entries : List Entry}
    (h : ∀ l ∈ entries, ∀ b y : Txt, Quiet isWord r b (logged l.text) y) :
    ∀ b y : Txt, Quiet isWord r b (entries.flatMap fun l => logged l.text) y := by
  induction entries with
  | nil =>
    intro b y u w huw hw
    exact absurd (List.append_eq_nil_iff.mp huw.symm).2 hw
  | cons l entries ih =>
    intro b y
    rw [List.flatMap_cons]
    exact (h l List.mem_cons_self _ _).append
      (ih (fun l' hl' => h l' (List.mem_cons_of_mem _ hl')) _ _)

/-! ## Ended sub-tests -/

theorem isDecimal_of_isDigit {c : Char} (h : c.isDigit = true) : isDecimal c = true := by
  unfold isDecimal
  rw [digitValue_of_isDigit h]
  rfl

theorem isDecimal_of_mem_showNat {n : Nat} {c : Char} (h : c ∈ showNat n) :
    isDecimal c = true := isDecimal_of_isDigit (isDigit_of_mem_showNat h)

theorem mem_showTenths {q : ℚ} (hq : 0 ≤ q) {c : Char} (h : c ∈ showTenths q) :
    (isDecimal c || c = '.') = true := by
  have hsign : ¬ q < 0 := not_lt.mpr hq
  simp only [showTenths, if_neg hsign, List.nil_append, List.mem_append, List.mem_cons] at h
  rcases h with h | h | h
  · rw [isDecimal_of_mem_showNat h]
    rfl
  · rw [h]
    rfl
  · rw [isDecimal_of_mem_showNat h]
    rfl

theorem showTenths_ne_nil (q : ℚ) : showTenths q ≠ [] := by
  unfold showTenths
  simp

/-- A sign and digits. -/
theorem takes_showInt (n : Int) {b v : Txt} (hv : ∀ c, v.head? = some c → isDecimal c = false) :
    Takes isWord (cat [opt (lit "-"), plus isDecimal]) b (showInt n) v [] := by
  cases n with
  | ofNat n =>
    have hnone : matchAt isWord (lit "-") ⟨b, [] ++ (showNat n ++ v)⟩ = none := by
      rw [matchAt_eq_none_iff]
      intro m w hmw hm
      rw [matches_lit.mp hm] at hmw
      cases hd : showNat n with
      | nil => exact showNat_ne_nil n hd
      | cons c cs =>
        rw [hd, List.nil_append, List.cons_append] at hmw
        have hc : c = '-' := (List.cons.inj hmw).1
        have hdigit := isDigit_of_mem_showNat (n := n) (hd ▸ List.mem_cons_self)
        rw [hc] at hdigit
        revert hdigit
        decide
    have hplus : Takes isWord (plus isDecimal) b (showNat n) v [] :=
      takes_plus (showNat_ne_nil n) (fun _ hc => isDecimal_of_mem_showNat hc) hv
    exact (takes_eps.alt_right hnone).cat_cons hplus
  | negSucc n =>
    have hminus : Takes isWord (lit "-") b ['-'] (showNat (n + 1) ++ v) [] := takes_lit "-"
    have hplus : Takes isWord (plus isDecimal) ('-' :: b) (showNat (n + 1)) v [] :=
      takes_plus (showNat_ne_nil _) (fun _ hc => isDecimal_of_mem_showNat hc) hv
    exact hminus.alt_left.cat_cons hplus

theorem head_showNat (n : Nat) : ∃ c, (showNat n).head? = some c ∧ isDecimal c = true ∧
    isSpace c = false := by
  cases hd : showNat n with
  | nil => exact absurd hd (showNat_ne_nil n)
  | cons c cs =>
    have hdigit := isDigit_of_mem_showNat (n := n) (hd ▸ List.mem_cons_self)
    exact ⟨c, rfl, isDecimal_of_isDigit hdigit, isSpace_of_isDigit hdigit⟩

theorem body_finished (n : Nat) (d : ℚ) (rc : Int) : (Entry.finished n d rc).body =
    [' '] ++ ("enable_test".toList ++ ([' '] ++ (showNat n ++ ([' '] ++ ("finished".toList ++
      ([' '] ++ ("in".toList ++ ([' '] ++ (showTenths d ++ ("s".toList ++ ([' '] ++
        ("(rc=".toList ++ (showInt rc ++ ")".toList))))))))))))) := by
  have h₁ : " enable_test ".toList = [' '] ++ ("enable_test".toList ++ [' ']) := by decide
  have h₂ : " finished in ".toList =
      [' '] ++ ("finished".toList ++ ([' '] ++ ("in".toList ++ [' ']))) := by decide
  have h₃ : "s (rc=".toList = "s".toList ++ ([' '] ++ "(rc=".toList) := by decide
  have h₄ : [')'] = ")".toList := by decide
  unfold Entry.body
  rw [h₁, h₂, h₃, h₄]
  generalize "enable_test".toList = x₁
  generalize "finished".toList = x₂
  generalize "in".toList = x₃
  generalize "s".toList = x₄
  generalize "(rc=".toList = x₅
  generalize ")".toList = x₆
  simp only [List.append_assoc]

/-- The line about an ended sub-test is read back with its number and its exit code. -/
theorem takes_finished (n : Nat) {d : ℚ} (hd : 0 ≤ d) (rc : Int) {b v : Txt} :
    Takes isWord finishedPattern b (mark ++ (Entry.finished n d rc).body) v
      [(1, showNat n), (2, showInt rc)] := by
  have hspace : isDecimal ' ' = false := by decide
  have hclose : isDecimal ')' = false := by decide
  have hs : (isDecimal 's' || ('s' : Char) = '.') = false := by decide
  obtain ⟨cn, hcn, _, hcnspace⟩ := head_showNat n
  obtain ⟨ct, hct⟩ : ∃ c, (showTenths d).head? = some c := by
    cases hT : showTenths d with
    | nil => exact absurd hT (showTenths_ne_nil d)
    | cons c cs => exact ⟨c, rfl⟩
  have hctspace : isSpace ct = false := by
    have hmem := mem_showTenths hd (List.mem_of_head? hct)
    by_contra hsp
    have hsp' := digitValue_of_isSpace (Bool.not_eq_false _ ▸ hsp)
    simp only [isDecimal, hsp', Option.isSome_none, Bool.false_or, decide_eq_true_eq] at hmem
    rw [hmem] at hsp
    exact hsp (by decide)
  rw [body_finished]
  -- the pieces of the line, from its end
  have h₁ : ∀ b : Txt, Takes isWord (lit ")") b ")".toList v [] := fun b => takes_lit ")"
  have h₂ : ∀ b : Txt, Takes isWord (group 2 (cat [opt (lit "-"), plus isDecimal])) b (showInt rc)
      (")".toList ++ v) [(2, showInt rc)] :=
    fun b => (takes_showInt rc (stops (by simp) hclose)).group 2
  have h₃ : ∀ b w : Txt, Takes isWord (plus isSpace) b [' '] ("(rc=".toList ++ w) [] :=
    fun b w => takes_plus (by simp) (forall_of_all (by decide))
      (stops (c := '(') (by simp) (by decide))
  have h₄ : ∀ b w : Txt, Takes isWord (plus fun c => isDecimal c || c = '.') b (showTenths d)
      ("s".toList ++ w) [] :=
    fun b w => takes_plus (showTenths_ne_nil d) (fun _ hc => mem_showTenths hd hc)
      (stops (by simp) hs)
  have h₅ : ∀ b w : Txt, Takes isWord (plus isSpace) b [' '] (showTenths d ++ w) [] :=
    fun b w => takes_plus (by simp) (forall_of_all (by decide)) (stops (head_append hct) hctspace)
  have h₆ : ∀ b w : Txt, Takes isWord (plus isSpace) b [' '] ("in".toList ++ w) [] :=
    fun b w => takes_plus (by simp) (forall_of_all (by decide))
      (stops (c := 'i') (by simp) (by decide))
  have h₇ : ∀ b w : Txt, Takes isWord (plus isSpace) b [' '] ("finished".toList ++ w) [] :=
    fun b w => takes_plus (by simp) (forall_of_all (by decide))
      (stops (c := 'f') (by simp) (by decide))
  have h₈ : ∀ b w : Txt, Takes isWord (group 1 (plus isDecimal)) b (showNat n) ([' '] ++ w)
      [(1, showNat n)] :=
    fun b w => (takes_plus (showNat_ne_nil n) (fun _ hc => isDecimal_of_mem_showNat hc)
      (stops (by simp) hspace)).group 1
  have h₉ : ∀ b w : Txt, Takes isWord (plus isSpace) b [' '] (showNat n ++ w) [] :=
    fun b w => takes_plus (by simp) (forall_of_all (by decide)) (stops (head_append hcn) hcnspace)
  have h₁₀ : ∀ b w : Txt, Takes isWord (plus isSpace) b [' '] ("enable_test".toList ++ w) [] :=
    fun b w => takes_plus (by simp) (forall_of_all (by decide))
      (stops (c := 'e') (by simp) (by decide))
  have hlit : ∀ (s : String) (b w : Txt), Takes isWord (lit s) b s.toList w [] :=
    fun s b w => takes_lit s
  exact (hlit "[cudamemtest]" _ _).piece <| (h₁₀ _ _).piece <| (hlit "enable_test" _ _).piece <|
    (h₉ _ _).piece <| (h₈ _ _).piece <| (h₇ _ _).piece <| (hlit "finished" _ _).piece <|
    (h₆ _ _).piece <| (hlit "in" _ _).piece <| (h₅ _ _).piece <| (h₄ _ _).piece <|
    (hlit "s" _ _).piece <| (h₃ _ _).piece <| (hlit "(rc=" _ _).piece <| (h₂ _).cat_cons (h₁ _)

/-! ## Lines that a pattern passes over -/

/-- A marked pattern goes on with white space and a word: the word follows the mark. -/
theorem word_after_mark {s : String} {rs : List Re} {b m v z : Txt} {c d : Char}
    (h : Matches isWord (cat (lit "[cudamemtest]" :: plus isSpace :: lit s :: rs)) b m v)
    (heq : mark ++ ([' '] ++ z) = m ++ v) (hc : z.head? = some c) (hcspace : isSpace c = false)
    (hd : s.toList.head? = some d) (hdspace : isSpace d = false) :
    ∃ m' b', z = s.toList ++ (m' ++ v) ∧ Matches isWord (cat rs) b' m' v := by
  obtain ⟨m₁, m₂, rfl, h₁, h⟩ := matches_cat_cons.mp h
  obtain ⟨m₃, m₄, rfl, h₃, h⟩ := matches_cat_cons.mp h
  obtain ⟨m₅, m₆, rfl, h₅, h⟩ := matches_cat_cons.mp h
  rw [matches_lit] at h₁ h₅
  rw [matches_plus] at h₃
  have hm₁ : m₁ = mark := h₁
  rw [hm₁, List.append_assoc, List.append_assoc, List.append_assoc] at heq
  have hrest := List.append_cancel_left heq
  have hspace : ∀ c ∈ [' '], isSpace c = true := forall_of_all (by decide)
  have hhead : (m₅ ++ (m₆ ++ v)).head? = some d := by
    rw [h₅]
    exact head_append hd
  obtain ⟨_, hz⟩ := run_unique hrest hspace h₃.2 (stops hc hcspace) (stops hhead hdspace)
  exact ⟨m₆, _, by rw [hz, h₅], h⟩

/-- A marked pattern does not match a line whose first word begins differently. -/
theorem no_match_of_head {s : String} {rs : List Re} {b z : Txt} {c d : Char}
    (hc : z.head? = some c) (hcspace : isSpace c = false) (hd : s.toList.head? = some d)
    (hdspace : isSpace d = false) (hcd : c ≠ d) :
    matchAt isWord (cat (lit "[cudamemtest]" :: plus isSpace :: lit s :: rs))
      ⟨b, mark ++ ([' '] ++ z)⟩ = none := by
  rw [matchAt_eq_none_iff]
  intro m v hmv hm
  obtain ⟨m', _, hz, _⟩ := word_after_mark hm hmv hc hcspace hd hdspace
  rw [hz, head_append hd] at hc
  exact hcd (Option.some.inj hc).symm

/-- The first word of a line of the harness begins with this character. -/
def Entry.initial : Entry → Char
  | .output _ => ' '
  | .finished _ _ _ => 'e'
  | .watchdog _ _ => 'F'
  | .exited _ _ => 'e'
  | .coverage _ _ _ => 'R'
  | .incomplete _ _ _ _ => 'F'

/-- The text is a space and a word that begins with `c`. -/
def Opens (t : Txt) (c : Char) : Prop := ∃ z, t = [' '] ++ z ∧ z.head? = some c

theorem Opens.append {t : Txt} {c : Char} (h : Opens t c) (w : Txt) : Opens (t ++ w) c := by
  obtain ⟨z, rfl, hz⟩ := h
  exact ⟨z ++ w, List.append_assoc _ _ _, head_append hz⟩

theorem body_initial {l : Entry} (hl : l.isOutput = false) : Opens l.body l.initial := by
  cases l with
  | output t => cases hl
  | finished n d rc =>
    have h : Opens " enable_test ".toList 'e' :=
      ⟨"enable_test ".toList, by decide, by decide⟩
    exact (((((h.append _).append _).append _).append _).append _).append _
  | watchdog n timeout =>
    have h : Opens " FAIL: watchdog timeout — enable_test ".toList 'F' :=
      ⟨"FAIL: watchdog timeout — enable_test ".toList, by decide, by decide⟩
    exact (((h.append _).append _).append _).append _
  | exited n rc =>
    have h : Opens " enable_test ".toList 'e' :=
      ⟨"enable_test ".toList, by decide, by decide⟩
    exact (((h.append _).append _).append _).append _
  | coverage ran total rc =>
    have h : Opens " Ran ".toList 'R' := ⟨"Ran ".toList, by decide, by decide⟩
    exact (((h.append _).append _).append _).append _
  | incomplete ran total missing duration =>
    have h : Opens " FAIL: incomplete coverage — ".toList 'F' :=
      ⟨"FAIL: incomplete coverage — ".toList, by decide, by decide⟩
    exact (((((((h.append _).append _).append _).append _).append _).append _).append _).append _

/-- A marked pattern passes over a line whose first word begins differently. -/
theorem quiet_of_initial {s : String} {rs : List Re} {l : Entry} {c d : Char} {b y : Txt}
    (hl : l.isOutput = false) (hc : l.initial = c) (hd : s.toList.head? = some d)
    (hdspace : isSpace d = false) (hcd : c ≠ d) :
    Quiet isWord (cat (lit "[cudamemtest]" :: plus isSpace :: lit s :: rs)) b (logged l.text)
      y := by
  have hbegins : BeginsWith isWord (cat (lit "[cudamemtest]" :: plus isSpace :: lit s :: rs))
      ('[' :: mark.tail) := by
    rw [← mark_cons]
    exact beginsWith_mark _
  have hspace : isSpace l.initial = false := by
    cases l with
    | output t => cases hl
    | _ => rfl
  apply quiet_harness hbegins hl
  obtain ⟨z, hz, hhead⟩ := body_initial hl
  have htext : mark ++ (l.body ++ ['\n']) ++ y = mark ++ ([' '] ++ (z ++ (['\n'] ++ y))) := by
    rw [hz]
    simp only [List.append_assoc]
  rw [htext]
  exact no_match_of_head (head_append hhead) hspace hd hdspace (hc ▸ hcd)

/-- The line about a failed sub-test is not one about its end. -/
theorem quiet_exited (n : Nat) (rc : Int) {b y : Txt} :
    Quiet isWord finishedPattern b (logged (Entry.exited n rc).text) y := by
  have hbegins : BeginsWith isWord finishedPattern ('[' :: mark.tail) := by
    rw [← mark_cons]
    exact beginsWith_mark _
  apply quiet_harness hbegins rfl
  rw [matchAt_eq_none_iff]
  intro m v hmv hm
  obtain ⟨cn, hcn, _, hcnspace⟩ := head_showNat n
  have hbody : ∃ z, (Entry.exited n rc).body = [' '] ++ ("enable_test".toList ++ ([' '] ++
      (showNat n ++ ([' '] ++ z)))) ∧ z.head? = some 'e' := by
    have h₁ : " enable_test ".toList = [' '] ++ ("enable_test".toList ++ [' ']) := by decide
    have h₂ : " exited rc=".toList = [' '] ++ "exited rc=".toList := by decide
    have h₃ : "exited rc=".toList.head? = some 'e' := by decide
    refine ⟨"exited rc=".toList ++ (showInt rc ++ " — continuing remaining sub-tests".toList), ?_,
      head_append h₃⟩
    unfold Entry.body
    rw [h₁, h₂]
    generalize "enable_test".toList = x₁
    generalize "exited rc=".toList = x₂
    generalize " — continuing remaining sub-tests".toList = x₃
    simp only [List.append_assoc]
  obtain ⟨z, hbody, hz⟩ := hbody
  have htext : mark ++ ((Entry.exited n rc).body ++ ['\n']) ++ y = mark ++ ([' '] ++
      ("enable_test".toList ++ ([' '] ++ (showNat n ++ ([' '] ++ (z ++ (['\n'] ++ y))))))) := by
    rw [hbody]
    generalize "enable_test".toList = x₁
    simp only [List.append_assoc]
  rw [htext] at hmv
  have he : ("enable_test".toList : Txt).head? = some 'e' := by decide
  obtain ⟨m', b', hm', hrest⟩ :=
    word_after_mark hm hmv (head_append he) (by decide) he (by decide)
  have hafter := List.append_cancel_left hm'
  -- white space, the number, white space, and then the two words differ
  obtain ⟨m₁, m₂, rfl, h₁, hrest⟩ := matches_cat_cons.mp hrest
  obtain ⟨m₃, m₄, rfl, h₃, hrest⟩ := matches_cat_cons.mp hrest
  obtain ⟨m₅, m₆, rfl, h₅, hrest⟩ := matches_cat_cons.mp hrest
  obtain ⟨m₇, m₈, rfl, h₇, _⟩ := matches_cat_cons.mp hrest
  rw [matches_plus] at h₁ h₅
  rw [matches_group, matches_plus] at h₃
  rw [matches_lit] at h₇
  have hf : ("finished".toList : Txt).head? = some 'f' := by decide
  simp only [List.append_assoc] at hafter
  have hspaces : ∀ c ∈ [' '], isSpace c = true := forall_of_all (by decide)
  have hdigits : ∀ c ∈ showNat n, isDecimal c = true := fun c hc => isDecimal_of_mem_showNat hc
  have hhead₃ : ∀ c, (m₃ ++ (m₅ ++ (m₇ ++ (m₈ ++ v)))).head? = some c → isSpace c = false := by
    intro c hc
    cases m₃ with
    | nil => exact absurd rfl h₃.1
    | cons d m₃ =>
      have hdec := h₃.2 d List.mem_cons_self
      have hcd : d = c := Option.some.inj hc
      by_contra hsp
      have hnone := digitValue_of_isSpace (Bool.not_eq_false _ ▸ hsp)
      rw [isDecimal, hcd, hnone] at hdec
      cases hdec
  have hhead₅ : ∀ c, (m₅ ++ (m₇ ++ (m₈ ++ v))).head? = some c → isDecimal c = false := by
    intro c hc
    cases m₅ with
    | nil => exact absurd rfl h₅.1
    | cons d m₅ =>
      have hcd : d = c := Option.some.inj hc
      unfold isDecimal
      rw [← hcd, digitValue_of_isSpace (h₅.2 d List.mem_cons_self)]
      rfl
  have hhead₇ : (m₇ ++ (m₈ ++ v)).head? = some 'f' := by
    rw [h₇]
    exact head_append hf
  obtain ⟨_, hafter⟩ := run_unique hafter hspaces h₁.2 (stops (head_append hcn) hcnspace) hhead₃
  obtain ⟨_, hafter⟩ := run_unique hafter hdigits h₃.2 (stops (c := ' ') rfl (by decide)) hhead₅
  obtain ⟨_, hafter⟩ := run_unique hafter hspaces h₅.2 (stops (head_append hz) (by decide))
    (stops hhead₇ (by decide))
  rw [← hafter, head_append hz] at hhead₇
  revert hhead₇
  decide

/-! ## A whole log -/

/-- The sub-test that a line reports as ended, and its exit code. -/
def Entry.ended : Entry → Option (Nat × Int)
  | .finished testNum _ rc => some (testNum, rc)
  | _ => none

theorem quiet_of_not_ended {l : Entry} (hl : l.Ok) (h : l.ended = none) {b y : Txt} :
    Quiet isWord finishedPattern b (logged l.text) y := by
  have he : ("enable_test".toList : Txt).head? = some 'e' := by decide
  cases l with
  | output t => exact quiet_output (beginsWith_mark _) hl.1 (by decide)
  | finished n d rc => cases h
  | watchdog n timeout =>
    exact quiet_of_initial (c := 'F') rfl rfl he (by decide) (by decide)
  | exited n rc => exact quiet_exited n rc
  | coverage ran total rc =>
    exact quiet_of_initial (c := 'R') rfl rfl he (by decide) (by decide)
  | incomplete ran total missing duration =>
    exact quiet_of_initial (c := 'F') rfl rfl he (by decide) (by decide)

theorem findAllFrom_finished {entries : List Entry} (h : ∀ l ∈ entries, l.Ok) : ∀ b : Txt,
    (findAllFrom isWord finishedPattern 0 b (entries.flatMap fun l => logged l.text)).map
      (fun m => (m.group 1, m.group 2)) =
        (entries.filterMap Entry.ended).map fun p => (showNat p.1, showInt p.2) := by
  induction entries with
  | nil =>
    intro b
    rfl
  | cons l entries ih =>
    intro b
    have hl := h l List.mem_cons_self
    have hrest := ih fun l' hl' => h l' (List.mem_cons_of_mem _ hl')
    rw [List.flatMap_cons]
    cases hend : l.ended with
    | none =>
      rw [findAllFrom_quiet (quiet_of_not_ended hl hend), List.filterMap_cons_none hend]
      exact hrest _
    | some p =>
      cases l with
      | finished n d rc =>
        have hbegins : BeginsWith isWord finishedPattern ('[' :: mark.tail) := by
          rw [← mark_cons]
          exact beginsWith_mark _
        have hne : mark ++ (Entry.finished n d rc).body ≠ [] := by
          rw [mark_cons]
          exact List.cons_ne_nil _ _
        have htext : ∀ y, logged (Entry.finished n d rc).text ++ y =
            [' ', ' '] ++ ((mark ++ (Entry.finished n d rc).body) ++ (['\n'] ++ y)) := by
          intro y
          rw [logged_harness rfl]
          simp only [List.append_assoc]
        rw [htext, findAllFrom_quiet (hbegins.quiet_of_not_mem (by decide)),
          findAllFrom_takes hne (takes_finished n hl rc), List.map_cons,
          findAllFrom_quiet (hbegins.quiet_of_not_mem (by decide)), hrest,
          List.filterMap_cons_some hend, List.map_cons]
        cases hend
        rfl
      | _ => cases hend

/-- The validator reads back which sub-tests have ended, and how. -/
theorem findAll_finished (isWord : Char → Bool) {entries : List Entry} (h : ∀ l ∈ entries, l.Ok) :
    (findAll isWord finishedPattern (log entries)).map (fun m => (m.group 1, m.group 2)) =
      (entries.filterMap Entry.ended).map fun p => (showNat p.1, showInt p.2) := by
  rw [log_eq]
  exact findAllFrom_finished h []

/-! ## The coverage line -/

/-- What the pattern for the coverage line takes of it. -/
def coverageHead (ran total : Nat) : Txt :=
  mark ++ ([' '] ++ ("Ran".toList ++ ([' '] ++ (showNat ran ++ ("/".toList ++ (showNat total ++
    ([' '] ++ "sub-test".toList)))))))

theorem coverageHead_append (ran total : Nat) (rc : Int) :
    mark ++ (Entry.coverage ran total rc).body =
      coverageHead ran total ++ ("(s), first_fail_rc=".toList ++ showInt rc) := by
  have h₁ : " Ran ".toList = [' '] ++ ("Ran".toList ++ [' ']) := by decide
  have h₂ : '/' :: showNat total = "/".toList ++ showNat total := by
    have hslash : "/".toList = ['/'] := by decide
    rw [hslash]
    rfl
  have h₃ : " sub-test(s), first_fail_rc=".toList =
      [' '] ++ ("sub-test".toList ++ "(s), first_fail_rc=".toList) := by decide
  have hbody : (Entry.coverage ran total rc).body = " Ran ".toList ++ showNat ran ++
      '/' :: showNat total ++ " sub-test(s), first_fail_rc=".toList ++ showInt rc := rfl
  rw [hbody, h₁, h₂, h₃]
  unfold coverageHead
  generalize "Ran".toList = x₁
  generalize "/".toList = x₂
  generalize "sub-test".toList = x₃
  generalize "(s), first_fail_rc=".toList = x₄
  simp only [List.append_assoc]

/-- The coverage line is read back with its two numbers. -/
theorem takes_coverage (ran total : Nat) {b v : Txt} :
    Takes isWord ranPattern b (coverageHead ran total) v
      [(1, showNat ran), (2, showNat total)] := by
  obtain ⟨cr, hcr, _, hcrspace⟩ := head_showNat ran
  have hlit : ∀ (s : String) (b w : Txt), Takes isWord (lit s) b s.toList w [] :=
    fun s b w => takes_lit s
  have hnumber : ∀ (n i : Nat) (b : Txt) {w : Txt} {c : Char}, w.head? = some c →
      isDecimal c = false → Takes isWord (group i (plus isDecimal)) b (showNat n) w
        [(i, showNat n)] :=
    fun n i b w c hw hc => (takes_plus (showNat_ne_nil n)
      (fun _ hc => isDecimal_of_mem_showNat hc) (stops hw hc)).group i
  have hspace : ∀ {w : Txt} {c : Char} (b : Txt), w.head? = some c → isSpace c = false →
      Takes isWord (plus isSpace) b [' '] w [] :=
    fun b hw hc => takes_plus (by simp) (forall_of_all (by decide)) (stops hw hc)
  have hR : ∀ w : Txt, ("Ran".toList ++ w).head? = some 'R' := fun w => head_append (by decide)
  have hslash : ∀ w : Txt, ("/".toList ++ w).head? = some '/' :=
    fun w => head_append (by decide)
  have hs : ∀ w : Txt, ("sub-test".toList ++ w).head? = some 's' :=
    fun w => head_append (by decide)
  exact (hlit "[cudamemtest]" _ _).piece <| (hspace _ (hR _) (by decide)).piece <|
    (hlit "Ran" _ _).piece <| (hspace _ (head_append hcr) hcrspace).piece <|
    (hnumber ran 1 _ (hslash _) (by decide)).piece <| (hlit "/" _ _).piece <|
    (hnumber total 2 _ (c := ' ') rfl (by decide)).piece <|
    (hspace _ (hs _) (by decide)).cat_cons (hlit "sub-test" _ _)

/-- The line about the coverage. -/
def Entry.isCoverage : Entry → Bool
  | .coverage _ _ _ => true
  | _ => false

theorem quiet_of_not_coverage {l : Entry} (hl : l.Ok) (h : l.isCoverage = false) {b y : Txt} :
    Quiet isWord ranPattern b (logged l.text) y := by
  have hR : ("Ran".toList : Txt).head? = some 'R' := by decide
  cases l with
  | output t => exact quiet_output (beginsWith_mark _) hl.1 (by decide)
  | finished n d rc => exact quiet_of_initial (c := 'e') rfl rfl hR (by decide) (by decide)
  | watchdog n timeout => exact quiet_of_initial (c := 'F') rfl rfl hR (by decide) (by decide)
  | exited n rc => exact quiet_of_initial (c := 'e') rfl rfl hR (by decide) (by decide)
  | coverage ran total rc => cases h
  | incomplete ran total missing duration =>
    exact quiet_of_initial (c := 'F') rfl rfl hR (by decide) (by decide)

/-- The validator reads back the numbers of the first coverage line. -/
theorem searchFrom_coverage (isWord : Char → Bool) {pre : List Entry} (post : List Entry)
    (ran total : Nat) (rc : Int) (hok : ∀ l ∈ pre, l.Ok) (hpre : ∀ l ∈ pre, l.isCoverage = false) :
    ∃ p m, searchFrom isWord ranPattern [] (log (pre ++ .coverage ran total rc :: post)) =
      some (p, m) ∧ m.group 1 = showNat ran ∧ m.group 2 = showNat total := by
  have hbegins : BeginsWith isWord ranPattern ('[' :: mark.tail) := by
    rw [← mark_cons]
    exact beginsWith_mark _
  have hne : coverageHead ran total ≠ [] := by
    unfold coverageHead
    rw [mark_cons]
    exact List.cons_ne_nil _ _
  have hquiet : ∀ b y : Txt,
      Quiet isWord ranPattern b (pre.flatMap fun l => logged l.text) y :=
    quiet_log fun l hl b y => quiet_of_not_coverage (hok l hl) (hpre l hl)
  have htext : ∀ y, logged (Entry.coverage ran total rc).text ++ y = [' ', ' '] ++
      (coverageHead ran total ++ ("(s), first_fail_rc=".toList ++ showInt rc ++ ['\n'] ++ y)) := by
    intro y
    rw [logged_harness rfl, ← List.append_assoc mark, coverageHead_append]
    generalize "(s), first_fail_rc=".toList = x
    simp only [List.append_assoc]
  rw [log_eq, List.flatMap_append, List.flatMap_cons, htext,
    searchFrom_quiet (hquiet _ _), searchFrom_quiet (hbegins.quiet_of_not_mem (by decide)),
    searchFrom_takes hne (takes_coverage ran total)]
  exact ⟨_, _, rfl, rfl, rfl⟩

/-! ## The watchdog lines -/

theorem take_eq_of_append_eq {s t x y : Txt} {n : Nat} (h : s ++ x = t ++ y) (hs : n ≤ s.length)
    (ht : n ≤ t.length) : s.take n = t.take n := by
  have htake := congrArg (List.take n) h
  rw [List.take_append_of_le_length hs, List.take_append_of_le_length ht] at htake
  exact htake

theorem contains_of_isPrefix {s t text : Txt} (h : s <+: t) (hs : contains s text = false) :
    contains t text = false := by
  by_contra ht
  have hinfix := contains_eq_true_iff.mp (Bool.not_eq_false _ ▸ ht)
  rw [contains_eq_true_iff.mpr (h.isInfix.trans hinfix)] at hs
  cases hs

/-- A line that begins with a bracket is not in the log if no line of the harness has it after
its mark and no output has the beginning of it. -/
theorem line_not_found {line : String} {s pre : Txt} {entries : List Entry}
    (hcons : line.toList = '[' :: s) (hline : '\n' ∉ line.toList) (hpre : pre <+: line.toList)
    (hharness : ∀ l ∈ entries, l.isOutput = false → ∀ b y : Txt,
      matchAt isWord (lit line) ⟨[' ', ' '] ++ b, mark ++ (l.body ++ ['\n']) ++ y⟩ = none)
    (houtput : ∀ t, Entry.output t ∈ entries → contains pre (logged t) = false) :
    search isWord (lit line) (log entries) = false := by
  have hbegins : BeginsWith isWord (lit line) ('[' :: s) := by
    rw [← hcons]
    exact beginsWith_lit _
  rw [log_eq]
  apply hbegins.search_of_quiet
  apply quiet_log
  intro l hl b y
  cases hout : l.isOutput with
  | false => exact quiet_harness hbegins hout (hharness l hl hout b y)
  | true =>
    cases l with
    | output t =>
      exact quiet_output (beginsWith_lit _) (contains_of_isPrefix hpre (houtput t hl)) hline
    | _ => cases hout

/-- The line of the other memory test is never in the log. -/
theorem hmmWatchdog_not_found {entries : List Entry} (h : ∀ l ∈ entries, l.Ok) :
    search isWord hmmWatchdog (log entries) = false := by
  have hcons : "[hmm_memtest] FAIL: watchdog timeout".toList =
      '[' :: "hmm_memtest] FAIL: watchdog timeout".toList := by decide
  have hpre : hmmMark <+: "[hmm_memtest] FAIL: watchdog timeout".toList := by decide
  apply line_not_found hcons (by decide) hpre
  · intro l hl hout b y
    rw [matchAt_eq_none_iff]
    intro m v hmv hm
    rw [matches_lit.mp hm, List.append_assoc] at hmv
    have htake := take_eq_of_append_eq (n := 2) hmv (by decide) (by decide)
    revert htake
    decide
  · exact fun t ht => (h _ ht).2

/-- The watchdog line is in the log only if a line about a failure is. -/
theorem memtestWatchdog_not_found {entries : List Entry} (h : ∀ l ∈ entries, l.Ok)
    (hF : ∀ l ∈ entries, l.initial ≠ 'F') :
    search isWord memtestWatchdog (log entries) = false := by
  have hcons : "[cudamemtest] FAIL: watchdog timeout".toList =
      '[' :: "cudamemtest] FAIL: watchdog timeout".toList := by decide
  have hmark : "[cudamemtest] FAIL: watchdog timeout".toList =
      mark ++ ([' '] ++ "FAIL: watchdog timeout".toList) := by decide
  have hhead : "FAIL: watchdog timeout".toList.head? = some 'F' := by decide
  have hpre : mark <+: "[cudamemtest] FAIL: watchdog timeout".toList := by decide
  apply line_not_found hcons (by decide) hpre
  · intro l hl hout b y
    rw [matchAt_eq_none_iff]
    intro m v hmv hm
    obtain ⟨z, hz, hzhead⟩ := body_initial hout
    rw [matches_lit.mp hm, hmark, hz] at hmv
    simp only [List.append_assoc] at hmv
    have hrest := List.append_cancel_left (List.append_cancel_left hmv)
    have heq := congrArg List.head? hrest
    rw [head_append hzhead, head_append hhead] at heq
    exact hF l hl (Option.some.inj heq)
  · exact fun t ht => (h _ ht).1

end Cudamemtest
end Monitored
end RocmTests

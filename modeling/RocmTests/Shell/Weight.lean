import RocmTests.Shell.Lexer

/-!
# What the characters of a text come to

A character of a text adds at most one character to a word, or ends one.  `weight` counts the
characters of the words, with `k` for each word that has ended, and no step of the lexer adds more
than one to it.  A backslash is counted when it is read, for what comes of it is seen a character
later.
-/

namespace RocmTests
namespace Shell

/-- The characters of the words among the tokens, and `k` for each word. -/
def heap (k : Nat) : List Token → Nat
  | [] => 0
  | .word w :: ts => w.length + k + heap k ts
  | .op _ :: ts => heap k ts
  | .redirect _ _ :: ts => heap k ts

theorem heap_append (k : Nat) (ts ts' : List Token) :
    heap k (ts ++ ts') = heap k ts + heap k ts' := by
  induction ts with
  | nil => rw [List.nil_append, heap, Nat.zero_add]
  | cons t ts ih =>
    cases t with
    | word w =>
      rw [List.cons_append, heap, heap, ih]
      omega
    | op o => exact ih
    | redirect fd o => exact ih

namespace Lexer

variable {k : Nat} {l : Lexer} {c : Char}

/-- A backslash that has been read and waits for its character. -/
def pending : Mode → Nat
  | .escape => 1
  | .escapeInDouble => 1
  | _ => 0

def base (k : Nat) (l : Lexer) : Nat := heap k l.done + (l.word.getD []).length

def weight (k : Nat) (l : Lexer) : Nat := l.base k + pending l.mode

@[simp] theorem base_go (m : Mode) : (l.go m).base k = l.base k := rfl

@[simp] theorem weight_go (m : Mode) : (l.go m).weight k = l.base k + pending m := rfl

@[simp] theorem base_push (q : Kind) : (l.push q c).base k = l.base k + 1 := by
  show heap k l.done + (l.word.getD [] ++ [(⟨c, q⟩ : Glyph)]).length = _
  rw [List.length_append]
  rfl

@[simp] theorem base_opened : l.opened.base k = l.base k := rfl

@[simp] theorem base_emit_op (o : Op) : (l.emit (.op o)).base k = l.base k := by
  show heap k (l.done ++ [Token.op o]) + _ = _
  rw [heap_append]
  rfl

@[simp] theorem base_emit_redirect (fd : Option Nat) (o : RedirectOp) :
    (l.emit (.redirect fd o)).base k = l.base k := by
  show heap k (l.done ++ [Token.redirect fd o]) + _ = _
  rw [heap_append]
  rfl

theorem base_flush : l.flush.base k ≤ l.base k + k := by
  obtain ⟨done, word, mode⟩ := l
  cases word with
  | none => exact Nat.le_add_right _ _
  | some w =>
    show heap k (done ++ [Token.word w]) + 0 ≤ heap k done + w.length + k
    rw [heap_append, heap, heap]
    omega

theorem base_redirecting : l.redirecting.base k ≤ l.base k + k := by
  unfold redirecting
  split
  · show heap k l.done + 0 ≤ heap k l.done + _ + k
    omega
  · exact base_flush

theorem weight_ite {p : Prop} [Decidable p] {a b : Lexer} {n : Nat} (ha : a.weight k ≤ n)
    (hb : b.weight k ≤ n) : (if p then a else b).weight k ≤ n := by
  by_cases h : p
  · rwa [if_pos h]
  · rwa [if_neg h]

theorem weight_plain (hk : k ≤ 1) (l : Lexer) (c : Char) : (l.plain c).weight k ≤ l.base k + 1 := by
  have hflush : l.flush.base k ≤ l.base k + k := base_flush
  have hredirecting : l.redirecting.base k ≤ l.base k + k := base_redirecting
  unfold plain
  repeat' apply weight_ite
  all_goals simp only [weight_go, base_push, base_opened, base_emit_op, pending]
  all_goals omega

theorem weight_double (l : Lexer) (c : Char) : (l.double c).weight k ≤ l.base k + 1 := by
  unfold double
  split_ifs <;> simp only [weight_go, base_push, pending] <;> omega

/-- No character weighs more than one. -/
theorem weight_step (hk : k ≤ 1) (l : Lexer) (c : Char) : (l.step c).weight k ≤ l.weight k + 1 := by
  have hplain (l' : Lexer) := weight_plain hk l' c
  have hdouble : (l.double c).weight k ≤ l.base k + 1 := weight_double l c
  have hpush (q : Kind) : (l.push q c).weight k = l.base k + 1 + pending l.mode := by
    rw [weight, base_push]
    rfl
  unfold step
  have hweight : l.weight k = l.base k + pending l.mode := rfl
  cases hmode : l.mode with
  | plain => exact (hplain l).trans (by omega)
  | double => exact hdouble.trans (by omega)
  | comment =>
    dsimp only
    split_ifs
    · exact (hplain _).trans (by rw [base_go]; omega)
    · omega
  | single =>
    dsimp only
    split_ifs
    · simp only [weight_go, pending]
      omega
    · rw [hpush]
      omega
  | escape =>
    rw [hmode] at hweight
    dsimp only
    split_ifs <;> simp only [weight_go, base_push, pending] at * <;> omega
  | escapeInDouble =>
    rw [hmode] at hweight
    dsimp only
    split_ifs <;> simp only [weight_go, base_push, pending] at * <;> omega
  | dollar inDouble =>
    dsimp only
    split_ifs
    · simp only [weight_go, pending]
      omega
    · simp only [weight_go, base_push, pending]
      omega
    · exact hdouble.trans (by omega)
    · simp only [weight_go, pending]
      omega
    · exact (hplain l).trans (by omega)
  | braces inDouble =>
    dsimp only
    split_ifs
    · simp only [weight_go, base_push, pending]
      omega
    · simp only [weight_go, base_push, pending]
      omega
    · simp only [weight_go, pending]
      omega
    · rw [hpush]
      omega
  | ampersand =>
    dsimp only
    split_ifs <;> simp only [weight_go, base_emit_op, pending] <;> omega
  | bar =>
    dsimp only
    split_ifs
    · simp only [weight_go, base_emit_op, pending]
      omega
    · simp only [weight_go, pending]
      omega
    · exact (hplain _).trans (by simp only [base_go, base_emit_op]; omega)
  | greater fd =>
    dsimp only
    split_ifs
    · simp only [weight_go, base_emit_redirect, pending]
      omega
    · simp only [weight_go, base_emit_redirect, pending]
      omega
    · simp only [weight_go, pending]
      omega
    · exact (hplain _).trans (by simp only [base_go, base_emit_redirect]; omega)
  | less fd =>
    dsimp only
    split_ifs
    · simp only [weight_go, pending]
      omega
    · exact (hplain _).trans (by simp only [base_go, base_emit_redirect]; omega)
  | beyond => exact Nat.le_succ _

theorem weight_foldl (hk : k ≤ 1) (t : List Char) : ∀ l : Lexer,
    (t.foldl step l).weight k ≤ l.weight k + t.length := by
  induction t with
  | nil => exact fun l => Nat.le_refl _
  | cons c t ih =>
    intro l
    have hrest := ih (l.step c)
    have hstep := weight_step hk l c
    rw [List.foldl_cons, List.length_cons]
    omega

/-! ## Where the text ends -/

/-- The tokens of a text weigh no more than its characters, but for a word that the end of the text
ends. -/
theorem heap_finish {ts : List Token} (h : l.finish = .read ts) :
    heap k ts ≤ l.weight k ∨ ∃ w, ts = l.done ++ [Token.word w] ∧ heap k ts = l.base k + k := by
  obtain ⟨done, word, mode⟩ := l
  have hflush (ts : List Token) (h : (flush ⟨done, word, mode⟩).done = ts) :
      heap k ts ≤ heap k done + (word.getD []).length + pending mode ∨
        ∃ w, ts = done ++ [Token.word w] ∧ heap k ts = heap k done + (word.getD []).length + k := by
    subst h
    cases word with
    | none =>
      left
      show heap k done ≤ _
      omega
    | some w =>
      refine Or.inr ⟨w, rfl, ?_⟩
      show heap k (done ++ [Token.word w]) = heap k done + w.length + k
      rw [heap_append, heap, heap]
      omega
  have hop (t : Token) (ht : heap k [t] = 0) :
      heap k (done ++ [t]) ≤ heap k done + (word.getD []).length + pending mode := by
    rw [heap_append, ht]
    omega
  cases mode with
  | plain => exact hflush ts (Reading.read.inj h)
  | comment => exact hflush ts (Reading.read.inj h)
  | dollar inDouble =>
    cases inDouble with
    | false => exact hflush ts (Reading.read.inj h)
    | true => cases h
  | bar => exact Or.inl (Reading.read.inj h ▸ hop (.op .pipe) rfl)
  | greater fd => exact Or.inl (Reading.read.inj h ▸ hop (.redirect fd .output) rfl)
  | less fd => exact Or.inl (Reading.read.inj h ▸ hop (.redirect fd .input) rfl)
  | single => cases h
  | double => cases h
  | escape => cases h
  | escapeInDouble => cases h
  | braces inDouble => cases h
  | ampersand => cases h
  | beyond => cases h

/-- A double quote at the end of a text weighs nothing. -/
theorem heap_finish_quote {ts : List Token} (h : (l.step '"').finish = .read ts) :
    heap 0 ts ≤ l.weight 0 := by
  have hzero {l' : Lexer} (h' : l'.finish = .read ts) : heap 0 ts ≤ l'.weight 0 := by
    rcases heap_finish (k := 0) h' with hle | ⟨w, -, heq⟩
    · exact hle
    · rw [heq, weight]
      omega
  have hweight : l.weight 0 = l.base 0 + pending l.mode := rfl
  have hle := hzero h
  obtain ⟨done, word, mode⟩ := l
  cases mode with
  | dollar inDouble =>
    cases inDouble with
    | true => exact hle
    | false => cases h
  | escape =>
    have hpush : step ⟨done, word, .escape⟩ '"' =
        (push ⟨done, word, .escape⟩ .quoted '"').go .plain :=
      rfl
    rw [hpush, weight_go, base_push] at hle
    exact hle
  | comment => exact hle
  | double => exact hle
  | plain => cases h
  | single => cases h
  | escapeInDouble => cases h
  | braces inDouble => cases inDouble <;> cases h
  | ampersand => cases h
  | bar => cases h
  | greater fd => cases h
  | less fd => cases h
  | beyond => cases h

/-- Read up to a double quote at the end, a text gives no more than its characters. -/
theorem heap_quote_le {t : List Char} {ts : List Token}
    (h : ((t ++ ['"']).foldl step l).finish = .read ts) : heap 0 ts ≤ l.weight 0 + t.length := by
  rw [List.foldl_append] at h
  exact (heap_finish_quote h).trans (weight_foldl (Nat.zero_le 1) t l)

/-! ## What stays -/

theorem done_flush : l.done <+: l.flush.done := by
  obtain ⟨done, word, mode⟩ := l
  cases word with
  | none => exact List.prefix_refl _
  | some w => exact List.prefix_append _ _

theorem done_emit (t : Token) : l.done <+: (l.emit t).done := List.prefix_append _ _

theorem done_redirecting : l.done <+: l.redirecting.done := by
  unfold redirecting
  split
  · exact List.prefix_refl _
  · exact done_flush

theorem done_ite {ts : List Token} {p : Prop} [Decidable p] {a b : Lexer} (ha : ts <+: a.done)
    (hb : ts <+: b.done) : ts <+: (if p then a else b).done := by
  by_cases h : p
  · rwa [if_pos h]
  · rwa [if_neg h]

theorem done_plain (l : Lexer) (c : Char) : l.done <+: (l.plain c).done := by
  have hflush : l.done <+: l.flush.done := done_flush
  have hredirecting : l.done <+: l.redirecting.done := done_redirecting
  have hemit (t : Token) : l.done <+: (l.flush.emit t).done := hflush.trans (done_emit t)
  unfold plain
  repeat' apply done_ite
  all_goals first
    | exact hflush
    | exact hredirecting
    | exact hemit _
    | exact List.prefix_refl _

theorem done_double (l : Lexer) (c : Char) : l.done <+: (l.double c).done := by
  unfold double
  repeat' apply done_ite
  all_goals exact List.prefix_refl _

/-- Tokens that have been read stay. -/
theorem done_step (l : Lexer) (c : Char) : l.done <+: (l.step c).done := by
  have hemit (t : Token) : l.done <+: (((l.emit t).go .plain).plain c).done :=
    (done_emit t).trans (done_plain ((l.emit t).go .plain) c)
  unfold step
  cases l.mode with
  | plain => exact done_plain l c
  | double => exact done_double l c
  | comment => exact done_ite (done_plain (l.go .plain) c) (List.prefix_refl _)
  | dollar inDouble =>
    exact done_ite (List.prefix_refl _) (done_ite (List.prefix_refl _)
      (done_ite (done_double l c) (done_ite (List.prefix_refl _) (done_plain l c))))
  | bar => exact done_ite (done_emit _) (done_ite (List.prefix_refl _) (hemit _))
  | greater fd =>
    exact done_ite (done_emit _) (done_ite (done_emit _) (done_ite (List.prefix_refl _) (hemit _)))
  | less fd => exact done_ite (List.prefix_refl _) (hemit _)
  | ampersand => exact done_ite (done_emit _) (List.prefix_refl _)
  | beyond => exact List.prefix_refl _
  | _ =>
    dsimp only
    repeat' apply done_ite
    all_goals exact List.prefix_refl _

theorem done_finish {ts : List Token} {t : Token} (h : l.finish = .read ts) (ht : t ∈ l.done) :
    t ∈ ts := by
  obtain ⟨done, word, mode⟩ := l
  have hflush : done <+: (flush ⟨done, word, mode⟩).done := done_flush (l := ⟨done, word, mode⟩)
  have hts (ts' : List Token) (hts' : done <+: ts') (h : ts' = ts) : t ∈ ts := h ▸ hts'.subset ht
  cases mode with
  | plain => exact hts _ hflush (Reading.read.inj h)
  | comment => exact hts _ hflush (Reading.read.inj h)
  | dollar inDouble =>
    cases inDouble with
    | false => exact hts _ hflush (Reading.read.inj h)
    | true => cases h
  | bar => exact hts _ (List.prefix_append _ _) (Reading.read.inj h)
  | greater fd => exact hts _ (List.prefix_append _ _) (Reading.read.inj h)
  | less fd => exact hts _ (List.prefix_append _ _) (Reading.read.inj h)
  | single | double | escape | escapeInDouble | braces inDouble | ampersand | beyond => cases h

end Lexer

/-!
## Words that keep a property

A property of words that more characters do not take away is kept to the end of a text, whatever the
text goes on with: a word that is being read goes on or is ended, and is dropped only where it is
the number of a descriptor.
-/

namespace Lexer

variable {l : Lexer}

/-- The modes in which the word that is being read, if there is one, goes on or ends. -/
def keeps : Mode → Bool
  | .comment | .ampersand | .bar | .greater _ | .less _ => false
  | _ => true

/-- A word with the property has been read, or is being read. -/
def Carries (q : Word → Prop) (l : Lexer) : Prop :=
  (∃ w, .word w ∈ l.done ∧ q w) ∨ ∃ w, l.word = some w ∧ q w ∧ keeps l.mode = true

section Carries

variable {q : Word → Prop} (hpush : ∀ w g, q w → q (w ++ [g]))
  (hdigits : ∀ w, q w → digits w = false)

theorem carries_ite {p : Prop} [Decidable p] {a b : Lexer} (ha : Carries q a) (hb : Carries q b) :
    Carries q (if p then a else b) := by
  by_cases h : p
  · rwa [if_pos h]
  · rwa [if_neg h]

include hpush in
theorem carries_push {w : Word} (hword : l.word = some w) (hq : q w) (kind : Kind) (c : Char)
    (m : Mode)
    (hm : keeps m = true) : Carries q ((l.push kind c).go m) := by
  refine Or.inr ⟨w ++ [⟨c, kind⟩], ?_, hpush w _ hq, hm⟩
  show some (l.word.getD [] ++ [(⟨c, kind⟩ : Glyph)]) = _
  rw [hword]
  rfl

theorem word_mem_flush {w : Word} (hword : l.word = some w) : .word w ∈ l.flush.done := by
  obtain ⟨done, word, mode⟩ := l
  cases hword
  exact List.mem_append_right done List.mem_cons_self

include hdigits in
theorem redirecting_of_carries {w : Word} (hword : l.word = some w) (hq : q w) :
    .word w ∈ l.redirecting.done := by
  have hnone : l.descriptor = none := by
    unfold descriptor
    rw [hword]
    exact if_neg (Bool.eq_false_iff.mp (hdigits w hq))
  unfold redirecting
  rw [hnone]
  exact word_mem_flush hword

include hpush hdigits in
theorem carries_plain {w : Word} (hword : l.word = some w) (hq : q w) (c : Char) :
    Carries q (l.plain c) := by
  have hflush := word_mem_flush hword
  have hredirecting := redirecting_of_carries hdigits hword hq
  have hemit (o : Op) (m : Mode) : Carries q ((l.flush.emit (.op o)).go m) :=
    Or.inl ⟨w, List.mem_append_left _ hflush, hq⟩
  have hgo (m : Mode) : Carries q (l.flush.go m) := Or.inl ⟨w, hflush, hq⟩
  have hinto (m : Mode) : Carries q (l.redirecting.go m) := Or.inl ⟨w, hredirecting, hq⟩
  have hsame (m : Mode) (hm : keeps m = true) : Carries q (l.go m) := Or.inr ⟨w, hword, hq, hm⟩
  have hopened (m : Mode) (hm : keeps m = true) : Carries q (l.opened.go m) := by
    refine Or.inr ⟨w, ?_, hq, hm⟩
    show some (l.word.getD []) = some w
    rw [hword]
    rfl
  have hglyph (kind : Kind) (m : Mode) (hm : keeps m = true) : Carries q ((l.push kind c).go m) :=
    carries_push hpush hword hq kind c m hm
  have hcomment : ¬ (c = '#' ∧ l.word = none) := by
    rw [hword]
    exact fun h => Option.some_ne_none w h.2
  unfold plain
  rw [if_neg hcomment]
  repeat' apply carries_ite
  all_goals first
    | exact hgo _
    | exact hemit _ _
    | exact hinto _
    | exact hsame _ rfl
    | exact hopened _ rfl
    | exact hglyph _ _ rfl

include hpush in
theorem carries_double {w : Word} (hword : l.word = some w) (hq : q w) (c : Char) :
    Carries q (l.double c) := by
  have hsame (m : Mode) (hm : keeps m = true) : Carries q (l.go m) := Or.inr ⟨w, hword, hq, hm⟩
  unfold double
  repeat' apply carries_ite
  all_goals first
    | exact hsame _ rfl
    | exact carries_push hpush hword hq _ _ _ rfl

include hpush hdigits in
/-- A word keeps the property, whatever comes after it. -/
theorem carries_step (h : Carries q l) (c : Char) : Carries q (l.step c) := by
  rcases h with ⟨w, hmem, hq⟩ | ⟨w, hword, hq, hkeeps⟩
  · exact Or.inl ⟨w, (done_step l c).subset hmem, hq⟩
  have hplain := carries_plain hpush hdigits hword hq c
  have hdouble := carries_double hpush hword hq c
  have hsame (m : Mode) (hm : keeps m = true) : Carries q (l.go m) := Or.inr ⟨w, hword, hq, hm⟩
  have hglyph (kind : Kind) (m : Mode) (hm : keeps m = true) : Carries q ((l.push kind c).go m) :=
    carries_push hpush hword hq kind c m hm
  have hstay (kind : Kind) : Carries q (l.push kind c) :=
    carries_push hpush hword hq kind c l.mode hkeeps
  unfold step
  cases hmode : l.mode with
  | plain => exact hplain
  | double => exact hdouble
  | single => exact carries_ite (hsame _ rfl) (hstay _)
  | escape => exact carries_ite (hsame _ rfl) (hglyph _ _ rfl)
  | escapeInDouble =>
    have hslash : Carries q (((l.push .quoted '\\').push .quoted c).go .double) := by
      have hword' : (l.push .quoted '\\').word = some (w ++ [⟨'\\', .quoted⟩]) := by
        show some (l.word.getD [] ++ [(⟨'\\', .quoted⟩ : Glyph)]) = _
        rw [hword]
        rfl
      exact carries_push hpush hword' (hpush w _ hq) .quoted c _ rfl
    exact carries_ite (hsame _ rfl) (carries_ite (hglyph _ _ rfl) hslash)
  | dollar inDouble =>
    exact carries_ite (hsame _ rfl) (carries_ite (hglyph _ _ rfl)
      (carries_ite hdouble (carries_ite (hsame _ rfl) hplain)))
  | braces inDouble =>
    refine carries_ite (hglyph _ _ ?_) (carries_ite (hsame _ rfl) (hstay _))
    cases inDouble <;> rfl
  | beyond => exact Or.inr ⟨w, hword, hq, hkeeps⟩
  | comment | ampersand | bar | greater fd | less fd =>
    rw [hmode] at hkeeps
    cases hkeeps

include hpush hdigits in
theorem carries_foldl (t : List Char) : ∀ l : Lexer, Carries q l → Carries q (t.foldl step l) := by
  induction t with
  | nil => exact fun _ h => h
  | cons c t ih =>
    intro l h
    exact ih (l.step c) (carries_step hpush hdigits h c)

theorem mem_of_carries {ts : List Token} (hcarries : Carries q l) (h : l.finish = .read ts) :
    ∃ w, .word w ∈ ts ∧ q w := by
  rcases hcarries with ⟨w, hmem, hq⟩ | ⟨w, hword, hq, hkeeps⟩
  · exact ⟨w, done_finish h hmem, hq⟩
  obtain ⟨done, word, mode⟩ := l
  cases hword
  have hflush : .word w ∈ (flush ⟨done, some w, mode⟩).done := word_mem_flush rfl
  refine ⟨w, ?_, hq⟩
  cases mode with
  | plain => exact Reading.read.inj h ▸ hflush
  | dollar inDouble =>
    cases inDouble with
    | false => exact Reading.read.inj h ▸ hflush
    | true => cases h
  | comment | bar | greater fd | less fd => cases hkeeps
  | single | double | escape | escapeInDouble | braces inDouble | ampersand | beyond => cases h

end Carries

end Lexer
end Shell
end RocmTests

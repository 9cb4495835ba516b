import RocmTests.Shell.Strict

/-!
# Arguments that come out as they were joined

Arguments that are joined by blanks and read without quotes around them come out as they were only
if each of them is `Bare`.  For each character is needed: as a character of an argument, or as the
blank between two.  A reading goes on well as long as no character is lost, and what is once lost is
missing in the end.
-/

namespace RocmTests
namespace Shell

open Text

/-! ## Good readings and lost ones -/

/-- A word that was read without quotes. -/
structure Whole (w : Word) : Prop where
  same : w = bareWord w.text
  nonempty : w ≠ []
  whole : ∀ c ∈ w.text, c ∉ breaking
  noComment : w.text.head? ≠ some '#'

namespace Lexer

/-- The modes in which an operator or a redirection has begun. -/
def between : Mode → Bool
  | .ampersand | .bar | .greater _ | .less _ => true
  | _ => false

/-- Words alone have been read, and without quotes. -/
structure Good (l : Lexer) : Prop where
  done : ∀ t ∈ l.done, ∃ w, t = .word w ∧ Whole w
  word : ∀ w, l.word = some w → Whole w
  mode : l.mode = .plain ∨ l.mode = .dollar false ∧ ∃ p, l.word = some (p ++ [⟨'$', .active⟩])

/-- Of `n` characters one is lost, or something was read that is no word, or that is expanded. -/
inductive Lost (n : Nat) (l : Lexer) : Prop where
  | light (h : l.weight 1 + 1 ≤ n)
  | beyond (h : l.mode = .beyond)
  | other (t : Token) (h : t ∈ l.done) (hother : ∀ w, t ≠ .word w)
  | between (h : between l.mode = true)
  | escape (h : l.mode = .escape) (hweight : l.weight 1 ≤ n)
  | expands (h : Carries Expands l)

variable {l : Lexer} {n : Nat}

theorem lost_of_done {t : Token} {l' : Lexer} (ht : t ∈ l.done) (hother : ∀ w, t ≠ .word w)
    (h : l.done <+: l'.done) : Lost n l' := .other t (h.subset ht) hother

theorem lost_emit (t : Token) (hother : ∀ w, t ≠ .word w) (c : Char) :
    Lost n (((l.emit t).go .plain).plain c) :=
  lost_of_done (l := (l.emit t).go .plain) (List.mem_append_right _ List.mem_cons_self) hother
    (done_plain _ c)

theorem lost_ite {p : Prop} [Decidable p] {a b : Lexer} (ha : Lost n a) (hb : Lost n b) :
    Lost n (if p then a else b) := by
  by_cases h : p
  · rwa [if_pos h]
  · rwa [if_neg h]

/-- What is lost stays lost. -/
theorem lost_step (h : Lost n l) (c : Char) : Lost (n + 1) (l.step c) := by
  have hop (t : Token) (m : Mode) (hother : ∀ w, t ≠ .word w) : Lost (n + 1) ((l.emit t).go m) :=
    .other t (List.mem_append_right _ List.mem_cons_self) hother
  have hgone : Lost (n + 1) (l.go .beyond) := .beyond rfl
  cases h with
  | light h =>
    have hstep := weight_step (Nat.le_refl 1) l c
    exact .light (by omega)
  | beyond h =>
    have hstep : l.step c = l := by
      unfold step
      rw [h]
    rw [hstep]
    exact .beyond h
  | other t h hother => exact lost_of_done h hother (done_step l c)
  | between h =>
    unfold step
    cases hmode : l.mode with
    | ampersand => exact lost_ite (hop (.op .andThen) .plain fun w => nofun) hgone
    | bar =>
      exact lost_ite (hop (.op .orElse) .plain fun w => nofun)
        (lost_ite hgone (lost_emit (.op .pipe) (fun w => nofun) c))
    | greater fd =>
      exact lost_ite (hop (.redirect fd .append) .plain fun w => nofun)
        (lost_ite (hop (.redirect fd .dup) .plain fun w => nofun)
          (lost_ite hgone (lost_emit (.redirect fd .output) (fun w => nofun) c)))
    | less fd => exact lost_ite hgone (lost_emit (.redirect fd .input) (fun w => nofun) c)
    | plain | comment | single | double | escape | escapeInDouble | dollar | braces | beyond =>
      rw [hmode] at h
      cases h
  | escape h hweight =>
    have hbase : l.weight 1 = l.base 1 + 1 := by
      rw [weight, h]
      rfl
    unfold step
    rw [h]
    refine lost_ite (.light ?_) (.light ?_)
    · rw [weight_go]
      show l.base 1 + 0 + 1 ≤ n + 1
      omega
    · rw [weight_go, base_push]
      show l.base 1 + 1 + 0 + 1 ≤ n + 1
      omega
  | expands h => exact .expands (carries_step expands_push digits_of_expands h c)

theorem whole_push {word : Option Word} (hword : ∀ w, word = some w → Whole w) {c : Char}
    (hc : c ∉ breaking) (hcomment : c = '#' → word ≠ none) :
    Whole (word.getD [] ++ [bareGlyph c]) := by
  cases word with
  | none =>
    have hno : c ≠ '#' := fun h => hcomment h rfl
    refine ⟨rfl, List.cons_ne_nil _ _, ?_, ?_⟩
    · intro d hd
      rw [List.mem_singleton.mp hd]
      exact hc
    · exact fun h => hno (Option.some.inj h)
  | some w =>
    have hw := hword w rfl
    have htext : Word.text (w ++ [bareGlyph c]) = w.text ++ [c] := Word.text_append _ _
    have hne : w.text ≠ [] := fun h => hw.nonempty (List.map_eq_nil_iff.mp h)
    refine ⟨?_, List.append_ne_nil_of_right_ne_nil w (List.cons_ne_nil _ _), ?_, ?_⟩
    · show w ++ [bareGlyph c] = bareWord (Word.text (w ++ [bareGlyph c]))
      rw [htext, bareWord, List.map_append]
      exact congrArg (· ++ [bareGlyph c]) hw.same
    · intro d hd
      rw [Option.getD_some, htext] at hd
      rcases List.mem_append.mp hd with hd | hd
      · exact hw.whole d hd
      · rw [List.mem_singleton.mp hd]
        exact hc
    · rw [Option.getD_some, htext, List.head?_append_of_ne_nil _ hne]
      exact hw.noComment

/-- One character outside quotes, after a good reading. -/
theorem good_plain {done : List Token} {word : Option Word} {m : Mode}
    (hdone : ∀ t ∈ done, ∃ w, t = .word w ∧ Whole w) (hword : ∀ w, word = some w → Whole w)
    (hbase : base 1 ⟨done, word, m⟩ ≤ n) (c : Char) :
    Good (plain ⟨done, word, m⟩ c) ∨ Lost (n + 1) (plain ⟨done, word, m⟩ c) := by
  have hlight (l' : Lexer) (h : l'.weight 1 = base 1 ⟨done, word, m⟩) : Lost (n + 1) l' :=
    .light (by omega)
  have hop (l' : Lexer) (o : Op) : Lost (n + 1) ((l'.emit (.op o)).go .plain) :=
    .other (.op o) (List.mem_append_right _ List.mem_cons_self) fun w => nofun
  -- a blank ends a word, or is lost
  have hblank : Good ((flush ⟨done, word, m⟩).go .plain) ∨
      Lost (n + 1) ((flush ⟨done, word, m⟩).go .plain) := by
    cases word with
    | none => exact Or.inr (hlight _ rfl)
    | some w =>
      refine Or.inl ⟨?_, (fun w h => by cases h), Or.inl rfl⟩
      intro t ht
      rcases List.mem_append.mp ht with ht | ht
      · exact hdone t ht
      · exact ⟨w, List.mem_singleton.mp ht, hword w rfl⟩
  by_cases hbreaking : c ∈ breaking
  · simp only [breaking, List.mem_cons, List.not_mem_nil, or_false] at hbreaking
    rcases hbreaking with
      rfl | rfl | rfl | rfl | rfl | rfl | rfl | rfl | rfl | rfl | rfl | rfl | rfl | rfl
    · exact hblank
    · exact hblank
    · exact Or.inr (hop _ .newline)
    · exact Or.inr (hop _ .seq)
    · exact Or.inr (.between rfl)
    · exact Or.inr (.between rfl)
    · exact Or.inr (.between rfl)
    · exact Or.inr (.between rfl)
    · exact Or.inr (.beyond rfl)
    · exact Or.inr (.beyond rfl)
    · exact Or.inr (.beyond rfl)
    · exact Or.inr (hlight _ rfl)
    · exact Or.inr (hlight _ rfl)
    · refine Or.inr (.escape rfl ?_)
      show base 1 ⟨done, word, m⟩ + 1 ≤ n + 1
      omega
  · by_cases hcomment : c = '#' ∧ word = none
    · obtain ⟨rfl, rfl⟩ := hcomment
      exact Or.inr (hlight _ rfl)
    · have hpush : c = '#' → word ≠ none := fun h hnone => hcomment ⟨h, hnone⟩
      rw [plain_bareGlyph hbreaking hpush]
      refine Or.inl ⟨hdone, ?_, ?_⟩
      · intro w hw
        cases hw
        exact whole_push hword hbreaking hpush
      · by_cases hdollar : c = '$'
        · subst hdollar
          exact Or.inr ⟨rfl, word.getD [], rfl⟩
        · exact Or.inl (if_neg hdollar)

/-- A good reading goes on well, or something is lost. -/
theorem good_step (hgood : Good l) (hweight : l.weight 1 ≤ n) (c : Char) :
    Good (l.step c) ∨ Lost (n + 1) (l.step c) := by
  obtain ⟨done, word, m⟩ := l
  obtain ⟨hdone, hword, hmode⟩ := hgood
  have hbase : base 1 ⟨done, word, m⟩ ≤ n := by
    rw [weight] at hweight
    omega
  rcases hmode with hmode | ⟨hmode, p, hp⟩
  · cases hmode
    exact good_plain hdone hword hbase c
  cases hmode
  cases hp
  by_cases hparen : c = '('
  · subst hparen
    exact Or.inr (.beyond rfl)
  by_cases hbrace : c = '\x7b'
  · subst hbrace
    refine Or.inr (.expands (Or.inr ⟨p ++ [⟨'$', .active⟩] ++ [⟨'\x7b', .active⟩], rfl, ?_, rfl⟩))
    exact ⟨p, ⟨'\x7b', .active⟩, [], by rw [List.append_assoc]; rfl, by decide⟩
  by_cases hquote : c = '\'' ∨ c = '"'
  · rcases hquote with rfl | rfl
    · exact Or.inr (.beyond rfl)
    · exact Or.inr (.beyond rfl)
  · have hstep : step ⟨done, some (p ++ [⟨'$', .active⟩]), .dollar false⟩ c =
        plain ⟨done, some (p ++ [⟨'$', .active⟩]), .dollar false⟩ c := by
      simp only [step, hparen, hbrace, hquote, if_false, Bool.false_eq_true]
    rw [hstep]
    exact good_plain hdone hword hbase c

theorem good_foldl (t : Txt) : ∀ (l : Lexer) (n : Nat), l.weight 1 ≤ n → Good l ∨ Lost n l →
    Good (t.foldl step l) ∨ Lost (n + t.length) (t.foldl step l) := by
  induction t with
  | nil => exact fun _ _ _ h => h
  | cons c t ih =>
    intro l n hweight h
    have hstep := weight_step (Nat.le_refl 1) l c
    have hnext : Good (l.step c) ∨ Lost (n + 1) (l.step c) := by
      rcases h with h | h
      · exact good_step h hweight c
      · exact Or.inr (lost_step h c)
    have hrest := ih (l.step c) (n + 1) (by omega) hnext
    rw [List.foldl_cons, List.length_cons, Nat.add_comm t.length 1, ← Nat.add_assoc]
    exact hrest

theorem whole_of_good {ts : List Token} (hgood : Good l) (h : l.finish = .read ts) :
    ∀ t ∈ ts, ∃ w, t = .word w ∧ Whole w := by
  obtain ⟨done, word, m⟩ := l
  obtain ⟨hdone, hword, hmode⟩ := hgood
  have hflush : ∀ t ∈ (flush ⟨done, word, m⟩).done, ∃ w, t = .word w ∧ Whole w := by
    cases word with
    | none => exact hdone
    | some w =>
      intro t ht
      rcases List.mem_append.mp ht with ht | ht
      · exact hdone t ht
      · exact ⟨w, List.mem_singleton.mp ht, hword w rfl⟩
  rcases hmode with hmode | ⟨hmode, -⟩
  · cases hmode
    exact Reading.read.inj h ▸ hflush
  · cases hmode
    exact Reading.read.inj h ▸ hflush

/-- A reading from which nothing is missing was not lost. -/
theorem not_lost {ts : List Token} (h : l.finish = .read ts) (hheap : heap 1 ts = n + 1)
    (hwords : ∀ t ∈ ts, ∃ w, t = .word w ∧ inert w = true) : ¬ Lost n l := by
  have hmem (t : Token) (ht : t ∈ ts) (hother : ∀ w, t ≠ .word w) : False := by
    obtain ⟨w, hw, -⟩ := hwords t ht
    exact hother w hw
  intro hlost
  cases hlost with
  | light hlight =>
    rcases heap_finish (k := 1) h with hle | ⟨w, -, heq⟩
    · omega
    · have hweight : l.weight 1 = l.base 1 + pending l.mode := rfl
      omega
  | beyond hmode =>
    unfold finish at h
    rw [hmode] at h
    cases h
  | other t ht hother => exact hmem t (done_finish h ht) hother
  | between hmode =>
    obtain ⟨done, word, m⟩ := l
    cases m with
    | bar =>
      cases h
      exact hmem (.op .pipe) (List.mem_append_right _ List.mem_cons_self) fun w => nofun
    | greater fd =>
      cases h
      exact hmem (.redirect fd .output) (List.mem_append_right _ List.mem_cons_self) fun w => nofun
    | less fd =>
      cases h
      exact hmem (.redirect fd .input) (List.mem_append_right _ List.mem_cons_self) fun w => nofun
    | ampersand => cases h
    | plain | comment | single | double | escape | escapeInDouble | dollar | braces | beyond =>
      cases hmode
  | escape hmode _ =>
    unfold finish at h
    rw [hmode] at h
    cases h
  | expands hcarries =>
    obtain ⟨w, hw, hexpands⟩ := mem_of_carries hcarries h
    obtain ⟨u, hu, hinert⟩ := hwords _ hw
    cases hu
    rw [not_inert_of_expands hexpands] at hinert
    cases hinert

end Lexer

/-! ## Arguments -/

/-- The characters of the arguments, and one more for each. -/
def cost : List Txt → Nat
  | [] => 0
  | a :: args => a.length + 1 + cost args

theorem cost_append (l l' : List Txt) : cost (l ++ l') = cost l + cost l' := by
  induction l with
  | nil => rw [List.nil_append, cost, Nat.zero_add]
  | cons a l ih =>
    rw [List.cons_append, cost, cost, ih]
    omega

theorem cost_eq {args : List Txt} (h : args ≠ []) :
    cost args = ([' '].intercalate args).length + 1 := by
  induction args with
  | nil => exact absurd rfl h
  | cons a args ih =>
    by_cases hnil : args = []
    · rw [hnil, List.intercalate_singleton]
      rfl
    · rw [List.intercalate_cons_of_ne_nil hnil, cost, ih hnil]
      simp only [List.length_append, List.length_cons, List.length_nil]
      omega

/-- In the strict world the arguments are no more than the words, and as much only if no word has
anything to expand. -/
theorem cost_fields (s : State) (ws : List Word) :
    cost (ws.flatMap (World.strict.fields s)) ≤ heap 1 (ws.map .word) ∧
      (heap 1 (ws.map .word) ≤ cost (ws.flatMap (World.strict.fields s)) →
        ∀ w ∈ ws, inert w = true) := by
  induction ws with
  | nil => exact ⟨Nat.le_refl _, fun _ w hw => (List.not_mem_nil hw).elim⟩
  | cons w ws ih =>
    have hheap : heap 1 ((w :: ws).map .word) = w.length + 1 + heap 1 (ws.map .word) := rfl
    rw [List.flatMap_cons, cost_append, hheap, World.fields_strict]
    by_cases hinert : inert w = true
    · have hone : cost [w.text] = w.length + 1 := by
        rw [cost, cost, Word.text, List.length_map]
      rw [if_pos hinert, hone]
      refine ⟨by omega, fun hle => ?_⟩
      intro v hv
      rcases List.mem_cons.mp hv with rfl | hv
      · exact hinert
      · exact ih.2 (by omega) v hv
    · have hnone : cost [] = 0 := rfl
      rw [if_neg hinert, hnone]
      exact ⟨by omega, fun hle => by omega⟩

theorem texts_of_inert (s : State) {ws : List Word} (h : ∀ w ∈ ws, inert w = true) :
    ws.flatMap (World.strict.fields s) = ws.map Word.text :=
  (bash_strict fun _ => False).flatMap_fields h

/-- A command without redirections is its words. -/
theorem words_of_simple {ts : List Token} {c : Simple} (h : simple ts = some c)
    (hnone : c.redirections = []) : ts = c.words.map .word := by
  induction ts using simple.induct generalizing c with
  | case1 =>
    cases h
    rfl
  | case2 w ts ih =>
    obtain ⟨c', hc', rfl⟩ := Option.map_eq_some_iff.mp h
    exact congrArg (Token.word w :: ·) (ih hc' hnone)
  | case3 fd o w ts ih =>
    obtain ⟨c', hc', rfl⟩ := Option.map_eq_some_iff.mp h
    cases hnone
  | case4 ts h₁ h₂ h₃ =>
    rw [simple] at h
    · cases h
    · exact h₁
    · exact h₂
    · exact h₃

/-- Where nothing is missing, the words of the first command are all there is. -/
theorem tokens_of_heap {l : Lexer} {ts : List Token} {c : Simple} (h : l.finish = .read ts)
    (hc : simple (chunks ts).1 = some c) (hle : heap 1 ts ≤ heap 1 (c.words.map .word))
    (hlast : l.weight 1 < heap 1 ts) : ts = c.words.map .word := by
  have hsimple := heap_simple 1 hc
  have hchunks := heap_chunks 1 ts
  have hnone : c.redirections = [] := List.length_eq_zero_iff.mp (by omega)
  have hwords := words_of_simple hc hnone
  obtain ⟨rest, hrest⟩ := chunks_first ts
  have hsum := heap_append 1 (chunks ts).1 rest
  rw [hrest, hwords] at hsum
  have hzero : heap 1 rest = 0 := by omega
  by_cases hnil : rest = []
  · rw [← hrest, hnil, List.append_nil, hwords]
  exfalso
  rcases Lexer.heap_finish (k := 1) h with hweight | ⟨w, hw, -⟩
  · omega
  · have hmem : .word w ∈ rest := by
      have hlast' : ts.getLast? = some (.word w) := by rw [hw, List.getLast?_concat]
      rw [← hrest, List.getLast?_append_of_ne_nil _ hnil] at hlast'
      exact List.mem_of_getLast? hlast'
    have hlength := length_le_heap (k := 1) hmem
    omega

/-- Arguments that come out as they were joined are bare. -/
theorem bare_of_read {args : List Txt} {ts : List Token} {c : Simple} {s : State}
    (hread : tokens ([' '].intercalate args) = .read ts) (hc : simple (chunks ts).1 = some c)
    (hargs : c.words.flatMap (World.strict.fields s) = args) : ∀ a ∈ args, Bare a := by
  by_cases hnil : args = []
  · rw [hnil]
    exact fun a ha => (List.not_mem_nil ha).elim
  have hcost := cost_eq hnil
  obtain ⟨hfields, hall⟩ := cost_fields s c.words
  rw [hargs] at hfields hall
  have hstart : Lexer.start.weight 1 = 0 := rfl
  have hweight := Lexer.weight_foldl (Nat.le_refl 1) ([' '].intercalate args) Lexer.start
  rw [hstart, Nat.zero_add] at hweight
  have hupper : heap 1 ts ≤ ([' '].intercalate args).length + 1 := by
    rcases Lexer.heap_finish (k := 1) hread with hle | ⟨w, -, heq⟩
    · omega
    · rw [Lexer.weight] at hweight
      omega
  have hsimple := heap_simple 1 hc
  have hchunks := heap_chunks 1 ts
  have hinert := hall (by omega)
  have htexts := texts_of_inert s hinert
  rw [hargs] at htexts
  have htokens := tokens_of_heap hread hc (by omega) (by omega)
  have hwords : ∀ t ∈ ts, ∃ w, t = .word w ∧ inert w = true := by
    rw [htokens]
    intro t ht
    obtain ⟨w, hw, rfl⟩ := List.mem_map.mp ht
    exact ⟨w, rfl, hinert w hw⟩
  have hgood : Lexer.Good Lexer.start :=
    ⟨fun t ht => (List.not_mem_nil ht).elim, (fun w h => by cases h), Or.inl rfl⟩
  have hend :=
    Lexer.good_foldl ([' '].intercalate args) Lexer.start 0 (Nat.le_refl _) (Or.inl hgood)
  have hnotLost := Lexer.not_lost (n := 0 + ([' '].intercalate args).length) hread (by omega) hwords
  have hwhole := Lexer.whole_of_good (hend.resolve_right hnotLost) hread
  intro a ha
  rw [htexts] at ha
  obtain ⟨w, hw, rfl⟩ := List.mem_map.mp ha
  obtain ⟨u, hu, hbare⟩ := hwhole (.word w) (by rw [htokens]; exact List.mem_map_of_mem hw)
  cases hu
  have hne : w.text ≠ [] := fun h => hbare.nonempty (List.map_eq_nil_iff.mp h)
  exact ⟨hne, hbare.whole, hbare.noComment, hbare.same ▸ hinert w hw⟩

end Shell
end RocmTests

import RocmTests.Shell.Nested
import RocmTests.Shell.Weight

/-!
# When a text is handed over

A calm text is handed over by every shell.  A text that is not calm is not: in the `strict` world,
where a word with something to expand in it comes to no argument at all, the shell that reads it
starts something else, or nothing.  For a text can only come out whole if no character of it is
lost, and a quote, or a backslash before a character that it keeps from its meaning, is lost.
-/

namespace RocmTests
namespace Shell

open Text

/-! ## A dollar before a parameter -/

/-- Something in the word is a parameter. -/
def Expands (w : Word) : Prop :=
  ∃ p g r, w = p ++ ⟨'$', .active⟩ :: g :: r ∧ beginsParameter g.char = true

theorem expands_push (w : Word) (g : Glyph) (h : Expands w) : Expands (w ++ [g]) := by
  obtain ⟨p, g', r, rfl, hg⟩ := h
  exact ⟨p, g', r ++ [g], by rw [List.append_assoc]; rfl, hg⟩

theorem digits_of_expands (w : Word) (h : Expands w) : Lexer.digits w = false := by
  obtain ⟨p, g, r, rfl, -⟩ := h
  unfold Lexer.digits
  rw [List.all_append, List.all_cons]
  simp

theorem inertBehind_append (w w' : Word) (before : Txt) :
    inertBehind before (w ++ w') = true → inertBehind (before ++ w.text) w' = true := by
  induction w generalizing before with
  | nil =>
    intro h
    rwa [show Word.text [] = [] from rfl, List.append_nil]
  | cons g w ih =>
    intro h
    rw [List.cons_append, inertBehind, Bool.and_eq_true] at h
    have hrest := ih _ h.2
    rwa [List.append_assoc] at hrest

theorem not_inert_of_expands {w : Word} (h : Expands w) : inert w = false := by
  obtain ⟨p, g, r, rfl, hg⟩ := h
  by_contra hinert
  rw [Bool.not_eq_false] at hinert
  have hrest := inertBehind_append p _ [] hinert
  rw [inertBehind, Bool.and_eq_true] at hrest
  have hleft : (!beginsParameter g.char) = true := hrest.1
  rw [hg] at hleft
  cases hleft

/-! ## Words of a command -/

theorem chunks_first (ts : List Token) : (chunks ts).1 <+: ts := by
  induction ts with
  | nil => exact List.prefix_refl _
  | cons t ts ih =>
    cases t with
    | op o => exact List.nil_prefix
    | word w => exact (List.prefix_cons_inj _).mpr ih
    | redirect fd o => exact (List.prefix_cons_inj _).mpr ih

/-- What the words of a command weigh, and a little for each redirection. -/
theorem heap_simple (k : Nat) {ts : List Token} {c : Simple} (h : simple ts = some c) :
    heap k (c.words.map .word) + k * c.redirections.length ≤ heap k ts := by
  induction ts using simple.induct generalizing c with
  | case1 =>
    cases h
    exact Nat.le_refl _
  | case2 w ts ih =>
    obtain ⟨c', hc', rfl⟩ := Option.map_eq_some_iff.mp h
    have hrest := ih hc'
    show w.length + k + heap k (c'.words.map .word) + k * c'.redirections.length ≤
      w.length + k + heap k ts
    omega
  | case3 fd o w ts ih =>
    obtain ⟨c', hc', rfl⟩ := Option.map_eq_some_iff.mp h
    have hrest := ih hc'
    show heap k (c'.words.map .word) + k * (c'.redirections.length + 1) ≤ w.length + k + heap k ts
    rw [Nat.mul_add, Nat.mul_one]
    omega
  | case4 ts h₁ h₂ h₃ =>
    rw [simple] at h
    · cases h
    · exact h₁
    · exact h₂
    · exact h₃

theorem heap_chunks (k : Nat) (ts : List Token) : heap k (chunks ts).1 ≤ heap k ts := by
  obtain ⟨ts', hts⟩ := chunks_first ts
  have happend := heap_append k (chunks ts).1 ts'
  rw [hts] at happend
  omega

theorem mem_words {ts : List Token} {c : Simple} (h : simple ts = some c) :
    ∀ w ∈ c.words, .word w ∈ ts := by
  induction ts using simple.induct generalizing c with
  | case1 =>
    cases h
    exact fun w hw => (List.not_mem_nil hw).elim
  | case2 w ts ih =>
    obtain ⟨c', hc', rfl⟩ := Option.map_eq_some_iff.mp h
    intro v hv
    rcases List.mem_cons.mp hv with rfl | hv
    · exact List.mem_cons_self
    · exact List.mem_cons_of_mem _ (ih hc' v hv)
  | case3 fd o w ts ih =>
    obtain ⟨c', hc', rfl⟩ := Option.map_eq_some_iff.mp h
    exact fun v hv => List.mem_cons_of_mem _ (List.mem_cons_of_mem _ (ih hc' v hv))
  | case4 ts h₁ h₂ h₃ =>
    rw [simple] at h
    · cases h
    · exact h₁
    · exact h₂
    · exact h₃

theorem length_le_heap {k : Nat} {ts : List Token} {w : Word} (h : .word w ∈ ts) :
    w.length + k ≤ heap k ts := by
  obtain ⟨a, b, rfl⟩ := List.append_of_mem h
  rw [heap_append, heap]
  omega

/-- Two words of a text, if they differ. -/
theorem length_add_le_heap {ts : List Token} {w w' : Word} (h : .word w ∈ ts) (h' : .word w' ∈ ts)
    (hne : w ≠ w') : w.length + w'.length ≤ heap 0 ts := by
  obtain ⟨a, b, rfl⟩ := List.append_of_mem h
  have hmem : .word w' ∈ a ∨ .word w' ∈ b := by
    rcases List.mem_append.mp h' with h' | h'
    · exact Or.inl h'
    · rcases List.mem_cons.mp h' with h' | h'
      · exact absurd (Token.word.inj h').symm hne
      · exact Or.inr h'
  rw [heap_append, heap]
  rcases hmem with hmem | hmem <;> have hle := length_le_heap (k := 0) hmem <;> omega

/-! ## The strict world -/

namespace World

/-- A word that might be expanded comes to nothing.  Everything succeeds, and `export` does what it
does. -/
def strict : World where
  expand _ w := if inert w then [w.text] else []
  value _ w := w.text
  act s c :=
    match c.argv with
    | [name, a] =>
      if name = exportName then { s with env := s.env.apply [assignment a] } else s
    | _ => s
  status _ := 0
  lasts _ := 0
  beyond _ _ := ⟨[], 0⟩

theorem fields_strict (s : State) (w : Word) :
    strict.fields s w = if inert w then [w.text] else [] := by
  unfold fields
  by_cases hplain : w.plain = true
  · rw [if_pos hplain, if_pos (inert_of_plain hplain)]
  · rw [if_neg hplain]
    rfl

end World

theorem not_mem_of_isName {t : Txt} (h : isName t = true) : '=' ∉ t := by
  intro hmem
  rw [isName, Bool.and_eq_true] at h
  exact absurd (List.all_eq_true.mp h.2 _ hmem) (by decide)

theorem bash_strict (kept : Txt → Prop) : Bash kept posix .strict where
  bash := ⟨by decide, by decide⟩
  export_itself := by decide
  export_word := by decide
  expand s w h := if_pos h
  exports s c k v hargv hname _ := by
    have hassignment : assignment (k ++ '=' :: v) = (k, some v) := by
      have hne : ∀ x ∈ k, decide (x ≠ '=') = true := fun x hx =>
        decide_eq_true fun heq => not_mem_of_isName hname (heq ▸ hx)
      unfold assignment
      rw [List.takeWhile_append_of_pos hne, List.takeWhile_cons_of_neg (by decide), List.append_nil,
        List.dropWhile_append_of_pos hne, List.dropWhile_cons_of_neg (by decide), List.tail_cons]
    unfold World.strict
    simp only [hargv, if_true, hassignment]
    rfl

/-! ## Nothing is lost -/

/-- What is lost behind the opening quote is missing in the end. -/
theorem lost_of_weight {l : Lexer} {t : Txt} {ts : List Token} {v : Word} {n : Nat}
    (h : ((t ++ ['"']).foldl Lexer.step l).finish = .read ts) (hv : .word v ∈ ts)
    (hl : l.weight 0 ≤ n) (hlong : n + t.length < v.length) : False := by
  have hle := Lexer.heap_quote_le h
  have hword := length_le_heap (k := 0) hv
  omega

/-- Once a construct is beyond the grammar the text is. -/
theorem foldl_beyond (t : Txt) (ts : List Token) (word : Option Word) :
    t.foldl Lexer.step ⟨ts, word, .beyond⟩ = ⟨ts, word, .beyond⟩ := by
  induction t with
  | nil => rfl
  | cons c t ih => exact ih

/-- A backslash that does not stay. -/
theorem lost_escape {w : Word} {d : Char} (h : stays '\\' (some d) = false) :
    (Lexer.step ⟨[], some w, .escapeInDouble⟩ d).weight 0 ≤ w.length + 1 := by
  have hspecial : d ∈ doubleSpecial ∨ d = '\n' := by
    by_contra hno
    rw [not_or] at hno
    have hstays : stays '\\' (some d) = true := decide_eq_true hno
    rw [h] at hstays
    cases hstays
  have hpush (d : Char) :
      (Lexer.go (Lexer.push ⟨[], some w, .escapeInDouble⟩ .quoted d) .double).weight 0 ≤
        w.length + 1 := by
    rw [Lexer.weight_go, Lexer.base_push]
    show heap 0 [] + w.length + 1 + 0 ≤ w.length + 1
    rw [heap]
    omega
  rcases hspecial with hspecial | rfl
  · have hstep : Lexer.step ⟨[], some w, .escapeInDouble⟩ d =
        (Lexer.push ⟨[], some w, .escapeInDouble⟩ .quoted d).go .double := by
      simp only [doubleSpecial, List.mem_cons, List.not_mem_nil, or_false] at hspecial
      rcases hspecial with rfl | rfl | rfl | rfl <;> rfl
    rw [hstep]
    exact hpush d
  · show heap 0 [] + w.length + 0 ≤ w.length + 1
    rw [heap]
    omega

/-- A dollar before a parameter stays in a word, or the text is beyond the grammar. -/
theorem expands_of_dollar {w : Word} {d : Char} (h : beginsParameter d = true) :
    Lexer.step ⟨[], some (w ++ [⟨'$', .active⟩]), .dollar true⟩ d =
        ⟨[], some (w ++ [⟨'$', .active⟩]), .beyond⟩ ∨
      Lexer.Carries Expands (Lexer.step ⟨[], some (w ++ [⟨'$', .active⟩]), .dollar true⟩ d) := by
  have hpushed (kind : Kind) (m : Mode) (hm : Lexer.keeps m = true) : Lexer.Carries Expands
      (Lexer.go (Lexer.push ⟨[], some (w ++ [⟨'$', .active⟩]), .dollar true⟩ kind d) m) := by
    refine Or.inr ⟨w ++ [⟨'$', .active⟩] ++ [⟨d, kind⟩], rfl, ?_, hm⟩
    exact ⟨w, ⟨d, kind⟩, [], by rw [List.append_assoc]; rfl, h⟩
  by_cases hparen : d = '('
  · subst hparen
    exact Or.inl rfl
  right
  by_cases hbrace : d = '\x7b'
  · subst hbrace
    exact hpushed .active (.braces true) rfl
  have hother : d ≠ '"' ∧ d ≠ '\\' ∧ d ≠ Char.ofNat 96 := by
    refine ⟨?_, ?_, ?_⟩ <;>
      · intro hd
        rw [hd] at h
        exact absurd h (by decide)
  by_cases hdollar : d = '$'
  · subst hdollar
    exact hpushed .active (.dollar true) rfl
  · have hstep : Lexer.step ⟨[], some (w ++ [⟨'$', .active⟩]), .dollar true⟩ d =
        (Lexer.push ⟨[], some (w ++ [⟨'$', .active⟩]), .dollar true⟩ .quoted d).go .double := by
      simp only [Lexer.step, Lexer.double, hparen, hbrace, hother, hdollar, if_false, if_true]
    rw [hstep]
    exact hpushed .quoted .double rfl

/-- A text that comes out whole between double quotes is calm. -/
theorem calm_of_read (t : Txt) : ∀ (w : Word) {ts : List Token} {v : Word},
    ((t ++ ['"']).foldl Lexer.step ⟨[], some w, .double⟩).finish = .read ts →
    .word v ∈ ts → inert v = true → w.length + t.length ≤ v.length → calm t (some '"') = true := by
  induction t with
  | nil => exact fun _ _ _ _ _ _ _ => rfl
  | cons c t ih =>
    intro w ts v h hv hinert hlong
    obtain ⟨d, r, hnext⟩ : ∃ d r, t ++ ['"'] = d :: r :=
      List.exists_cons_of_ne_nil (List.append_ne_nil_of_right_ne_nil t (List.cons_ne_nil _ _))
    have hhead : t.head?.or (some '"') = some d := by
      have hor : (t ++ ['"']).head? = t.head?.or (['"'].head?) := List.head?_append
      rwa [hnext, List.head?_cons, List.head?_cons, eq_comm] at hor
    have hlength : r.length = t.length := by
      have hcount := congrArg List.length hnext
      rw [List.length_append, List.length_cons, List.length_cons] at hcount
      exact (Nat.succ.inj hcount).symm
    rw [List.length_cons] at hlong
    rw [calm_cons, hhead, Bool.and_eq_true]
    by_cases hstays : stays c (some d) = true
    · refine ⟨hstays, ?_⟩
      rw [List.cons_append, hnext, Lexer.foldl_stays hstays, ← hnext] at h
      refine ih _ h hv hinert ?_
      rw [List.length_append]
      show w.length + 1 + t.length ≤ v.length
      omega
    exfalso
    rw [Bool.not_eq_true] at hstays
    rw [List.cons_append, List.foldl_cons] at h
    by_cases hslash : c = '\\'
    · -- the quote at the end is no more than a character, and the word stays open
      subst hslash
      have hstep : Lexer.step ⟨[], some w, .double⟩ '\\' = ⟨[], some w, .escapeInDouble⟩ := rfl
      rw [hstep] at h
      cases t with
      | nil => cases h
      | cons d' t =>
        obtain ⟨rfl, rfl⟩ := List.cons.inj hnext
        rw [List.cons_append, List.foldl_cons] at h
        rw [List.length_cons] at hlong
        exact lost_of_weight h hv (lost_escape hstays) (by omega)
    by_cases hdollar : c = '$'
    · subst hdollar
      have hstep : Lexer.step ⟨[], some w, .double⟩ '$' =
          ⟨[], some (w ++ [⟨'$', .active⟩]), .dollar true⟩ := rfl
      rw [hstep] at h
      have hparameter : beginsParameter d = true := by simpa [stays] using hstays
      rw [hnext, List.foldl_cons] at h
      rcases expands_of_dollar (w := w) hparameter with hbeyond | hcarries
      · rw [hbeyond, foldl_beyond] at h
        cases h
      · have hfinal := Lexer.carries_foldl expands_push digits_of_expands r _ hcarries
        obtain ⟨u, hu, hexpands⟩ := Lexer.mem_of_carries hfinal h
        have hne : v ≠ u := by
          intro heq
          rw [heq, not_inert_of_expands hexpands] at hinert
          cases hinert
        obtain ⟨p, g, q, rfl, -⟩ := hexpands
        have hsum := length_add_le_heap hv hu hne
        have hall : heap 0 ts ≤ w.length + (t.length + 1) := by
          have hread : (('$' :: t ++ ['"']).foldl Lexer.step ⟨[], some w, .double⟩).finish =
              .read ts := by
            rw [List.cons_append, List.foldl_cons, hstep, hnext, List.foldl_cons]
            exact h
          have hquote := Lexer.heap_quote_le hread
          have hweight : Lexer.weight 0 ⟨[], some w, .double⟩ = w.length := by
            show heap 0 [] + w.length + 0 = w.length
            rw [heap]
            omega
          rwa [hweight, List.length_cons] at hquote
        simp only [List.length_append, List.length_cons] at hsum
        omega
    unfold stays at hstays
    rw [if_neg hslash, if_neg hdollar, decide_eq_false_iff_not, not_and_or, not_not,
      not_not] at hstays
    rcases hstays with rfl | rfl
    · have hstep : Lexer.step ⟨[], some w, .double⟩ '"' = ⟨[], some w, .plain⟩ := rfl
      rw [hstep] at h
      refine lost_of_weight (n := w.length) h hv ?_ (by omega)
      show heap 0 [] + w.length + 0 ≤ w.length
      rw [heap]
      omega
    · have hstep : Lexer.step ⟨[], some w, .double⟩ (Char.ofNat 96) = ⟨[], some w, .beyond⟩ := rfl
      rw [hstep, foldl_beyond] at h
      cases h

/-- Some word of the list is the one argument. -/
theorem mem_of_fields {s : State} {ws : List Word} {t : Txt}
    (h : t ∈ ws.flatMap (World.strict.fields s)) : ∃ w ∈ ws, inert w = true ∧ w.text = t := by
  obtain ⟨w, hw, ht⟩ := List.mem_flatMap.mp h
  rw [World.fields_strict] at ht
  by_cases hinert : inert w = true
  · rw [if_pos hinert] at ht
    exact ⟨w, hw, hinert, (List.mem_singleton.mp ht).symm⟩
  · rw [if_neg hinert] at ht
    cases ht

/-- The first words of a program's command are its first arguments. -/
theorem argv_behind {W : World} {s : State} {w : Word} {ws : List Word} {c : Simple}
    (hname : '=' ∉ w.text) :
    W.argv s (c.behind (w :: ws)) = (w :: ws).flatMap (W.fields s) ++
      c.words.flatMap (W.fields s) := by
  have hno : ¬ isAssignment w = true := fun h => hname (mem_text_of_isAssignment h)
  have hoperands : (c.behind (w :: ws)).operands = w :: ws ++ c.words :=
    List.dropWhile_cons_of_neg hno
  rw [World.argv, hoperands, List.flatMap_append]

theorem argv_commandOf {M : Machine} {W : World} {s : State} {fds : Nat → Dest} {c : Simple}
    {name : Txt} {args : List Txt} (hargv : W.argv s c = name :: args)
    (hname : M.itself name = false)
    (henv : name ≠ envName) (htimeout : name ≠ timeoutName) :
    (M.commandOf W s fds c).1.argv = name :: args := by
  rw [Machine.commandOf_program hargv hname,
    resolve_of_not_peel (peel_of_program henv htimeout args)]

/-- A text is handed over between double quotes exactly when it is calm. -/
theorem handed_iff (kept : Txt → Prop) (t : Txt) : Handed kept t ↔ calm t (some '"') = true := by
  refine ⟨fun h => ?_, handed_of_calm⟩
  have hran := h posix .strict (fresh (fun _ => none) []) (bash_strict kept)
  have hfront : "bash -c ".toList.foldl Lexer.step Lexer.start = Lexer.start.after
      [.word (.of .bare bashName), .word (.of .bare commandOption)] := by
    have hstart : Lexer.start.after [.word (.of .bare bashName), .word (.of .bare commandOption)] =
        ⟨[.word (.of .bare bashName), .word (.of .bare commandOption)], none, .plain⟩ := rfl
    exact hstart ▸ rfl
  have htokens := tokens_append hfront ('"' :: t ++ ['"'])
  have hread : read posix.reserved (bashC t) = ((tokens ('"' :: t ++ ['"'])).map
      ([Token.word (.of .bare bashName), Token.word (.of .bare commandOption)] ++ ·)).bind
        (script posix.reserved) := congrArg (Reading.bind · (script posix.reserved)) htokens
  cases hquoted : tokens ('"' :: t ++ ['"']) with
  | refused =>
    rw [Machine.run, hread, hquoted] at hran
    cases hran
  | beyond =>
    rw [Machine.run, hread, hquoted] at hran
    cases hran
  | read ts =>
    rw [Machine.run, hread, hquoted, Reading.map_read, Reading.bind_read] at hran
    have hcommand : (fun w : Word => w.unquoted && posix.reserved w.text) (.of .bare bashName) =
        false := by
      decide
    cases hscript : script posix.reserved
        ([Token.word (.of .bare bashName), Token.word (.of .bare commandOption)] ++ ts) with
    | refused =>
      rw [hscript] at hran
      cases hran
    | beyond =>
      rw [hscript] at hran
      cases hran
    | read l =>
      rw [hscript] at hran
      have hsplit := hscript
      change script posix.reserved
        ([Word.of .bare bashName, .of .bare commandOption].map .word ++ ts) =
        .read l at hsplit
      rw [script_append hcommand] at hsplit
      split_ifs at hsplit
      obtain ⟨c, hc, hl⟩ := Option.bind_eq_some_iff.mp (orRefused_eq_read.mp hsplit)
      obtain ⟨later, -, rfl⟩ := Option.map_eq_some_iff.mp hl
      obtain ⟨more, hmore⟩ := Machine.ran_line (M := posix) (W := .strict)
        (fresh (fun _ => none) []) 0 true (c.behind [.of .bare bashName, .of .bare commandOption])
          later
      dsimp only at hran
      rw [hmore, List.map_cons] at hran
      have hfirst := congrArg Command.argv (List.cons.inj hran).1
      rw [Machine.exec_command] at hfirst
      have hargv : World.strict.argv (fresh (fun _ => none) [])
          (c.behind [.of .bare bashName, .of .bare commandOption]) = _ := argv_behind (by decide)
      have hwords : [Word.of .bare bashName, .of .bare commandOption].flatMap
          (World.strict.fields (fresh (fun _ => none) [])) = [bashName, commandOption] := rfl
      rw [hwords] at hargv
      rw [argv_commandOf hargv (by decide) (by decide) (by decide)] at hfirst
      have hfields : t ∈ c.words.flatMap (World.strict.fields (fresh (fun _ => none) [])) := by
        have hrest : c.words.flatMap (World.strict.fields (fresh (fun _ => none) [])) = [t] :=
          (List.cons.inj (List.cons.inj hfirst).2).2
        rw [hrest]
        exact List.mem_singleton_self t
      obtain ⟨w, hw, hinert, rfl⟩ := mem_of_fields hfields
      have hmem := (chunks_first ts).subset (mem_words hc w hw)
      refine calm_of_read w.text [] hquoted hmem hinert ?_
      rw [Word.text, List.length_map]
      exact Nat.le_of_eq (Nat.zero_add _)

end Shell
end RocmTests

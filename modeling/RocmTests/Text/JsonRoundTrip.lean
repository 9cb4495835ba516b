import RocmTests.Text.JsonText

/-!
# A printed value is read back

The proof follows the value: behind its text the machine has the stack that it had before, and the
value.
-/

namespace RocmTests
namespace Text

/-! ## Values and their parts -/

namespace JsonValue

def children : JsonValue → List JsonValue
  | .arr xs => xs
  | .obj items => items.map (·.2)
  | _ => []

/-- Induction on the values in a value. -/
theorem induct {P : JsonValue → Prop} (h : ∀ v : JsonValue, (∀ w ∈ v.children, P w) → P v)
    (v : JsonValue) : P v := by
  refine @JsonValue.rec P (fun xs => ∀ w ∈ xs, P w) (fun ms => ∀ w ∈ ms.map (·.2), P w)
    (fun m => P m.2) ?null ?bool ?int ?float ?str ?arr ?obj ?nil ?cons ?none ?member ?pair v
  case null => exact h _ fun w hw => nomatch hw
  case bool => exact fun _ => h _ fun w hw => nomatch hw
  case int => exact fun _ => h _ fun w hw => nomatch hw
  case float => exact fun _ => h _ fun w hw => nomatch hw
  case str => exact fun _ => h _ fun w hw => nomatch hw
  case arr => exact fun xs ih => h _ ih
  case obj => exact fun items ih => h _ ih
  case nil => exact fun w hw => nomatch hw
  case cons => exact fun v vs hv hvs => List.forall_mem_cons.mpr ⟨hv, hvs⟩
  case none => exact fun w hw => nomatch hw
  case member => exact fun m ms hm hms => List.forall_mem_cons.mpr ⟨hm, hms⟩
  case pair => exact fun _ v hv => hv

/-- A property of a value and of all values in it. -/
inductive Every (p : JsonValue → Prop) : JsonValue → Prop
  | intro {v : JsonValue} (here : p v) (below : ∀ w ∈ v.children, Every p w) : Every p v

theorem every_iff {p : JsonValue → Prop} {v : JsonValue} :
    Every p v ↔ p v ∧ ∀ w ∈ v.children, Every p w := by
  constructor
  · intro h
    cases h with
    | intro here below => exact ⟨here, below⟩
  · exact fun h => ⟨h.1, h.2⟩

end JsonValue

namespace Json

open Machine

variable {limit : Nat} {stack : List Frame} {role : Role} {s : Txt}

/-! ## Strings -/

theorem hexOf_digitChar : ∀ d < 16, hexOf d.digitChar = some d := by decide

theorem step_unicode {m : Machine} {c : Char} {d n count : Nat} {high : Option Nat}
    (hc : hexOf c = some d) (hcount : count ≠ 3) :
    step limit (m.go (.unicode role s high n count)) c =
      m.go (.unicode role s high (16 * n + d) (count + 1)) := by
  simp only [step, go, hc, if_neg hcount]

theorem step_unicode_last {m : Machine} {c : Char} {d n : Nat} {high : Option Nat}
    (hc : hexOf c = some d) :
    step limit (m.go (.unicode role s high n 3)) c = m.codePoint role s high (16 * n + d) := by
  simp only [step, go, hc, if_true]
  unfold codePoint go
  rfl

/-- The four digits of `\u`. -/
theorem run_fourHex {n : Nat} (hn : n < 65536) (high : Option Nat) (m : Machine) :
    (fourHex n).foldl (step limit) (m.go (.unicode role s high 0 0)) =
      m.codePoint role s high n := by
  have hdigit : ∀ k, hexOf (k % 16).digitChar = some (k % 16) :=
    fun k => hexOf_digitChar _ (Nat.mod_lt _ (by omega))
  have hvalue : 16 * (16 * (16 * (16 * 0 + n / 4096 % 16) + n / 256 % 16) + n / 16 % 16) + n % 16 =
      n := by
    omega
  rw [fourHex, List.foldl_cons, step_unicode (hdigit _) (by omega), List.foldl_cons,
    step_unicode (hdigit _) (by omega), List.foldl_cons, step_unicode (hdigit _) (by omega),
    List.foldl_cons, step_unicode_last (hdigit _), List.foldl_nil, hvalue]

theorem run_unicodeEscape {n : Nat} (hn : n < 65536) (m : Machine) :
    (unicodeEscape n).foldl (step limit) (m.go (.str role s)) = m.codePoint role s none n :=
  run_fourHex hn none m

theorem scalar_toNat (c : Char) :
    c.toNat < 0xd800 ∨ 0xdfff < c.toNat ∧ c.toNat < 0x110000 := c.valid

/-- The second of two surrogates. -/
theorem run_low {h n : Nat} (hn : n < 65536) (m : Machine) :
    (unicodeEscape n).foldl (step limit) (m.go (.high role s h)) = m.codePoint role s (some h) n :=
  run_fourHex hn (some h) m

theorem codePoint_high {n : Nat} (hn : n < 1024) (m : Machine) :
    m.codePoint role s none (0xd800 + n) = m.go (.high role s (0xd800 + n)) := by
  unfold codePoint
  dsimp only
  rw [if_pos (by omega)]

theorem codePoint_low {h n : Nat} (hn : n < 1024) (m : Machine) :
    m.codePoint role s (some (0xd800 + h)) (0xdc00 + n) =
      m.go (.str role (s ++ [Char.ofNat (65536 + h * 1024 + n)])) := by
  unfold codePoint
  dsimp only
  rw [if_pos (by omega), Nat.add_sub_cancel_left, Nat.add_sub_cancel_left]

theorem run_surrogates {c : Char} (hc : 65536 ≤ c.toNat) (m : Machine) :
    (unicodeEscape (0xd800 + (c.toNat - 65536) / 1024) ++
      unicodeEscape (0xdc00 + (c.toNat - 65536) % 1024)).foldl (step limit) (m.go (.str role s)) =
        m.go (.str role (s ++ [c])) := by
  have hvalid := scalar_toNat c
  have hvalue : 65536 + (c.toNat - 65536) / 1024 * 1024 + (c.toNat - 65536) % 1024 = c.toNat := by
    omega
  rw [List.foldl_append, run_unicodeEscape (by omega), codePoint_high (by omega),
    run_low (by omega), codePoint_low (by omega), hvalue, Char.ofNat_toNat]

/-- One character of a string. -/
theorem run_jsonChar (c : Char) (m : Machine) :
    (jsonChar c).foldl (step limit) (m.go (.str role s)) = m.go (.str role (s ++ [c])) := by
  unfold jsonChar
  split_ifs with hself hn hr ht hf hb hprint hshort
  · rcases hself with rfl | rfl <;> rfl
  · rw [hn]
    rfl
  · rw [hr]
    rfl
  · rw [ht]
    rfl
  · rw [← Char.ofNat_toNat c, hf]
    rfl
  · rw [← Char.ofNat_toNat c, hb]
    rfl
  · rw [not_or] at hself
    simp only [List.foldl_cons, List.foldl_nil, step, go, if_neg hself.1, if_neg hself.2]
    exact if_neg (by omega)
  · have hvalid := scalar_toNat c
    rw [run_unicodeEscape hshort]
    unfold codePoint
    dsimp only
    rw [if_neg (by omega), if_neg (by omega), Char.ofNat_toNat]
  · exact run_surrogates (by omega) m

/-- What is between the quotes. -/
theorem run_chars (t : Txt) : ∀ (s : Txt) (m : Machine),
    (t.flatMap jsonChar).foldl (step limit) (m.go (.str role s)) = m.go (.str role (s ++ t)) := by
  induction t with
  | nil =>
    intro s m
    rw [List.append_nil]
    rfl
  | cons c t ih =>
    intro s m
    rw [List.flatMap_cons, List.foldl_append, run_jsonChar, ih, List.append_assoc]
    rfl

theorem run_string (t : Txt) (m : Machine) :
    (t.flatMap jsonChar ++ ['"']).foldl (step limit) (m.go (.str role [])) = m.string t role := by
  rw [List.foldl_append, run_chars, List.nil_append]
  cases role <;> rfl

/-! ## Numbers -/

/-- The digits of a positive number begin with another digit than zero. -/
theorem head_showNat {n : Nat} (hn : 0 < n) {c : Char} (hc : (showNat n).head? = some c) :
    c ≠ '0' := by
  induction n using Nat.strong_induction_on generalizing c with
  | _ n ih =>
    unfold showNat at hc
    by_cases hsmall : n < 10
    · rw [Nat.toDigits_of_lt_base hsmall] at hc
      obtain rfl := Option.some.inj hc
      have hdigit : ∀ k < 10, 0 < k → k.digitChar ≠ '0' := by decide
      exact hdigit n hsmall hn
    · rw [Nat.toDigits_of_base_le (by omega) (by omega),
        List.head?_append_of_ne_nil _ Nat.toDigits_ne_nil] at hc
      exact ih (n / 10) (by omega) (by omega) hc

theorem unsigned_showNat (n : Nat) : wholePart.unsigned (showNat n) = some (showNat n, []) := by
  rcases Nat.eq_zero_or_pos n with rfl | hn
  · rfl
  · have hall : ∀ c ∈ showNat n, c.isDigit = true := fun c hc => isDigit_of_mem_showNat hc
    have htake : (showNat n).takeWhile Char.isDigit = showNat n :=
      List.takeWhile_eq_self_iff.mpr hall
    have hdrop : (showNat n).dropWhile Char.isDigit = [] := List.dropWhile_eq_nil_iff.mpr hall
    have hne := showNat_ne_nil n
    have hhead := fun c => head_showNat (c := c) hn
    generalize showNat n = ds at htake hdrop hne hhead
    unfold wholePart.unsigned
    split
    · exact absurd rfl (hhead '0' rfl)
    · dsimp only
      rw [htake, hdrop, if_neg hne]

theorem wholePart_showInt (n : Int) : wholePart (showInt n) = some (showInt n, []) := by
  cases n with
  | ofNat n =>
    have hunsigned : wholePart (showNat n) = wholePart.unsigned (showNat n) := by
      have hne : ∀ t, showNat n ≠ '-' :: t := by
        intro t ht
        have := isDigit_of_mem_showNat (n := n) (c := '-') (ht ▸ List.mem_cons_self)
        exact absurd this (by decide)
      generalize showNat n = ds at hne
      unfold wholePart
      split
      · exact absurd rfl (hne _)
      · rfl
    exact hunsigned.trans (unsigned_showNat n)
  | negSucc n =>
    show (wholePart.unsigned (showNat (n + 1))).map _ = _
    rw [unsigned_showNat]
    rfl

theorem number_showInt {n : Int} (hn : (showNat n.natAbs).length ≤ intMaxStrDigits) :
    number (showInt n) = .ok (.int n) := by
  have hparse : parseInt (showInt n) = some n := by
    have hcount : (showInt n).countP (fun c => (Markers.digitValue c).isSome) ≤
        (showNat n.natAbs).length := by
      cases n with
      | ofNat n => exact List.countP_le_length
      | negSucc n =>
        show ('-' :: showNat (n + 1)).countP _ ≤ _
        rw [List.countP_cons_of_neg (by decide)]
        exact List.countP_le_length
    unfold parseInt
    rw [if_neg (by omega), intOfText_showInt]
  unfold number
  rw [wholePart_showInt]
  dsimp only
  simp only [fractionPart, exponentPart, and_self, if_true, hparse]
  rfl

/-- What `repr` gives a float: a number with a fraction or an exponent, which `float` reads back. -/
structure FloatText (t : Txt) (q : ℚ) : Prop where
  parts : ∃ whole fraction exponent, wholePart t = some (whole, fraction ++ exponent) ∧
    fractionPart (fraction ++ exponent) = (fraction, exponent) ∧
      exponentPart exponent = (exponent, []) ∧ (fraction ≠ [] ∨ exponent ≠ [])
  read : PyFloat.parse t = some (.finite q)

theorem isNumberChar_of_isDigit {c : Char} (h : c.isDigit = true) : isNumberChar c = true := by
  rw [isNumberChar, h, Bool.true_or]

theorem unsigned_spec {t w r : Txt} (h : wholePart.unsigned t = some (w, r)) :
    t = w ++ r ∧ (∀ c ∈ w, c.isDigit = true) ∧ ∃ c, t.head? = some c ∧ c.isDigit = true := by
  unfold wholePart.unsigned at h
  split at h
  · cases h
    exact ⟨rfl, fun c hc => by rw [List.mem_singleton.mp hc]; rfl, '0', rfl, rfl⟩
  · dsimp only at h
    split_ifs at h with hne
    cases h
    refine ⟨List.takeWhile_append_dropWhile.symm, fun c hc => List.mem_takeWhile_imp hc, ?_⟩
    cases t with
    | nil => exact absurd rfl hne
    | cons c t =>
      refine ⟨c, rfl, ?_⟩
      by_contra hc
      exact hne (List.takeWhile_cons_of_neg hc)

theorem wholePart_spec {t w r : Txt} (h : wholePart t = some (w, r)) :
    t = w ++ r ∧ (∀ c ∈ w, isNumberChar c = true) ∧
      ∃ c, t.head? = some c ∧ (c = '-' ∨ c.isDigit = true) := by
  unfold wholePart at h
  split at h
  · obtain ⟨⟨w, r⟩, hunsigned, heq⟩ := Option.map_eq_some_iff.mp h
    cases heq
    obtain ⟨ht, hall, -⟩ := unsigned_spec hunsigned
    refine ⟨by rw [ht]; rfl, fun c hc => ?_, '-', rfl, Or.inl rfl⟩
    rcases List.mem_cons.mp hc with rfl | hc
    · rfl
    · exact isNumberChar_of_isDigit (hall c hc)
  · obtain ⟨ht, hall, c, hc, hdigit⟩ := unsigned_spec h
    exact ⟨ht, fun c hc => isNumberChar_of_isDigit (hall c hc), c, hc, Or.inr hdigit⟩

theorem mem_fractionPart {t : Txt} {c : Char} (h : c ∈ (fractionPart t).1) :
    isNumberChar c = true := by
  unfold fractionPart at h
  split at h
  · dsimp only at h
    split_ifs at h
    · cases h
    · rcases List.mem_cons.mp h with rfl | h
      · rfl
      · exact isNumberChar_of_isDigit (List.mem_takeWhile_imp h)
  · cases h

theorem mem_exponentPart {t : Txt} {c : Char} (h : c ∈ (exponentPart t).1) :
    isNumberChar c = true := by
  unfold exponentPart at h
  split at h
  · cases h
  · split_ifs at h with he
    · dsimp only at h
      split_ifs at h
      · cases h
      · rcases List.mem_cons.mp h with rfl | h
        · rcases he with rfl | rfl <;> rfl
        · rcases List.mem_append.mp h with h | h
          · have hsign := List.mem_takeWhile_imp h
            rw [Bool.or_eq_true, decide_eq_true_eq, decide_eq_true_eq] at hsign
            rcases hsign with rfl | rfl <;> rfl
          · exact isNumberChar_of_isDigit (List.mem_takeWhile_imp h)
    · cases h

theorem FloatText.chars {t : Txt} {q : ℚ} (h : FloatText t q) : ∀ c ∈ t, isNumberChar c = true := by
  obtain ⟨w, f, e, hwhole, hfraction, hexponent, -⟩ := h.parts
  obtain ⟨rfl, hw, -⟩ := wholePart_spec hwhole
  intro c hc
  rcases List.mem_append.mp hc with hc | hc
  · exact hw c hc
  · rcases List.mem_append.mp hc with hc | hc
    · exact mem_fractionPart (t := f ++ e) (by rwa [hfraction])
    · exact mem_exponentPart (t := e) (by rwa [hexponent])

theorem FloatText.number {t : Txt} {q : ℚ} (h : FloatText t q) :
    number t = .ok (.float (.finite q)) := by
  obtain ⟨w, f, e, hwhole, hfraction, hexponent, hsome⟩ := h.parts
  have ht : w ++ f ++ e = t := by rw [List.append_assoc, (wholePart_spec hwhole).1]
  unfold Json.number
  rw [hwhole]
  dsimp only
  rw [hfraction]
  dsimp only
  rw [hexponent, if_neg (by tauto), ht, h.read]
  rfl

/-! ## Values -/

theorem isBlank_of_isDigit {c : Char} (h : c.isDigit = true) : isBlank c = false := by
  have hrange := toNat_of_isDigit h
  by_contra hblank
  simp only [isBlank, Bool.not_eq_false, Bool.or_eq_true, decide_eq_true_eq] at hblank
  rcases hblank with ((rfl | rfl) | rfl) | rfl <;> exact absurd h (by decide)

/-- The machine is behind the value `v`, up to a number of which more digits could follow. -/
structure Behind (limit : Nat) (m : Machine) (stack : List Frame) (v : JsonValue) : Prop where
  settle : m.settle = ⟨stack, .after v⟩
  next : ∀ c, c = ',' ∨ c = ']' ∨ c = '}' → m.step limit c = step limit ⟨stack, .after v⟩ c

theorem behind_after (v : JsonValue) : Behind limit ⟨stack, .after v⟩ stack v :=
  ⟨rfl, fun _ _ => rfl⟩

theorem behind_number {t : Txt} {v : JsonValue} (h : number t = .ok v) :
    Behind limit ⟨stack, .number t⟩ stack v := by
  have hsettle : settle ⟨stack, .number t⟩ = ⟨stack, .after v⟩ := by
    simp only [settle, h, go]
  refine ⟨hsettle, fun c hc => ?_⟩
  have hother : c ≠ 'I' ∧ isNumberChar c = false ∧ isBlank c = false := by
    rcases hc with rfl | rfl | rfl <;> decide
  simp only [step, hsettle, hother.1, hother.2.1, and_false, if_false, Bool.false_eq_true]
  simp only [after, hother.2.2, Bool.false_eq_true, if_false]
  rfl

/-- A run of characters of a number. -/
theorem run_number {t : Txt} (hall : ∀ c ∈ t, isNumberChar c = true) : ∀ u : Txt,
    t.foldl (step limit) ⟨stack, .number u⟩ = ⟨stack, .number (u ++ t)⟩ := by
  induction t with
  | nil =>
    intro u
    rw [List.append_nil]
    rfl
  | cons c t ih =>
    intro u
    have hc := hall c List.mem_cons_self
    have hother : c ≠ 'I' := by
      rintro rfl
      exact absurd hc (by decide)
    have hstep : step limit ⟨stack, .number u⟩ c = ⟨stack, .number (u ++ [c])⟩ := by
      simp only [step, hother, hc, and_false, if_false, if_true, go]
    rw [List.foldl_cons, hstep, ih (fun d hd => hall d (List.mem_cons_of_mem c hd)),
      List.append_assoc]
    rfl

theorem run_numeral {t : Txt} {v : JsonValue} (hall : ∀ c ∈ t, isNumberChar c = true)
    (h : number t = .ok v) : Behind limit (t.foldl (step limit) ⟨stack, .value⟩) stack v := by
  have hwhole : ∃ p, wholePart t = some p := by
    unfold number at h
    split at h
    · cases h
    · exact ⟨_, ‹_›⟩
  obtain ⟨⟨w, r⟩, hp⟩ := hwhole
  obtain ⟨-, -, c, hc, hfirst⟩ := wholePart_spec hp
  cases t with
  | nil => cases hc
  | cons d t =>
    obtain rfl := Option.some.inj hc
    have hstep : step limit ⟨stack, .value⟩ d = ⟨stack, .number [d]⟩ := by
      rcases hfirst with rfl | hdigit
      · rfl
      · have hother : ∀ e : Char, e.isDigit = false → d ≠ e := by
          rintro e he rfl
          rw [he] at hdigit
          cases hdigit
        simp only [step, isBlank_of_isDigit hdigit, begin, Bool.false_eq_true, if_false,
          hother _ (show '"'.isDigit = false from rfl),
          hother _ (show '{'.isDigit = false from rfl),
          hother _ (show '['.isDigit = false from rfl),
          hother _ (show 'n'.isDigit = false from rfl),
          hother _ (show 't'.isDigit = false from rfl),
          hother _ (show 'f'.isDigit = false from rfl),
          hother _ (show 'N'.isDigit = false from rfl),
          hother _ (show 'I'.isDigit = false from rfl),
          hdigit, or_true, if_true, go]
    rw [List.foldl_cons, hstep, run_number fun e he => hall e (List.mem_cons_of_mem d he)]
    exact behind_number h

/-- What has to hold of a value so that it is printed and read back. -/
def Printable (repr : ℚ → Txt) : JsonValue → Prop
  | .int n => (showNat n.natAbs).length ≤ intMaxStrDigits
  | .float x => ∃ q, x = .finite q ∧ FloatText (repr q) q
  | .obj items => (items.map (·.1)).Nodup
  | _ => True

variable {repr : ℚ → Txt} {v : JsonValue}

theorem isNumberChar_of_mem_showInt {n : Int} {c : Char} (h : c ∈ showInt n) :
    isNumberChar c = true := by
  cases n with
  | ofNat n => exact isNumberChar_of_isDigit (isDigit_of_mem_showNat h)
  | negSucc n =>
    rcases List.mem_cons.mp h with rfl | h
    · rfl
    · exact isNumberChar_of_isDigit (isDigit_of_mem_showNat h)

/-- A text begins with a character that begins a value. -/
theorem head_jsonText (h : Printable repr v) :
    ∃ c t, jsonText repr v = c :: t ∧ isBlank c = false ∧ c ≠ ']' := by
  have hnumber : ∀ {t w r : Txt}, wholePart t = some (w, r) →
      ∃ c u, t = c :: u ∧ isBlank c = false ∧ c ≠ ']' := by
    intro t w r hwhole
    obtain ⟨-, -, c, hc, hfirst⟩ := wholePart_spec hwhole
    cases t with
    | nil => cases hc
    | cons d t =>
      obtain rfl := Option.some.inj hc
      refine ⟨d, t, rfl, ?_⟩
      rcases hfirst with rfl | hdigit
      · decide
      · constructor
        · exact isBlank_of_isDigit hdigit
        · rintro rfl
          exact absurd hdigit (by decide)
  cases v with
  | null => exact ⟨_, _, rfl, rfl, by decide⟩
  | bool b => cases b <;> exact ⟨_, _, rfl, rfl, by decide⟩
  | int n => exact hnumber (wholePart_showInt n)
  | float x =>
    obtain ⟨q, rfl, hq⟩ := h
    obtain ⟨w, f, e, hwhole, -⟩ := hq.parts
    exact hnumber hwhole
  | str s => exact ⟨_, _, rfl, rfl, by decide⟩
  | arr xs => exact ⟨_, _, rfl, rfl, by decide⟩
  | obj items => exact ⟨_, _, rfl, rfl, by decide⟩

theorem step_first {c : Char} (hblank : isBlank c = false) (hend : c ≠ ']') :
    step limit ⟨stack, .first⟩ c = step limit ⟨stack, .value⟩ c := by
  simp only [step, hblank, hend, if_false, Bool.false_eq_true, begin, go, fail]

/-- The items of an array, behind those in `done`. -/
theorem run_items {xs : List JsonValue}
    (ih : ∀ v ∈ xs, ∀ stack : List Frame, stack.length + v.depth ≤ limit →
      Behind limit ((jsonText repr v).foldl (step limit) ⟨stack, .value⟩) stack v)
    (hne : xs ≠ []) : ∀ done : List JsonValue,
    stack.length + (mostItems (fun _ => 0) 1 xs + 1) ≤ limit →
      (jsonItems repr xs ++ [']']).foldl (step limit) ⟨.arr done :: stack, .value⟩ =
        ⟨stack, .after (.arr (done ++ xs))⟩ := by
  induction xs with
  | nil => exact absurd rfl hne
  | cons v vs ihvs =>
    intro done hdepth
    rw [mostItems] at hdepth
    have hv := ih v List.mem_cons_self (.arr done :: stack) (by
      show stack.length + 1 + v.most (fun _ => 0) 1 ≤ limit
      omega)
    rw [jsonItems, List.append_assoc, List.foldl_append]
    cases vs with
    | nil =>
      show step limit _ ']' = _
      rw [hv.next ']' (by decide)]
      rfl
    | cons w ws =>
      have hrest := ihvs (fun u hu => ih u (List.mem_cons_of_mem v hu)) (List.cons_ne_nil w ws)
        (done ++ [v]) (by omega)
      show List.foldl (step limit) (step limit (step limit _ ',') ' ')
        (jsonItems repr (w :: ws) ++ [']']) = _
      rw [hv.next ',' (by decide)]
      rw [List.append_assoc, List.singleton_append] at hrest
      exact hrest

theorem setItem_of_new {done : List (Txt × JsonValue)} {key : Txt} (v : JsonValue)
    (h : key ∉ done.map (·.1)) : setItem done key v = done ++ [(key, v)] := if_neg h

/-- The members of an object, behind those in `done`. -/
theorem run_members {ms : List (Txt × JsonValue)}
    (ih : ∀ m ∈ ms, ∀ stack : List Frame, stack.length + m.2.depth ≤ limit →
      Behind limit ((jsonText repr m.2).foldl (step limit) ⟨stack, .value⟩) stack m.2)
    (hne : ms ≠ []) : ∀ done : List (Txt × JsonValue), ((done ++ ms).map (·.1)).Nodup →
    stack.length + (mostMembers (fun _ => 0) 1 ms + 1) ≤ limit →
      (jsonMembers repr ms ++ ['}']).foldl (step limit) ⟨stack, .key done⟩ =
        ⟨stack, .after (.obj (done ++ ms))⟩ := by
  induction ms with
  | nil => exact absurd rfl hne
  | cons m ms ihms =>
    intro done hkeys hdepth
    obtain ⟨key, v⟩ := m
    rw [mostMembers] at hdepth
    have hv := ih (key, v) List.mem_cons_self (.obj done key :: stack) (by
      show stack.length + 1 + v.most (fun _ => 0) 1 ≤ limit
      omega)
    have hnew : key ∉ done.map (·.1) := by
      rw [List.map_append, List.nodup_append'] at hkeys
      exact fun hmem => hkeys.2.2 hmem List.mem_cons_self
    have hkey : (jsonString key).foldl (step limit) ⟨stack, .key done⟩ = ⟨stack, .colon done key⟩ :=
      run_string key ⟨stack, .value⟩
    rw [jsonMembers, List.append_assoc, List.append_assoc, List.append_assoc, List.foldl_append,
      hkey,
      List.foldl_append]
    show List.foldl (step limit) ⟨.obj done key :: stack, .value⟩ _ = _
    rw [List.foldl_append]
    cases ms with
    | nil =>
      show step limit _ '}' = _
      rw [hv.next '}' (by decide), ← setItem_of_new v hnew]
      rfl
    | cons w ws =>
      have hrest := ihms (fun u hu => ih u (List.mem_cons_of_mem _ hu)) (List.cons_ne_nil w ws)
        (done ++ [(key, v)]) (by rwa [List.append_assoc]) (by omega)
      show List.foldl (step limit) (step limit (step limit _ ',') ' ')
        (jsonMembers repr (w :: ws) ++ ['}']) = _
      rw [hv.next ',' (by decide)]
      rw [List.append_assoc, List.singleton_append, ← setItem_of_new v hnew] at hrest
      exact hrest

/-- Behind the text of a value the machine is behind the value. -/
theorem run_value (v : JsonValue) : ∀ stack : List Frame, v.Every (Printable repr) →
    stack.length + v.depth ≤ limit →
      Behind limit ((jsonText repr v).foldl (step limit) ⟨stack, .value⟩) stack v := by
  induction v using JsonValue.induct with
  | h v ih =>
    intro stack hfine hdepth
    obtain ⟨hhere, hbelow⟩ := JsonValue.every_iff.mp hfine
    cases v with
    | null => exact behind_after _
    | bool b => cases b <;> exact behind_after _
    | int n => exact run_numeral (fun c hc => isNumberChar_of_mem_showInt hc) (number_showInt hhere)
    | float x =>
      obtain ⟨q, rfl, hq⟩ := hhere
      exact run_numeral hq.chars hq.number
    | str s =>
      have hstring : (jsonString s).foldl (step limit) ⟨stack, .value⟩ = ⟨stack, .after (.str s)⟩ :=
        run_string s ⟨stack, .value⟩
      exact hstring ▸ behind_after _
    | arr xs =>
      have hroom : stack.length + (mostItems (fun _ => 0) 1 xs + 1) ≤ limit := hdepth
      have hlt : stack.length < limit := by omega
      have hopen : step limit ⟨stack, .value⟩ '[' = ⟨.arr [] :: stack, .first⟩ := if_pos hlt
      have hrun : (jsonItems repr xs ++ [']']).foldl (step limit) ⟨.arr [] :: stack, .first⟩ =
          ⟨stack, .after (.arr xs)⟩ := by
        cases xs with
        | nil => rfl
        | cons w ws =>
          have hitems := run_items (fun u (hu : u ∈ w :: ws) stack => ih u hu stack (hbelow u hu))
            (List.cons_ne_nil w ws) [] hroom
          obtain ⟨hw, -⟩ := JsonValue.every_iff.mp (hbelow w List.mem_cons_self)
          obtain ⟨c, t, ht, hblank, hend⟩ := head_jsonText hw
          have hhead : ∃ u, jsonItems repr (w :: ws) = c :: u := by
            rw [jsonItems, ht]
            exact ⟨_, rfl⟩
          obtain ⟨u, hu⟩ := hhead
          rw [hu, List.cons_append, List.foldl_cons] at hitems ⊢
          rw [step_first hblank hend, hitems, List.nil_append]
      rw [jsonText, List.cons_append, List.foldl_cons, hopen, hrun]
      exact behind_after _
    | obj items =>
      have hroom : stack.length + (mostMembers (fun _ => 0) 1 items + 1) ≤ limit := hdepth
      have hlt : stack.length < limit := by omega
      have hopen : step limit ⟨stack, .value⟩ '{' = ⟨stack, .firstKey⟩ := if_pos hlt
      have hrun : (jsonMembers repr items ++ ['}']).foldl (step limit) ⟨stack, .firstKey⟩ =
          ⟨stack, .after (.obj items)⟩ := by
        cases items with
        | nil => rfl
        | cons m ms =>
          have hin : ∀ u ∈ m :: ms, u.2 ∈ (JsonValue.obj (m :: ms)).children :=
            fun u hu => List.mem_map_of_mem hu
          exact run_members (fun u hu stack => ih u.2 (hin u hu) stack (hbelow u.2 (hin u hu)))
            (List.cons_ne_nil m ms) [] hhere hroom
      rw [jsonText, List.cons_append, List.foldl_cons, hopen, hrun]
      exact behind_after _

/-- `json.loads` of the text of a value. -/
theorem loads_jsonText (h : v.Every (Printable repr)) (hdepth : v.depth ≤ limit) :
    loads limit (jsonText repr v) = some (.ok v) := by
  have hrun := run_value v [] h (show 0 + v.depth ≤ limit by omega)
  unfold loads finish
  rw [hrun.settle]

end Json

end Text
end RocmTests

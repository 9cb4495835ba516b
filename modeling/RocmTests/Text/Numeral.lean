import Mathlib.Data.List.DropRight
import RocmTests.Markers.GpuCount
import RocmTests.Text.Lines

/-!
# Numbers in text

Python's `int` and `float` on a text.  A binary64 number is kept as the decimal
it was read from, except that it overflows to an infinity or underflows to zero
where the conversion does.  `nearest` is the rounding.
-/

namespace RocmTests
namespace Text

open Markers (digitValue intOfText isSpace strip)

/-- Longest run of decimal digits that `int` converts. -/
def intMaxStrDigits : Nat := 4300

/-- `int(text)`, with the limit on its length. -/
def parseInt (t : Txt) : Option Int :=
  if intMaxStrDigits < t.countP (fun c => (digitValue c).isSome) then none else intOfText t

inductive PyFloat where
  | nan
  | inf (negative : Bool)
  | finite (q : ℚ)
deriving DecidableEq

namespace PyFloat

/-- The nearest binary64 number, up to rounding.  From half a unit beyond the
largest one on it is an infinity, and up to half of the smallest one it is zero. -/
def ofRat (q : ℚ) : PyFloat :=
  if mkRat (2 ^ 1024 - 2 ^ 970) 1 ≤ |q| then .inf (decide (q < 0))
  else if |q| ≤ mkRat 1 (2 ^ 1075) then .finite 0
  else .finite q

/-- The exponent of the power of two at or below a number. -/
def binade (q : ℚ) : Int :=
  let e := (Nat.log2 q.num.natAbs : Int) - Nat.log2 q.den
  if (2 : ℚ) ^ e ≤ |q| then e else e - 1

/-- The nearest integer, and of two the even one. -/
def roundEven (q : ℚ) : Int :=
  let n := q.floor
  if q - n < 1 / 2 ∨ q - n = 1 / 2 ∧ n % 2 = 0 then n else n + 1

/-- The binary64 number that is nearest to one in their range. -/
def nearest (q : ℚ) : ℚ :=
  let unit := (2 : ℚ) ^ max (binade q - 52) (-1074)
  roundEven (q / unit) * unit

/-- A digit part: its value, how many digits it has, and what follows it.  An
underscore is part of it between two digits only. -/
def digitPart : Txt → Nat → Nat → Nat × Nat × Txt
  | [], v, n => (v, n, [])
  | '_' :: d :: cs, v, n =>
    match digitValue d with
    | some x => if 0 < n then digitPart cs (v * 10 + x) (n + 1) else (v, n, '_' :: d :: cs)
    | none => (v, n, '_' :: d :: cs)
  | c :: cs, v, n =>
    match digitValue c with
    | some x => digitPart cs (v * 10 + x) (n + 1)
    | none => (v, n, c :: cs)

def sign : Txt → Bool × Txt
  | '-' :: cs => (true, cs)
  | '+' :: cs => (false, cs)
  | cs => (false, cs)

/-- The exponent at the end of a number; an absent one is zero. -/
def exponent : Txt → Option Int
  | [] => some 0
  | c :: cs =>
    if c = 'e' ∨ c = 'E' then
      let (negative, ds) := sign cs
      let (v, n, rest) := digitPart ds 0 0
      if n = 0 ∨ rest ≠ [] then none else some (if negative then -(v : Int) else v)
    else none

def fraction : Txt → Nat × Nat × Txt
  | '.' :: cs => digitPart cs 0 0
  | cs => (0, 0, cs)

/-- A decimal number without its sign. -/
def decimal (cs : Txt) : Option ℚ :=
  let (whole, nWhole, rest) := digitPart cs 0 0
  let (frac, nFrac, rest) := fraction rest
  if nWhole + nFrac = 0 then none
  else
    (exponent rest).map fun e =>
      mkRat ((whole * 10 ^ nFrac + frac) * 10 ^ e.toNat : Nat) (10 ^ (nFrac + (-e).toNat))

/-- `float(text)`; `none` is a `ValueError`. -/
def parse (t : Txt) : Option PyFloat :=
  let (negative, body) := sign (strip t)
  let word := body.map Char.toLower
  if word = "inf".toList ∨ word = "infinity".toList then some (.inf negative)
  else if word = "nan".toList then some .nan
  else (decimal body).map fun q => ofRat (if negative then -q else q)

end PyFloat

example : PyFloat.nearest (1 / 10) = mkRat 3602879701896397 36028797018963968 := by
  decide +kernel

example : PyFloat.parse " -1_2.50e1\n".toList = some (.finite (-125)) := by decide +kernel

example : PyFloat.parse "1e400".toList = some (.inf false) := by decide +kernel

example : PyFloat.parse "1__2".toList = none := by decide +kernel

/-! ## Surrounding space -/

theorem strip_eq (t : Txt) : strip t = (t.dropWhile isSpace).rdropWhile isSpace := rfl

theorem strip_strip (t : Txt) : strip (strip t) = strip t := by
  have hhead : (strip t).dropWhile isSpace = strip t := by
    apply List.dropWhile_eq_self_iff.mpr
    intro hlen hspace
    -- the first character of the result is the first one `dropWhile` stopped at
    have hpre : strip t <+: t.dropWhile isSpace := List.rdropWhile_prefix isSpace _
    have hlen' : 0 < (t.dropWhile isSpace).length := lt_of_lt_of_le hlen hpre.length_le
    have hstop := List.dropWhile_eq_self_iff.mp (List.dropWhile_idempotent isSpace t) hlen'
    apply hstop
    rw [← hpre.getElem hlen]
    exact hspace
  rw [strip_eq (strip t), hhead, strip_eq, List.rdropWhile_idempotent]

theorem strip_pad {lead t trail : Txt} (hlead : ∀ c ∈ lead, isSpace c = true)
    (htrail : ∀ c ∈ trail, isSpace c = true) : strip (lead ++ (t ++ trail)) = strip t := by
  have hdrop {x y : Txt} (hx : ∀ c ∈ x, isSpace c = true) :
      (x ++ y).dropWhile isSpace = y.dropWhile isSpace := List.dropWhile_append_of_pos hx
  unfold strip
  rw [hdrop hlead]
  by_cases ht : ∀ c ∈ t, isSpace c = true
  · have hall : ∀ c ∈ t ++ trail, isSpace c = true :=
      List.forall_mem_append.mpr ⟨ht, htrail⟩
    rw [List.dropWhile_eq_nil_iff.mpr hall, List.dropWhile_eq_nil_iff.mpr ht]
  · have hne : t.dropWhile isSpace ≠ [] := fun h => ht (List.dropWhile_eq_nil_iff.mp h)
    rw [List.dropWhile_append, if_neg (by simpa using hne), List.reverse_append,
      hdrop fun c hc => htrail c (List.mem_reverse.mp hc)]

theorem strip_of_ends {a : Txt} {c d : Char} (hfirst : a.head? = some c)
    (hc : isSpace c = false) (hlast : a.getLast? = some d) (hd : isSpace d = false) :
    strip a = a := by
  have hdrop : a.dropWhile isSpace = a := by
    cases a with
    | nil => rfl
    | cons e a =>
      rw [List.head?_cons, Option.some.injEq] at hfirst
      rw [List.dropWhile_cons_of_neg]
      rw [hfirst, hc]
      exact Bool.false_ne_true
  rw [strip_eq, hdrop, List.rdropWhile_eq_self_iff]
  intro hne hspace
  rw [List.getLast?_eq_some_getLast hne, Option.some.injEq] at hlast
  rw [hlast, hd] at hspace
  exact Bool.false_ne_true hspace

theorem isSpace_of_isBoundary {c : Char} (h : isBoundary c = true) : isSpace c = true := by
  unfold isBoundary at h
  unfold isSpace
  simp only [List.mem_cons, List.not_mem_nil, or_false, decide_eq_true_eq] at h ⊢
  omega

theorem isLine_of_isSpace {t : Txt} (h : ∀ c ∈ t, isSpace c = false) : IsLine t := by
  intro c hc
  by_contra hboundary
  have hspace := isSpace_of_isBoundary (Bool.not_eq_false _ ▸ hboundary)
  rw [h c hc] at hspace
  cases hspace

theorem digitValue_of_isSpace {c : Char} (h : isSpace c = true) : digitValue c = none := by
  have hall : ∀ n ∈ [9, 10, 11, 12, 13, 28, 29, 30, 31, 32, 133, 160, 5760, 8192, 8193, 8194, 8195,
      8196, 8197, 8198, 8199, 8200, 8201, 8202, 8232, 8233, 8239, 8287, 12288],
      (Markers.decimalZeros.find? fun z => z ≤ n && n < z + 10) = none := by decide
  unfold digitValue
  rw [hall c.toNat (of_decide_eq_true h)]
  rfl

theorem countP_dropWhile {p q : Char → Bool} (h : ∀ c, p c = true → q c = false) (t : Txt) :
    (t.dropWhile p).countP q = t.countP q := by
  induction t with
  | nil => rfl
  | cons c t ih =>
    by_cases hc : p c = true
    · rw [List.dropWhile_cons_of_pos hc, ih, List.countP_cons_of_neg]
      rw [h c hc]
      exact Bool.false_ne_true
    · rw [List.dropWhile_cons_of_neg hc]

theorem countP_strip (t : Txt) : (strip t).countP (fun c => (digitValue c).isSome) =
    t.countP (fun c => (digitValue c).isSome) := by
  have hspace : ∀ c, isSpace c = true → (digitValue c).isSome = false := by
    intro c hc
    rw [digitValue_of_isSpace hc]
    rfl
  unfold strip
  rw [List.countP_reverse, countP_dropWhile hspace, List.countP_reverse, countP_dropWhile hspace]

/-- Surrounding space does not change what `int` reads. -/
theorem parseInt_strip (t : Txt) : parseInt (strip t) = parseInt t := by
  unfold parseInt intOfText
  rw [countP_strip, strip_strip]

/-- A text without spaces at its ends is left alone. -/
theorem strip_eq_self {t : Txt} (h : ∀ c ∈ t, isSpace c = false) : strip t = t := by
  have hdrop : ∀ l : Txt, (∀ c ∈ l, isSpace c = false) → l.dropWhile isSpace = l := by
    intro l hl
    cases l with
    | nil => rfl
    | cons c l =>
      rw [List.dropWhile_cons_of_neg]
      rw [hl c List.mem_cons_self]
      exact Bool.false_ne_true
  unfold strip
  rw [hdrop t h, hdrop t.reverse fun c hc => h c (List.mem_reverse.mp hc), List.reverse_reverse]

/-- `int` of a run of decimal digits fails for one reason only. -/
theorem parseInt_isSome_iff {ds : Txt} (hne : ds ≠ []) (hall : ∀ c ∈ ds, (digitValue c).isSome) :
    (parseInt ds).isSome ↔ ds.length ≤ intMaxStrDigits := by
  have hcount : ds.countP (fun c => (digitValue c).isSome) = ds.length :=
    List.countP_eq_length.mpr hall
  have hspace : ∀ c ∈ ds, isSpace c = false := by
    intro c hc
    by_contra hs
    have hdigit := hall c hc
    rw [digitValue_of_isSpace (Bool.not_eq_false _ ▸ hs)] at hdigit
    cases hdigit
  have hparse : ∀ t : Txt, (∀ c ∈ t, (digitValue c).isSome) → ∀ (acc : Nat) (afterDigit : Bool),
      (t = [] → afterDigit = true) → (Markers.parseDigits t acc afterDigit).isSome := by
    intro t
    induction t with
    | nil =>
      intro _ acc afterDigit h
      rw [Markers.parseDigits, if_pos (h rfl)]
      rfl
    | cons c t ih =>
      intro ht acc afterDigit _
      have hc := ht c List.mem_cons_self
      obtain ⟨d, hd⟩ := Option.isSome_iff_exists.mp hc
      rw [Markers.parseDigits]
      · rw [hd]
        exact ih (fun x hx => ht x (List.mem_cons_of_mem c hx)) _ true fun _ => rfl
      · rintro _ rfl
        exact absurd hc (by decide)
  have hint : (intOfText ds).isSome := by
    have hsign : ∀ c ∈ ds, c ≠ '+' ∧ c ≠ '-' := by
      intro c hc
      constructor
      · rintro rfl
        exact absurd (hall _ hc) (by decide)
      · rintro rfl
        exact absurd (hall _ hc) (by decide)
    unfold intOfText
    rw [strip_eq_self hspace]
    split
    next => exact absurd rfl (hsign '+' List.mem_cons_self).1
    next => exact absurd rfl (hsign '-' List.mem_cons_self).2
    next =>
      obtain ⟨n, hn⟩ := Option.isSome_iff_exists.mp (hparse ds hall 0 false fun h => absurd h hne)
      rw [hn]
      rfl
  unfold parseInt
  rw [hcount]
  split
  · exact iff_of_false (fun h => nomatch h) (by omega)
  · exact iff_of_true hint (by omega)

/-! ## Decimal numerals -/

def showNat (n : Nat) : Txt := Nat.toDigits 10 n

/-- `str` of an `int`. -/
def showInt : Int → Txt
  | .ofNat n => showNat n
  | .negSucc n => '-' :: showNat (n + 1)

theorem showNat_ne_nil (n : Nat) : showNat n ≠ [] := Nat.toDigits_ne_nil

theorem isDigit_of_mem_showNat {n : Nat} {c : Char} (h : c ∈ showNat n) : c.isDigit = true :=
  Nat.isDigit_of_mem_toDigits (by decide) (by decide) h

theorem toNat_of_isDigit {c : Char} (h : c.isDigit = true) : 48 ≤ c.toNat ∧ c.toNat ≤ 57 := by
  simp only [Char.isDigit, Bool.and_eq_true, decide_eq_true_eq] at h
  exact ⟨h.1, h.2⟩

theorem digitValue_of_isDigit {c : Char} (h : c.isDigit = true) :
    digitValue c = some (c.toNat - 48) := by
  obtain ⟨hlow, hhigh⟩ := toNat_of_isDigit h
  have hfirst : (decide (48 ≤ c.toNat) && decide (c.toNat < 48 + 10)) = true := by
    simp only [Bool.and_eq_true, decide_eq_true_eq]
    omega
  have hzeros : Markers.decimalZeros = 48 :: Markers.decimalZeros.tail := rfl
  unfold digitValue
  rw [hzeros, List.find?_cons, hfirst]
  rfl

theorem parseDigits_of_isDigit {ds : Txt} (hall : ∀ c ∈ ds, c.isDigit = true) :
    ∀ (acc : Nat) (afterDigit : Bool), (ds = [] → afterDigit = true) →
      Markers.parseDigits ds acc afterDigit = some (Nat.ofDigitChars 10 ds acc) := by
  induction ds with
  | nil =>
    intro acc afterDigit hne
    rw [Markers.parseDigits, if_pos (hne rfl), Nat.ofDigitChars_nil]
  | cons c ds ih =>
    intro acc afterDigit _
    have hc := hall c List.mem_cons_self
    have hunderscore : c ≠ '_' := by
      intro h
      rw [h] at hc
      revert hc
      decide
    have hrest := ih (fun x hx => hall x (List.mem_cons_of_mem _ hx))
      (acc * 10 + (c.toNat - 48)) true (fun _ => rfl)
    rw [Markers.parseDigits]
    · rw [digitValue_of_isDigit hc]
      simp only
      rw [hrest, Nat.ofDigitChars_cons, Nat.mul_comm acc 10]
      rfl
    · intro _ h
      exact hunderscore h

theorem isSpace_of_isDigit {c : Char} (h : c.isDigit = true) : isSpace c = false := by
  by_contra hs
  have hnone := digitValue_of_isSpace (Bool.not_eq_false _ ▸ hs)
  rw [digitValue_of_isDigit h] at hnone
  cases hnone

theorem isSpace_of_mem_showInt {n : Int} {c : Char} (h : c ∈ showInt n) : isSpace c = false := by
  cases n with
  | ofNat n => exact isSpace_of_isDigit (isDigit_of_mem_showNat h)
  | negSucc n =>
    rcases List.mem_cons.mp h with h | h
    · rw [h]
      decide
    · exact isSpace_of_isDigit (isDigit_of_mem_showNat h)

theorem parseDigits_showNat (n : Nat) : Markers.parseDigits (showNat n) 0 false = some n := by
  rw [parseDigits_of_isDigit (fun c hc => isDigit_of_mem_showNat hc) 0 false
    (fun h => absurd h (showNat_ne_nil n))]
  exact congrArg some Nat.ofDigitChars_ten_toDigits

/-- `int` of a run of digits. -/
theorem intOfText_of_isDigit {ds : Txt} (hne : ds ≠ []) (hall : ∀ c ∈ ds, c.isDigit = true) :
    intOfText ds = some (Nat.ofDigitChars 10 ds 0 : Int) := by
  have hsign : ∀ c ∈ ds, c ≠ '+' ∧ c ≠ '-' := by
    intro c hc
    have hdigit := toNat_of_isDigit (hall c hc)
    constructor
    · intro h
      rw [h] at hdigit
      revert hdigit
      decide
    · intro h
      rw [h] at hdigit
      revert hdigit
      decide
  unfold intOfText
  rw [strip_eq_self fun c hc => isSpace_of_isDigit (hall c hc)]
  split
  next ds => exact absurd rfl (hsign '+' List.mem_cons_self).1
  next ds => exact absurd rfl (hsign '-' List.mem_cons_self).2
  next =>
    rw [parseDigits_of_isDigit hall 0 false fun h => absurd h hne]
    rfl

/-- `int` reads back what `str` wrote. -/
theorem intOfText_showInt (n : Int) : intOfText (showInt n) = some n := by
  cases n with
  | ofNat n =>
    have hdigits := intOfText_of_isDigit (showNat_ne_nil n) fun c hc => isDigit_of_mem_showNat hc
    have hvalue : Nat.ofDigitChars 10 (showNat n) 0 = n := Nat.ofDigitChars_ten_toDigits
    rw [hvalue] at hdigits
    exact hdigits
  | negSucc n =>
    unfold intOfText
    rw [strip_eq_self fun c hc => isSpace_of_mem_showInt hc]
    simp only [showInt]
    rw [parseDigits_showNat]
    rfl

/-- So does `int` with its limit, unless the numeral is beyond it. -/
theorem parseInt_showInt (n : Int) :
    parseInt (showInt n) = none ∨ parseInt (showInt n) = some n := by
  unfold parseInt
  split_ifs
  · exact Or.inl rfl
  · exact Or.inr (intOfText_showInt n)

theorem parseInt_of_lt {n : Int} (h : n.natAbs < 2 ^ 64) : parseInt (showInt n) = some n := by
  have hlength : (showInt n).length ≤ 21 := by
    have hnat : ∀ {k : Nat}, k < 2 ^ 64 → (showNat k).length ≤ 20 := by
      intro k hk
      exact (Nat.length_toDigits_le_iff (by decide) (by decide)).mpr (hk.trans (by decide))
    cases n with
    | ofNat k => exact (hnat h).trans (by decide)
    | negSucc k => exact Nat.succ_le_succ (hnat h)
  have hcount := List.countP_le_length (p := fun c => (digitValue c).isSome) (l := showInt n)
  unfold parseInt
  rw [if_neg (by unfold intMaxStrDigits; omega), intOfText_showInt]

/-! ## The limit on the digits -/

theorem digitValue_lt {c : Char} {d : Nat} (h : digitValue c = some d) : d < 10 := by
  obtain ⟨z, hz, rfl⟩ := Option.map_eq_some_iff.mp h
  have hfind := List.find?_some hz
  simp only [Bool.and_eq_true, decide_eq_true_eq] at hfind
  omega

theorem parseDigits_lt {ds : Txt} {acc n : Nat} {afterDigit : Bool}
    (h : Markers.parseDigits ds acc afterDigit = some n) :
    n < (acc + 1) * 10 ^ ds.countP (fun c => (digitValue c).isSome) := by
  fun_induction Markers.parseDigits ds acc afterDigit with
  | case1 acc =>
    cases h
    rw [List.countP_nil, pow_zero, Nat.mul_one]
    exact Nat.lt_succ_self _
  | case2 acc => cases h
  | case3 cs acc ih =>
    rw [List.countP_cons_of_neg (by decide)]
    exact ih h
  | case4 acc afterDigit c cs _ d hd ih =>
    have hrest := ih h
    have hten := digitValue_lt hd
    rw [List.countP_cons_of_pos (by rw [hd]; rfl), pow_succ', ← Nat.mul_assoc]
    exact hrest.trans_le (Nat.mul_le_mul_right _ (by omega))
  | case5 => cases h

/-- `int` gives no number of more digits than it takes. -/
theorem parseInt_natCast_lt {t : Txt} {n : Nat} (h : parseInt t = some (n : Int)) :
    n < 10 ^ intMaxStrDigits := by
  have hcount : (strip t).countP (fun c => (digitValue c).isSome) ≤ intMaxStrDigits := by
    rw [countP_strip]
    by_contra hlong
    rw [parseInt, if_pos (by omega)] at h
    cases h
  have hint : intOfText t = some (n : Int) := by
    unfold parseInt at h
    split_ifs at h
    exact h
  have hbound {ds : Txt} {v : Nat} (hds : Markers.parseDigits ds 0 false = some v)
      (hle : ds.countP (fun c => (digitValue c).isSome) ≤
        (strip t).countP (fun c => (digitValue c).isSome)) : v < 10 ^ intMaxStrDigits := by
    have hlt := parseDigits_lt hds
    rw [Nat.zero_add, Nat.one_mul] at hlt
    exact hlt.trans_le (Nat.pow_le_pow_right (by decide) (hle.trans hcount))
  have hsign (c : Char) (ds : Txt) : ds.countP (fun c => (digitValue c).isSome) ≤
      (c :: ds).countP (fun c => (digitValue c).isSome) := by
    rw [List.countP_cons]
    exact Nat.le_add_right _ _
  unfold intOfText at hint
  split at hint
  · next ds heq =>
    obtain ⟨x, hx, hxn⟩ := Option.map_eq_some_iff.mp hint
    obtain ⟨v, hv, hvx⟩ := Option.bind_eq_some_iff.mp hx
    have hlt := hbound hv (heq ▸ hsign '+' ds)
    have hvn := Option.some.inj hvx
    omega
  · next ds heq =>
    obtain ⟨x, hx, hxn⟩ := Option.map_eq_some_iff.mp hint
    obtain ⟨v, hv, hvx⟩ := Option.bind_eq_some_iff.mp hx
    have hlt := hbound hv (heq ▸ hsign '-' ds)
    have hvn := Option.some.inj hvx
    omega
  · next =>
    obtain ⟨x, hx, hxn⟩ := Option.map_eq_some_iff.mp hint
    obtain ⟨v, hv, hvx⟩ := Option.bind_eq_some_iff.mp hx
    have hlt := hbound hv (Nat.le_refl _)
    have hvn := Option.some.inj hvx
    omega

theorem parseInt_showNat_of_lt {n : Nat} (h : n < 10 ^ intMaxStrDigits) :
    parseInt (showNat n) = some (n : Int) := by
  have hlength : (showNat n).length ≤ intMaxStrDigits :=
    (Nat.length_toDigits_le_iff (by decide) (by decide)).mpr h
  have hcount := List.countP_le_length (p := fun c => (digitValue c).isSome) (l := showNat n)
  rw [parseInt, if_neg (by omega)]
  exact intOfText_showInt (n : Int)

end Text
end RocmTests

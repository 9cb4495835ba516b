import RocmTests.Text.Lines
import RocmTests.Text.Numeral
import RocmTests.Text.RegexWhole

/-!
# The calendar, and dates as text

A `datetime` without a zone: a day of the Gregorian calendar in the years 1 to 9999 and a
time of it.  Moments are compared by the microseconds from the day before the first.
-/

namespace RocmTests
namespace Text
namespace Calendar

def isLeap (year : Nat) : Bool :=
  decide (year % 4 = 0) && (decide (year % 100 ≠ 0) || decide (year % 400 = 0))

def daysInMonth (year month : Nat) : Nat :=
  if month = 2 then if isLeap year then 29 else 28
  else if month ∈ [4, 6, 9, 11] then 30 else 31

/-- The days before the first of January. -/
def daysBeforeYear (year : Nat) : Nat :=
  (year - 1) * 365 + (year - 1) / 4 - (year - 1) / 100 + (year - 1) / 400

/-- The days of the year before the first of the month. -/
def daysBeforeMonth (year month : Nat) : Nat :=
  [0, 31, 59, 90, 120, 151, 181, 212, 243, 273, 304, 334].getD (month - 1) 0 +
    if 2 < month ∧ isLeap year = true then 1 else 0

/-- What the constructor of `datetime` checks. -/
structure IsDateTime (year month day hour minute second microsecond : Nat) : Prop where
  year_ok : 1 ≤ year ∧ year ≤ 9999
  month_ok : 1 ≤ month ∧ month ≤ 12
  day_ok : 1 ≤ day ∧ day ≤ daysInMonth year month
  hour_ok : hour < 24
  minute_ok : minute < 60
  second_ok : second < 60
  microsecond_ok : microsecond < 1000000

theorem isDateTime_iff {year month day hour minute second microsecond : Nat} :
    IsDateTime year month day hour minute second microsecond ↔
      (1 ≤ year ∧ year ≤ 9999) ∧ (1 ≤ month ∧ month ≤ 12) ∧
        (1 ≤ day ∧ day ≤ daysInMonth year month) ∧ hour < 24 ∧ minute < 60 ∧ second < 60 ∧
          microsecond < 1000000 :=
  ⟨fun h => ⟨h.1, h.2, h.3, h.4, h.5, h.6, h.7⟩,
    fun ⟨h₁, h₂, h₃, h₄, h₅, h₆, h₇⟩ => ⟨h₁, h₂, h₃, h₄, h₅, h₆, h₇⟩⟩

instance instDecidableIsDateTime {year month day hour minute second microsecond : Nat} :
    Decidable (IsDateTime year month day hour minute second microsecond) :=
  decidable_of_iff' _ isDateTime_iff

structure DateTime where
  year : Nat
  month : Nat
  day : Nat
  hour : Nat
  minute : Nat
  second : Nat
  microsecond : Nat
  valid : IsDateTime year month day hour minute second microsecond
deriving DecidableEq

namespace DateTime

/-- The constructor of `datetime`; `none` is its `ValueError`. -/
def make (year month day hour minute second microsecond : Nat) : Option DateTime :=
  if h : IsDateTime year month day hour minute second microsecond then
    some ⟨year, month, day, hour, minute, second, microsecond, h⟩
  else none

theorem make_self (t : DateTime) :
    make t.year t.month t.day t.hour t.minute t.second t.microsecond = some t :=
  dif_pos t.valid

/-- `date.toordinal`. -/
def ordinal (t : DateTime) : Nat :=
  daysBeforeYear t.year + daysBeforeMonth t.year t.month + t.day

/-- Monday is 0. -/
def weekday (t : DateTime) : Nat := (t.ordinal + 6) % 7

def seconds (t : DateTime) : Int :=
  (t.ordinal : Int) * 86400 + t.hour * 3600 + t.minute * 60 + t.second

def micros (t : DateTime) : Int := t.seconds * 1000000 + t.microsecond

/-- The same day and time in another year. -/
def inYear (t : DateTime) (year : Nat) : Option DateTime :=
  make year t.month t.day t.hour t.minute t.second t.microsecond

theorem inYear_self (t : DateTime) : t.inYear t.year = some t := t.make_self

/-- `s` is that day and time in the year. -/
structure Moved (t s : DateTime) (year : Nat) : Prop where
  year_eq : s.year = year
  month_eq : s.month = t.month
  day_eq : s.day = t.day
  hour_eq : s.hour = t.hour
  minute_eq : s.minute = t.minute
  second_eq : s.second = t.second
  microsecond_eq : s.microsecond = t.microsecond

theorem moved_of_inYear {s t : DateTime} {year : Nat} (h : t.inYear year = some s) :
    Moved t s year := by
  unfold inYear make at h
  split at h
  · rw [← Option.some.inj h]
    exact ⟨rfl, rfl, rfl, rfl, rfl, rfl, rfl⟩
  · cases h

end DateTime

/-! ## A later year is later -/

theorem daysBeforeYear_succ {y : Nat} (h : 1 ≤ y) :
    daysBeforeYear y + 365 ≤ daysBeforeYear (y + 1) := by
  unfold daysBeforeYear
  omega

theorem daysBeforeYear_lt {y y' : Nat} (hy : 1 ≤ y) (h : y < y') :
    daysBeforeYear y + 365 ≤ daysBeforeYear y' := by
  induction y' with
  | zero => omega
  | succ z ih =>
    have hstep : daysBeforeYear z + 365 ≤ daysBeforeYear (z + 1) ∨ z = y ∨ z < y := by
      by_cases hz : 1 ≤ z
      · exact .inl (daysBeforeYear_succ hz)
      · omega
    rcases Nat.lt_or_ge y z with hlt | hge
    · have hbefore := ih hlt
      rcases hstep with hstep | hstep | hstep <;> omega
    · have hz : z = y := by omega
      rw [hz]
      exact daysBeforeYear_succ hy

theorem daysBeforeMonth_le (y y' month : Nat) :
    daysBeforeMonth y month ≤ daysBeforeMonth y' month + 1 := by
  unfold daysBeforeMonth
  split <;> split <;> omega

namespace DateTime

theorem Moved.seconds_lt {s t : DateTime} {year : Nat} (h : Moved t s year) (hlt : t.year < year) :
    t.seconds < s.seconds := by
  have hyear := daysBeforeYear_lt t.valid.year_ok.1 hlt
  have hmonth := daysBeforeMonth_le t.year year t.month
  have hordinal : t.ordinal < s.ordinal := by
    unfold ordinal
    rw [h.year_eq, h.month_eq, h.day_eq]
    omega
  unfold seconds
  rw [h.hour_eq, h.minute_eq, h.second_eq]
  omega

theorem Moved.symm {s t : DateTime} {year : Nat} (h : Moved t s year) : Moved s t t.year :=
  ⟨rfl, h.month_eq.symm, h.day_eq.symm, h.hour_eq.symm, h.minute_eq.symm, h.second_eq.symm,
    h.microsecond_eq.symm⟩

/-- In another year the same day and time is another moment. -/
theorem Moved.year_eq_of_seconds {s t : DateTime} {year : Nat} (h : Moved t s year)
    (heq : s.seconds = t.seconds) : year = t.year := by
  rcases Nat.lt_trichotomy t.year year with hlt | hyear | hgt
  · have hlater := h.seconds_lt hlt
    omega
  · exact hyear.symm
  · have hlater := h.symm.seconds_lt (by rw [h.year_eq]; exact hgt)
    omega

end DateTime

/-!
## Dates as text

`strftime` and `strptime` with the directives `%a %b %d %m %H %M %S %Y` in the C locale.
`strptime` makes a pattern of the format, in which a run of space stands for any run of
space and letters match in either case, and the pattern has to match the whole text.
-/

open Re
open Markers (isSpace digitValue intOfText)

def weekdayNames : List String := ["Mon", "Tue", "Wed", "Thu", "Fri", "Sat", "Sun"]

def monthNames : List String :=
  ["Jan", "Feb", "Mar", "Apr", "May", "Jun", "Jul", "Aug", "Sep", "Oct", "Nov", "Dec"]

def twoDigits (n : Nat) : Txt := [Nat.digitChar (n / 10), Nat.digitChar (n % 10)]

def fourDigits (n : Nat) : Txt := twoDigits (n / 100) ++ twoDigits (n % 100)

/-! ### Writing -/

/-- What `strftime` writes for a directive. -/
def showDirective (t : DateTime) : Char → Txt
  | 'a' => (weekdayNames.getD t.weekday "").toList
  | 'b' => (monthNames.getD (t.month - 1) "").toList
  | 'd' => twoDigits t.day
  | 'm' => twoDigits t.month
  | 'H' => twoDigits t.hour
  | 'M' => twoDigits t.minute
  | 'S' => twoDigits t.second
  | 'Y' => fourDigits t.year
  | c => ['%', c]

def strftime (t : DateTime) : Txt → Txt
  | [] => []
  | '%' :: c :: format => showDirective t c ++ strftime t format
  | c :: format => c :: strftime t format

/-! ### Reading -/

def isDigit (c : Char) : Bool := (digitValue c).isSome

/-- The characters from one to the other. -/
def charRange (first last c : Char) : Bool := first ≤ c && c ≤ last

/-- The names of a list, in either case. -/
def namePattern (names : List String) : Re := alts (names.map ilit)

/-- What a directive matches; `none` is a bad directive. -/
def directive : Char → Option Re
  | 'a' => some (namePattern weekdayNames)
  | 'b' => some (namePattern monthNames)
  | 'd' => some (alts [seq (lit "3") (cls (charRange '0' '1')),
      seq (cls (charRange '1' '2')) (cls isDigit), seq (lit "0") (cls (charRange '1' '9')),
      cls (charRange '1' '9'), seq (lit " ") (cls (charRange '1' '9'))])
  | 'm' => some (alts [seq (lit "1") (cls (charRange '0' '2')),
      seq (lit "0") (cls (charRange '1' '9')), cls (charRange '1' '9')])
  | 'H' => some (alts [seq (lit "2") (cls (charRange '0' '3')),
      seq (cls (charRange '0' '1')) (cls isDigit), cls isDigit])
  | 'M' => some (alts [seq (cls (charRange '0' '5')) (cls isDigit), cls isDigit])
  | 'S' => some (alts [seq (lit "6") (cls (charRange '0' '1')),
      seq (cls (charRange '0' '5')) (cls isDigit), cls isDigit])
  | 'Y' => some (cat [cls isDigit, cls isDigit, cls isDigit, cls isDigit])
  | _ => none

/-- The pieces of the pattern of a format.  The group of a directive is its letter. -/
def formatPattern : Txt → Option (List Re)
  | [] => some []
  | ['%'] => none
  | '%' :: c :: format => do
    let r ← directive c
    let rs ← formatPattern format
    return group c.toNat r :: rs
  | c :: format => do
    let rs ← formatPattern format
    if isSpace c then
      if format.head?.any isSpace then return rs else return plus isSpace :: rs
    else return cls (sameLetter c) :: rs

/-- `int` of what the group of a directive holds. -/
def numberOf (f : Found) (c : Char) (default : Nat) : Nat :=
  match f.groups.lookup c.toNat with
  | some t => ((intOfText t).getD 0).toNat
  | none => default

/-- `list.index` of what a group holds in lower case; `none` is the `ValueError`. -/
def nameOf (names : List String) (t : Txt) : Option Nat :=
  (names.map fun name => name.toList.map Char.toLower).findIdx? (· = t.map Char.toLower)

def monthOf (f : Found) : Option Nat :=
  match f.groups.lookup 'b'.toNat with
  | some t => (nameOf monthNames t).map (· + 1)
  | none => some (numberOf f 'm' 1)

/-- Whether the weekday is one of the names.  It need not be the weekday of the date. -/
def weekdayOk (f : Found) : Bool :=
  match f.groups.lookup 'a'.toNat with
  | some t => (nameOf weekdayNames t).isSome
  | none => true

/-- The date that the groups of a match name. -/
def dateOf (f : Found) : Option DateTime := do
  guard (weekdayOk f = true)
  let month ← monthOf f
  DateTime.make (numberOf f 'Y' 1900) month (numberOf f 'd' 1) (numberOf f 'H' 0)
    (numberOf f 'M' 0) (numberOf f 'S' 0) 0

/-- `datetime.strptime`; `none` is its `ValueError`. -/
def strptime (text format : Txt) : Option DateTime := do
  let rs ← formatPattern format
  let f ← matchAt (fun _ => false) (cat rs) ⟨[], text⟩
  guard (f.pos.after = [])
  dateOf f

/-! ### Texts piece by piece -/

abbrev noWord : Char → Bool := fun _ => false

/-- A piece of a pattern, the text it takes and the groups it leaves. -/
structure Piece where
  re : Re
  text : Txt
  groups : List (Nat × Txt)

def textOf (ps : List Piece) : Txt := ps.flatMap Piece.text

/-- Every piece takes its text where the texts of the pieces follow each other. -/
def Fits : List Piece → Prop
  | [] => True
  | p :: ps => (∀ b, Takes noWord p.re b p.text (textOf ps) p.groups) ∧ Fits ps

theorem takes_pieces {ps : List Piece} (h : Fits ps) (b : Txt) :
    Takes noWord (cat (ps.map Piece.re)) b (textOf ps) [] (ps.flatMap Piece.groups) := by
  induction ps generalizing b with
  | nil => exact takes_eps
  | cons p ps ih =>
    have hp := h.1 b
    rw [← List.append_nil (textOf ps)] at hp
    exact hp.cat_cons (ih h.2 _)

theorem strptime_eq {rs : List Re} {text format : Txt} (hformat : formatPattern format = some rs) :
    strptime text format = (matchAt noWord (cat rs) ⟨[], text⟩).bind
      fun f => if f.pos.after = [] then dateOf f else none := by
  unfold strptime
  rw [hformat, Option.bind_eq_bind, Option.bind_some, Option.bind_eq_bind]
  congr 1
  funext f
  by_cases hend : f.pos.after = [] <;> simp [hend, guard]

theorem strptime_pieces {ps : List Piece} {format : Txt}
    (hformat : formatPattern format = some (ps.map Piece.re)) (h : Fits ps) :
    strptime (textOf ps) format =
      dateOf ⟨⟨(textOf ps).reverse, []⟩, ps.flatMap Piece.groups⟩ := by
  have hmatch := takes_pieces h []
  unfold Takes at hmatch
  rw [List.append_nil, List.append_nil] at hmatch
  rw [strptime_eq hformat, hmatch, Option.bind_some, if_pos rfl]

/-- A directive. -/
def field (c : Char) (t : Txt) : Piece :=
  ⟨group c.toNat ((directive c).getD eps), t, [(c.toNat, t)]⟩

def gap : Piece := ⟨plus isSpace, [' '], []⟩

def sign (c : Char) : Piece := ⟨cls (sameLetter c), [c], []⟩

section

variable {ps : List Piece} {b v : Txt} {n : Nat}

theorem fits_field {c : Char} {t : Txt}
    (h : ∀ b, Takes noWord ((directive c).getD eps) b t (textOf ps) []) (hps : Fits ps) :
    Fits (field c t :: ps) :=
  ⟨fun b => (h b).group c.toNat, hps⟩

theorem fits_gap (h : ∀ c, (textOf ps).head? = some c → isSpace c = false) (hps : Fits ps) :
    Fits (gap :: ps) :=
  ⟨fun _ => takes_plus (List.cons_ne_nil _ _) (by simp [gap]; decide) h, hps⟩

theorem fits_sign {c : Char} (hps : Fits ps) : Fits (sign c :: ps) := by
  refine ⟨fun _ => takes_cls ?_, hps⟩
  unfold sameLetter
  simp

/-! ### What the directives take -/

theorem takes_day (hlow : 1 ≤ n) (hhigh : n ≤ 31) :
    Takes noWord ((directive 'd').getD eps) b (twoDigits n) v [] := by
  interval_cases n <;> rfl

/-- A day without a leading zero, where no digit follows. -/
theorem takes_showNat_day (hlow : 1 ≤ n) (hhigh : n ≤ 31) :
    Takes noWord ((directive 'd').getD eps) b (showNat n) (' ' :: v) [] := by
  interval_cases n <;> rfl

theorem takes_month (hlow : 1 ≤ n) (hhigh : n ≤ 12) :
    Takes noWord ((directive 'm').getD eps) b (twoDigits n) v [] := by
  interval_cases n <;> rfl

theorem takes_hour (hhigh : n < 24) :
    Takes noWord ((directive 'H').getD eps) b (twoDigits n) v [] := by
  interval_cases n <;> rfl

theorem takes_minute (hhigh : n < 60) :
    Takes noWord ((directive 'M').getD eps) b (twoDigits n) v [] := by
  interval_cases n <;> rfl

theorem takes_second (hhigh : n < 60) :
    Takes noWord ((directive 'S').getD eps) b (twoDigits n) v [] := by
  interval_cases n <;> rfl

theorem takes_monthName (hhigh : n < 12) :
    Takes noWord ((directive 'b').getD eps) b (monthNames.getD n "").toList v [] := by
  interval_cases n <;> rfl

theorem takes_weekdayName (hhigh : n < 7) :
    Takes noWord ((directive 'a').getD eps) b (weekdayNames.getD n "").toList v [] := by
  interval_cases n <;> rfl

theorem isDigit_of_char {c : Char} (h : c.isDigit = true) : isDigit c = true := by
  unfold isDigit
  rw [digitValue_of_isDigit h]
  rfl

theorem takes_year {t : Txt} (hlen : t.length = 4) (h : ∀ c ∈ t, c.isDigit = true) :
    Takes noWord ((directive 'Y').getD eps) b t v [] := by
  have hclasses : (directive 'Y').getD eps = cat ((List.replicate 4 isDigit).map cls) := rfl
  rw [hclasses]
  apply takes_classes
  rw [List.forall₂_iff_get]
  refine ⟨by rw [List.length_replicate, hlen], ?_⟩
  intro i h₁ h₂
  rw [List.get_eq_getElem, List.getElem_replicate, List.get_eq_getElem]
  exact isDigit_of_char (h _ (List.getElem_mem _))

/-! ### What the numbers are -/

theorem twoDigits_isDigit (h : n < 100) : ∀ c ∈ twoDigits n, c.isDigit = true := by
  intro c hc
  unfold twoDigits at hc
  rcases List.mem_cons.mp hc with rfl | hc
  · rw [Nat.isDigit_digitChar, decide_eq_true_eq]
    omega
  · rw [List.mem_singleton.mp hc, Nat.isDigit_digitChar, decide_eq_true_eq]
    omega

theorem fourDigits_isDigit (h : n < 10000) : ∀ c ∈ fourDigits n, c.isDigit = true := by
  intro c hc
  rcases List.mem_append.mp hc with hc | hc
  · exact twoDigits_isDigit (by omega) c hc
  · exact twoDigits_isDigit (by omega) c hc

theorem ofDigitChars_twoDigits (h : n < 100) (init : Nat) :
    Nat.ofDigitChars 10 (twoDigits n) init = 100 * init + n := by
  unfold twoDigits
  rw [Nat.ofDigitChars_cons_digitChar_of_lt_ten (by omega),
    Nat.ofDigitChars_cons_digitChar_of_lt_ten (by omega), Nat.ofDigitChars_nil]
  omega

theorem intOfText_twoDigits (h : n < 100) : intOfText (twoDigits n) = some (n : Int) := by
  rw [intOfText_of_isDigit (by unfold twoDigits; simp) (twoDigits_isDigit h),
    ofDigitChars_twoDigits h]
  simp

theorem intOfText_fourDigits (h : n < 10000) : intOfText (fourDigits n) = some (n : Int) := by
  have hvalue : Nat.ofDigitChars 10 (fourDigits n) 0 = n := by
    unfold fourDigits
    rw [Nat.ofDigitChars_append, ofDigitChars_twoDigits (by omega),
      ofDigitChars_twoDigits (by omega)]
    omega
  rw [intOfText_of_isDigit (by unfold fourDigits twoDigits; simp) (fourDigits_isDigit h), hvalue]

theorem nameOf_month (h : n < 12) : nameOf monthNames (monthNames.getD n "").toList = some n := by
  interval_cases n <;> rfl

theorem nameOf_weekday (h : n < 7) :
    nameOf weekdayNames (weekdayNames.getD n "").toList = some n := by
  interval_cases n <;> rfl

theorem showNat_length_iff : (showNat n).length = 4 ↔ 1000 ≤ n ∧ n ≤ 9999 := by
  have hfour := Nat.length_toDigits_le_iff (n := n) (k := 4) (by decide : 1 < 10) (by decide)
  have hthree := Nat.length_toDigits_le_iff (n := n) (k := 3) (by decide : 1 < 10) (by decide)
  unfold showNat
  omega

end

/-! ### The three forms -/

section

variable {t : DateTime} {ps : List Piece}

/-- Text without space. -/
def Solid (t : Txt) : Prop := t ≠ [] ∧ ∀ c ∈ t, isSpace c = false

theorem solid_of_isDigit {w : Txt} (hne : w ≠ []) (h : ∀ c ∈ w, c.isDigit = true) : Solid w :=
  ⟨hne, fun c hc => isSpace_of_isDigit (h c hc)⟩

theorem solid_twoDigits {n : Nat} (h : n < 100) : Solid (twoDigits n) :=
  solid_of_isDigit (List.cons_ne_nil _ _) (twoDigits_isDigit h)

theorem solid_monthName {n : Nat} (h : n < 12) : Solid (monthNames.getD n "").toList := by
  interval_cases n <;> exact ⟨List.cons_ne_nil _ _, forall_of_all rfl⟩

theorem Solid.stops {w : Txt} (h : Solid w) (v : Txt) :
    ∀ c, (w ++ v).head? = some c → isSpace c = false := by
  obtain ⟨hne, hspace⟩ := h
  intro c hc
  cases w with
  | nil => exact absurd rfl hne
  | cons x w => exact hspace c (by rw [← Option.some.inj hc]; exact List.mem_cons_self)

theorem Solid.head {w : Txt} (h : Solid w) (d : Char) :
    ∀ c, (textOf (field d w :: ps)).head? = some c → isSpace c = false :=
  h.stops _

def timePieces (t : DateTime) (ps : List Piece) : List Piece :=
  field 'H' (twoDigits t.hour) :: sign ':' :: field 'M' (twoDigits t.minute) :: sign ':' ::
    field 'S' (twoDigits t.second) :: ps

theorem fits_time (h : Fits ps) : Fits (timePieces t ps) :=
  fits_field (fun _ => takes_hour t.valid.hour_ok) <| fits_sign <|
    fits_field (fun _ => takes_minute t.valid.minute_ok) <| fits_sign <|
      fits_field (fun _ => takes_second t.valid.second_ok) h

theorem head_time : ∀ c, (textOf (timePieces t ps)).head? = some c → isSpace c = false :=
  (solid_twoDigits (by have := t.valid.hour_ok; omega)).head 'H'

theorem daysInMonth_le (year month : Nat) : daysInMonth year month ≤ 31 := by
  unfold daysInMonth
  split_ifs <;> omega

theorem DateTime.day_le (t : DateTime) : t.day ≤ 31 :=
  Nat.le_trans t.valid.day_ok.2 (daysInMonth_le _ _)

/-- The groups of a form with the month's number or its name, and the numbers in them. -/
theorem dateOf_groups {f : Found} {year : Nat} (hday : weekdayOk f = true)
    (hmonth : monthOf f = some t.month) (hY : numberOf f 'Y' 1900 = year)
    (hd : numberOf f 'd' 1 = t.day) (hH : numberOf f 'H' 0 = t.hour)
    (hM : numberOf f 'M' 0 = t.minute) (hS : numberOf f 'S' 0 = t.second)
    (hmicro : t.microsecond = 0) : dateOf f = t.inYear year := by
  unfold dateOf DateTime.inYear
  rw [hday, hmonth, hY, hd, hH, hM, hS, hmicro]
  rfl

theorem numberOf_eq {f : Found} {c : Char} {default n : Nat} {w : Txt}
    (hlookup : f.groups.lookup c.toNat = some w) (hw : intOfText w = some (n : Int)) :
    numberOf f c default = n := by
  unfold numberOf
  rw [hlookup]
  simp only
  rw [hw]
  rfl

/-- The form of the ISO stamps. -/
def isoFormat : Txt := "%Y-%m-%dT%H:%M:%S".toList

def isoPieces (t : DateTime) : List Piece :=
  field 'Y' (fourDigits t.year) :: sign '-' :: field 'm' (twoDigits t.month) :: sign '-' ::
    field 'd' (twoDigits t.day) :: sign 'T' :: timePieces t []

theorem fits_iso : Fits (isoPieces t) := by
  have hyear := t.valid.year_ok
  refine fits_field (fun _ => takes_year rfl (fourDigits_isDigit (by omega))) ?_
  refine fits_sign (fits_field (fun _ => takes_month t.valid.month_ok.1 t.valid.month_ok.2) ?_)
  refine fits_sign (fits_field (fun _ => takes_day t.valid.day_ok.1 t.day_le) ?_)
  exact fits_sign (fits_time trivial)

theorem strptime_iso (hmicro : t.microsecond = 0) :
    strptime (textOf (isoPieces t)) isoFormat = some t := by
  have hvalid := t.valid
  have hyear := hvalid.year_ok
  have hmonth := hvalid.month_ok
  have hday := t.day_le
  have hhour := hvalid.hour_ok
  have hminute := hvalid.minute_ok
  have hsecond := hvalid.second_ok
  rw [strptime_pieces rfl fits_iso, ← t.inYear_self]
  apply dateOf_groups _ _ _ _ _ _ _ hmicro
  · rfl
  · show some (numberOf _ 'm' 1) = _
    rw [numberOf_eq rfl (intOfText_twoDigits (by omega))]
  · exact numberOf_eq rfl (intOfText_fourDigits (by omega))
  · exact numberOf_eq rfl (intOfText_twoDigits (by omega))
  · exact numberOf_eq rfl (intOfText_twoDigits (by omega))
  · exact numberOf_eq rfl (intOfText_twoDigits (by omega))
  · exact numberOf_eq rfl (intOfText_twoDigits (by omega))

/-- The form of the kernel's log. -/
def logFormat : Txt := "%a %b %d %H:%M:%S %Y".toList

def logPieces (t : DateTime) : List Piece :=
  field 'a' (weekdayNames.getD t.weekday "").toList :: gap ::
    field 'b' (monthNames.getD (t.month - 1) "").toList :: gap :: field 'd' (twoDigits t.day) ::
      gap :: timePieces t [gap, field 'Y' (fourDigits t.year)]

theorem strftime_log : strftime t logFormat = textOf (logPieces t) := by
  unfold logPieces timePieces textOf
  simp only [List.flatMap_cons, List.flatMap_nil, field, gap, sign, List.append_nil]
  rfl

theorem fits_log : Fits (logPieces t) := by
  have hvalid := t.valid
  have hyear := hvalid.year_ok
  have hmonth := hvalid.month_ok
  have hweekday : t.weekday < 7 := Nat.mod_lt _ (by decide)
  have hname := @solid_monthName (t.month - 1) (by omega)
  have hdigits := twoDigits_isDigit (n := t.day) (by have := t.day_le; omega)
  have hfour := fourDigits_isDigit (n := t.year) (by omega)
  refine fits_field (fun _ => takes_weekdayName hweekday) (fits_gap (hname.head 'b') ?_)
  refine fits_field (fun _ => takes_monthName (by omega)) (fits_gap ?_ ?_)
  · exact (solid_of_isDigit (List.cons_ne_nil _ _) hdigits).head 'd'
  refine fits_field (fun _ => takes_day hvalid.day_ok.1 t.day_le) (fits_gap head_time ?_)
  refine fits_time (fits_gap ?_ ?_)
  · exact (solid_of_isDigit (List.cons_ne_nil _ _) hfour).head 'Y'
  · exact fits_field (fun _ => takes_year rfl hfour) trivial

theorem monthOf_eq {f : Found}
    (h : f.groups.lookup 'b'.toNat = some (monthNames.getD (t.month - 1) "").toList) :
    monthOf f = some t.month := by
  have hmonth := t.valid.month_ok
  unfold monthOf
  rw [h]
  show (nameOf monthNames (monthNames.getD (t.month - 1) "").toList).map (· + 1) = _
  rw [nameOf_month (by omega)]
  show some (t.month - 1 + 1) = _
  rw [Nat.sub_add_cancel hmonth.1]

/-- What is written in the form of the kernel's log is read back. -/
theorem strptime_strftime (hmicro : t.microsecond = 0) :
    strptime (strftime t logFormat) logFormat = some t := by
  have hvalid := t.valid
  have hyear := hvalid.year_ok
  have hday := t.day_le
  have hhour := hvalid.hour_ok
  have hminute := hvalid.minute_ok
  have hsecond := hvalid.second_ok
  have hweekday : t.weekday < 7 := Nat.mod_lt _ (by decide)
  rw [strftime_log, strptime_pieces rfl fits_log, ← t.inYear_self]
  apply dateOf_groups _ _ _ _ _ _ _ hmicro
  · show (nameOf weekdayNames (weekdayNames.getD t.weekday "").toList).isSome = true
    rw [nameOf_weekday hweekday]
    rfl
  · exact monthOf_eq rfl
  · exact numberOf_eq rfl (intOfText_fourDigits (by omega))
  · exact numberOf_eq rfl (intOfText_twoDigits (by omega))
  · exact numberOf_eq rfl (intOfText_twoDigits (by omega))
  · exact numberOf_eq rfl (intOfText_twoDigits (by omega))
  · exact numberOf_eq rfl (intOfText_twoDigits (by omega))

/-- A stamp without a year and a year behind it. -/
def stampFormat : Txt := "%b %d %H:%M:%S %Y".toList

def stampPieces (t : DateTime) (year : Nat) : List Piece :=
  field 'b' (monthNames.getD (t.month - 1) "").toList :: gap :: field 'd' (showNat t.day) ::
    gap :: timePieces t [gap, field 'Y' (showNat year)]

theorem head_showNat {n : Nat} (d : Char) :
    ∀ c, (textOf (field d (showNat n) :: ps)).head? = some c → isSpace c = false :=
  (solid_of_isDigit (showNat_ne_nil n) fun _ hc => isDigit_of_mem_showNat hc).head d

theorem fits_stamp {year : Nat} (hlow : 1000 ≤ year) (hhigh : year ≤ 9999) :
    Fits (stampPieces t year) := by
  have hvalid := t.valid
  have hmonth := hvalid.month_ok
  refine fits_field (fun _ => takes_monthName (by omega)) (fits_gap (head_showNat 'd') ?_)
  refine fits_field (fun _ => takes_showNat_day hvalid.day_ok.1 t.day_le) (fits_gap head_time ?_)
  refine fits_time (fits_gap (head_showNat 'Y') (fits_field (fun _ => ?_) trivial))
  exact takes_year (showNat_length_iff.mpr ⟨hlow, hhigh⟩) fun _ hc => isDigit_of_mem_showNat hc

theorem strptime_stamp {year : Nat} (hlow : 1000 ≤ year) (hhigh : year ≤ 9999)
    (hmicro : t.microsecond = 0) :
    strptime (textOf (stampPieces t year)) stampFormat = t.inYear year := by
  have hvalid := t.valid
  have hhour := hvalid.hour_ok
  have hminute := hvalid.minute_ok
  have hsecond := hvalid.second_ok
  rw [strptime_pieces rfl (fits_stamp hlow hhigh)]
  apply dateOf_groups _ _ _ _ _ _ _ hmicro
  · rfl
  · exact monthOf_eq rfl
  · exact numberOf_eq rfl (intOfText_showInt year)
  · exact numberOf_eq rfl (intOfText_showInt t.day)
  · exact numberOf_eq rfl (intOfText_twoDigits (by omega))
  · exact numberOf_eq rfl (intOfText_twoDigits (by omega))
  · exact numberOf_eq rfl (intOfText_twoDigits (by omega))

/-- What the last piece of a pattern matches is the end of the match. -/
theorem matches_last {rs : List Re} {r : Re} : ∀ {b m v : Txt},
    Matches noWord (cat (rs ++ [r])) b m v → ∃ b' w, w <:+ m ∧ Matches noWord r b' w v := by
  induction rs with
  | nil => exact fun {b m _} h => ⟨b, m, List.suffix_rfl, h⟩
  | cons s rs ih =>
    intro b m v h
    obtain ⟨m₁, m₂, rfl, _, hrest⟩ := matches_cat_cons.mp h
    obtain ⟨b', w, hw, hlast⟩ := ih hrest
    exact ⟨b', w, hw.trans (List.suffix_append _ _), hlast⟩

/-- A year below 1000 has too few digits. -/
theorem strptime_short_year {year : Nat} (h : year < 1000) :
    strptime (textOf (stampPieces t year)) stampFormat = none := by
  have hformat : formatPattern stampFormat = some ((stampPieces t year).map Piece.re) := rfl
  have hsplit : (stampPieces t year).map Piece.re =
      ((stampPieces t year).map Piece.re).dropLast ++
        [group 'Y'.toNat (cat ((List.replicate 4 isDigit).map cls))] := rfl
  have htext : ' ' :: showNat year <:+ textOf (stampPieces t year) := by
    have hpieces : stampPieces t year = (stampPieces t year).take 9 ++
        [gap, field 'Y' (showNat year)] := rfl
    have hlast : textOf [gap, field 'Y' (showNat year)] = ' ' :: showNat year := by
      simp [textOf, gap, field]
    unfold textOf at hlast ⊢
    rw [hpieces, List.flatMap_append, hlast]
    exact List.suffix_append _ _
  rw [strptime_eq hformat]
  cases hmatch : matchAt noWord (cat ((stampPieces t year).map Piece.re))
      ⟨[], textOf (stampPieces t year)⟩ with
  | none => rfl
  | some f =>
    have hspans : Spans noWord (cat ((stampPieces t year).map Piece.re))
        ⟨[], textOf (stampPieces t year)⟩ f.pos := ⟨f, List.mem_of_mem_head? hmatch, rfl⟩
    obtain ⟨m, hm, hmatches⟩ := hspans.exists_matches
    rw [Option.bind_some]
    by_cases hend : f.pos.after = []
    · rw [hend, List.append_nil] at hm
      rw [hsplit] at hmatches
      obtain ⟨b', w, hw, hlast⟩ := matches_last hmatches
      have hdigits := matches_classes.mp (matches_group.mp hlast)
      have hlen : w.length = 4 := hdigits.length_eq.symm
      have hshort : (' ' :: showNat year).length ≤ w.length := by
        have hthree :=
          Nat.length_toDigits_le_iff (n := year) (k := 3) (by decide : 1 < 10) (by decide)
        rw [hlen, List.length_cons]
        unfold showNat
        omega
      rw [← hm] at hw
      have hspace : ' ' ∈ w :=
        (List.suffix_of_suffix_length_le htext hw hshort).subset List.mem_cons_self
      obtain ⟨i, hi, hget⟩ := List.getElem_of_mem hspace
      have hdigit := hdigits.get (by rw [hdigits.length_eq]; exact hi) hi
      rw [List.get_eq_getElem, List.getElem_replicate, List.get_eq_getElem, hget] at hdigit
      exact absurd hdigit (by decide)
    · rw [if_neg hend]

end

end Calendar
end Text
end RocmTests

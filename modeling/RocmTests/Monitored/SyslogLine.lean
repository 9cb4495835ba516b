import RocmTests.Monitored.SyslogTime

/-!
# Kernel lines of a syslog

A line of the ISO form or of the traditional form, part by part, and what
`_syslog_ts_to_dmesg` makes of it.  A line of the traditional form carries the day and
the time it was written at, of which the text leaves out the year.
-/

namespace RocmTests
namespace Monitored
namespace SyslogTime

open Text Text.Re Text.Calendar
open Markers (isSpace intOfText)

/-! ## The parts of a line -/

/-- A run of space. -/
def Blank (t : Txt) : Prop := t ≠ [] ∧ ∀ c ∈ t, isSpace c = true

/-- What follows the stamp. -/
structure Tail where
  gap : Txt
  host : Txt
  gap' : Txt
  indent : Txt
  msg : Txt
  gap_blank : Blank gap
  host_solid : Solid host
  gap'_blank : Blank gap'
  indent_space : ∀ c ∈ indent, isSpace c = true
  msg_head : ∀ c, msg.head? = some c → isSpace c = false
  msg_line : '\n' ∉ msg

def Tail.text (l : Tail) : Txt :=
  l.gap ++ (l.host ++ (l.gap' ++ ("kernel:".toList ++ (l.indent ++ l.msg))))

structure Fraction where
  mark : Char
  digits : List (Fin 10)
  mark_ok : mark = '.' ∨ mark = ','
  digits_ne : digits ≠ []

def Fraction.text (f : Fraction) : Txt :=
  f.mark :: f.digits.map fun d : Fin 10 => Nat.digitChar d.val

/-- The part of a second that the digits are. -/
def fractionValue : List (Fin 10) → ℚ
  | [] => 0
  | d :: ds => (d.val + fractionValue ds) / 10

/-- `Z`, or a sign, hours and minutes. -/
inductive Offset where
  | utc
  | numeric (west : Bool) (hours minutes : Fin 100) (colon : Bool)

def Offset.text : Offset → Txt
  | utc => ['Z']
  | numeric west hours minutes colon =>
    (if west then '-' else '+') :: (twoDigits hours ++ ((if colon then [':'] else []) ++
      twoDigits minutes))

def Offset.seconds : Offset → Int
  | utc => 0
  | numeric west hours minutes _ =>
    let east : Int := hours.val * 3600 + minutes.val * 60
    if west then -east else east

def timeText (t : DateTime) : Txt :=
  twoDigits t.hour ++ ':' :: (twoDigits t.minute ++ ':' :: twoDigits t.second)

structure IsoLine where
  stamp : DateTime
  blank : Bool
  fraction : Option Fraction
  offset : Option Offset
  tail : Tail
  whole : stamp.microsecond = 0

namespace IsoLine

def stampText (l : IsoLine) : Txt :=
  fourDigits l.stamp.year ++ '-' :: (twoDigits l.stamp.month ++ '-' :: (twoDigits l.stamp.day ++
    (if l.blank then ' ' else 'T') :: timeText l.stamp))

def fractionText (l : IsoLine) : Txt := (l.fraction.map Fraction.text).getD []

def offsetText (l : IsoLine) : Txt := (l.offset.map Offset.text).getD []

def text (l : IsoLine) : Txt :=
  l.stampText ++ (l.fractionText ++ (l.offsetText ++ l.tail.text))

end IsoLine

structure BsdLine where
  wall : DateTime
  leadingZero : Bool
  gap : Txt
  gap' : Txt
  tail : Tail
  whole : wall.microsecond = 0
  gap_blank : Blank gap
  gap'_blank : Blank gap'

namespace BsdLine

def monthText (l : BsdLine) : Txt := (monthNames.getD (l.wall.month - 1) "").toList

def dayText (l : BsdLine) : Txt :=
  if l.leadingZero then twoDigits l.wall.day else showNat l.wall.day

def text (l : BsdLine) : Txt :=
  l.monthText ++ (l.gap ++ (l.dayText ++ (l.gap' ++ (timeText l.wall ++ l.tail.text))))

end BsdLine

/-! ## The tail -/

def tailPieces (l : Tail) (n : Nat) : List Calendar.Piece :=
  [⟨plus isSpace, l.gap, []⟩, ⟨plus isNotSpace, l.host, []⟩, ⟨plus isSpace, l.gap', []⟩,
    ⟨lit "kernel:", "kernel:".toList, []⟩, ⟨star isSpace, l.indent, []⟩,
    ⟨group n dots, l.msg, [(n, l.msg)]⟩]

theorem textOf_tail (l : Tail) (n : Nat) : textOf (tailPieces l n) = l.text := by
  unfold textOf tailPieces Tail.text
  simp only [List.flatMap_cons, List.flatMap_nil, List.append_nil]

theorem ne_of_isSpace {c d : Char} (h : isSpace c = true) (hd : isSpace d = false) : c ≠ d := by
  rintro rfl
  rw [hd] at h
  cases h

theorem isDigit_of_isSpace {c : Char} (h : isSpace c = true) : isDigit c = false := by
  unfold isDigit
  rw [digitValue_of_isSpace h]
  rfl

/-- A run of space stops what does not take space. -/
theorem Blank.stops {t : Txt} (h : Blank t) (v : Txt) {p : Char → Bool}
    (hp : ∀ c, isSpace c = true → p c = false) : ∀ c, (t ++ v).head? = some c → p c = false := by
  obtain ⟨hne, hspace⟩ := h
  cases t with
  | nil => exact absurd rfl hne
  | cons x t =>
    intro c hc
    rw [← Option.some.inj hc]
    exact hp x (hspace x List.mem_cons_self)

theorem fits_blank {t : Txt} {ps : List Calendar.Piece} (h : Blank t)
    (hhead : ∀ c, (textOf ps).head? = some c → isSpace c = false) (hps : Fits ps) :
    Fits (⟨plus isSpace, t, []⟩ :: ps) :=
  ⟨fun _ => takes_plus h.1 h.2 hhead, hps⟩

theorem fits_tail (l : Tail) (n : Nat) : Fits (tailPieces l n) := by
  have hhost : ∀ c ∈ l.host, isNotSpace c = true := by
    intro c hc
    unfold isNotSpace
    rw [l.host_solid.2 c hc]
    rfl
  have hdots : ∀ c ∈ l.msg, decide (c ≠ '\n') = true := by
    intro c hc
    apply decide_eq_true
    rintro rfl
    exact l.msg_line hc
  refine fits_blank l.gap_blank (l.host_solid.stops _) ?_
  refine ⟨fun _ => takes_plus l.host_solid.1 hhost ?_, ?_⟩
  · apply l.gap'_blank.stops
    intro c hc
    unfold isNotSpace
    rw [hc]
    rfl
  refine fits_blank l.gap'_blank (stops rfl (by decide)) ?_
  refine ⟨fun _ => takes_lit "kernel:", fun _ => takes_star l.indent_space ?_, ?_, trivial⟩
  · intro c hc
    apply l.msg_head
    rw [← hc]
    show _ = (l.msg ++ []).head?
    rw [List.append_nil]
  · exact fun _ => (takes_star hdots (by intro c hc; cases hc)).group n

/-! ## The ISO form -/

/-- A pattern that begins with a character of `f` does not match where none is. -/
theorem matchAt_none_of_head {r : Re} {f : Char → Bool} {b v : Txt}
    (hr : ∀ m w, Matches noWord r b m w → ∃ c, m.head? = some c ∧ f c = true)
    (hv : ∀ c, v.head? = some c → f c = false) : matchAt noWord r ⟨b, v⟩ = none := by
  rw [matchAt_eq_none_iff]
  intro m w hmw hm
  obtain ⟨c, hc, hf⟩ := hr m w hm
  have hhead := hv c (by rw [hmw]; exact head_append hc)
  rw [hf] at hhead
  cases hhead

theorem head_of_matches {f : Char → Bool} {rs : List Re} {b m v : Txt}
    (h : Matches noWord (cat (cls f :: rs)) b m v) : ∃ c, m.head? = some c ∧ f c = true := by
  obtain ⟨m₁, m₂, rfl, hfirst, _⟩ := matches_cat_cons.mp h
  obtain ⟨c, rfl, hc⟩ := matches_cls.mp hfirst
  exact ⟨c, rfl, hc⟩

theorem forall_twoDigits {n : Nat} (hn : n < 100) {fs : List (Char → Bool)} {t : Txt}
    (h : List.Forall₂ (fun f c => f c = true) fs t) :
    List.Forall₂ (fun f c => f c = true) (isDigit :: isDigit :: fs) (twoDigits n ++ t) := by
  have hdigits := twoDigits_isDigit hn
  refine .cons (isDigit_of_char (hdigits _ List.mem_cons_self)) (.cons (isDigit_of_char ?_) h)
  exact hdigits _ (List.mem_cons_of_mem _ List.mem_cons_self)

theorem takes_twoDigits {n : Nat} {rs : List Re} {b t v : Txt} (hn : n < 100)
    (ht : ∀ b, Takes noWord (cat rs) b t v []) :
    Takes noWord (cat (cls isDigit :: cls isDigit :: rs)) b (twoDigits n ++ t) v [] := by
  have hdigits := twoDigits_isDigit hn
  have hfirst : ∀ b v, Takes noWord (cls isDigit) b [Nat.digitChar (n / 10)] v [] :=
    fun _ _ => takes_cls (isDigit_of_char (hdigits _ List.mem_cons_self))
  have hsecond : ∀ b v, Takes noWord (cls isDigit) b [Nat.digitChar (n % 10)] v [] :=
    fun _ _ => takes_cls (isDigit_of_char (hdigits _ (List.mem_cons_of_mem _ List.mem_cons_self)))
  exact (hfirst _ _).cat_plain ((hsecond _ _).cat_plain (ht _))

theorem forall_time (t : DateTime) :
    List.Forall₂ (fun f c => f c = true) timeClasses (timeText t) := by
  have hvalid := t.valid
  have hhour := hvalid.hour_ok
  have hminute := hvalid.minute_ok
  have hsecond := hvalid.second_ok
  refine forall_twoDigits (by omega) (.cons rfl (forall_twoDigits (by omega) (.cons rfl ?_)))
  have hlast := @forall_twoDigits t.second (by omega) [] [] .nil
  rw [List.append_nil] at hlast
  exact hlast

namespace IsoLine

variable (l : IsoLine)

theorem forall_stamp : List.Forall₂ (fun f c => f c = true) isoClasses l.stampText := by
  have hvalid := l.stamp.valid
  have hyear := hvalid.year_ok
  have hmonth := hvalid.month_ok
  have hday := l.stamp.day_le
  unfold isoClasses stampText fourDigits
  rw [List.append_assoc]
  refine forall_twoDigits (by omega) (forall_twoDigits (by omega) (.cons rfl ?_))
  refine forall_twoDigits (by omega) (.cons rfl (forall_twoDigits (by omega) (.cons ?_ ?_)))
  · cases l.blank <;> rfl
  · exact forall_time l.stamp

/-- What can stand behind the stamp and the fraction. -/
theorem offset_stops {p : Char → Bool} (hspace : ∀ c, isSpace c = true → p c = false)
    (hsign : p 'Z' = false ∧ p '+' = false ∧ p '-' = false) (v : Txt) :
    ∀ c, (l.offsetText ++ (l.tail.gap ++ v)).head? = some c → p c = false := by
  unfold offsetText
  cases l.offset with
  | none => exact l.tail.gap_blank.stops v hspace
  | some o =>
    cases o with
    | utc => exact stops rfl hsign.1
    | numeric west hours minutes colon =>
      cases west
      · exact stops rfl hsign.2.1
      · exact stops rfl hsign.2.2

theorem takes_fraction (v : Txt) (b : Txt) : Takes noWord fractionPart b l.fractionText
    (l.offsetText ++ (l.tail.gap ++ v)) [] := by
  unfold fractionPart opt fractionText
  cases l.fraction with
  | none =>
    apply Takes.alt_right _ takes_eps
    apply matchAt_none_of_head (f := fun c => c = '.' || c = ',')
    · intro m w hm
      have hcat : Matches noWord (cat [cls fun c => c = '.' || c = ',', plus isDigit]) b m w := hm
      exact head_of_matches hcat
    · apply l.offset_stops _ (by decide)
      intro c hc
      rw [Bool.or_eq_false_iff, decide_eq_false_iff_not, decide_eq_false_iff_not]
      exact ⟨ne_of_isSpace hc (by decide), ne_of_isSpace hc (by decide)⟩
  | some f =>
    apply Takes.alt_left
    show Takes noWord _ b ([f.mark] ++ f.digits.map fun d : Fin 10 => Nat.digitChar d.val) _
      ([] ++ [])
    have hmark : (decide (f.mark = '.') || decide (f.mark = ',')) = true := by
      rcases f.mark_ok with h | h <;> rw [h] <;> rfl
    have hne : (f.digits.map fun d : Fin 10 => Nat.digitChar d.val) ≠ [] :=
      fun h => f.digits_ne (List.map_eq_nil_iff.mp h)
    have hdigits : ∀ c ∈ f.digits.map fun d : Fin 10 => Nat.digitChar d.val, isDigit c = true := by
      intro c hc
      obtain ⟨d, _, rfl⟩ := List.mem_map.mp hc
      apply isDigit_of_char
      rw [Nat.isDigit_digitChar, decide_eq_true_eq]
      exact d.isLt
    have hstops := l.offset_stops (fun _ => isDigit_of_isSpace) (by decide) v
    exact (takes_cls hmark).seq (takes_plus hne hdigits hstops)

theorem takes_offset (v : Txt) (b : Txt) :
    Takes noWord offsetPart b l.offsetText (l.tail.gap ++ v) [] := by
  unfold offsetPart opt offsetText
  cases l.offset with
  | none =>
    apply Takes.alt_right _ takes_eps
    apply matchAt_none_of_head (f := fun c => c = 'Z' || (c = '+' || c = '-'))
    · intro m w hm
      rcases matches_alt.mp hm with hm | hm
      · obtain ⟨c, rfl, hc⟩ := matches_cls.mp hm
        exact ⟨c, rfl, by rw [hc, Bool.true_or]⟩
      · obtain ⟨c, hhead, hc⟩ := head_of_matches hm
        exact ⟨c, hhead, by rw [hc, Bool.or_true]⟩
    · apply l.tail.gap_blank.stops v
      intro c hc
      rw [Bool.or_eq_false_iff, Bool.or_eq_false_iff, decide_eq_false_iff_not,
        decide_eq_false_iff_not, decide_eq_false_iff_not]
      exact ⟨ne_of_isSpace hc (by decide), ne_of_isSpace hc (by decide),
        ne_of_isSpace hc (by decide)⟩
  | some o =>
    apply Takes.alt_left
    cases o with
    | utc => exact (takes_cls rfl).alt_left
    | numeric west hours minutes colon =>
      have hminutes : ∀ b, Takes noWord (cat [cls isDigit, cls isDigit]) b (twoDigits minutes)
          (l.tail.gap ++ v) [] := by
        intro b
        have hlast : Takes noWord (cat [cls isDigit, cls isDigit]) b (twoDigits minutes ++ [])
            (l.tail.gap ++ v) [] := takes_twoDigits minutes.isLt fun _ => takes_eps
        rw [List.append_nil] at hlast
        exact hlast
      have hcolon : ∀ b, Takes noWord (cat [opt (cls (· = ':')), cls isDigit, cls isDigit]) b
          ((if colon then [':'] else []) ++ twoDigits minutes) (l.tail.gap ++ v) [] := by
        intro b
        cases colon
        · refine Takes.cat_plain (Takes.alt_right ?_ takes_eps) (hminutes _)
          apply matchAt_none_of_head (f := (· = ':'))
          · intro m w hm
            obtain ⟨c, rfl, hc⟩ := matches_cls.mp hm
            exact ⟨c, rfl, hc⟩
          · apply stops rfl
            rw [decide_eq_false_iff_not]
            intro h
            have hdigit := twoDigits_isDigit minutes.isLt _ List.mem_cons_self
            rw [h] at hdigit
            exact absurd hdigit (by decide)
        · exact (Takes.alt_left (takes_cls rfl)).cat_plain (hminutes _)
      apply Takes.alt_right
      · apply matchAt_none_of_head (f := (· = 'Z'))
        · intro m w hm
          obtain ⟨c, rfl, hc⟩ := matches_cls.mp hm
          exact ⟨c, rfl, hc⟩
        · cases west <;> exact stops rfl (by decide)
      · have hsign : ∀ b v, Takes noWord (cls fun c => c = '+' || c = '-') b
            [if west then '-' else '+'] v [] := by
          intro b v
          cases west <;> exact takes_cls rfl
        exact (hsign _ _).cat_plain (takes_twoDigits hours.isLt hcolon)

def pieces : List Calendar.Piece :=
  ⟨group 1 (cat (isoClasses.map cls)), l.stampText, [(1, l.stampText)]⟩ ::
    ⟨fractionPart, l.fractionText, []⟩ :: ⟨offsetPart, l.offsetText, []⟩ :: tailPieces l.tail 2

theorem textOf_pieces : textOf l.pieces = l.text := by
  have htail := textOf_tail l.tail 2
  unfold textOf at *
  unfold pieces text
  rw [List.flatMap_cons, List.flatMap_cons, List.flatMap_cons, htail]

theorem fits_pieces : Fits l.pieces := by
  have htail : textOf (tailPieces l.tail 2) = l.tail.gap ++ (l.tail.host ++ (l.tail.gap' ++
      ("kernel:".toList ++ (l.tail.indent ++ l.tail.msg)))) := textOf_tail l.tail 2
  refine ⟨fun _ => (takes_classes l.forall_stamp).group 1, fun b => ?_, fun b => ?_, fits_tail _ 2⟩
  · have htext : textOf (⟨offsetPart, l.offsetText, []⟩ :: tailPieces l.tail 2) =
        l.offsetText ++ textOf (tailPieces l.tail 2) := rfl
    rw [htext, htail]
    exact l.takes_fraction _ b
  · rw [htail]
    exact l.takes_offset _ b

theorem map_stampText : (l.stampText.map fun c => if c = ' ' then 'T' else c) =
    textOf (isoPieces l.stamp) := by
  have hvalid := l.stamp.valid
  have hyear := hvalid.year_ok
  have hmonth := hvalid.month_ok
  have hday := l.stamp.day_le
  have hhour := hvalid.hour_ok
  have hminute := hvalid.minute_ok
  have hsecond := hvalid.second_ok
  have htwo : ∀ n < 100, ((twoDigits n).map fun c => if c = ' ' then 'T' else c) = twoDigits n := by
    intro n hn
    have hkeep : ∀ c ∈ twoDigits n, (if c = ' ' then 'T' else c) = c := by
      intro c hc
      rw [if_neg]
      rintro rfl
      exact absurd (twoDigits_isDigit hn _ hc) (by decide)
    rw [List.map_congr_left hkeep, List.map_id']
  have hsep : (if (if l.blank then ' ' else 'T') = ' ' then 'T' else if l.blank then ' ' else 'T') =
      'T' := by
    cases l.blank <;> rfl
  have hplain : (if '-' = ' ' then 'T' else '-') = '-' ∧
      (if ':' = ' ' then 'T' else ':') = ':' := by
    decide
  unfold stampText timeText fourDigits
  simp only [List.map_append, List.map_cons, hsep, hplain.1, hplain.2]
  rw [htwo _ (by omega), htwo _ (by omega), htwo _ (by omega), htwo _ (by omega),
    htwo _ (by omega), htwo _ (by omega), htwo _ (by omega)]
  simp [textOf, isoPieces, timePieces, field, sign, fourDigits]

/-- The stamp is taken as it stands. -/
theorem syslogTsToDmesg_text (now : DateTime) :
    syslogTsToDmesg l.text now = some (l.stamp, rendered l.stamp l.tail.msg) := by
  have hmatch := takes_pieces l.fits_pieces []
  rw [l.textOf_pieces] at hmatch
  have hread : strptime (l.stampText.map fun c => if c = ' ' then 'T' else c)
      "%Y-%m-%dT%H:%M:%S".toList = some l.stamp := by
    rw [l.map_stampText]
    exact strptime_iso l.whole
  unfold syslogTsToDmesg
  have hre : syslogIsoRe = cat (l.pieces.map Calendar.Piece.re) := rfl
  rw [hre, matchToEnd_of_takes hmatch]
  show (strptime (l.stampText.map _) _).map _ = _
  rw [hread]
  rfl

end IsoLine

/-! ## The traditional form -/

namespace BsdLine

variable (l : BsdLine)

theorem month_lt : l.wall.month - 1 < 12 := by
  have hmonth := l.wall.valid.month_ok
  omega

theorem forall_month : List.Forall₂ (fun f c => f c = true)
    [charRange 'A' 'Z', charRange 'a' 'z', charRange 'a' 'z'] l.monthText := by
  have hnames : ∀ n < 12, List.Forall₂ (fun f c => f c = true)
      [charRange 'A' 'Z', charRange 'a' 'z', charRange 'a' 'z'] (monthNames.getD n "").toList := by
    intro n hn
    interval_cases n <;> exact .cons rfl (.cons rfl (.cons rfl .nil))
  exact hnames _ l.month_lt

theorem showNat_eq {n : Nat} (hn : n < 100) :
    showNat n = if n < 10 then [Nat.digitChar n] else twoDigits n := by
  interval_cases n <;> rfl

theorem takes_day (v b : Txt) :
    Takes noWord (seq (cls isDigit) (opt (cls isDigit))) b l.dayText (l.gap' ++ v) [] := by
  have hday : l.wall.day < 100 := Nat.lt_of_le_of_lt l.wall.day_le (by decide)
  have hdigits := twoDigits_isDigit hday
  have htwo : Takes noWord (seq (cls isDigit) (opt (cls isDigit))) b (twoDigits l.wall.day)
      (l.gap' ++ v) [] := by
    have hsecond : Takes noWord (opt (cls isDigit)) ([Nat.digitChar (l.wall.day / 10)].reverse ++ b)
        [Nat.digitChar (l.wall.day % 10)] (l.gap' ++ v) [] :=
      (takes_cls (isDigit_of_char (hdigits _ (List.mem_cons_of_mem _ List.mem_cons_self)))).alt_left
    exact (takes_cls (isDigit_of_char (hdigits _ List.mem_cons_self))).seq hsecond
  unfold dayText
  cases l.leadingZero with
  | true => exact htwo
  | false =>
    rw [if_neg Bool.false_ne_true, showNat_eq hday]
    by_cases hn : l.wall.day < 10
    · rw [if_pos hn]
      have hdigit : (Nat.digitChar l.wall.day).isDigit = true := by
        rw [Nat.isDigit_digitChar, decide_eq_true_eq]
        exact hn
      have hnone : Takes noWord (opt (cls isDigit)) ([Nat.digitChar l.wall.day].reverse ++ b) []
          (l.gap' ++ v) [] := by
        refine Takes.alt_right (matchAt_none_of_head (f := isDigit) ?_ ?_) takes_eps
        · intro m w hm
          obtain ⟨c, rfl, hc⟩ := matches_cls.mp hm
          exact ⟨c, rfl, hc⟩
        · exact l.gap'_blank.stops v fun _ => isDigit_of_isSpace
      exact (takes_cls (isDigit_of_char hdigit)).seq hnone
    · rw [if_neg hn]
      exact htwo

def pieces : List Calendar.Piece :=
  ⟨group 1 (cat ([charRange 'A' 'Z', charRange 'a' 'z', charRange 'a' 'z'].map cls)), l.monthText,
      [(1, l.monthText)]⟩ ::
    ⟨plus isSpace, l.gap, []⟩ ::
    ⟨group 2 (seq (cls isDigit) (opt (cls isDigit))), l.dayText, [(2, l.dayText)]⟩ ::
    ⟨plus isSpace, l.gap', []⟩ ::
    ⟨group 3 (cat (timeClasses.map cls)), timeText l.wall, [(3, timeText l.wall)]⟩ ::
    tailPieces l.tail 4

theorem textOf_pieces : textOf l.pieces = l.text := by
  have htail := textOf_tail l.tail 4
  unfold textOf at *
  unfold pieces text
  rw [List.flatMap_cons, List.flatMap_cons, List.flatMap_cons, List.flatMap_cons,
    List.flatMap_cons, htail]

theorem solid_day : Solid l.dayText := by
  have hday : l.wall.day < 100 := Nat.lt_of_le_of_lt l.wall.day_le (by decide)
  unfold dayText
  cases l.leadingZero
  · exact solid_of_isDigit (showNat_ne_nil _) fun _ hc => isDigit_of_mem_showNat hc
  · exact solid_twoDigits hday

theorem solid_time (t : DateTime) : Solid (timeText t) := by
  have hvalid := t.valid
  have hhour := hvalid.hour_ok
  have hminute := hvalid.minute_ok
  have hsecond := hvalid.second_ok
  refine ⟨List.cons_ne_nil _ _, ?_⟩
  intro c hc
  unfold timeText at hc
  simp only [List.mem_append, List.mem_cons] at hc
  rcases hc with hc | rfl | hc | rfl | hc
  · exact (@solid_twoDigits t.hour (by omega)).2 c hc
  · decide
  · exact (@solid_twoDigits t.minute (by omega)).2 c hc
  · decide
  · exact (@solid_twoDigits t.second (by omega)).2 c hc

theorem fits_pieces : Fits l.pieces := by
  refine ⟨fun _ => (takes_classes l.forall_month).group 1, ?_⟩
  refine fits_blank l.gap_blank (l.solid_day.stops _) ?_
  refine ⟨fun b => (l.takes_day _ b).group 2, ?_⟩
  refine fits_blank l.gap'_blank ((solid_time l.wall).stops _) ?_
  exact ⟨fun _ => (takes_classes (forall_time l.wall)).group 3, fits_tail _ 4⟩

/-- It begins with a letter. -/
theorem not_iso : matchToEnd noWord syslogIsoRe l.text = none := by
  have hletter : ∀ n < 12, ∃ c t, (monthNames.getD n "").toList = c :: t ∧ isDigit c = false := by
    intro n hn
    interval_cases n <;> exact ⟨_, _, rfl, rfl⟩
  obtain ⟨c, t, hname, hc⟩ := hletter _ l.month_lt
  apply matchToEnd_eq_none
  intro h
  obtain ⟨m₁, m₂, hm, hstamp, _⟩ := matches_cat_cons.mp h
  have hclasses := matches_classes.mp (matches_group.mp hstamp)
  obtain ⟨d, m₃, hd, _, rfl⟩ := List.forall₂_cons_left_iff.mp hclasses
  unfold text monthText at hm
  rw [hname] at hm
  have hcd : c = d := (List.cons.inj hm).1
  rw [← hcd, hc] at hd
  cases hd

/-- The line's date in a year, if that has four digits and the date is not more than a day
ahead. -/
def dateIn (now : DateTime) (year : Nat) : Option DateTime :=
  if 1000 ≤ year then (l.wall.inYear year).filter fun t => t.micros ≤ now.micros + dayMicros
  else none

theorem mem_dateIn {now t : DateTime} {year : Nat} : t ∈ l.dateIn now year ↔
    1000 ≤ year ∧ t ∈ l.wall.inYear year ∧ t.micros ≤ now.micros + dayMicros := by
  unfold dateIn
  split_ifs with h
  · simp [h]
  · simp [h]

/-- The date that the line is read with. -/
def date (now : DateTime) : Option DateTime :=
  [now.year, now.year - 1].findSome? (l.dateIn now)

theorem intOfText_day : intOfText l.dayText = some (l.wall.day : Int) := by
  have hday : l.wall.day < 100 := Nat.lt_of_le_of_lt l.wall.day_le (by decide)
  unfold dayText
  cases l.leadingZero
  · exact intOfText_showInt l.wall.day
  · exact intOfText_twoDigits hday

theorem bind_guard {α : Type} (p : α → Prop) [DecidablePred p] (x : Option α) :
    (x >>= fun a => if p a then pure a else none) = x.filter fun a => p a := by
  cases x with
  | none => rfl
  | some a =>
    rw [Option.filter_some]
    simp only [Option.bind_eq_bind, Option.bind_some, decide_eq_true_eq]
    rfl

theorem tryYear_stamp (now : DateTime) {stamp : Txt}
    (hstamp : stamp = l.monthText ++ ' ' :: (showNat l.wall.day ++ ' ' :: timeText l.wall))
    {year : Nat} (hyear : year ≤ 9999) : tryYear now stamp year = l.dateIn now year := by
  have htext : stamp ++ ' ' :: showNat year = textOf (stampPieces l.wall year) := by
    rw [hstamp]
    simp [textOf, stampPieces, timePieces, field, Calendar.gap, sign,
      monthText, timeText]
  unfold tryYear dateIn
  rw [htext]
  by_cases hlow : 1000 ≤ year
  · have hread : strptime (textOf (stampPieces l.wall year)) "%b %d %H:%M:%S %Y".toList =
        l.wall.inYear year := strptime_stamp hlow hyear l.whole
    rw [hread, if_pos hlow]
    exact bind_guard _ _
  · have hread : strptime (textOf (stampPieces l.wall year)) "%b %d %H:%M:%S %Y".toList = none :=
      strptime_short_year (Nat.lt_of_not_le hlow)
    rw [hread, if_neg hlow]
    rfl

theorem syslogTsToDmesg_text (now : DateTime) : syslogTsToDmesg l.text now =
    (l.date now).map fun ts => (ts, rendered ts l.tail.msg) := by
  have hmatch := takes_pieces l.fits_pieces []
  rw [l.textOf_pieces] at hmatch
  have hre : syslogBsdRe = cat (l.pieces.map Calendar.Piece.re) := rfl
  unfold syslogTsToDmesg
  rw [l.not_iso, hre, matchToEnd_of_takes hmatch]
  have hstamp : ∀ p : Pos, stampOf ⟨p, l.pieces.flatMap Calendar.Piece.groups⟩ =
      l.monthText ++ ' ' :: (showNat l.wall.day ++ ' ' :: timeText l.wall) := by
    intro p
    show l.monthText ++ ' ' :: (showInt ((intOfText l.dayText).getD 0) ++ ' ' :: timeText l.wall) =
      _
    rw [l.intOfText_day]
    rfl
  have hyear := now.valid.year_ok
  have hyears : [now.year, now.year - 1].findSome?
      (tryYear now (stampOf ⟨⟨l.text.reverse, []⟩, l.pieces.flatMap Calendar.Piece.groups⟩)) =
        l.date now := by
    unfold date
    simp only [List.findSome?_cons, List.findSome?_nil]
    rw [l.tryYear_stamp now (hstamp _) hyear.2, l.tryYear_stamp now (hstamp _) (by omega)]
  simp only
  rw [hyears]
  rfl

end BsdLine

end SyslogTime
end Monitored
end RocmTests

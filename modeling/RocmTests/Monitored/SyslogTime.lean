import RocmTests.Text.Strptime

/-!
# Times of the persisted kernel log

Where the ring buffer cannot be read, the lines of a persisted log are written as
`dmesg -T` writes them.  A stamp of the ISO form is taken as it stands: the fraction and
the offset are matched and dropped.  A stamp without a year is tried in the year of now and
in the year before.
-/

namespace RocmTests
namespace Monitored
namespace SyslogTime

open Text Text.Re Text.Calendar
open Markers (isSpace intOfText)

/-! ## The forms of a line -/

def isNotSpace (c : Char) : Bool := !isSpace c

/-- `\s+\S+\s+kernel:\s*(?P<msg>.*)`. -/
def kernelTail (msg : Nat) : List Re :=
  [plus isSpace, plus isNotSpace, plus isSpace, lit "kernel:", star isSpace, group msg dots]

/-- `\d{2}:\d{2}:\d{2}`. -/
def timeClasses : List (Char → Bool) :=
  [isDigit, isDigit, (· = ':'), isDigit, isDigit, (· = ':'), isDigit, isDigit]

/-- `\d{4}-\d{2}-\d{2}[T ]\d{2}:\d{2}:\d{2}`. -/
def isoClasses : List (Char → Bool) :=
  [isDigit, isDigit, isDigit, isDigit, (· = '-'), isDigit, isDigit, (· = '-'), isDigit, isDigit,
    fun c => c = 'T' || c = ' '] ++ timeClasses

/-- `(?:[.,]\d+)?`. -/
def fractionPart : Re := opt (seq (cls fun c => c = '.' || c = ',') (plus isDigit))

/-- `(?:Z|[+-]\d{2}:?\d{2})?`. -/
def offsetPart : Re :=
  opt (alt (cls (· = 'Z')) (cat [cls fun c => c = '+' || c = '-', cls isDigit, cls isDigit,
    opt (cls (· = ':')), cls isDigit, cls isDigit]))

/-- `_SYSLOG_ISO_RE`. -/
def syslogIsoRe : Re :=
  cat ([group 1 (cat (isoClasses.map cls)), fractionPart, offsetPart] ++ kernelTail 2)

/-- `_SYSLOG_BSD_RE`. -/
def syslogBsdRe : Re :=
  cat ([group 1 (cat ([charRange 'A' 'Z', charRange 'a' 'z', charRange 'a' 'z'].map cls)),
    plus isSpace, group 2 (seq (cls isDigit) (opt (cls isDigit))), plus isSpace,
    group 3 (cat (timeClasses.map cls))] ++ kernelTail 4)

/-- `_DMESG_TS_FMT`. -/
def dmesgTsFmt : Txt := "%a %b %d %H:%M:%S %Y".toList

/-! ## One line -/

def dayMicros : Int := 86400 * 1000000

/-- `f"[{ts.strftime(_DMESG_TS_FMT)}] {msg}"`. -/
def rendered (ts : DateTime) (msg : Txt) : Txt :=
  '[' :: (strftime ts dmesgTsFmt ++ ("] ".toList ++ msg))

/-- `f"{mon} {int(day)} {time}"`. -/
def stampOf (bsd : Found) : Txt :=
  bsd.group 1 ++ ' ' :: (showInt ((intOfText (bsd.group 2)).getD 0) ++ ' ' :: bsd.group 3)

/-- The time of a stamp in this year, if it is one and is not more than a day ahead. -/
def tryYear (now : DateTime) (stamp : Txt) (year : Nat) : Option DateTime := do
  let ts ← strptime (stamp ++ ' ' :: showNat year) "%b %d %H:%M:%S %Y".toList
  if ts.micros ≤ now.micros + dayMicros then return ts else none

/-- `_syslog_ts_to_dmesg`, on a text without line ends. -/
def syslogTsToDmesg (line : Txt) (now : DateTime) : Option (DateTime × Txt) :=
  match matchToEnd noWord syslogIsoRe line with
  | some iso =>
    (strptime ((iso.group 1).map fun c => if c = ' ' then 'T' else c)
      "%Y-%m-%dT%H:%M:%S".toList).map fun ts => (ts, rendered ts (iso.group 2))
  | none =>
    match matchToEnd noWord syslogBsdRe line with
    | none => none
    | some bsd =>
      ([now.year, now.year - 1].findSome? (tryYear now (stampOf bsd))).map fun ts =>
        (ts, rendered ts (bsd.group 4))

/-- `_DMESG_TS_RE`. -/
def dmesgTsRe : Re := cat [lit "[", group 1 (plus (· ≠ ']')), lit "]"]

/-- `_parse_dmesg_ts`.  `%e` is no directive of `strptime`. -/
def parseDmesgTs (line : Txt) : Option DateTime :=
  match matchAt noWord dmesgTsRe ⟨[], line⟩ with
  | none => none
  | some m =>
    ["%a %b %d %H:%M:%S %Y", "%a %b %e %H:%M:%S %Y"].findSome? fun fmt =>
      strptime (m.group 1) fmt.toList

/-! ## What is written is read back -/

theorem not_bracket_of_isDigit {w : Txt} (h : ∀ c ∈ w, c.isDigit = true) : ∀ c ∈ w, c ≠ ']' := by
  intro c hc hbracket
  have hdigit := h c hc
  rw [hbracket] at hdigit
  exact absurd hdigit (by decide)

theorem not_bracket_strftime (t : DateTime) : ∀ c ∈ strftime t dmesgTsFmt, c ≠ ']' := by
  have hvalid := t.valid
  have hweekday : ∀ n < 7, ∀ c ∈ (weekdayNames.getD n "").toList, c ≠ ']' := by
    intro n hn
    interval_cases n <;> exact forall_of_all rfl
  have hmonth : ∀ n < 12, ∀ c ∈ (monthNames.getD n "").toList, c ≠ ']' := by
    intro n hn
    interval_cases n <;> exact forall_of_all rfl
  have htwo : ∀ n < 100, ∀ c ∈ twoDigits n, c ≠ ']' :=
    fun n hn => not_bracket_of_isDigit (twoDigits_isDigit hn)
  have hyear : ∀ c ∈ fourDigits t.year, c ≠ ']' :=
    not_bracket_of_isDigit (fourDigits_isDigit (by have := hvalid.year_ok; omega))
  have htext : strftime t dmesgTsFmt = textOf (logPieces t) := strftime_log
  have hday := t.day_le
  have hhour := hvalid.hour_ok
  have hminute := hvalid.minute_ok
  have hsecond := hvalid.second_ok
  have hmonth_ok := hvalid.month_ok
  intro c hc
  rw [htext] at hc
  simp only [textOf, logPieces, timePieces, List.flatMap_cons, List.flatMap_nil, List.append_nil,
    List.mem_append, field, gap, sign, List.mem_singleton] at hc
  rcases hc with hc | rfl | hc | rfl | hc | rfl | hc | rfl | hc | rfl | hc | rfl | hc
  · exact hweekday _ (Nat.mod_lt _ (by decide)) c hc
  · decide
  · exact hmonth _ (by omega) c hc
  · decide
  · exact htwo _ (by omega) c hc
  · decide
  · exact htwo _ (by omega) c hc
  · decide
  · exact htwo _ (by omega) c hc
  · decide
  · exact htwo _ (by omega) c hc
  · decide
  · exact hyear c hc

theorem strftime_ne_nil (t : DateTime) : strftime t dmesgTsFmt ≠ [] := by
  have hcons : strftime t dmesgTsFmt =
      showDirective t 'a' ++ ' ' :: strftime t "%b %d %H:%M:%S %Y".toList := rfl
  rw [hcons]
  simp

theorem takes_dmesgTs (t : DateTime) (v : Txt) :
    Takes noWord dmesgTsRe [] ("[".toList ++ (strftime t dmesgTsFmt ++ "]".toList)) v
      [(1, strftime t dmesgTsFmt)] := by
  have hstamp : ∀ b, Takes noWord (group 1 (plus (· ≠ ']'))) b (strftime t dmesgTsFmt)
      ("]".toList ++ v) [(1, strftime t dmesgTsFmt)] := by
    intro b
    apply Takes.group
    apply takes_plus (strftime_ne_nil t)
    · intro c hc
      exact decide_eq_true (not_bracket_strftime t c hc)
    · exact stops rfl (by decide)
  have hrest : ∀ b, Takes noWord (cat [group 1 (plus (· ≠ ']')), lit "]"]) b
      (strftime t dmesgTsFmt ++ "]".toList) v ([(1, strftime t dmesgTsFmt)] ++ []) :=
    fun b => (hstamp b).cat_cons (takes_lit "]")
  exact (takes_lit "[").cat_plain (hrest _)

/-- `_parse_dmesg_ts` reads the time of a line that was written. -/
theorem parseDmesgTs_rendered {t : DateTime} (hmicro : t.microsecond = 0) (msg : Txt) :
    parseDmesgTs (rendered t msg) = some t := by
  have htakes := takes_dmesgTs t (' ' :: msg)
  have htext : "[".toList ++ (strftime t dmesgTsFmt ++ "]".toList) ++ ' ' :: msg =
      rendered t msg := by
    unfold rendered
    simp
  have hread : strptime (strftime t dmesgTsFmt) dmesgTsFmt = some t := strptime_strftime hmicro
  unfold Takes at htakes
  rw [htext] at htakes
  unfold parseDmesgTs
  rw [htakes]
  simp only
  have hgroup : ∀ p : Pos, (⟨p, [(1, strftime t dmesgTsFmt)]⟩ : Found).group 1 =
      strftime t dmesgTsFmt := fun _ => rfl
  rw [hgroup]
  unfold dmesgTsFmt at hread ⊢
  rw [List.findSome?_cons, hread]

end SyslogTime
end Monitored
end RocmTests

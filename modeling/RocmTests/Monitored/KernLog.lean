import RocmTests.Monitored.SyslogLine
import Mathlib.Data.Rat.Floor

/-!
# The persisted kernel log as a snapshot

The lines that have a time are kept if they are of the last four hours, or the last 512 of
them if those are fewer.  Each line of the log was written at an instant, which the host's
clock shows as a local time by an offset that can change.
-/

namespace RocmTests
namespace Monitored
namespace SyslogTime

open Text Text.Calendar

/-! ## The window -/

/-- `_KERN_LOG_WINDOW_MIN`. -/
def kernLogWindowMin : Int := 240

/-- `_KERN_LOG_MIN_LINES`. -/
def kernLogMinLines : Nat := 512

/-- `reference - timedelta(minutes=_KERN_LOG_WINDOW_MIN)`. -/
def cutoff (reference : DateTime) : Int := reference.micros - kernLogWindowMin * 60 * 1000000

section

variable {α β : Type}

/-- What is kept of the entries that have a time. -/
def recentEntries (reference : DateTime) (dated : List (DateTime × α)) : List α :=
  let recent := (dated.filter fun e => cutoff reference ≤ e.1.micros).map Prod.snd
  if recent.length < kernLogMinLines then
    (dated.drop (dated.length - kernLogMinLines)).map Prod.snd
  else recent

theorem recentEntries_map (reference : DateTime) (f : α → β) (dated : List (DateTime × α)) :
    recentEntries reference (dated.map fun e => (e.1, f e.2)) =
      (recentEntries reference dated).map f := by
  unfold recentEntries
  simp only [List.filter_map, List.length_map, List.map_map, Function.comp_def]
  split_ifs
  · rw [List.map_map, ← List.map_drop, List.map_map]
    rfl
  · rw [List.map_map]
    rfl

theorem recentEntries_sublist (reference : DateTime) (dated : List (DateTime × α)) :
    (recentEntries reference dated).Sublist (dated.map Prod.snd) := by
  unfold recentEntries
  simp only
  split_ifs
  · exact (List.drop_sublist _ _).map _
  · exact List.filter_sublist.map _

/-- Whether one of numbered elements is among the last ones. -/
theorem mem_drop_iff {key : α → Nat} {n : Nat} {x : α} {xs : List α}
    (hxs : xs.Pairwise fun x y => key x < key y) (hx : x ∈ xs) :
    x ∈ xs.drop (xs.length - n) ↔ xs.countP (fun y => key x < key y) < n := by
  obtain ⟨before, after, rfl⟩ := List.append_of_mem hx
  obtain ⟨-, hafter, hbefore⟩ := List.pairwise_append.mp hxs
  obtain ⟨hafter, -⟩ := List.pairwise_cons.mp hafter
  have hcount : (before ++ x :: after).countP (fun y => key x < key y) = after.length := by
    have hnone : before.countP (fun y => key x < key y) = 0 := by
      rw [List.countP_eq_zero]
      intro y hy
      have hlt := hbefore y hy x List.mem_cons_self
      simp only [decide_eq_true_eq]
      omega
    have hall : after.countP (fun y => key x < key y) = after.length :=
      List.countP_eq_length.mpr fun y hy => decide_eq_true (hafter y hy)
    rw [List.countP_append, List.countP_cons, hnone, hall]
    simp
  rw [hcount]
  constructor
  · intro hmem
    by_contra hge
    have hdrop : (before ++ x :: after).length - n =
        before.length + (after.length - n + 1) := by
      simp only [List.length_append, List.length_cons]
      omega
    rw [hdrop, List.drop_length_add_append, List.drop_succ_cons] at hmem
    have hlt := hafter x (List.mem_of_mem_drop hmem)
    omega
  · intro hlt
    have hle : (before ++ x :: after).length - n ≤ before.length := by
      simp only [List.length_append, List.length_cons]
      omega
    rw [List.drop_append_of_le_length hle]
    exact List.mem_append_right _ List.mem_cons_self

end

/-- `_kern_log_to_dmesg_format`. -/
def kernLogToDmesgFormat (text : Txt) (reference : DateTime) : Txt :=
  joinLines (recentEntries reference
    ((splitlines text).filterMap fun line => syslogTsToDmesg line reference))

/-! ## The lines by their numbers -/

/-- The entries that have a time, each with the number of its line. -/
def datedEntries (text : Txt) (reference : DateTime) : List (DateTime × (Nat × Txt)) :=
  (splitlines text).zipIdx.filterMap fun l =>
    (syslogTsToDmesg l.1 reference).map fun e => (e.1, (l.2, e.2))

/-- The lines that are kept, with their numbers. -/
def keptLines (text : Txt) (reference : DateTime) : List (Nat × Txt) :=
  recentEntries reference (datedEntries text reference)

theorem kernLogToDmesgFormat_eq (text : Txt) (reference : DateTime) :
    kernLogToDmesgFormat text reference =
      joinLines ((keptLines text reference).map Prod.snd) := by
  unfold kernLogToDmesgFormat keptLines
  rw [← recentEntries_map]
  have hentries : ((datedEntries text reference).map fun e => (e.1, e.2.2)) =
      (splitlines text).filterMap fun line => syslogTsToDmesg line reference := by
    unfold datedEntries
    have hlines : splitlines text = (splitlines text).zipIdx.map Prod.fst :=
      (List.zipIdx_map_fst 0 _).symm
    conv_rhs => rw [hlines]
    rw [List.map_filterMap, List.filterMap_map]
    apply List.filterMap_congr
    intro l _
    rw [Option.map_map]
    exact Option.map_id'
  rw [hentries]

theorem pairwise_datedEntries (text : Txt) (reference : DateTime) :
    (datedEntries text reference).Pairwise fun e e' => e.2.1 < e'.2.1 := by
  have hnumbers : (splitlines text).zipIdx.Pairwise fun l l' => l.2 < l'.2 := by
    rw [← List.pairwise_map, List.zipIdx_map_snd]
    exact List.pairwise_lt_range'
  unfold datedEntries
  rw [List.pairwise_filterMap]
  refine hnumbers.imp ?_
  intro l l' hlt e he e' he'
  obtain ⟨x, -, rfl⟩ := Option.map_eq_some_iff.mp he
  obtain ⟨x', -, rfl⟩ := Option.map_eq_some_iff.mp he'
  exact hlt

theorem mem_datedEntries {text : Txt} {reference ts : DateTime} {k : Nat} {r : Txt} :
    (ts, (k, r)) ∈ datedEntries text reference ↔
      ∃ line, (splitlines text)[k]? = some line ∧
        syslogTsToDmesg line reference = some (ts, r) := by
  unfold datedEntries
  rw [List.mem_filterMap]
  constructor
  · intro h
    obtain ⟨⟨line, i⟩, hline, hentry⟩ := h
    obtain ⟨⟨ts', r'⟩, hts, heq⟩ := Option.map_eq_some_iff.mp hentry
    rw [Prod.mk.injEq, Prod.mk.injEq] at heq
    obtain ⟨rfl, rfl, rfl⟩ := heq
    exact ⟨line, List.mk_mem_zipIdx_iff_getElem?.mp hline, hts⟩
  · intro h
    obtain ⟨line, hline, hts⟩ := h
    exact ⟨(line, k), List.mk_mem_zipIdx_iff_getElem?.mpr hline, by rw [hts]; rfl⟩

/-- The line with a number is kept by its time, or by what follows it. -/
theorem mem_keptLines {text : Txt} {reference ts : DateTime} {k : Nat} {r : Txt}
    (h : (ts, (k, r)) ∈ datedEntries text reference) :
    k ∈ (keptLines text reference).map Prod.fst ↔
      if (datedEntries text reference).countP (fun e => cutoff reference ≤ e.1.micros) <
          kernLogMinLines then
        (datedEntries text reference).countP (fun e => k < e.2.1) < kernLogMinLines
      else cutoff reference ≤ ts.micros := by
  have hpairs := pairwise_datedEntries text reference
  unfold keptLines
  generalize datedEntries text reference = dated at *
  -- a number is that of one entry
  have hnodup : (dated.map fun e => e.2.1).Nodup :=
    List.pairwise_map.mpr (hpairs.imp fun hlt => Nat.ne_of_lt hlt)
  have hmem : ∀ {es : List (DateTime × (Nat × Txt))}, (∀ e ∈ es, e ∈ dated) →
      (k ∈ (es.map Prod.snd).map Prod.fst ↔ (ts, (k, r)) ∈ es) := by
    intro es hes
    constructor
    · intro hk
      obtain ⟨x, hx, rfl⟩ := List.mem_map.mp hk
      obtain ⟨e, he, rfl⟩ := List.mem_map.mp hx
      rw [← List.inj_on_of_nodup_map hnodup (hes e he) h rfl]
      exact he
    · intro he
      exact List.mem_map_of_mem (List.mem_map_of_mem he)
  unfold recentEntries
  simp only [List.length_map, ← List.countP_eq_length_filter]
  split_ifs
  · rw [hmem fun e he => List.mem_of_mem_drop he]
    exact @mem_drop_iff _ (fun e => e.2.1) _ _ _ hpairs h
  · rw [hmem fun e he => (List.mem_filter.mp he).1, List.mem_filter, decide_eq_true_eq]
    exact and_iff_right h

/-! ## The host's clock -/

/-- The first and the last moment of a `datetime`. -/
def firstMicros : Int := 86400 * 1000000

def lastMicros : Int := (daysBeforeYear 10000 + 1) * 86400 * 1000000 - 1

/-- The clock of the host at an instant, and how far its local time is ahead of UTC at each.
Instants are seconds.  Now is so far from the ends of the years 1 to 9999 that both sums
with a `timedelta` are dates. -/
structure Clock where
  instant : ℚ
  offset : ℚ → Int
  now : DateTime
  shows_now : now.micros = ⌊(instant + offset instant) * 1000000⌋
  in_range : firstMicros ≤ cutoff now ∧ now.micros + dayMicros ≤ lastMicros

inductive KernelLine where
  | iso (l : IsoLine)
  | bsd (l : BsdLine)

namespace KernelLine

def text : KernelLine → Txt
  | iso l => l.text
  | bsd l => l.text

def msg : KernelLine → Txt
  | iso l => l.tail.msg
  | bsd l => l.tail.msg

/-- The stamp of a line written at `instant`.  One without an offset is in local time. -/
def WrittenAt (offset : ℚ → Int) (instant : ℚ) : KernelLine → Prop
  | iso l =>
    instant + ((l.offset.map Offset.seconds).getD (offset instant) : Int) =
      l.stamp.seconds + ((l.fraction.map fun f => fractionValue f.digits).getD 0)
  | bsd l => ⌊instant + offset instant⌋ = l.wall.seconds

end KernelLine

/-- A kernel line of the last 364 days. -/
structure LogLine (clock : Clock) where
  line : KernelLine
  instant : ℚ
  written : line.WrittenAt clock.offset instant
  isLine : IsLine line.text
  not_later : instant ≤ clock.instant
  not_older : clock.instant - 364 * 86400 ≤ instant

namespace LogLine

variable {clock : Clock}

/-- The local time at which the line was written, to the second. -/
def wallSeconds (e : LogLine clock) : Int := ⌊e.instant + clock.offset e.instant⌋

/-- Within the window. -/
def Recent (e : LogLine clock) : Prop := clock.instant - kernLogWindowMin * 60 ≤ e.instant

/-- The local time is returned, and read back from what is written. -/
def Converted (e : LogLine clock) : Prop :=
  ∃ ts, syslogTsToDmesg e.line.text clock.now = some (ts, rendered ts e.line.msg) ∧
    ts.micros = e.wallSeconds * 1000000 ∧ parseDmesgTs (rendered ts e.line.msg) = some ts

/-- The year of a stamp without one is this year, or the year before where the stamp is
no date in this year or one more than a day ahead. -/
def YearKnown (now wall : DateTime) : Prop :=
  1000 ≤ wall.year ∧ wall.micros ≤ now.micros + dayMicros ∧
    (wall.year = now.year ∨
      wall.year + 1 = now.year ∧ ∀ t ∈ wall.inYear now.year, now.micros + dayMicros < t.micros)

/-- The stamp's offset is the host's at that instant, or its year is known. -/
def Local (e : LogLine clock) : Prop :=
  match e.line with
  | .iso l => ∀ o ∈ l.offset, o.seconds = clock.offset e.instant
  | .bsd l => YearKnown clock.now l.wall

end LogLine

/-- Keeping time on one log. -/
structure KeepsTime (clock : Clock) (text : Txt) : Prop where
  converts : ∀ e : LogLine clock, e.line.text ∈ splitlines text → e.Converted
  writes : kernLogToDmesgFormat text clock.now =
    joinLines ((keptLines text clock.now).map Prod.snd)
  in_order : ((keptLines text clock.now).map Prod.fst).Pairwise (· < ·)
  keeps : ∀ e : LogLine clock, e.Recent → ∀ k, (splitlines text)[k]? = some e.line.text →
    k ∈ (keptLines text clock.now).map Prod.fst

/-- Where 512 lines have a time in the window, so has each line written in it; where fewer
have, fewer than 512 lines with a time follow each of these. -/
def WindowHolds (clock : Clock) (text : Txt) : Prop :=
  ∀ e : LogLine clock, e.Recent → ∀ k, (splitlines text)[k]? = some e.line.text →
    if (datedEntries text clock.now).countP (fun x => cutoff clock.now ≤ x.1.micros) <
        kernLogMinLines then
      (datedEntries text clock.now).countP (fun x => k < x.2.1) < kernLogMinLines
    else cutoff clock.now ≤ e.wallSeconds * 1000000

/-! ## When the time is kept -/

theorem fractionValue_bounds (ds : List (Fin 10)) :
    0 ≤ fractionValue ds ∧ fractionValue ds < 1 := by
  induction ds with
  | nil => exact ⟨le_refl 0, one_pos⟩
  | cons d ds ih =>
    have hlow : (0 : ℚ) ≤ d.val := Nat.cast_nonneg _
    have hhigh : (d.val : ℚ) ≤ 9 := by
      exact_mod_cast Nat.le_of_lt_succ d.isLt
    unfold fractionValue
    constructor
    · linarith [ih.1]
    · linarith [ih.2]

theorem micros_eq {t : DateTime} (h : t.microsecond = 0) : t.micros = t.seconds * 1000000 := by
  unfold DateTime.micros
  rw [h]
  simp

theorem micros_eq_iff {t : DateTime} (h : t.microsecond = 0) {n : Int} :
    t.micros = n * 1000000 ↔ t.seconds = n := by
  rw [micros_eq h]
  omega

/-- The date of a line without a year, by the year it was written in. -/
theorem date_iff {l : BsdLine} {now : DateTime} :
    (∃ ts, l.date now = some ts ∧ ts.seconds = l.wall.seconds) ↔
      LogLine.YearKnown now l.wall := by
  unfold BsdLine.date
  rw [List.findSome?_cons, List.findSome?_cons, List.findSome?_nil]
  constructor
  · intro h
    obtain ⟨ts, hts, hseconds⟩ := h
    have hyear : ∀ {year : Nat}, ts ∈ l.dateIn now year →
        1000 ≤ l.wall.year ∧ l.wall.micros ≤ now.micros + dayMicros ∧ year = l.wall.year := by
      intro year hdate
      obtain ⟨hlow, hin, hle⟩ := l.mem_dateIn.mp hdate
      have hmoved := DateTime.moved_of_inYear hin
      have heq := hmoved.year_eq_of_seconds hseconds
      have hmicro : ts.microsecond = 0 := hmoved.microsecond_eq.trans l.whole
      rw [micros_eq hmicro, hseconds, ← micros_eq l.whole] at hle
      exact ⟨heq ▸ hlow, hle, heq⟩
    cases hfirst : l.dateIn now now.year with
    | some t =>
      rw [hfirst] at hts
      rw [Option.some.inj hts] at hfirst
      obtain ⟨hlow, hle, heq⟩ := hyear hfirst
      exact ⟨hlow, hle, .inl heq.symm⟩
    | none =>
      rw [hfirst] at hts
      cases hsecond : l.dateIn now (now.year - 1) with
      | none =>
        rw [hsecond] at hts
        cases hts
      | some t =>
        rw [hsecond] at hts
        rw [Option.some.inj hts] at hsecond
        obtain ⟨hlow, hle, heq⟩ := hyear hsecond
        refine ⟨hlow, hle, .inr ⟨by omega, ?_⟩⟩
        intro t ht
        by_contra hnot
        have hmem : t ∈ l.dateIn now now.year :=
          l.mem_dateIn.mpr ⟨by omega, ht, Int.not_lt.mp hnot⟩
        rw [hfirst] at hmem
        cases hmem
  · intro h
    obtain ⟨hlow, hle, hyear⟩ := h
    have hself : l.dateIn now l.wall.year = some l.wall :=
      l.mem_dateIn.mpr ⟨hlow, l.wall.inYear_self, hle⟩
    rcases hyear with hyear | ⟨hyear, hahead⟩
    · rw [hyear] at hself
      rw [hself]
      exact ⟨l.wall, rfl, rfl⟩
    · have hnone : l.dateIn now now.year = none := by
        rw [Option.eq_none_iff_forall_not_mem]
        intro t ht
        obtain ⟨_, hin, hle'⟩ := l.mem_dateIn.mp ht
        have hlt := hahead t hin
        omega
      have hbefore : now.year - 1 = l.wall.year := by omega
      rw [hnone, hbefore, hself]
      exact ⟨l.wall, rfl, rfl⟩

namespace LogLine

variable {clock : Clock}

theorem converted_iso {e : LogLine clock} {l : IsoLine} (hline : e.line = .iso l) :
    e.Converted ↔ ∀ o ∈ l.offset, o.seconds = clock.offset e.instant := by
  have hwritten := e.written
  have hread := l.syslogTsToDmesg_text clock.now
  unfold Converted
  rw [hline] at hwritten ⊢
  have hback := parseDmesgTs_rendered l.whole l.tail.msg
  have hconverted : (∃ ts, syslogTsToDmesg l.text clock.now = some (ts, rendered ts l.tail.msg) ∧
      ts.micros = e.wallSeconds * 1000000 ∧ parseDmesgTs (rendered ts l.tail.msg) = some ts) ↔
        l.stamp.seconds = e.wallSeconds := by
    rw [hread]
    constructor
    · intro h
      obtain ⟨ts, hts, hmicros, -⟩ := h
      rw [← (Prod.mk.inj (Option.some.inj hts)).1] at hmicros
      exact (micros_eq_iff l.whole).mp hmicros
    · intro h
      exact ⟨l.stamp, rfl, (micros_eq_iff l.whole).mpr h, hback⟩
  have hfraction : 0 ≤ (l.fraction.map fun f => fractionValue f.digits).getD 0 ∧
      (l.fraction.map fun f => fractionValue f.digits).getD 0 < 1 := by
    cases l.fraction with
    | none => exact ⟨le_refl 0, one_pos⟩
    | some f => exact fractionValue_bounds f.digits
  refine Iff.trans hconverted ?_
  unfold KernelLine.WrittenAt at hwritten
  simp only at hwritten
  generalize (l.fraction.map fun f => fractionValue f.digits).getD 0 =
    fraction at hwritten hfraction
  unfold wallSeconds
  rw [eq_comm, Int.floor_eq_iff]
  cases hoffset : l.offset with
  | none =>
    rw [hoffset] at hwritten
    simp only [Option.map_none, Option.getD_none] at hwritten
    rw [hwritten]
    simp only [Option.mem_def, reduceCtorEq, false_implies, implies_true, iff_true]
    exact ⟨by linarith [hfraction.1], by linarith [hfraction.2]⟩
  | some o =>
    rw [hoffset] at hwritten
    simp only [Option.map_some, Option.getD_some] at hwritten
    simp only [Option.mem_def, Option.some.injEq, forall_eq']
    constructor
    · intro h
      have hlow : (o.seconds : ℚ) < clock.offset e.instant + 1 := by linarith [h.1, hfraction.2]
      have hhigh : (clock.offset e.instant : ℚ) < o.seconds + 1 := by linarith [h.2, hfraction.1]
      have hlow' : o.seconds < clock.offset e.instant + 1 := by exact_mod_cast hlow
      have hhigh' : clock.offset e.instant < o.seconds + 1 := by exact_mod_cast hhigh
      omega
    · intro h
      rw [← h, hwritten]
      exact ⟨by linarith [hfraction.1], by linarith [hfraction.2]⟩

theorem converted_bsd {e : LogLine clock} {l : BsdLine} (hline : e.line = .bsd l) :
    e.Converted ↔ YearKnown clock.now l.wall := by
  have hwritten : ⌊e.instant + clock.offset e.instant⌋ = l.wall.seconds := by
    have h := e.written
    rw [hline] at h
    exact h
  unfold Converted wallSeconds
  rw [hline, hwritten]
  rw [← date_iff]
  show (∃ ts, syslogTsToDmesg l.text clock.now = some (ts, rendered ts l.tail.msg) ∧
    ts.micros = l.wall.seconds * 1000000 ∧ parseDmesgTs (rendered ts l.tail.msg) = some ts) ↔ _
  rw [l.syslogTsToDmesg_text]
  have hwhole : ∀ {ts : DateTime}, l.date clock.now = some ts → ts.microsecond = 0 := by
    intro ts hts
    obtain ⟨_, -, hdate⟩ := List.exists_of_findSome?_eq_some hts
    obtain ⟨-, hin, -⟩ := l.mem_dateIn.mp hdate
    exact (DateTime.moved_of_inYear hin).microsecond_eq.trans l.whole
  constructor
  · intro h
    obtain ⟨ts, hts, hmicros, -⟩ := h
    obtain ⟨t, ht, heq⟩ := Option.map_eq_some_iff.mp hts
    obtain rfl := (Prod.mk.inj heq).1
    exact ⟨t, ht, (micros_eq_iff (hwhole ht)).mp hmicros⟩
  · intro h
    obtain ⟨ts, hts, hseconds⟩ := h
    exact ⟨ts, Option.map_eq_some_iff.mpr ⟨ts, hts, rfl⟩,
      (micros_eq_iff (hwhole hts)).mpr hseconds, parseDmesgTs_rendered (hwhole hts) l.tail.msg⟩

/-- A line is converted where its stamp is local. -/
theorem converted_iff (e : LogLine clock) : e.Converted ↔ e.Local := by
  unfold Local
  cases hline : e.line with
  | iso l => exact converted_iso hline
  | bsd l => exact converted_bsd hline

/-- A converted line is among the entries under its number. -/
theorem Converted.mem_datedEntries {e : LogLine clock} (h : e.Converted) {text : Txt} {k : Nat}
    (hk : (splitlines text)[k]? = some e.line.text) :
    ∃ ts, (ts, (k, rendered ts e.line.msg)) ∈ datedEntries text clock.now ∧
      ts.micros = e.wallSeconds * 1000000 := by
  obtain ⟨ts, hts, hmicros, -⟩ := h
  exact ⟨ts, SyslogTime.mem_datedEntries.mpr ⟨e.line.text, hk, hts⟩, hmicros⟩

end LogLine

theorem pairwise_keptLines (text : Txt) (reference : DateTime) :
    ((keptLines text reference).map Prod.fst).Pairwise (· < ·) := by
  have hdated : (((datedEntries text reference).map Prod.snd).map Prod.fst).Pairwise (· < ·) := by
    rw [List.map_map, List.pairwise_map]
    exact pairwise_datedEntries text reference
  exact hdated.sublist ((recentEntries_sublist reference _).map _)

/-- The time is kept on the logs whose stamps are local and whose window holds. -/
theorem keepsTime_iff (clock : Clock) (text : Txt) :
    KeepsTime clock text ↔
      (∀ e : LogLine clock, e.line.text ∈ splitlines text → e.Local) ∧
        WindowHolds clock text := by
  have hkept : ∀ {e : LogLine clock}, e.Converted → ∀ {k},
      (splitlines text)[k]? = some e.line.text →
      (k ∈ (keptLines text clock.now).map Prod.fst ↔
        if (datedEntries text clock.now).countP (fun x => cutoff clock.now ≤ x.1.micros) <
            kernLogMinLines then
          (datedEntries text clock.now).countP (fun x => k < x.2.1) < kernLogMinLines
        else cutoff clock.now ≤ e.wallSeconds * 1000000) := by
    intro e hconverted k hk
    obtain ⟨ts, hmem, hmicros⟩ := hconverted.mem_datedEntries hk
    rw [mem_keptLines hmem, hmicros]
  constructor
  · intro h
    refine ⟨fun e he => e.converted_iff.mp (h.converts e he), ?_⟩
    intro e hrecent k hk
    exact (hkept (h.converts e (List.mem_of_getElem? hk)) hk).mp (h.keeps e hrecent k hk)
  · intro h
    obtain ⟨hlocal, hwindow⟩ := h
    have hconverts : ∀ e : LogLine clock, e.line.text ∈ splitlines text → e.Converted :=
      fun e he => e.converted_iff.mpr (hlocal e he)
    refine ⟨hconverts, kernLogToDmesgFormat_eq text clock.now,
      pairwise_keptLines text clock.now, ?_⟩
    intro e hrecent k hk
    exact (hkept (hconverts e (List.mem_of_getElem? hk)) hk).mpr (hwindow e hrecent k hk)

/-- Half past six in the morning. -/
def halfPastSix : DateTime := ⟨2026, 1, 15, 6, 30, 0, 0, by decide⟩

/-- The clock of a host in UTC at that time. -/
def utcClock : Clock where
  instant := halfPastSix.seconds
  offset := fun _ => 0
  now := halfPastSix
  shows_now := by
    have hsum : ((halfPastSix.seconds : ℚ) + ((0 : Int) : ℚ)) * 1000000 =
        (halfPastSix.micros : Int) := by
      rw [micros_eq rfl]
      push_cast
      ring
    rw [hsum, Int.floor_intCast]
  in_range := by decide

/-- A line of that minute, forwarded from a host five and a half hours ahead. -/
def forwardedLine : IsoLine where
  stamp := ⟨2026, 1, 15, 12, 0, 0, 0, by decide⟩
  blank := false
  fraction := none
  offset := some (.numeric false 5 30 true)
  tail :=
    { gap := [' '], host := ['h'], gap' := [' '], indent := [' '], msg := ['m']
      gap_blank := ⟨by decide, by simp [Markers.isSpace]⟩
      host_solid := ⟨by decide, by simp [Markers.isSpace]⟩
      gap'_blank := ⟨by decide, by simp [Markers.isSpace]⟩
      indent_space := by simp [Markers.isSpace]
      msg_head := by
        intro c hc
        obtain rfl := Option.some.inj hc
        decide
      msg_line := by decide }
  whole := rfl

/-- It is a line of the last 364 days. -/
def forwarded : LogLine utcClock where
  line := .iso forwardedLine
  instant := halfPastSix.seconds
  written := by
    have hseconds : halfPastSix.seconds + 19800 = forwardedLine.stamp.seconds := by decide
    show (halfPastSix.seconds : ℚ) + ((19800 : Int) : ℚ) = forwardedLine.stamp.seconds + 0
    rw [← hseconds]
    push_cast
    ring
  isLine := by
    have hall : (forwardedLine.text.all fun c => !isBoundary c) = true := by decide
    intro c hc
    simpa using List.all_eq_true.mp hall c hc
  not_later := le_refl _
  not_older := by
    show (halfPastSix.seconds : ℚ) - 364 * 86400 ≤ halfPastSix.seconds
    linarith

/-- It is read as written at noon. -/
theorem forwarded_not_kept : ¬ KeepsTime utcClock forwardedLine.text := by
  intro h
  have hmem : forwarded.line.text ∈ splitlines forwardedLine.text := by decide
  have hlocal : forwarded.Local := forwarded.converted_iff.mp (h.converts forwarded hmem)
  have hoffset : (19800 : Int) = 0 := hlocal _ rfl
  cases hoffset

end SyslogTime
end Monitored
end RocmTests

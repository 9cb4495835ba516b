import Mathlib.Logic.Function.Basic
import RocmTests.Executors.PollResponse
import RocmTests.Text.Utf8Pieces

/-!
# Draining a channel while the command runs

`_stream_remote_channel` reads what there is of both streams, turn after turn, and decodes
each read by itself.  It leaves when the exit status has come and neither stream has anything
to read.  The blocking branch of `run` reads both streams to the end and decodes them then.
-/

namespace RocmTests
namespace Executors
namespace StreamChannel

open Text Text.Utf8

/-- What becomes visible on the channel between two calls. -/
structure Arrival where
  data : Stream → Bytes
  status : Option Int

def nothing : Arrival := ⟨fun _ => [], none⟩

/-- What arrives before each call of a turn: of `recv_ready` and `recv` for each stream, of
`exit_status_ready`, and of the second `recv_ready` for each stream. -/
structure Turn where
  ready : Stream → Arrival
  recv : Stream → Arrival
  status : Arrival
  again : Stream → Arrival
  now : ℚ

namespace Turn

def arrivals (t : Turn) : List Arrival :=
  [t.ready .o, t.recv .o, t.ready .e, t.recv .e, t.status, t.again .o, t.again .e]

def quiet (now : ℚ) : Turn :=
  ⟨fun _ => nothing, fun _ => nothing, nothing, fun _ => nothing, now⟩

end Turn

/-- The channel, and what has been read from it; `stdout_parts` and `stderr_parts` have the
text of each read. -/
structure Drain where
  buf : Stream → Bytes
  status : Option Int
  reads : Stream → List Bytes

def start : Drain := ⟨fun _ => [], none, fun _ => []⟩

def recvMax : Nat := 65536

namespace Drain
variable (d : Drain)

def add (a : Arrival) : Drain :=
  { d with buf := fun stream => d.buf stream ++ a.data stream, status := d.status.or a.status }

/-- `recv` of a stream, if it is ready. -/
def read (stream : Stream) (t : Turn) : Drain :=
  let seen := d.add (t.ready stream)
  let r := seen.add (t.recv stream)
  if seen.buf stream = [] then r
  else
    { r with
      buf := Function.update r.buf stream ((r.buf stream).drop recvMax)
      reads := Function.update r.reads stream (r.reads stream ++ [(r.buf stream).take recvMax]) }

def readBoth (t : Turn) : Drain := (d.read .o t).read .e t

/-- Whether the loop is left, and the channel by then. -/
def check (t : Turn) : Drain × Bool :=
  let s := d.add t.status
  let o := s.add (t.again .o)
  let e := o.add (t.again .e)
  (e, s.status.isSome && decide (o.buf .o = []) && decide (e.buf .e = []))

def turn (t : Turn) : Drain × Bool := (d.readBoth t).check t

/-- The parts of a stream, joined. -/
def text (stream : Stream) : Txt := (d.reads stream).flatMap decode

end Drain

inductive Outcome where
  | returned (stdout stderr : Txt) (exitCode : Int)
  | timeoutError
deriving DecidableEq

def dataOf (stream : Stream) (turns : List Turn) : Bytes :=
  (turns.flatMap Turn.arrivals).flatMap fun a => a.data stream

def statusOf (turns : List Turn) : Option Int :=
  (turns.flatMap Turn.arrivals).findSome? Arrival.status

/-- A call, with all that arrives on its channel.  After the turns in which something arrives
the clock goes on. -/
structure Call where
  timeout : ℚ
  startedAt : ℚ
  preStderr : List Txt
  turns : List Turn
  clock : Nat → ℚ
  exits : (statusOf turns).isSome = true

namespace Call
variable (c : Call)

def total (stream : Stream) : Bytes := dataOf stream c.turns

def exitCode : Int := (statusOf c.turns).get c.exits

def loop : List Turn → Drain → Option Outcome
  | [], _ => none
  | t :: ts, d =>
    if c.timeout < t.now - c.startedAt then some .timeoutError
    else
      let r := d.turn t
      if r.2 then
        r.1.status.map (.returned (r.1.text .o) (c.preStderr.flatten ++ r.1.text .e))
      else loop ts r.1

/-- The turns of the call, and as many more as it can take to read everything. -/
def schedule : List Turn :=
  c.turns ++ (List.range ((c.total .o).length + (c.total .e).length + 1)).map
    fun i => Turn.quiet (c.clock i)

end Call

/-- `none` is a loop that goes on. -/
def streamRemoteChannel (c : Call) : Option Outcome := c.loop c.schedule start

/-- The blocking branch of `run`. -/
def blocking (c : Call) : Outcome :=
  .returned (decode (c.total .o)) (c.preStderr.flatten ++ decode (c.total .e)) c.exitCode

def Same (c : Call) : Prop := streamRemoteChannel c = some (blocking c)

instance (c : Call) : Decidable (Same c) := by
  unfold Same
  infer_instance

/-! ## What is read and when -/

/-- The channel when the loop is left, if nothing stops it before. -/
def leaving : List Turn → Drain → Drain
  | [], d => d
  | t :: ts, d => if (d.turn t).2 then (d.turn t).1 else leaving ts (d.turn t).1

namespace Call
variable (c : Call)

/-- No turn up to the last one is beyond the time. -/
def InTimeFrom : List Turn → Drain → Prop
  | [], _ => True
  | t :: ts, d => t.now - c.startedAt ≤ c.timeout ∧
    ((d.turn t).2 = false → InTimeFrom ts (d.turn t).1)

def InTime : Prop := c.InTimeFrom c.schedule start

/-- The reads of a stream. -/
def reads (stream : Stream) : List Bytes := (leaving c.schedule start).reads stream

/-- What comes when the loop has been left, or is left behind there. -/
def unread (stream : Stream) : Bytes := (c.total stream).drop (c.reads stream).flatten.length

end Call

/-! ## One turn -/

namespace Drain

variable {d : Drain} {stream : Stream} {t : Turn}

/-- All that has been visible of a stream. -/
def seen (d : Drain) (stream : Stream) : Bytes := (d.reads stream).flatten ++ d.buf stream

theorem seen_add (a : Arrival) : (d.add a).seen stream = d.seen stream ++ a.data stream := by
  unfold seen add
  rw [List.append_assoc]

theorem seen_read (stream' : Stream) : (d.read stream' t).seen stream =
    d.seen stream ++ ((t.ready stream').data stream ++ (t.recv stream').data stream) := by
  have hadd : ((d.add (t.ready stream')).add (t.recv stream')).seen stream =
      d.seen stream ++ ((t.ready stream').data stream ++ (t.recv stream').data stream) := by
    rw [seen_add, seen_add, List.append_assoc]
  rw [← hadd]
  simp only [read]
  split
  · rfl
  · by_cases hs : stream = stream'
    · subst hs
      simp only [seen, Function.update_self, List.flatten_append, List.flatten_singleton,
        List.append_assoc, List.take_append_drop]
    · simp only [seen, Function.update_of_ne hs]

theorem status_read (stream : Stream) : (d.read stream t).status =
    (d.status.or (t.ready stream).status).or (t.recv stream).status := by
  simp only [read]
  split <;> rfl

theorem seen_turn : (d.turn t).1.seen stream = d.seen stream ++ dataOf stream [t] := by
  show ((((d.readBoth t).add t.status).add (t.again .o)).add (t.again .e)).seen stream = _
  rw [seen_add, seen_add, seen_add, readBoth, seen_read, seen_read]
  simp [dataOf, Turn.arrivals]

theorem status_turn : (d.turn t).1.status = d.status.or (statusOf [t]) := by
  show (((((d.readBoth t).status).or t.status.status).or (t.again .o).status).or
    (t.again .e).status) = _
  rw [readBoth, status_read, status_read]
  have hcons (a : Arrival) (as : List Arrival) :
      (a :: as).findSome? Arrival.status = a.status.or (as.findSome? Arrival.status) := by
    rw [List.findSome?_cons]
    cases a.status <;> rfl
  rw [statusOf, List.flatMap_singleton, Turn.arrivals]
  simp only [hcons, List.findSome?_nil, Option.or_none, Option.or_assoc]

theorem isSome_of_leave (h : (d.turn t).2 = true) : (d.turn t).1.status.isSome = true := by
  simp only [turn, check, Bool.and_eq_true] at h
  have hstatus : ((d.readBoth t).status.or t.status.status).isSome = true := h.1.1
  show ((((d.readBoth t).status.or t.status.status).or (t.again .o).status).or
    (t.again .e).status).isSome = true
  simp only [Option.isSome_or] at hstatus ⊢
  rw [hstatus]
  rfl

/-! ## Turns in which nothing arrives -/

variable {now : ℚ}

theorem add_nothing (d : Drain) : d.add nothing = d := by
  simp [add, nothing]

theorem buf_read_quiet (stream' : Stream) : (d.read stream' (Turn.quiet now)).buf stream =
    if stream = stream' then (d.buf stream).drop recvMax else d.buf stream := by
  simp only [read, Turn.quiet, add_nothing]
  split
  · next hnil =>
    split
    · next hs => rw [hs, hnil, List.drop_nil]
    · rfl
  · split
    · next hs => simp only [hs, Function.update_self]
    · next hs => simp only [Function.update_of_ne hs]

theorem buf_turn_quiet : (d.turn (Turn.quiet now)).1.buf stream = (d.buf stream).drop recvMax := by
  show ((((d.readBoth (Turn.quiet now)).add nothing).add nothing).add nothing).buf stream = _
  rw [add_nothing, add_nothing, add_nothing, readBoth, buf_read_quiet, buf_read_quiet]
  cases stream <;> rfl

theorem leave_turn_quiet (hstatus : d.status.isSome = true)
    (ho : (d.buf .o).drop recvMax = []) (he : (d.buf .e).drop recvMax = []) :
    (d.turn (Turn.quiet now)).2 = true := by
  have hbuf (stream : Stream) : ((d.readBoth (Turn.quiet now)).buf stream) =
      (d.buf stream).drop recvMax := by
    rw [readBoth, buf_read_quiet, buf_read_quiet]
    cases stream <;> rfl
  have hs : (d.readBoth (Turn.quiet now)).status.isSome = true := by
    rw [readBoth, status_read, status_read]
    simp only [Option.isSome_or, hstatus, Bool.true_or]
  show ((((d.readBoth (Turn.quiet now)).add nothing).status.isSome &&
    decide ((((d.readBoth (Turn.quiet now)).add nothing).add nothing).buf .o = [])) &&
    decide (((((d.readBoth (Turn.quiet now)).add nothing).add nothing).add nothing).buf .e = []))
      = true
  rw [add_nothing, add_nothing, add_nothing, hs, hbuf, hbuf, ho, he]
  rfl

end Drain

/-! ## The loop -/

theorem dataOf_append (stream : Stream) (ts us : List Turn) :
    dataOf stream (ts ++ us) = dataOf stream ts ++ dataOf stream us := by
  simp [dataOf]

theorem dataOf_cons (stream : Stream) (t : Turn) (ts : List Turn) :
    dataOf stream (t :: ts) = dataOf stream [t] ++ dataOf stream ts :=
  dataOf_append stream [t] ts

theorem statusOf_append (ts us : List Turn) :
    statusOf (ts ++ us) = (statusOf ts).or (statusOf us) := by
  simp [statusOf]

theorem statusOf_cons (t : Turn) (ts : List Turn) :
    statusOf (t :: ts) = (statusOf [t]).or (statusOf ts) := statusOf_append [t] ts

theorem dataOf_quiet (stream : Stream) (clock : List ℚ) :
    dataOf stream (clock.map Turn.quiet) = [] := by
  induction clock with
  | nil => rfl
  | cons now clock ih =>
    rw [List.map_cons, dataOf_cons, ih]
    rfl

theorem statusOf_quiet (clock : List ℚ) : statusOf (clock.map Turn.quiet) = none := by
  induction clock with
  | nil => rfl
  | cons now clock ih =>
    rw [List.map_cons, statusOf_cons, ih]
    rfl

def Leaves : List Turn → Drain → Prop
  | [], _ => False
  | t :: ts, d => (d.turn t).2 = true ∨ Leaves ts (d.turn t).1

/-- What had been visible when the loop was left, and what comes after that. -/
theorem leaving_spec (ts : List Turn) : ∀ d : Drain, ∃ rest,
    (∀ stream, (leaving ts d).seen stream ++ dataOf stream rest =
      d.seen stream ++ dataOf stream ts) ∧
    (leaving ts d).status.or (statusOf rest) = d.status.or (statusOf ts) ∧
    (Leaves ts d → (leaving ts d).status.isSome = true) := by
  induction ts with
  | nil => exact fun d => ⟨[], fun _ => rfl, rfl, fun h => h.elim⟩
  | cons t ts ih =>
    intro d
    rw [leaving]
    by_cases hleave : (d.turn t).2 = true
    · rw [if_pos hleave]
      refine ⟨ts, fun stream => ?_, ?_, fun _ => Drain.isSome_of_leave hleave⟩
      · rw [Drain.seen_turn, dataOf_cons stream t ts, List.append_assoc]
      · rw [Drain.status_turn, statusOf_cons t ts, Option.or_assoc]
    · obtain ⟨rest, hseen, hstatus, hleaves⟩ := ih (d.turn t).1
      rw [if_neg hleave]
      refine ⟨rest, fun stream => ?_, ?_, fun h => hleaves (h.resolve_left hleave)⟩
      · rw [hseen, Drain.seen_turn, dataOf_cons stream t ts, List.append_assoc]
      · rw [hstatus, Drain.status_turn, statusOf_cons t ts, Option.or_assoc]

/-- With the status there, as many quiet turns as bytes and one more are enough. -/
theorem leaves_quiet (clock : List ℚ) : ∀ d : Drain, d.status.isSome = true →
    (d.buf .o).length + (d.buf .e).length < clock.length → Leaves (clock.map Turn.quiet) d := by
  induction clock with
  | nil => exact fun d _ h => absurd h (Nat.not_lt_zero _)
  | cons now clock ih =>
    intro d hstatus hlen
    rw [List.length_cons] at hlen
    by_cases hrest : (d.buf .o).drop recvMax = [] ∧ (d.buf .e).drop recvMax = []
    · exact Or.inl (Drain.leave_turn_quiet hstatus hrest.1 hrest.2)
    · refine Or.inr (ih _ ?_ ?_)
      · rw [Drain.status_turn, Option.isSome_or, hstatus, Bool.true_or]
      · rw [Drain.buf_turn_quiet, Drain.buf_turn_quiet, List.length_drop, List.length_drop]
        rw [List.drop_eq_nil_iff, List.drop_eq_nil_iff, recvMax] at hrest
        rw [recvMax]
        omega

theorem leaves_append (quiet : List Turn) (ts : List Turn) : ∀ d : Drain,
    (∀ d' : Drain, d'.status = d.status.or (statusOf ts) →
      (∀ stream, d'.seen stream = d.seen stream ++ dataOf stream ts) → Leaves quiet d') →
    Leaves (ts ++ quiet) d := by
  induction ts with
  | nil =>
    intro d h
    exact h d (Option.or_none).symm fun stream => (List.append_nil _).symm
  | cons t ts ih =>
    intro d h
    refine Or.inr (ih (d.turn t).1 fun d' hstatus hseen => h d' ?_ fun stream => ?_)
    · rw [hstatus, Drain.status_turn, statusOf_cons t ts, Option.or_assoc]
    · rw [hseen, Drain.seen_turn, dataOf_cons stream t ts, List.append_assoc]

namespace Call
variable (c : Call)

theorem schedule_eq : c.schedule = c.turns ++
    ((List.range ((c.total .o).length + (c.total .e).length + 1)).map c.clock).map Turn.quiet := by
  rw [List.map_map]
  rfl

theorem leaves_schedule : Leaves c.schedule start := by
  rw [schedule_eq]
  refine leaves_append _ c.turns start fun d hstatus hseen => ?_
  have hlen (stream : Stream) : (d.buf stream).length ≤ (c.total stream).length := by
    have hbytes := congrArg List.length (hseen stream)
    have hstart : start.seen stream = [] := rfl
    rw [hstart, List.nil_append, Drain.seen, List.length_append] at hbytes
    exact (Nat.le_add_left _ _).trans (Nat.le_of_eq hbytes)
  have ho := hlen .o
  have he := hlen .e
  refine leaves_quiet _ d ?_ ?_
  · rw [hstatus]
    exact c.exits
  · rw [List.length_map, List.length_range]
    omega

theorem loop_eq (ts : List Turn) : ∀ d : Drain, Leaves ts d →
    c.InTimeFrom ts d ∧ c.loop ts d = (leaving ts d).status.map
        (.returned ((leaving ts d).text .o) (c.preStderr.flatten ++ (leaving ts d).text .e)) ∨
      ¬ c.InTimeFrom ts d ∧ c.loop ts d = some .timeoutError := by
  induction ts with
  | nil => exact fun d h => h.elim
  | cons t ts ih =>
    intro d h
    rw [loop, InTimeFrom, leaving]
    by_cases hlate : c.timeout < t.now - c.startedAt
    · exact Or.inr ⟨fun hin => absurd hlate (not_lt.mpr hin.1), if_pos hlate⟩
    · rw [if_neg hlate]
      by_cases hleave : (d.turn t).2 = true
      · refine Or.inl ⟨⟨not_lt.mp hlate, fun hstay => ?_⟩, ?_⟩
        · rw [hleave] at hstay
          cases hstay
        · simp only [if_pos hleave]
      · have hstay : (d.turn t).2 = false := Bool.eq_false_iff.mpr hleave
        simp only [if_neg hleave]
        rcases ih (d.turn t).1 (h.resolve_left hleave) with ⟨hin, hloop⟩ | ⟨hout, hloop⟩
        · exact Or.inl ⟨⟨not_lt.mp hlate, fun _ => hin⟩, hloop⟩
        · exact Or.inr ⟨fun hin => hout (hin.2 hstay), hloop⟩

theorem dataOf_schedule (stream : Stream) : dataOf stream c.schedule = c.total stream := by
  rw [schedule_eq, dataOf_append, dataOf_quiet, List.append_nil]
  rfl

theorem statusOf_schedule : statusOf c.schedule = statusOf c.turns := by
  rw [schedule_eq, statusOf_append, statusOf_quiet, Option.or_none]

theorem total_eq (stream : Stream) :
    c.total stream = (c.reads stream).flatten ++ c.unread stream := by
  obtain ⟨rest, hseen, -, -⟩ := leaving_spec c.schedule start
  have htotal := hseen stream
  have hstart : start.seen stream = [] := rfl
  rw [hstart, List.nil_append, dataOf_schedule, Drain.seen, List.append_assoc] at htotal
  rw [unread, ← htotal]
  show _ = (c.reads stream).flatten ++ ((c.reads stream).flatten ++ _).drop _
  rw [List.drop_left]
  rfl

theorem status_leaving : (leaving c.schedule start).status = some c.exitCode := by
  obtain ⟨rest, -, hstatus, hsome⟩ := leaving_spec c.schedule start
  obtain ⟨code, hcode⟩ := Option.isSome_iff_exists.mp (hsome c.leaves_schedule)
  have hstart : start.status = none := rfl
  rw [hcode, hstart, Option.none_or, statusOf_schedule, Option.some_or] at hstatus
  rw [hcode, exitCode]
  simp only [← hstatus, Option.get_some]

end Call

/-- Streaming gives what the blocking branch gives exactly if no turn is beyond the time, no
read of either stream ends within a character and no data comes after the loop has been left,
as far as one can see. -/
theorem same_iff (c : Call) :
    Same c ↔ c.InTime ∧ ∀ stream, Kept (c.reads stream) (c.unread stream) := by
  have htext (stream : Stream) : (leaving c.schedule start).text stream =
      decode (c.total stream) ↔ Kept (c.reads stream) (c.unread stream) := by
    rw [c.total_eq]
    exact flatMap_decode_iff _ _
  unfold Same streamRemoteChannel Call.InTime
  rcases c.loop_eq c.schedule start c.leaves_schedule with ⟨hin, hloop⟩ | ⟨hout, hloop⟩
  · rw [hloop, c.status_leaving, Option.map_some, Option.some_inj, blocking, Outcome.returned.injEq,
      List.append_cancel_left_eq, htext, htext]
    constructor
    · rintro ⟨ho, he, -⟩
      refine ⟨hin, fun stream => ?_⟩
      cases stream with
      | o => exact ho
      | e => exact he
    · rintro ⟨-, hkept⟩
      exact ⟨hkept .o, hkept .e, rfl⟩
  · rw [hloop, Option.some_inj, blocking]
    exact ⟨fun h => Outcome.noConfusion h, fun h => absurd h.1 hout⟩

/-- Two reads that each get a byte of the same character. -/
theorem characterCut_differs : ¬ Same
    { timeout := 300
      startedAt := 0
      preStderr := []
      turns := [
        { Turn.quiet 1 with
          ready := fun stream => if stream = .o then ⟨fun _ => [0xC3], none⟩ else nothing },
        { Turn.quiet 2 with
          ready := fun stream => if stream = .o then ⟨fun _ => [0xA9], some 0⟩ else nothing }]
      clock := fun _ => 3
      exits := rfl } := by decide +kernel

end StreamChannel
end Executors
end RocmTests

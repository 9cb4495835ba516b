import Mathlib.Logic.Function.Basic
import RocmTests.Executors.PollResponse
import RocmTests.Text.Regex

/-!
# Reading two pipes with one loop

`run_cmd_get_stdout_stderr` waits with `select` until one of its command's pipes has data or
is at end of file, reads those that are ready, and goes on until what it has read last is
empty.  One variable stands for what was read from either pipe, so the loop ends when the
pipe that was read last is at end of file, whatever the other one is at.  A command gets
all it has written back in every order of events exactly if it writes nothing more to one
pipe once it has closed the other.
-/

namespace RocmTests
namespace Executors
namespace ReadLoop

open Text Text.Utf8

/-- What the command writes to the pipes, and whether it closes them after that. -/
structure Arrival where
  data : Stream → Bytes
  close : Stream → Bool

def nothing : Arrival := ⟨fun _ => [], fun _ => false⟩

structure Pipe where
  buf : Bytes
  closed : Bool
deriving DecidableEq

namespace Pipe

def empty : Pipe := ⟨[], false⟩

/-- Nothing can be written to a pipe that has been closed. -/
def add (p : Pipe) (bs : Bytes) (close : Bool) : Pipe :=
  if p.closed then p else ⟨p.buf ++ bs, close⟩

/-- `select` reports it. -/
def ready (p : Pipe) : Bool := decide (p.buf ≠ []) || p.closed

end Pipe

/-- What arrives until `select` has something to report, and before each of the two reads;
and whether the timeout of `select` runs out if there is nothing to report. -/
structure Turn where
  wake : Arrival
  read : Stream → Arrival
  expires : Bool

namespace Turn

def arrivals (t : Turn) : List Arrival := [t.wake, t.read .o, t.read .e]

def quiet : Turn := ⟨nothing, fun _ => nothing, false⟩

end Turn

/-- The pipes, with `stdout_buf` and `stderr_buf`. -/
structure Reader where
  pipe : Stream → Pipe
  buf : Stream → Bytes

namespace Reader
variable (s : Reader)

def start : Reader := ⟨fun _ => Pipe.empty, fun _ => []⟩

def add (a : Arrival) : Reader :=
  { s with pipe := fun stream => (s.pipe stream).add (a.data stream) (a.close stream) }

/-- `_read_stream`: all there is in the pipe. -/
def readStream (stream : Stream) : Reader × Bytes :=
  let chunk := (s.pipe stream).buf
  ({ pipe := Function.update s.pipe stream ⟨[], (s.pipe stream).closed⟩
     buf := Function.update s.buf stream (s.buf stream ++ chunk) }, chunk)

/-- The read of a stream, if `select` has reported it. -/
def readIf (stream : Stream) (ready : Bool) (t : Turn) (chunk : Bytes) : Reader × Bytes :=
  let r := s.add (t.read stream)
  if ready then r.readStream stream else (r, chunk)

/-- One pass through the loop after `select`, with the value of `chunk` at its end. -/
def pass (t : Turn) : Reader × Bytes :=
  let w := s.add t.wake
  let o := w.readIf .o (w.pipe .o).ready t []
  o.1.readIf .e (w.pipe .e).ready t o.2

/-- `select` has nothing to report. -/
def silent (t : Turn) : Bool :=
  let w := s.add t.wake
  !(w.pipe .o).ready && !(w.pipe .e).ready

/-- What arrives in a turn in which `select` goes on waiting. -/
def wait (t : Turn) : Reader := ((s.add t.wake).add (t.read .o)).add (t.read .e)

end Reader

/-- A pipe that is not read, after some arrivals. -/
def grow (stream : Stream) (p : Pipe) (as : List Arrival) : Pipe :=
  as.foldl (fun p a => p.add (a.data stream) (a.close stream)) p

/-- What has been written to a stream in all. -/
def whole (turns : List Turn) (stream : Stream) : Pipe :=
  grow stream Pipe.empty (turns.flatMap Turn.arrivals)

/-- A run of a command that closes both its pipes in the end and is never silent beyond the
timeout. -/
structure Run where
  timeoutText : Txt
  ret : Int
  turns : List Turn
  closes : ∀ stream, (whole turns stream).closed = true
  lively : ∀ t ∈ turns, t.expires = false

def timeoutMessage (timeoutText : Txt) : Txt :=
  "Reached timeout of ".toList ++ (timeoutText ++ "s — killing process.".toList)

/-- `_ANSI_RE`. -/
def ansi : Re :=
  let range (low high : Char) (c : Char) : Bool := decide (low ≤ c) && decide (c ≤ high)
  .seq (.cls fun c => c = Char.ofNat 0x1B)
    (Re.alts [.cls fun c => range '@' 'Z' c || range '\\' '_' c,
      Re.cat [.cls fun c => c = '[', .star (range '0' '?'), .star (range ' ' '/'),
        .cls (range '@' '~')]])

/-- `_ANSI_RE.sub("", text)`; the pattern does not ask for words. -/
def stripAnsi (text : Txt) : Txt := Re.remove (fun _ => false) ansi text

example : stripAnsi (Char.ofNat 0x1B :: "[1;31mred".toList) = "red".toList := by decide +kernel

namespace Run
variable (r : Run)

/-- The loop; `none` is one that goes on. -/
def loop : List Turn → Reader → Option Reader
  | [], _ => none
  | t :: ts, s =>
    if s.silent t then
      if t.expires then
        let w := s.add t.wake
        let msg := encode (timeoutMessage r.timeoutText)
        some { w with buf := Function.update w.buf .o (w.buf .o ++ msg) }
      else loop ts (s.wait t)
    else
      let p := s.pass t
      if p.2 = [] then some p.1 else loop ts p.1

/-- The turns of the run, and two in which nothing arrives. -/
def schedule : List Turn := r.turns ++ [Turn.quiet, Turn.quiet]

def total (stream : Stream) : Bytes := (whole r.turns stream).buf

end Run

def runCmdGetStdoutStderr (r : Run) : Option (Int × Txt × Txt) :=
  (r.loop r.schedule Reader.start).map fun s =>
    (r.ret, stripAnsi (decode (s.buf .o)), stripAnsi (decode (s.buf .e)))

/-- The text that is returned for the bytes of a stream. -/
def textOf (bs : Bytes) : Txt := stripAnsi (decode bs)

/-- The texts are those of the complete streams. -/
def ReturnsEverything (r : Run) : Prop :=
  runCmdGetStdoutStderr r = some (r.ret, textOf (r.total .o), textOf (r.total .e))

instance (r : Run) : Decidable (ReturnsEverything r) := by
  unfold ReturnsEverything
  infer_instance

/-! ## What a command does -/

/-- What a command does to its pipes, step by step.  A write that a pipe takes in parts is
several steps. -/
structure Command where
  steps : List Arrival
  closes : ∀ stream, (grow stream Pipe.empty steps).closed = true

/-- Some steps that arrive together. -/
def merge (as : List Arrival) : Arrival :=
  ⟨fun stream => (grow stream Pipe.empty as).buf, fun stream => (grow stream Pipe.empty as).closed⟩

/-- It depends on the moment of each `select` and each read which steps arrive together. -/
def Run.Of (r : Run) (c : Command) : Prop :=
  ∃ groups : List (List Arrival),
    groups.flatten = c.steps ∧ r.turns.flatMap Turn.arrivals = groups.map merge

/-- Once a pipe is closed nothing is written any more that changes a text. -/
def Command.Ends (c : Command) : Prop :=
  ∀ before after, c.steps = before ++ after →
    (∃ stream, (grow stream Pipe.empty before).closed = true) →
      ∀ stream, textOf (grow stream Pipe.empty before).buf =
        textOf (grow stream Pipe.empty c.steps).buf

/-! ## When the loop is left -/

/-- The pipes and buffers when the loop is left: after the first pass whose last read is
empty. -/
def leaving : List Turn → Reader → Reader
  | [], s => s
  | t :: ts, s =>
    if s.silent t then leaving ts (s.wait t)
    else if (s.pass t).2 = [] then (s.pass t).1
    else leaving ts (s.pass t).1

def Run.buf (r : Run) (stream : Stream) : Bytes :=
  (leaving r.schedule Reader.start).buf stream

/-! ## Growing pipes -/

theorem grow_append (stream : Stream) (p : Pipe) (as bs : List Arrival) :
    grow stream p (as ++ bs) = grow stream (grow stream p as) bs := List.foldl_append

namespace Pipe

theorem prefix_add (p : Pipe) (bs : Bytes) (close : Bool) : p.buf <+: (p.add bs close).buf := by
  unfold add
  split
  · exact List.prefix_rfl
  · exact List.prefix_append _ _

theorem add_of_closed {p : Pipe} (h : p.closed = true) (bs : Bytes) (close : Bool) :
    p.add bs close = p := if_pos h

end Pipe

theorem grow_of_closed (stream : Stream) (as : List Arrival) {p : Pipe} (h : p.closed = true) :
    grow stream p as = p := by
  induction as with
  | nil => rfl
  | cons a as ih =>
    show grow stream (p.add _ _) as = p
    rw [Pipe.add_of_closed h, ih]

namespace Reader
variable {s : Reader} {stream : Stream} {t : Turn}

/-- What has been written to a stream by now. -/
def seen (s : Reader) (stream : Stream) : Pipe :=
  ⟨s.buf stream ++ (s.pipe stream).buf, (s.pipe stream).closed⟩

theorem seen_add (a : Arrival) :
    (s.add a).seen stream = (s.seen stream).add (a.data stream) (a.close stream) := by
  unfold seen add Pipe.add
  simp only
  split
  · rfl
  · rw [List.append_assoc]

theorem seen_readStream (stream' : Stream) :
    (s.readStream stream').1.seen stream = s.seen stream := by
  by_cases hs : stream = stream'
  · subst hs
    simp only [seen, readStream, Function.update_self, List.append_nil]
  · simp only [seen, readStream, Function.update_of_ne hs]

theorem seen_readIf (stream' : Stream) (ready : Bool) (chunk : Bytes) :
    (s.readIf stream' ready t chunk).1.seen stream =
      (s.seen stream).add ((t.read stream').data stream) ((t.read stream').close stream) := by
  rw [← seen_add]
  unfold readIf
  cases ready with
  | true => exact seen_readStream stream'
  | false => rfl

theorem seen_pass : (s.pass t).1.seen stream = grow stream (s.seen stream) t.arrivals := by
  unfold pass
  rw [seen_readIf, seen_readIf, seen_add]
  rfl

theorem seen_wait : (s.wait t).seen stream = grow stream (s.seen stream) t.arrivals := by
  unfold wait
  rw [seen_add, seen_add, seen_add]
  rfl

end Reader

/-! ## The loop -/

def Leaves : List Turn → Reader → Prop
  | [], _ => False
  | t :: ts, s =>
    if s.silent t then Leaves ts (s.wait t)
    else (s.pass t).2 = [] ∨ Leaves ts (s.pass t).1

theorem grow_cons (stream : Stream) (p : Pipe) (t : Turn) (ts : List Turn) :
    grow stream p ((t :: ts).flatMap Turn.arrivals) =
      grow stream (grow stream p t.arrivals) (ts.flatMap Turn.arrivals) := by
  rw [List.flatMap_cons, grow_append]

theorem leaves_append (quiet : List Turn) (ts : List Turn) : ∀ s : Reader,
    (∀ s' : Reader, (∀ stream, s'.seen stream =
      grow stream (s.seen stream) (ts.flatMap Turn.arrivals)) → Leaves quiet s') →
    Leaves (ts ++ quiet) s := by
  induction ts with
  | nil => exact fun s h => h s fun stream => rfl
  | cons t ts ih =>
    intro s h
    rw [List.cons_append, Leaves]
    split
    · refine ih _ fun s' hs' => h s' fun stream => ?_
      rw [hs', Reader.seen_wait, grow_cons]
    · refine Or.inr (ih _ fun s' hs' => h s' fun stream => ?_)
      rw [hs', Reader.seen_pass, grow_cons]

namespace Reader
variable {s : Reader}

theorem add_of_closed {s : Reader} (h : ∀ stream, (s.pipe stream).closed = true) (a : Arrival) :
    s.add a = s := by
  unfold add
  simp only [Pipe.add_of_closed (h _)]

/-- With both pipes closed a pass reads what is left in them. -/
theorem pass_closed {t : Turn} (h : ∀ stream, ((s.add t.wake).pipe stream).closed = true) :
    (s.pass t).2 = ((s.add t.wake).pipe .e).buf ∧
      ∀ stream, (s.pass t).1.pipe stream = ⟨[], true⟩ := by
  generalize hw : s.add t.wake = w at h
  have hstep {r : Reader} (hr : ∀ stream, (r.pipe stream).closed = true) (stream : Stream)
      (chunk : Bytes) : r.readIf stream true t chunk = r.readStream stream := by
    unfold readIf
    rw [add_of_closed hr, if_pos rfl]
  have hready (stream : Stream) : (w.pipe stream).ready = true := by
    rw [Pipe.ready, h, Bool.or_true]
  have hclosed (stream : Stream) : ((w.readStream .o).1.pipe stream).closed = true := by
    cases stream with
    | o => exact h .o
    | e => exact h .e
  have hpass : s.pass t = (w.readStream .o).1.readStream .e := by
    unfold pass
    simp only [hw, hready, hstep h, hstep hclosed]
  rw [hpass]
  refine ⟨rfl, fun stream => ?_⟩
  cases stream with
  | o => exact congrArg (Pipe.mk []) (h .o)
  | e => exact congrArg (Pipe.mk []) (h .e)

theorem pass_quiet (h : ∀ stream, (s.pipe stream).closed = true) :
    (s.pass Turn.quiet).2 = (s.pipe .e).buf ∧
      ∀ stream, (s.pass Turn.quiet).1.pipe stream = ⟨[], true⟩ := by
  have hwake : s.add Turn.quiet.wake = s := add_of_closed h _
  have hpass := pass_closed (s := s) (t := Turn.quiet) (by rw [hwake]; exact h)
  rw [hwake] at hpass
  exact hpass

theorem silent_quiet (h : ∀ stream, (s.pipe stream).closed = true) :
    s.silent Turn.quiet = false := by
  unfold silent
  simp only [add_of_closed h, Pipe.ready, h, Bool.or_true]
  rfl

end Reader

namespace Run
variable (r : Run)

theorem leaves_schedule : Leaves r.schedule Reader.start := by
  refine leaves_append _ r.turns Reader.start fun s hs => ?_
  have hclosed (stream : Stream) : (s.pipe stream).closed = true :=
    (congrArg Pipe.closed (hs stream)).trans (r.closes stream)
  obtain ⟨-, hpipe⟩ := Reader.pass_quiet hclosed
  have hclosed' (stream : Stream) : ((s.pass Turn.quiet).1.pipe stream).closed = true := by
    rw [hpipe]
  rw [Leaves, Reader.silent_quiet hclosed, if_neg Bool.false_ne_true]
  right
  rw [Leaves, Reader.silent_quiet hclosed', if_neg Bool.false_ne_true]
  left
  rw [(Reader.pass_quiet hclosed').1, hpipe]

theorem loop_eq {ts : List Turn} (hlively : ∀ t ∈ ts, t.expires = false) : ∀ s : Reader,
    Leaves ts s → r.loop ts s = some (leaving ts s) := by
  induction ts with
  | nil => exact fun s h => h.elim
  | cons t ts ih =>
    intro s h
    have ih := ih fun t' ht' => hlively t' (List.mem_cons_of_mem t ht')
    rw [loop, leaving]
    rw [Leaves] at h
    split at h
    · next hsilent =>
      rw [if_pos hsilent, if_pos hsilent, hlively t List.mem_cons_self,
        if_neg Bool.false_ne_true, ih _ h]
    · next hsilent =>
      rw [if_neg hsilent, if_neg hsilent]
      by_cases hchunk : (s.pass t).2 = []
      · simp only [if_pos hchunk]
      · simp only [if_neg hchunk]
        exact ih _ (h.resolve_left hchunk)

theorem lively_schedule : ∀ t ∈ r.schedule, t.expires = false := by
  intro t ht
  rcases List.mem_append.mp ht with ht | ht
  · exact r.lively t ht
  · have hquiet : t = Turn.quiet := by simpa using ht
    rw [hquiet]
    rfl

end Run

/-! ## The last pass -/

namespace Reader
variable {s : Reader} {t : Turn} {stream : Stream}

theorem buf_readIf_false (stream' : Stream) (chunk : Bytes) :
    (s.readIf stream' false t chunk).1.buf stream = s.buf stream := rfl

theorem buf_readIf_ne {stream' : Stream} (h : stream ≠ stream') (ready : Bool) (chunk : Bytes) :
    (s.readIf stream' ready t chunk).1.buf stream = s.buf stream := by
  cases ready with
  | false => rfl
  | true => exact Function.update_of_ne h _ _

theorem buf_readIf_self (chunk : Bytes) :
    (s.readIf stream true t chunk).1.buf stream = ((s.add (t.read stream)).seen stream).buf :=
  Function.update_self _ _ _

theorem empty_of_prefix {p q : Pipe} (hpq : p.buf <+: q.buf) (hq : q.buf = []) : p.buf = [] := by
  rw [hq] at hpq
  exact List.prefix_nil.mp hpq

/-- A pass that reads nothing last has found a pipe at its end, and what it leaves unread
of the other one came after the arrivals `before`. -/
theorem buf_pass (hsilent : ¬ s.silent t = true) (hchunk : (s.pass t).2 = []) :
    ∃ before after, t.arrivals = before ++ after ∧
      (∃ stream, (grow stream (s.seen stream) before).closed = true) ∧
      ∀ stream, (s.pass t).1.buf stream = (grow stream (s.seen stream) before).buf := by
  have hwake (stream : Stream) :
      grow stream (s.seen stream) [t.wake] = (s.add t.wake).seen stream := (seen_add t.wake).symm
  unfold silent at hsilent
  unfold pass at hchunk ⊢
  simp only at hsilent hchunk ⊢
  generalize s.add t.wake = w at hwake hsilent hchunk ⊢
  have hseen {stream : Stream} (h : (w.pipe stream).buf = []) :
      (w.seen stream).buf = w.buf stream := by
    show w.buf stream ++ (w.pipe stream).buf = w.buf stream
    rw [h, List.append_nil]
  have hidle {stream : Stream} (h : (w.pipe stream).ready = false) : (w.pipe stream).buf = [] := by
    unfold Pipe.ready at h
    simpa using (Bool.or_eq_false_iff.mp h).1
  have hend {stream : Stream} (h : (w.pipe stream).ready = true) (hbuf : (w.pipe stream).buf = []) :
      (w.pipe stream).closed = true := by
    simpa [Pipe.ready, hbuf] using h
  cases he : (w.pipe .e).ready with
  | false =>
    -- stdout is reported alone, and is at its end
    have ho : (w.pipe .o).ready = true := by simpa [he] using hsilent
    rw [ho, he] at hchunk
    have hbuf : (w.pipe .o).buf = [] := empty_of_prefix (Pipe.prefix_add _ _ _) hchunk
    refine ⟨[t.wake], [t.read .o, t.read .e], rfl, ⟨.o, ?_⟩, fun stream => ?_⟩
    · rw [hwake]
      exact hend ho hbuf
    · rw [hwake, buf_readIf_false, ho]
      cases stream with
      | e => rw [buf_readIf_ne (by decide), hseen (hidle he)]
      | o =>
        have hclosed : (w.seen .o).closed = true := hend ho hbuf
        rw [buf_readIf_self, seen_add, Pipe.add_of_closed hclosed]
  | true =>
    have hbuf : (w.pipe .e).buf = [] := by
      rw [he] at hchunk
      have hother : (w.readIf .o (w.pipe .o).ready t []).1.pipe .e =
          (w.pipe .e).add ((t.read .o).data .e) ((t.read .o).close .e) := by
        unfold readIf
        split <;> rfl
      have hread : (w.pipe .e).buf <+: (Pipe.add ((w.readIf .o (w.pipe .o).ready t []).1.pipe .e)
          ((t.read .e).data .e) ((t.read .e).close .e)).buf := by
        rw [hother]
        exact (Pipe.prefix_add _ _ _).trans (Pipe.prefix_add _ _ _)
      exact empty_of_prefix hread hchunk
    have hclosed := hend he hbuf
    have hclosedSeen : (w.seen .e).closed = true := hclosed
    cases ho : (w.pipe .o).ready with
    | false =>
      refine ⟨[t.wake], [t.read .o, t.read .e], rfl, ⟨.e, ?_⟩, fun stream => ?_⟩
      · rw [hwake]
        exact hclosed
      · rw [hwake]
        cases stream with
        | o => rw [buf_readIf_ne (by decide), buf_readIf_false, hseen (hidle ho)]
        | e =>
          rw [buf_readIf_self, seen_add, seen_readIf, Pipe.add_of_closed hclosedSeen,
            Pipe.add_of_closed hclosedSeen]
    | true =>
      refine ⟨[t.wake, t.read .o], [t.read .e], rfl, ⟨.e, ?_⟩, fun stream => ?_⟩
      · show (Pipe.add (grow .e (s.seen .e) [t.wake]) _ _).closed = true
        rw [hwake, Pipe.add_of_closed hclosedSeen]
        exact hclosed
      · show _ = (Pipe.add (grow stream (s.seen stream) [t.wake]) _ _).buf
        rw [hwake]
        cases stream with
        | o => rw [buf_readIf_ne (by decide), buf_readIf_self, seen_add]
        | e =>
          rw [buf_readIf_self, seen_add, seen_readIf, Pipe.add_of_closed hclosedSeen,
            Pipe.add_of_closed hclosedSeen]

end Reader

/-- When the loop is left a pipe is at its end, and what had come until then is read. -/
theorem buf_leaving (ts : List Turn) : ∀ s : Reader, Leaves ts s →
    ∃ before after, ts.flatMap Turn.arrivals = before ++ after ∧
      (∃ stream, (grow stream (s.seen stream) before).closed = true) ∧
      ∀ stream, (leaving ts s).buf stream = (grow stream (s.seen stream) before).buf := by
  induction ts with
  | nil => exact fun s h => h.elim
  | cons t ts ih =>
    intro s h
    have hnext {s' : Reader} (hs' : ∀ stream, s'.seen stream =
        grow stream (s.seen stream) t.arrivals) (hleaves : Leaves ts s') :
        ∃ before after, (t :: ts).flatMap Turn.arrivals = before ++ after ∧
          (∃ stream, (grow stream (s.seen stream) before).closed = true) ∧
          ∀ stream, (leaving ts s').buf stream = (grow stream (s.seen stream) before).buf := by
      obtain ⟨before, after, heq, ⟨stream, hclosed⟩, hbuf⟩ := ih s' hleaves
      refine ⟨t.arrivals ++ before, after, ?_, ⟨stream, ?_⟩, fun stream => ?_⟩
      · rw [List.flatMap_cons, heq, List.append_assoc]
      · rw [grow_append, ← hs']
        exact hclosed
      · rw [grow_append, ← hs']
        exact hbuf stream
    rw [Leaves] at h
    rw [leaving]
    split at h
    · next hsilent =>
      rw [if_pos hsilent]
      exact hnext (fun stream => Reader.seen_wait) h
    · next hsilent =>
      rw [if_neg hsilent]
      split
      · next hchunk =>
        obtain ⟨before, after, heq, hclosed, hbuf⟩ := Reader.buf_pass hsilent hchunk
        refine ⟨before, after ++ ts.flatMap Turn.arrivals, ?_, hclosed, hbuf⟩
        rw [List.flatMap_cons, heq, List.append_assoc]
      · next hchunk => exact hnext (fun stream => Reader.seen_pass) (h.resolve_left hchunk)

/-- The texts are those of what has been read when the loop is left. -/
theorem returnsEverything_iff_buf (r : Run) :
    ReturnsEverything r ↔ ∀ stream, textOf (r.buf stream) = textOf (r.total stream) := by
  unfold ReturnsEverything runCmdGetStdoutStderr
  rw [r.loop_eq r.lively_schedule _ r.leaves_schedule, Option.map_some, Option.some_inj,
    Prod.mk.injEq, Prod.mk.injEq]
  constructor
  · rintro ⟨-, ho, he⟩ stream
    cases stream with
    | o => exact ho
    | e => exact he
  · exact fun h => ⟨rfl, h .o, h .e⟩

/-! ## Every order of events -/

/-- Arrivals that come together have the effect of the single ones. -/
theorem add_merge (stream : Stream) (as : List Arrival) : ∀ p : Pipe,
    p.add ((merge as).data stream) ((merge as).close stream) = grow stream p as := by
  intro p
  by_cases hclosed : p.closed = true
  · rw [Pipe.add_of_closed hclosed, grow_of_closed stream as hclosed]
  have hopen : p = ⟨p.buf, false⟩ := by
    rw [Bool.not_eq_true] at hclosed
    rw [← hclosed]
  rw [hopen]
  generalize p.buf = bs
  clear hclosed hopen
  induction as generalizing bs with
  | nil => exact congrArg (fun x => Pipe.mk x false) (List.append_nil bs)
  | cons a as ih =>
    show Pipe.mk (bs ++ (grow stream ⟨a.data stream, a.close stream⟩ as).buf)
      (grow stream ⟨a.data stream, a.close stream⟩ as).closed =
        grow stream ⟨bs ++ a.data stream, a.close stream⟩ as
    cases hclose : a.close stream with
    | true =>
      rw [grow_of_closed stream as rfl, grow_of_closed stream as rfl]
    | false =>
      rw [← ih (a.data stream), ← ih (bs ++ a.data stream)]
      show Pipe.mk (bs ++ (a.data stream ++ (merge as).data stream)) ((merge as).close stream) =
        Pipe.mk (bs ++ a.data stream ++ (merge as).data stream) ((merge as).close stream)
      rw [List.append_assoc]

theorem grow_merge (stream : Stream) (groups : List (List Arrival)) :
    ∀ p : Pipe, grow stream p (groups.map merge) = grow stream p groups.flatten := by
  induction groups with
  | nil => exact fun p => rfl
  | cons as groups ih =>
    intro p
    show grow stream (p.add ((merge as).data stream) ((merge as).close stream)) _ = _
    rw [add_merge, ih, List.flatten_cons, grow_append]

/-- What arrives first is what the command does first. -/
theorem flatten_of_append {groups : List (List Arrival)} {before after : List Arrival}
    (h : groups.map merge = before ++ after) :
    ∃ first last, groups.flatten = first ++ last ∧
      ∀ stream, grow stream Pipe.empty before = grow stream Pipe.empty first := by
  obtain ⟨g₁, g₂, rfl, rfl, rfl⟩ := List.map_eq_append_iff.mp h
  exact ⟨g₁.flatten, g₂.flatten, List.flatten_append, fun stream => grow_merge stream g₁ _⟩

namespace Command
variable {c : Command}

theorem total_eq {r : Run} (h : r.Of c) (stream : Stream) :
    r.total stream = (grow stream Pipe.empty c.steps).buf := by
  obtain ⟨groups, hsteps, harrivals⟩ := h
  rw [Run.total, whole, harrivals, grow_merge, hsteps]

/-- Nothing is left unread but what does not change a text. -/
theorem Ends.returnsEverything (h : c.Ends) {r : Run} (hr : r.Of c) : ReturnsEverything r := by
  refine (returnsEverything_iff_buf r).mpr fun stream => ?_
  rw [total_eq hr]
  obtain ⟨groups, hsteps, harrivals⟩ := hr
  obtain ⟨before, after, heq, ⟨stream', hclosed⟩, hbuf⟩ :=
    buf_leaving r.schedule Reader.start r.leaves_schedule
  have hquiet : r.schedule.flatMap Turn.arrivals =
      (groups ++ List.replicate 6 []).map merge := by
    rw [Run.schedule, List.flatMap_append, harrivals, List.map_append]
    rfl
  obtain ⟨first, last, hflatten, hfirst⟩ := flatten_of_append (hquiet.symm.trans heq)
  have hsplit : c.steps = first ++ last := by
    rw [← hflatten, List.flatten_append, hsteps]
    exact (List.append_nil _).symm
  have hend := h first last hsplit ⟨stream', by rw [← hfirst]; exact hclosed⟩ stream
  rw [Run.buf, hbuf, ← hend, ← hfirst]
  rfl

end Command

/-! ### Two halves -/

namespace Reader
variable {s : Reader} {t : Turn}

theorem add_nothing : s.add nothing = s := by
  have hpipe (p : Pipe) : p.add [] false = p := by
    unfold Pipe.add
    split
    · rfl
    · next hopen =>
        rw [Bool.not_eq_true] at hopen
        rw [List.append_nil, ← hopen]
  unfold add nothing
  simp only [hpipe]

/-- A read before which nothing comes takes all there is, if `select` has reported it or
there is nothing. -/
theorem readIf_calm (h : t.read = fun _ => nothing) {stream : Stream} {ready : Bool}
    (hidle : ready = false → s.pipe stream = ⟨[], (s.pipe stream).closed⟩) (chunk : Bytes) :
    (s.readIf stream ready t chunk).1 =
      ⟨Function.update s.pipe stream ⟨[], (s.pipe stream).closed⟩,
        Function.update s.buf stream (s.seen stream).buf⟩ := by
  unfold readIf
  simp only [h, add_nothing]
  cases ready with
  | true => rfl
  | false =>
    have hpipe := hidle rfl
    have hbuf : (s.seen stream).buf = s.buf stream := by
      show s.buf stream ++ (s.pipe stream).buf = _
      rw [hpipe, List.append_nil]
    rw [hbuf, ← hpipe, Function.update_eq_self, Function.update_eq_self]
    rfl

/-- A pass in which nothing comes after `select` reads all there is. -/
theorem pass_calm (h : t.read = fun _ => nothing) (stream : Stream) :
    (s.pass t).1.buf stream = ((s.add t.wake).seen stream).buf ∧
      (s.pass t).1.pipe stream = ⟨[], ((s.add t.wake).pipe stream).closed⟩ := by
  unfold pass
  simp only
  generalize s.add t.wake = w
  have hidle {stream : Stream} (hready : (w.pipe stream).ready = false) :
      w.pipe stream = ⟨[], (w.pipe stream).closed⟩ := by
    have hnone : (w.pipe stream).buf = [] ∧ (w.pipe stream).closed = false := by
      simpa [Pipe.ready] using hready
    rw [← hnone.1]
  have hother : (w.readIf .o (w.pipe .o).ready t []).1.pipe .e = w.pipe .e := by
    rw [readIf_calm h hidle]
    rfl
  rw [readIf_calm h (by rw [hother]; exact hidle), readIf_calm h hidle]
  cases stream with
  | o => exact ⟨rfl, rfl⟩
  | e => exact ⟨rfl, rfl⟩

/-- With nothing to read the last read is empty. -/
theorem chunk_quiet (h : ∀ stream, (s.pipe stream).buf = []) : (s.pass Turn.quiet).2 = [] := by
  have hchunk {r : Reader} {stream : Stream} (ready : Bool) (hr : (r.pipe stream).buf = []) :
      (r.readIf stream ready Turn.quiet []).2 = [] := by
    unfold readIf
    cases ready with
    | true => exact (congrArg (fun r : Reader => (r.pipe stream).buf) add_nothing).trans hr
    | false => rfl
  have hother (ready : Bool) : ((s.readIf .o ready Turn.quiet []).1.pipe .e).buf = [] := by
    have hpipe : (s.add nothing).pipe .e = s.pipe .e := by rw [add_nothing]
    unfold readIf
    cases ready with
    | true => exact (congrArg Pipe.buf hpipe).trans (h .e)
    | false => exact (congrArg Pipe.buf hpipe).trans (h .e)
  have hwake : s.add Turn.quiet.wake = s := add_nothing
  unfold pass
  simp only [hwake, hchunk _ (h .o)]
  exact hchunk _ (hother _)

end Reader

/-- All that comes before the first `select` is read, and then the loop is left if a pipe is
at its end. -/
theorem leaving_calm {t : Turn} (ts : List Turn) (ht : t.read = fun _ => nothing)
    {stream : Stream} (hclosed : ((Reader.start.add t.wake).pipe stream).closed = true)
    (stream' : Stream) :
    (leaving (t :: Turn.quiet :: ts) Reader.start).buf stream' =
      ((Reader.start.add t.wake).seen stream').buf := by
  have hsilent {s : Reader} {t : Turn} (h : ((s.add t.wake).pipe stream).closed = true) :
      ¬ s.silent t = true := by
    unfold Reader.silent
    cases stream with
    | o => simp [Pipe.ready, h]
    | e => simp [Pipe.ready, h]
  have hpass := Reader.pass_calm (s := Reader.start) ht
  rw [leaving, if_neg (hsilent hclosed)]
  split
  · exact (hpass stream').1
  · generalize (Reader.start.pass t).1 = s at hpass
    have hadd : s.add Turn.quiet.wake = s := Reader.add_nothing
    have hend : ((s.add Turn.quiet.wake).pipe stream).closed = true := by
      rw [hadd, (hpass stream).2]
      exact hclosed
    have hchunk : (s.pass Turn.quiet).2 = [] :=
      Reader.chunk_quiet fun stream => by rw [(hpass stream).2]
    rw [leaving, if_neg (hsilent hend), if_pos hchunk, (Reader.pass_calm rfl stream').1, hadd,
      Reader.seen, (hpass stream').2, (hpass stream').1, List.append_nil]

/-- The steps of a command in two parts, with a pass of the loop between them. -/
def Command.split (c : Command) (before after : List Arrival) (h : c.steps = before ++ after) :
    Run where
  timeoutText := []
  ret := 0
  turns := [⟨merge before, fun _ => nothing, false⟩, Turn.quiet,
    ⟨merge after, fun _ => nothing, false⟩]
  closes := fun stream => by
    have hclosed := c.closes stream
    rw [h, grow_append] at hclosed
    show (grow stream Pipe.empty
      ([before, [], [], [], [], [], after, [], []].map merge)).closed = true
    rw [grow_merge]
    simpa [grow_append] using hclosed
  lively := by simp [Turn.quiet]

theorem Command.of_split {c : Command} {before after : List Arrival}
    (h : c.steps = before ++ after) : (c.split before after h).Of c :=
  ⟨[before, [], [], [], [], [], after, [], []], by simp [h], rfl⟩

/-- Everything is returned in every order of events exactly if nothing that changes a text
is written once one of the pipes is closed. -/
theorem returnsEverything_iff (c : Command) :
    (∀ r : Run, r.Of c → ReturnsEverything r) ↔ c.Ends := by
  constructor
  · intro h before after hsplit hclosed stream
    obtain ⟨stream', hclosed⟩ := hclosed
    have hof := Command.of_split hsplit
    have hreturns := (returnsEverything_iff_buf _).mp (h _ hof) stream
    have hwake (stream : Stream) : (Reader.start.add (merge before)).seen stream =
        grow stream Pipe.empty before := by
      rw [Reader.seen_add, ← add_merge]
      rfl
    have hend : ((Reader.start.add (merge before)).pipe stream').closed = true :=
      (congrArg Pipe.closed (hwake stream')).trans hclosed
    have hbuf : (c.split before after hsplit).buf stream =
        ((Reader.start.add (merge before)).seen stream).buf := leaving_calm _ rfl hend stream
    rw [hbuf, hwake, Command.total_eq hof] at hreturns
    exact hreturns
  · exact fun h r hr => h.returnsEverything hr

/-- The command writes `x` and closes its stdout, and later writes `e` to stderr and exits. -/
def closesStdoutFirst : Run where
  timeoutText := "30".toList
  ret := 0
  turns := [
    { Turn.quiet with
      wake := ⟨fun stream => if stream = .o then [0x78] else [], fun stream => stream = .o⟩ },
    Turn.quiet,
    { Turn.quiet with
      wake := ⟨fun stream => if stream = .e then [0x65] else [], fun stream => stream = .e⟩ }]
  closes := fun stream => by cases stream <;> rfl
  lively := by decide

theorem stderr_lost : ¬ ReturnsEverything closesStdoutFirst := by decide +kernel

end ReadLoop
end Executors
end RocmTests

import Mathlib.Data.List.DropRight
import Mathlib.Logic.Function.Basic
import RocmTests.Conc.History
import RocmTests.Executors.BoundedChunks
import RocmTests.Executors.PollResponse

/-!
# The reader thread of a background process

`_reader_loop` reads both pipes of a process until it has been told to stop and the
process has exited, and then reads what is left in them.  The pipes do not block, so
a `read` takes what there is, in pieces, until it finds its pipe empty; the process
may go on writing between two pieces.

The states carry two things the program does not: what was written to each pipe, and
the chunks in the order in which they were passed on.
-/

namespace RocmTests
namespace Executors
namespace BackgroundReader

open Conc Text Text.Utf8
open Markers (isSpace)

/-- Where the thread stands.  `test` is `if proc.stdout in ready` or the same of
`stderr`; a `read` without ready pipes belongs to the final drain. -/
inductive Pc where
  | loop
  | poll
  | select
  | test (stream : Stream) (ready : Stream → Bool)
  | read (ready : Option (Stream → Bool)) (stream : Stream) (acc : Bytes)
  | returned

/-- What `_make_background_process` sets up. -/
structure Setup where
  maxBytes : Int
  console : Stream → Bool
  /-- What is in the log file already, if there is one. -/
  log : Option Bytes

structure State where
  exited : Bool
  stopEvt : Bool
  pipe : Stream → Bytes
  pc : Pc
  chunks : Stream → BoundedChunks UInt8
  console : Stream → Option Bytes
  log : Option Bytes
  written : Stream → Bytes
  passedOn : List (Stream × Bytes)

def start (c : Setup) : State where
  exited := false
  stopEvt := false
  pipe _ := []
  pc := .loop
  chunks _ := .init c.maxBytes
  console stream := if c.console stream then some [] else none
  log := c.log
  written _ := []
  passedOn := []

/-- `_bg_pipe_write`, and `append` to the chunks of the stream.  An empty chunk is
passed over. -/
def State.passOn (s : State) (stream : Stream) (chunk : Bytes) : State :=
  if chunk = [] then s
  else
    { s with
      chunks := Function.update s.chunks stream ((s.chunks stream).append chunk)
      console := Function.update s.console stream ((s.console stream).map (· ++ chunk))
      log := s.log.map (· ++ chunk)
      passedOn := s.passedOn ++ [(stream, chunk)] }

/-- Where the thread is after a read. -/
def afterRead : Option (Stream → Bool) → Stream → Pc
  | some ready, .o => .test .e ready
  | some _, .e => .loop
  | none, .o => .read none .e []
  | none, .e => .returned

/-- The first three are the process and `stop`, the others are the thread.  `select`
may report any pipes, and may report none, when it has waited for half a second. -/
inductive Action where
  | write (stream : Stream) (data : Bytes)
  | exit
  | stop
  | isSet
  | poll
  | select (ready : Stream → Bool)
  | test
  | take (n : Nat)
  | finish

def next : Action → State → State
  | .write stream data, s =>
    { s with
      pipe := Function.update s.pipe stream (s.pipe stream ++ data)
      written := Function.update s.written stream (s.written stream ++ data) }
  | .exit, s => { s with exited := true }
  | .stop, s => { s with stopEvt := true }
  | .isSet, s => { s with pc := if s.stopEvt then .poll else .select }
  | .poll, s => { s with pc := if s.exited then .read none .o [] else .select }
  | .select ready, s => { s with pc := .test .o ready }
  | .test, s =>
    match s.pc with
    | .test stream ready =>
      { s with
        pc := if ready stream then .read (some ready) stream []
          else afterRead (some ready) stream }
    | _ => s
  | .take n, s =>
    match s.pc with
    | .read ready stream acc =>
      { s with
        pipe := Function.update s.pipe stream ((s.pipe stream).drop n)
        pc := .read ready stream (acc ++ (s.pipe stream).take n) }
    | _ => s
  | .finish, s =>
    match s.pc with
    | .read ready stream acc => { s.passOn stream acc with pc := afterRead ready stream }
    | _ => s

/-- A process that has exited writes no more, and nobody else holds its pipes.  A read
ends at an empty pipe. -/
def Possible (s : State) : Action → Prop
  | .write _ _ => s.exited = false
  | .exit => s.exited = false
  | .stop => True
  | .isSet => match s.pc with | .loop => True | _ => False
  | .poll => match s.pc with | .poll => True | _ => False
  | .select _ => match s.pc with | .select => True | _ => False
  | .test => match s.pc with | .test _ _ => True | _ => False
  | .take n => match s.pc with
    | .read _ stream _ => 0 < n ∧ n ≤ (s.pipe stream).length
    | _ => False
  | .finish => match s.pc with
    | .read _ stream _ => s.pipe stream = []
    | _ => False

section

variable {s : State} {ready : Option (Stream → Bool)} {stream : Stream} {acc : Bytes}

theorem next_test {ready : Stream → Bool} (hpc : s.pc = .test stream ready) :
    next .test s = { s with
      pc := if ready stream then .read (some ready) stream [] else
        afterRead (some ready) stream } := by
  unfold next
  simp only [hpc]

theorem next_take (hpc : s.pc = .read ready stream acc) (n : Nat) :
    next (.take n) s = { s with
      pipe := Function.update s.pipe stream ((s.pipe stream).drop n)
      pc := .read ready stream (acc ++ (s.pipe stream).take n) } := by
  unfold next
  simp only [hpc]

theorem next_finish (hpc : s.pc = .read ready stream acc) :
    next .finish s = { s.passOn stream acc with pc := afterRead ready stream } := by
  unfold next
  simp only [hpc]

end

/-! ## The invariant -/

/-- What the read in progress has taken from a pipe. -/
def State.inHand (s : State) (stream : Stream) : Bytes :=
  match s.pc with
  | .read _ stream' acc => if stream' = stream then acc else []
  | _ => []

/-- The chunks of a stream that were appended. -/
def State.appended (s : State) (stream : Stream) : List Bytes :=
  (s.passedOn.filter fun p => p.1 = stream).map Prod.snd

/-- The final drain comes after the exit, and one pipe after the other. -/
def State.Drained (s : State) : Prop :=
  match s.pc with
  | .read none .o _ => s.exited = true
  | .read none .e _ => s.exited = true ∧ s.pipe .o = []
  | .returned => s.exited = true ∧ s.pipe .o = [] ∧ s.pipe .e = []
  | _ => True

structure Inv (c : Setup) (s : State) : Prop where
  bytes : ∀ stream, s.written stream = (s.appended stream).flatten ++ s.inHand stream ++
    s.pipe stream
  chunks : ∀ stream, s.chunks stream = .appendAll c.maxBytes (s.appended stream)
  console : ∀ stream, s.console stream =
    if c.console stream then some (s.appended stream).flatten else none
  log : s.log = c.log.map (· ++ s.passedOn.flatMap Prod.snd)
  nonempty : ∀ p ∈ s.passedOn, p.2 ≠ []
  drained : s.Drained

theorem start_inv (c : Setup) : Inv c (start c) where
  bytes _ := rfl
  chunks _ := rfl
  console _ := rfl
  log := by
    show c.log = c.log.map (· ++ [])
    cases c.log with
    | none => rfl
    | some old => exact congrArg some (List.append_nil old).symm
  nonempty _ h := absurd h List.not_mem_nil
  drained := trivial

/-- A step that moves the thread, or sets a flag. -/
theorem Inv.move {c : Setup} {s : State} (h : Inv c s) {s' : State} (hpipe : s'.pipe = s.pipe)
    (hchunks : s'.chunks = s.chunks) (hconsole : s'.console = s.console) (hlog : s'.log = s.log)
    (hwritten : s'.written = s.written) (hpassedOn : s'.passedOn = s.passedOn)
    (hhand : ∀ stream, s'.inHand stream = s.inHand stream) (hdrained : s'.Drained) : Inv c s' := by
  have happended : s'.appended = s.appended := by
    unfold State.appended
    rw [hpassedOn]
  constructor
  · intro stream
    rw [hwritten, happended, hhand, hpipe]
    exact h.bytes stream
  · intro stream
    rw [hchunks, happended]
    exact h.chunks stream
  · intro stream
    rw [hconsole, happended]
    exact h.console stream
  · rw [hlog, hpassedOn]
    exact h.log
  · rw [hpassedOn]
    exact h.nonempty
  · exact hdrained

/-- A step of the thread between two reads. -/
theorem Inv.jump {c : Setup} {s : State} (h : Inv c s) {pc : Pc}
    (hbefore : ∀ stream, s.inHand stream = [])
    (hafter : ∀ stream, State.inHand { s with pc := pc } stream = [])
    (hdrained : State.Drained { s with pc := pc }) : Inv c { s with pc := pc } :=
  h.move rfl rfl rfl rfl rfl rfl (fun stream => (hafter stream).trans (hbefore stream).symm)
    hdrained

theorem appended_passOn (s : State) (stream stream' : Stream) (chunk : Bytes) :
    (s.passOn stream chunk).appended stream' =
      if stream = stream' ∧ chunk ≠ [] then s.appended stream' ++ [chunk] else
        s.appended stream' := by
  unfold State.passOn State.appended
  by_cases hchunk : chunk = []
  · rw [if_pos hchunk, if_neg fun h => h.2 hchunk]
  · rw [if_neg hchunk]
    simp only [List.filter_append, List.map_append]
    by_cases hstream : stream = stream'
    · simp [hstream, hchunk]
    · simp [hstream]

theorem Inv.write {c : Setup} {s : State} (h : Inv c s) (hrunning : s.exited = false)
    (stream : Stream) (data : Bytes) : Inv c (next (.write stream data) s) := by
  refine ⟨fun stream' => ?_, h.chunks, h.console, h.log, h.nonempty, ?_⟩
  · show Function.update s.written stream (s.written stream ++ data) stream' =
      (s.appended stream').flatten ++ s.inHand stream' ++
        Function.update s.pipe stream (s.pipe stream ++ data) stream'
    by_cases hstream : stream' = stream
    · subst hstream
      rw [Function.update_self, Function.update_self, h.bytes stream', List.append_assoc]
    · rw [Function.update_of_ne hstream, Function.update_of_ne hstream]
      exact h.bytes stream'
  · -- a running process is not being drained
    have hdrained := h.drained
    unfold State.Drained at hdrained ⊢
    show match s.pc with
      | .read none .o _ => s.exited = true
      | .read none .e _ => s.exited = true ∧ _
      | .returned => s.exited = true ∧ _
      | _ => True
    split <;> simp_all

theorem inHand_of_read {s : State} {ready : Option (Stream → Bool)} {stream : Stream}
    {acc : Bytes} (hpc : s.pc = .read ready stream acc) (stream' : Stream) :
    s.inHand stream' = if stream = stream' then acc else [] := by
  unfold State.inHand
  rw [hpc]

theorem inHand_of_afterRead {s : State} {ready : Option (Stream → Bool)} {stream : Stream}
    (hpc : s.pc = afterRead ready stream) (stream' : Stream) : s.inHand stream' = [] := by
  unfold State.inHand
  rw [hpc]
  cases ready with
  | some ready => cases stream <;> rfl
  | none =>
    cases stream with
    | o => exact ite_self []
    | e => rfl

theorem Inv.take {c : Setup} {s : State} (h : Inv c s) {ready : Option (Stream → Bool)}
    {stream : Stream} {acc : Bytes} (hpc : s.pc = .read ready stream acc) (n : Nat) :
    Inv c (next (.take n) s) := by
  rw [next_take hpc]
  refine ⟨fun stream' => ?_, h.chunks, h.console, h.log, h.nonempty, ?_⟩
  · have hbytes := h.bytes stream'
    rw [inHand_of_read hpc] at hbytes
    show s.written stream' = (s.appended stream').flatten ++
      (if stream = stream' then acc ++ (s.pipe stream).take n else []) ++
        Function.update s.pipe stream ((s.pipe stream).drop n) stream'
    by_cases hstream : stream = stream'
    · subst hstream
      rw [if_pos rfl] at hbytes
      rw [Function.update_self, if_pos rfl, hbytes]
      simp only [List.append_assoc, List.take_append_drop]
    · rw [if_neg hstream] at hbytes
      rw [Function.update_of_ne (Ne.symm hstream), if_neg hstream, hbytes]
  · have hdrained := h.drained
    unfold State.Drained at hdrained ⊢
    rw [hpc] at hdrained
    cases ready with
    | some ready => trivial
    | none =>
      cases stream with
      | o => exact hdrained
      | e => exact hdrained

/-- A chunk that is passed on goes to the buffer, the console and the log. -/
theorem passOn_of_ne (s : State) (stream : Stream) {chunk : Bytes} (h : chunk ≠ []) :
    (s.passOn stream chunk).pipe = s.pipe ∧ (s.passOn stream chunk).exited = s.exited ∧
      (s.passOn stream chunk).written = s.written ∧
      (s.passOn stream chunk).chunks =
        Function.update s.chunks stream ((s.chunks stream).append chunk) ∧
      (s.passOn stream chunk).console =
        Function.update s.console stream ((s.console stream).map (· ++ chunk)) ∧
      (s.passOn stream chunk).log = s.log.map (· ++ chunk) ∧
      (s.passOn stream chunk).passedOn = s.passedOn ++ [(stream, chunk)] := by
  unfold State.passOn
  rw [if_neg h]
  exact ⟨rfl, rfl, rfl, rfl, rfl, rfl, rfl⟩

theorem Inv.drained_afterRead {c : Setup} {s : State} (h : Inv c s)
    {ready : Option (Stream → Bool)} {stream : Stream} {acc : Bytes}
    (hpc : s.pc = .read ready stream acc) (hempty : s.pipe stream = []) {s' : State}
    (hpc' : s'.pc = afterRead ready stream) (hpipe : s'.pipe = s.pipe)
    (hexited : s'.exited = s.exited) : s'.Drained := by
  have hdrained := h.drained
  unfold State.Drained at hdrained ⊢
  rw [hpc] at hdrained
  rw [hpc', hpipe, hexited]
  cases ready with
  | some ready => cases stream <;> trivial
  | none =>
    cases stream with
    | o => exact ⟨hdrained, hempty⟩
    | e => exact ⟨hdrained.1, hdrained.2, hempty⟩

theorem Inv.finish {c : Setup} {s : State} (h : Inv c s) {ready : Option (Stream → Bool)}
    {stream : Stream} {acc : Bytes} (hpc : s.pc = .read ready stream acc)
    (hempty : s.pipe stream = []) : Inv c (next .finish s) := by
  rw [next_finish hpc]
  by_cases hacc : acc = []
  · have hsame : s.passOn stream acc = s := if_pos hacc
    rw [hsame]
    refine h.move rfl rfl rfl rfl rfl rfl (fun stream' => ?_)
      (h.drained_afterRead hpc hempty rfl rfl rfl)
    rw [inHand_of_afterRead rfl, inHand_of_read hpc, hacc, ite_self]
  · obtain ⟨hpipe, hexited, hwritten, hchunks, hconsole, hlog, hpassedOn⟩ :=
      passOn_of_ne s stream hacc
    have hsame : (s.passOn stream acc).appended stream = s.appended stream ++ [acc] :=
      (appended_passOn s stream stream acc).trans (if_pos ⟨rfl, hacc⟩)
    have hother : ∀ stream', stream ≠ stream' →
        (s.passOn stream acc).appended stream' = s.appended stream' := fun stream' hne =>
      (appended_passOn s stream stream' acc).trans (if_neg fun h => hne h.1)
    generalize s.passOn stream acc = t at *
    refine ⟨fun stream' => ?_, fun stream' => ?_, fun stream' => ?_, ?_, ?_, ?_⟩
    · have hbytes := h.bytes stream'
      rw [inHand_of_read hpc] at hbytes
      rw [inHand_of_afterRead rfl]
      show t.written stream' = (t.appended stream').flatten ++ [] ++ t.pipe stream'
      rw [hwritten, hpipe, hbytes, List.append_nil]
      by_cases hstream : stream = stream'
      · subst hstream
        rw [hsame, if_pos rfl, List.flatten_append, List.flatten_singleton]
      · rw [hother stream' hstream, if_neg hstream, List.append_nil]
    · show t.chunks stream' = .appendAll c.maxBytes (t.appended stream')
      rw [hchunks]
      by_cases hstream : stream = stream'
      · subst hstream
        rw [Function.update_self, hsame, h.chunks, BoundedChunks.appendAll_concat]
      · rw [Function.update_of_ne (Ne.symm hstream), hother stream' hstream]
        exact h.chunks stream'
    · show t.console stream' = if c.console stream' then some (t.appended stream').flatten else none
      rw [hconsole]
      by_cases hstream : stream = stream'
      · subst hstream
        rw [Function.update_self, hsame, h.console, List.flatten_append, List.flatten_singleton]
        cases c.console stream <;> rfl
      · rw [Function.update_of_ne (Ne.symm hstream), hother stream' hstream]
        exact h.console stream'
    · show t.log = c.log.map (· ++ t.passedOn.flatMap Prod.snd)
      rw [hlog, hpassedOn, h.log, List.flatMap_append, List.flatMap_singleton, Option.map_map]
      cases c.log with
      | none => rfl
      | some old => exact congrArg some (List.append_assoc old _ acc)
    · show ∀ p ∈ t.passedOn, p.2 ≠ []
      rw [hpassedOn]
      intro p hp
      rcases List.mem_append.mp hp with hp | hp
      · exact h.nonempty p hp
      · rw [List.mem_singleton.mp hp]
        exact hacc
    · exact h.drained_afterRead hpc hempty rfl hpipe hexited

/-! ## One step and a run -/

theorem inv_step {c : Setup} {s : State} (h : Inv c s) {a : Action} (ha : Possible s a) :
    Inv c (next a s) := by
  cases a with
  | write stream data => exact h.write ha stream data
  | exit =>
    refine h.move rfl rfl rfl rfl rfl rfl (fun _ => rfl) ?_
    have hdrained := h.drained
    unfold State.Drained at hdrained ⊢
    show match s.pc with
      | .read none .o _ => true = true
      | .read none .e _ => true = true ∧ s.pipe .o = []
      | .returned => true = true ∧ s.pipe .o = [] ∧ s.pipe .e = []
      | _ => True
    split <;> simp_all
  | stop => exact h.move rfl rfl rfl rfl rfl rfl (fun _ => rfl) h.drained
  | isSet =>
    cases hpc : s.pc with
    | loop =>
      have hhand : ∀ stream, s.inHand stream = [] := fun stream => by rw [State.inHand, hpc]
      cases hstop : s.stopEvt with
      | true =>
        have hnext : next .isSet s = { s with pc := .poll } := by rw [next, if_pos hstop]
        rw [hnext]
        exact h.jump hhand (fun _ => rfl) trivial
      | false =>
        have hnext : next .isSet s = { s with pc := .select } := by
          rw [next, if_neg (Bool.eq_false_iff.mp hstop)]
        rw [hnext]
        exact h.jump hhand (fun _ => rfl) trivial
    | _ => simp [Possible, hpc] at ha
  | poll =>
    cases hpc : s.pc with
    | poll =>
      have hhand : ∀ stream, s.inHand stream = [] := fun stream => by rw [State.inHand, hpc]
      cases hexited : s.exited with
      | true =>
        have hnext : next .poll s = { s with pc := .read none .o [] } := by
          rw [next, if_pos hexited]
        rw [hnext]
        exact h.jump hhand (fun _ => ite_self []) hexited
      | false =>
        have hnext : next .poll s = { s with pc := .select } := by
          rw [next, if_neg (Bool.eq_false_iff.mp hexited)]
        rw [hnext]
        exact h.jump hhand (fun _ => rfl) trivial
    | _ => simp [Possible, hpc] at ha
  | select ready =>
    cases hpc : s.pc with
    | select =>
      exact h.jump (fun stream => by rw [State.inHand, hpc]) (fun _ => rfl) trivial
    | _ => simp [Possible, hpc] at ha
  | test =>
    cases hpc : s.pc with
    | test stream ready =>
      have hhand : ∀ stream, s.inHand stream = [] := fun stream => by rw [State.inHand, hpc]
      cases hready : ready stream with
      | true =>
        rw [next_test hpc, if_pos hready]
        exact h.jump hhand (fun _ => ite_self []) trivial
      | false =>
        rw [next_test hpc, if_neg (Bool.eq_false_iff.mp hready)]
        refine h.jump hhand (inHand_of_afterRead rfl) ?_
        cases stream <;> trivial
    | _ => simp [Possible, hpc] at ha
  | take n =>
    cases hpc : s.pc with
    | read ready stream acc => exact h.take hpc n
    | _ => simp [Possible, hpc] at ha
  | finish =>
    cases hpc : s.pc with
    | read ready stream acc =>
      have hempty : s.pipe stream = [] := by
        simpa [Possible, hpc] using ha
      exact h.finish hpc hempty
    | _ => simp [Possible, hpc] at ha

theorem inv_run {c : Setup} {actions : List Action} (h : Steps next Possible (start c) actions) :
    Inv c (after next (start c) actions) :=
  Steps.invariant (I := fun _ => Inv c) (start_inv c) (fun _ _ _ hs ha => inv_step hs ha) h

/-! ## When the loop returns -/

/-- All that was written has been passed on, and the buffers hold the end of it. -/
structure Captured (c : Setup) (s : State) : Prop where
  bytes : ∀ stream, (s.appended stream).flatten = s.written stream
  log : ∀ old, c.log = some old → ∃ pieces : List (Stream × Bytes),
    s.log = some (old ++ pieces.flatMap Prod.snd) ∧
      ∀ stream, ((pieces.filter fun p => p.1 = stream).map Prod.snd).flatten = s.written stream
  tail : ∀ stream, (s.chunks stream).Tail c.maxBytes (s.appended stream)
  truncated : ∀ stream,
    (s.chunks stream).truncated = true ↔ (s.chunks stream).chunks.flatten ≠ s.written stream

theorem Inv.captured {c : Setup} {s : State} (h : Inv c s) (hreturned : s.pc = .returned) :
    Captured c s := by
  have hdrained := h.drained
  unfold State.Drained at hdrained
  rw [hreturned] at hdrained
  have hbytes : ∀ stream, (s.appended stream).flatten = s.written stream := by
    intro stream
    have hpipe : s.pipe stream = [] := by
      cases stream with
      | o => exact hdrained.2.1
      | e => exact hdrained.2.2
    have hhand : s.inHand stream = [] := by rw [State.inHand, hreturned]
    rw [h.bytes stream, hhand, hpipe, List.append_nil, List.append_nil]
  have htail : ∀ stream, (s.chunks stream).Tail c.maxBytes (s.appended stream) :=
    fun stream => h.chunks stream ▸ BoundedChunks.tail_appendAll c.maxBytes (s.appended stream)
  refine ⟨hbytes, fun old hold => ⟨s.passedOn, ?_, hbytes⟩, htail, fun stream => ?_⟩
  · rw [h.log, hold]
    rfl
  · rw [← hbytes stream]
    refine (htail stream).dropped fun chunk hchunk => ?_
    obtain ⟨p, hp, rfl⟩ := List.mem_map.mp hchunk
    exact h.nonempty p (List.mem_of_mem_filter hp)

/-- The loop keeps every byte once, and the buffers keep the end of what they are given. -/
theorem capture_exact :
    (∀ (c : Setup) (actions : List Action), Steps next Possible (start c) actions →
      (after next (start c) actions).pc = .returned → Captured c (after next (start c) actions)) ∧
    ∀ (β : Type) (maxBytes : Int) (appended : List (List β)),
      (BoundedChunks.appendAll maxBytes appended).Tail maxBytes appended :=
  ⟨fun _ _ hrun hreturned => (inv_run hrun).captured hreturned,
    fun _ maxBytes appended => BoundedChunks.tail_appendAll maxBytes appended⟩

/-- A process that writes to both pipes and is read in two pieces, the second after its
exit. -/
def twoPieces : List Action :=
  [.isSet, .write .o [104, 105], .select fun _ => true, .test, .take 1, .write .e [33], .take 1,
    .finish, .test, .take 1, .finish, .write .o [10], .stop, .exit, .isSet, .poll, .take 1,
    .finish, .finish]

theorem twoPieces_captured :
    Steps next Possible (start ⟨2, fun _ => true, some []⟩) twoPieces ∧
      Captured ⟨2, fun _ => true, some []⟩
        (after next (start ⟨2, fun _ => true, some []⟩) twoPieces) := by
  have hrun : Steps next Possible (start ⟨2, fun _ => true, some []⟩) twoPieces := by
    unfold twoPieces
    simp [Steps, Possible, next, start, afterRead, Function.update, State.passOn]
  exact ⟨hrun, capture_exact.1 _ twoPieces hrun rfl⟩

/-! ## The loop does return -/

/-- The steps of the thread. -/
def Action.ofThread : Action → Bool
  | .write _ _ | .exit | .stop => false
  | _ => true

/-- How many steps the thread has before it at most, once it has been told to stop and the
process has exited: a place for each part of the loop, and a `take` for each byte. -/
def Pc.rank : Pc → Nat
  | .select => 9
  | .test .o _ => 8
  | .read (some _) .o _ => 7
  | .test .e _ => 6
  | .read (some _) .e _ => 5
  | .loop => 4
  | .poll => 3
  | .read none .o _ => 2
  | .read none .e _ => 1
  | .returned => 0

def State.todo (s : State) : Nat := (s.pipe .o).length + (s.pipe .e).length + s.pc.rank

theorem rank_afterRead (ready : Option (Stream → Bool)) (stream : Stream) (acc : Bytes) :
    (afterRead ready stream).rank < (Pc.read ready stream acc).rank := by
  cases ready with
  | some ready =>
    cases stream with
    | o => show 6 < 7; omega
    | e => show 4 < 5; omega
  | none =>
    cases stream with
    | o => show 1 < 2; omega
    | e => show 0 < 1; omega

/-- Every step of the thread brings it nearer to its end. -/
theorem todo_lt {s : State} (hstop : s.stopEvt = true) (hexited : s.exited = true) {a : Action}
    (ha : Possible s a) (hthread : a.ofThread = true) : (next a s).todo < s.todo := by
  unfold State.todo
  cases hpc : s.pc with
  | loop => cases a <;> simp_all [Possible, next, Action.ofThread, Pc.rank]
  | poll => cases a <;> simp_all [Possible, next, Action.ofThread, Pc.rank]
  | select => cases a <;> simp_all [Possible, next, Action.ofThread, Pc.rank]
  | test stream ready =>
    cases a with
    | test =>
      rw [next_test hpc]
      cases stream with
      | o => cases ready .o <;> simp [afterRead, Pc.rank]
      | e => cases ready .e <;> simp [afterRead, Pc.rank]
    | _ => simp_all [Possible, Action.ofThread]
  | read ready stream acc =>
    cases a with
    | take n =>
      have hn : 0 < n ∧ n ≤ (s.pipe stream).length := by simpa [Possible, hpc] using ha
      have hdrop := List.length_drop (i := n) (l := s.pipe stream)
      have hrank : (Pc.read ready stream (acc ++ (s.pipe stream).take n)).rank =
          (Pc.read ready stream acc).rank := by
        cases ready <;> cases stream <;> rfl
      rw [next_take hpc]
      show (Function.update s.pipe stream ((s.pipe stream).drop n) .o).length +
        (Function.update s.pipe stream ((s.pipe stream).drop n) .e).length +
          (Pc.read ready stream (acc ++ (s.pipe stream).take n)).rank < _
      rw [hrank]
      cases stream with
      | o =>
        rw [Function.update_self, Function.update_of_ne (by decide)]
        omega
      | e =>
        rw [Function.update_self, Function.update_of_ne (by decide)]
        omega
    | finish =>
      have hpipe : (s.passOn stream acc).pipe = s.pipe := by
        unfold State.passOn
        split <;> rfl
      have hafter := rank_afterRead ready stream acc
      rw [next_finish hpc]
      show ((s.passOn stream acc).pipe .o).length + ((s.passOn stream acc).pipe .e).length +
        (afterRead ready stream).rank < _
      rw [hpipe]
      omega
    | _ => simp_all [Possible, Action.ofThread]
  | returned => cases a <;> simp_all [Possible, Action.ofThread]

/-- The thread is never stuck. -/
theorem exists_step {s : State} (h : s.pc ≠ .returned) :
    ∃ a : Action, a.ofThread = true ∧ Possible s a := by
  cases hpc : s.pc with
  | loop => exact ⟨.isSet, rfl, by simp [Possible, hpc]⟩
  | poll => exact ⟨.poll, rfl, by simp [Possible, hpc]⟩
  | select => exact ⟨.select fun _ => false, rfl, by simp [Possible, hpc]⟩
  | test stream ready => exact ⟨.test, rfl, by simp [Possible, hpc]⟩
  | read ready stream acc =>
    by_cases hempty : s.pipe stream = []
    · exact ⟨.finish, rfl, by simp [Possible, hpc, hempty]⟩
    · have hpos := List.length_pos_of_ne_nil hempty
      exact ⟨.take 1, rfl, by simp [Possible, hpc]; omega⟩
  | returned => exact absurd hpc h

theorem flags_of_thread {s : State} {a : Action} (h : a.ofThread = true) :
    (next a s).stopEvt = s.stopEvt ∧ (next a s).exited = s.exited := by
  cases a with
  | write stream data => cases h
  | exit => cases h
  | stop => cases h
  | isSet => exact ⟨rfl, rfl⟩
  | poll => exact ⟨rfl, rfl⟩
  | select ready => exact ⟨rfl, rfl⟩
  | test => cases hpc : s.pc <;> simp [next, hpc]
  | take n => cases hpc : s.pc <;> simp [next, hpc]
  | finish =>
    cases hpc : s.pc with
    | read ready stream acc =>
      rw [next_finish hpc]
      unfold State.passOn
      by_cases hacc : acc = [] <;> simp [hacc]
    | _ => simp [next, hpc]

/-- After the exit and the stop event the loop returns, whatever the steps of the thread. -/
theorem reader_returns : ∀ (n : Nat) (s : State), s.todo ≤ n → s.stopEvt = true →
    s.exited = true → ∃ actions, (∀ a ∈ actions, a.ofThread = true) ∧
      Steps next Possible s actions ∧ (after next s actions).pc = .returned := by
  intro n
  induction n with
  | zero =>
    intro s htodo hstop hexited
    by_cases hpc : s.pc = .returned
    · exact ⟨[], fun _ h => absurd h List.not_mem_nil, trivial, hpc⟩
    · obtain ⟨a, hthread, ha⟩ := exists_step hpc
      have hlt := todo_lt hstop hexited ha hthread
      omega
  | succ n ih =>
    intro s htodo hstop hexited
    by_cases hpc : s.pc = .returned
    · exact ⟨[], fun _ h => absurd h List.not_mem_nil, trivial, hpc⟩
    · obtain ⟨a, hthread, ha⟩ := exists_step hpc
      have hlt := todo_lt hstop hexited ha hthread
      obtain ⟨hstop', hexited'⟩ := flags_of_thread (s := s) hthread
      obtain ⟨actions, hall, hrun, hreturned⟩ := ih (next a s) (by omega) (hstop'.trans hstop)
        (hexited'.trans hexited)
      exact ⟨a :: actions, List.forall_mem_cons.mpr ⟨hthread, hall⟩, ⟨ha, hrun⟩, hreturned⟩

/-! ## The result of `stop` -/

def maxCaptureBytes : Nat := 16 * 1024 * 1024

def captureTruncatedNotice : Txt :=
  "[... output truncated: kept only the last ".toList ++ (showNat (maxCaptureBytes >>> 20) ++
    " MiB ...]\n".toList)

/-- A stream of the result, read after the thread has been joined. -/
def resultText (b : BoundedChunks UInt8) : Txt :=
  let text := (decode b.chunks.flatten).rdropWhile isSpace
  if b.truncated then captureTruncatedNotice ++ text else text

/-- A result without the notice is the whole stream. -/
theorem resultText_whole {c : Setup} {s : State} (h : Captured c s) (stream : Stream)
    (hwhole : (s.chunks stream).truncated = false) :
    resultText (s.chunks stream) = (decode (s.written stream)).rdropWhile isSpace := by
  have hsame : (s.chunks stream).chunks.flatten = s.written stream := by
    by_contra hne
    have htruncated := (h.truncated stream).mpr hne
    rw [hwhole] at htruncated
    cases htruncated
  unfold resultText
  rw [hwhole, hsame]
  rfl

end BackgroundReader
end Executors
end RocmTests

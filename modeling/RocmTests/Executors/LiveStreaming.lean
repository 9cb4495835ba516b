import RocmTests.Conc.History
import RocmTests.Executors.PollResponse
import RocmTests.Text.Lines

/-!
# Live output of background processes

The poller thread reads the capture files of all registered handles, advances their offsets
and feeds them what is new.  `stop` takes a handle out of the poller, passes on what is left
in its buffers, kills the process, closes the log and removes the capture files.

The steps are those of the processes, of the poller and of one call of `stop` for each
handle, in any order in which each is possible.  A load and a store of a buffer are steps of
their own.  The lock, the event and the end of the thread are those of `StreamPollerThread`;
here the poller may poll at any time.
-/

namespace RocmTests
namespace Executors
namespace LiveStreaming

open Text Text.Utf8 Conc

/-! ## The state -/

/-- Where `stop` stands.  The first five are `_unregister_stream` and `_flush_partial`. -/
inductive Stopper where
  | no
  | flushing (stream : Stream)
  | loading (stream : Stream)
  | emitting (stream : Stream) (line : Txt)
  | clearing (stream : Stream)
  | killing
  | collecting
  | closing
  | removing
  | returning
  | done
deriving DecidableEq

/-- A background handle and the process it stands for. -/
structure Proc where
  /-- What the process has written to its capture files. -/
  file : Stream → Bytes
  ended : Bool := false
  removed : Bool := false
  hasPid : Bool
  hasLog : Bool
  off : Stream → Int := fun _ => 0
  buf : Stream → Txt := fun _ => []
  /-- The lines that `_emit_line` was called with. -/
  emitted : List (Stream × Txt) := []
  log : List (Stream × Txt) := []
  closed : Bool := false
  /-- The lines it was to write after the log was closed. -/
  late : List (Stream × Txt) := []
  stopper : Stopper := .no

/-- Where `_poll_once` stands.  In `script` the shell runs the fragments, in `measured` it is
between `wc` and `tail`.  In `dispatching` the items are left, and from `feeding` on `_feed`
is at work on one. -/
inductive Poller where
  | idle
  | script (ids : List Nat) (todo : List Fragment) (out : List Segment)
  | measured (ids : List Nat) (f : Fragment) (size : Nat) (todo : List Fragment)
      (out : List Segment)
  | dispatching (items : List Item)
  | feeding (i : Item) (items : List Item)
  | loaded (i : Item) (b : Txt) (items : List Item)
  | appended (i : Item) (items : List Item)
  | split (i : Item) (lines : List Txt) (rest : Txt) (items : List Item)
  | emitting (i : Item) (lines : List Txt) (items : List Item)
  | hung
deriving DecidableEq

structure State where
  procs : Nat → Option Proc := fun _ => none
  /-- The keys of `_handles`. -/
  registered : List Nat := []
  poller : Poller := .idle

inductive Step where
  | start (h : Nat) (out err : Bytes) (hasPid hasLog : Bool)
  | write (h : Nat) (stream : Stream) (bytes : Bytes)
  | processEnd (h : Nat)
  | begin
  | measure
  | tail
  | reply (cut : Nat)
  | dispatch
  | load
  | append
  | split
  | store
  | emit
  | unregister (h : Nat)
  | flush (h : Nat)
  | loadPartial (h : Nat)
  | emitPartial (h : Nat)
  | clear (h : Nat)
  | kill (h : Nat)
  | collect (h : Nat)
  | close (h : Nat)
  | remove (h : Nat)
  | finish (h : Nat)

namespace Proc
variable (p : Proc)

/-- What a command on the node finds of a capture file. -/
def content (stream : Stream) : Bytes := if p.removed then [] else p.file stream

/-- `_emit_line`; a write to a closed log is an exception that is suppressed. -/
def emit (stream : Stream) (line : Txt) : Proc :=
  { p with
    emitted := p.emitted ++ [(stream, line)]
    log := if p.hasLog && !p.closed then p.log ++ [(stream, line)] else p.log
    late := if p.hasLog && p.closed then p.late ++ [(stream, line)] else p.late }

def setOff (stream : Stream) (size : Int) : Proc :=
  { p with off := Function.update p.off stream size }

def setBuf (stream : Stream) (b : Txt) : Proc :=
  { p with buf := Function.update p.buf stream b }

def write (stream : Stream) (bytes : Bytes) : Proc :=
  { p with file := Function.update p.file stream (p.file stream ++ bytes) }

def setStopper (x : Stopper) : Proc := { p with stopper := x }

/-- The step of `_flush_partial` or of `stop` after the flush of a stream. -/
def afterFlush : Stream → Stopper
  | .o => .flushing .e
  | .e => .killing

def fragments (h : Nat) : List Fragment := [⟨h, .o, p.off .o⟩, ⟨h, .e, p.off .e⟩]

/-- A step of `stop`, where it stands. -/
def stopStep : Step → Option Proc
  | .flush _ =>
    match p.stopper with
    | .flushing stream =>
      some (p.setStopper (if p.buf stream = [] then afterFlush stream else .loading stream))
    | _ => none
  | .loadPartial _ =>
    match p.stopper with
    | .loading stream => some (p.setStopper (.emitting stream (p.buf stream)))
    | _ => none
  | .emitPartial _ =>
    match p.stopper with
    | .emitting stream line => some ((p.emit stream line).setStopper (.clearing stream))
    | _ => none
  | .clear _ =>
    match p.stopper with
    | .clearing stream => some ((p.setBuf stream []).setStopper (afterFlush stream))
    | _ => none
  | .kill _ =>
    if p.stopper = .killing then
      some { p with ended := p.ended || p.hasPid, stopper := .collecting }
    else none
  | .collect _ => if p.stopper = .collecting then some (p.setStopper .closing) else none
  | .close _ =>
    if p.stopper = .closing then some { p with closed := p.hasLog, stopper := .removing }
    else none
  | .remove _ =>
    if p.stopper = .removing then some { p with removed := true, stopper := .returning }
    else none
  | .finish _ => if p.stopper = .returning then some (p.setStopper .done) else none
  | _ => none

end Proc

namespace State
variable (s : State)

def setProc (h : Nat) (p : Proc) : State := { s with procs := Function.update s.procs h (some p) }

def fragments : List Fragment :=
  s.registered.flatMap fun h => ((s.procs h).map fun p => p.fragments h).getD []

def content (h : Nat) (stream : Stream) : Bytes :=
  ((s.procs h).map fun p => p.content stream).getD []

/-- A step of the poller on the handle of an item. -/
def onItem (i : Item) (f : Proc → Proc) (next : Poller) : Option State :=
  (s.procs i.handle).map fun p => { s.setProc i.handle (f p) with poller := next }

/-- A step of `stop`. -/
def onStop (h : Nat) (l : Step) : Option State :=
  (s.procs h).bind fun p => (p.stopStep l).map fun p' => s.setProc h p'

/-- What a step makes of the state, if it is possible. -/
def step : Step → Option State
  | .start h out err hasPid hasLog =>
    if s.procs h = none then
      some { s.setProc h { file := fun | .o => out | .e => err, hasPid, hasLog } with
        registered := s.registered ++ [h] }
    else none
  | .write h stream bytes =>
    (s.procs h).bind fun p => if p.ended then none else some (s.setProc h (p.write stream bytes))
  | .processEnd h => (s.procs h).map fun p => s.setProc h { p with ended := true }
  | .begin =>
    if s.poller = .idle then
      some (if s.registered = [] then s
        else { s with poller := .script s.registered s.fragments [] })
    else none
  | .measure =>
    match s.poller with
    | .script ids (f :: todo) out =>
      let content := s.content f.handle f.stream
      let size := content.length
      some { s with
        poller :=
          if f.count size = 0 then .script ids todo (out ++ [f.read size content])
          else .measured ids f size todo out }
    | _ => none
  | .tail =>
    match s.poller with
    | .measured ids f size todo out =>
      some { s with
        poller := .script ids todo (out ++ [f.read size (s.content f.handle f.stream)]) }
    | _ => none
  | .reply cut =>
    match s.poller with
    | .script ids [] out =>
      some { s with
        poller := ((itemsOf ids (decode (responseOf out cut))).map Poller.dispatching).getD .hung }
    | _ => none
  | .dispatch =>
    match s.poller with
    | .dispatching [] => some { s with poller := .idle }
    | .dispatching (i :: items) =>
      s.onItem i (fun p => p.setOff i.stream i.size)
        (if i.data = [] then .dispatching items else .feeding i items)
    | _ => none
  | .load =>
    match s.poller with
    | .feeding i items =>
      (s.procs i.handle).map fun p => { s with poller := .loaded i (p.buf i.stream) items }
    | _ => none
  | .append =>
    match s.poller with
    | .loaded i b items =>
      s.onItem i (fun p => p.setBuf i.stream (b ++ i.data)) (.appended i items)
    | _ => none
  | .split =>
    match s.poller with
    | .appended i items =>
      (s.procs i.handle).map fun p =>
        let cut := splitRest (p.buf i.stream)
        { s with poller := .split i cut.1 cut.2 items }
    | _ => none
  | .store =>
    match s.poller with
    | .split i lines rest items =>
      s.onItem i (fun p => p.setBuf i.stream rest) (.emitting i lines items)
    | _ => none
  | .emit =>
    match s.poller with
    | .emitting _ [] items => some { s with poller := .dispatching items }
    | .emitting i (line :: lines) items =>
      s.onItem i (fun p => p.emit i.stream line) (.emitting i lines items)
    | _ => none
  | .unregister h =>
    (s.procs h).bind fun p =>
      if p.stopper = .no then
        some { s.setProc h (p.setStopper (.flushing .o)) with
          registered := s.registered.filter (· ≠ h) }
      else none
  | .flush h => s.onStop h (.flush h)
  | .loadPartial h => s.onStop h (.loadPartial h)
  | .emitPartial h => s.onStop h (.emitPartial h)
  | .clear h => s.onStop h (.clear h)
  | .kill h => s.onStop h (.kill h)
  | .collect h => s.onStop h (.collect h)
  | .close h => s.onStop h (.close h)
  | .remove h => s.onStop h (.remove h)
  | .finish h => s.onStop h (.finish h)

def next (l : Step) (s : State) : State := (s.step l).getD s

end State

def start : State := {}

/-- The run of a sequence of steps. -/
def run (steps : List Step) : State := after State.next start steps

/-- Every step is possible where it stands. -/
def Possible (steps : List Step) : Prop :=
  Steps State.next (fun s l => (s.step l).isSome = true) start steps

instance (steps : List Step) : Decidable (Possible steps) :=
  Steps.decidable State.next (fun s l => (s.step l).isSome = true) start steps

/-- The lines of one stream. -/
def linesOf (stream : Stream) (ls : List (Stream × Txt)) : List Txt :=
  (ls.filter (·.1 = stream)).map (·.2)

/-- `_flush_partial` has not come to the stream. -/
def Stopper.unflushed : Stopper → Stream → Bool
  | .no, _ => true
  | .flushing .o, _ => true
  | .flushing .e, .e => true
  | .loading .o, .e => true
  | .emitting .o _, .e => true
  | .clearing .o, .e => true
  | _, _ => false

def Proc.Unflushed (p : Proc) (stream : Stream) : Prop := p.stopper.unflushed stream = true

instance (p : Proc) (stream : Stream) : Decidable (p.Unflushed stream) :=
  inferInstanceAs (Decidable (_ = _))

/-- The first bytes of the capture file, up to the offset, as text. -/
def Proc.read (p : Proc) (stream : Stream) : Txt :=
  decode ((p.file stream).take (p.off stream).toNat)

/-! ## What a step has done -/

section Step
variable {s s' : State}

theorem step_start {h : Nat} {out err : Bytes} {hasPid hasLog : Bool}
    (hstep : s.step (.start h out err hasPid hasLog) = some s') :
    s.procs h = none ∧ s' =
      { s.setProc h { file := fun | .o => out | .e => err, hasPid, hasLog } with
        registered := s.registered ++ [h] } := by
  obtain ⟨hnone, hs'⟩ := Option.ite_none_right_eq_some.1 hstep
  exact ⟨hnone, (Option.some.inj hs').symm⟩

theorem step_write {h : Nat} {stream : Stream} {bytes : Bytes}
    (hstep : s.step (.write h stream bytes) = some s') :
    ∃ p, s.procs h = some p ∧ p.ended = false ∧ s' = s.setProc h (p.write stream bytes) := by
  obtain ⟨p, hp, hstep⟩ := Option.bind_eq_some_iff.1 hstep
  obtain ⟨hended, hs'⟩ := Option.ite_none_left_eq_some.1 hstep
  exact ⟨p, hp, eq_false_of_ne_true hended, (Option.some.inj hs').symm⟩

theorem step_processEnd {h : Nat} (hstep : s.step (.processEnd h) = some s') :
    ∃ p, s.procs h = some p ∧ s' = s.setProc h { p with ended := true } := by
  obtain ⟨p, hp, rfl⟩ := Option.map_eq_some_iff.1 hstep
  exact ⟨p, hp, rfl⟩

theorem step_begin (hstep : s.step .begin = some s') :
    s.poller = .idle ∧
    (s' = s ∨ s' = { s with poller := .script s.registered s.fragments [] }) := by
  obtain ⟨hidle, hs'⟩ := Option.ite_none_right_eq_some.1 hstep
  split at hs'
  · exact ⟨hidle, Or.inl (Option.some.inj hs').symm⟩
  · exact ⟨hidle, Or.inr (Option.some.inj hs').symm⟩

theorem step_measure (hstep : s.step .measure = some s') :
    ∃ ids f todo out, s.poller = .script ids (f :: todo) out ∧
      s' = { s with
        poller :=
          if f.count (s.content f.handle f.stream).length = 0 then
            .script ids todo
              (out ++ [f.read (s.content f.handle f.stream).length (s.content f.handle f.stream)])
          else .measured ids f (s.content f.handle f.stream).length todo out } := by
  rw [State.step] at hstep
  split at hstep
  · next ids f todo out hpc => exact ⟨ids, f, todo, out, hpc, (Option.some.inj hstep).symm⟩
  · cases hstep

theorem step_tail (hstep : s.step .tail = some s') :
    ∃ ids f size todo out, s.poller = .measured ids f size todo out ∧
      s' = { s with
        poller := .script ids todo (out ++ [f.read size (s.content f.handle f.stream)]) } := by
  rw [State.step] at hstep
  split at hstep
  · next ids f size todo out hpc =>
    exact ⟨ids, f, size, todo, out, hpc, (Option.some.inj hstep).symm⟩
  · cases hstep

theorem step_reply {cut : Nat} (hstep : s.step (.reply cut) = some s') :
    ∃ ids out, s.poller = .script ids [] out ∧
      s' = { s with
        poller := ((itemsOf ids (decode (responseOf out cut))).map
          Poller.dispatching).getD .hung } := by
  rw [State.step] at hstep
  split at hstep
  · next ids out hpc => exact ⟨ids, out, hpc, (Option.some.inj hstep).symm⟩
  · cases hstep

theorem step_dispatch (hstep : s.step .dispatch = some s') :
    s.poller = .dispatching [] ∧ s' = { s with poller := .idle } ∨
      ∃ i items p, s.poller = .dispatching (i :: items) ∧ s.procs i.handle = some p ∧
        s' = { s.setProc i.handle (p.setOff i.stream i.size) with
          poller := if i.data = [] then .dispatching items else .feeding i items } := by
  rw [State.step] at hstep
  split at hstep
  · next hpc => exact Or.inl ⟨hpc, (Option.some.inj hstep).symm⟩
  · next i items hpc =>
    obtain ⟨p, hp, rfl⟩ := Option.map_eq_some_iff.1 hstep
    exact Or.inr ⟨i, items, p, hpc, hp, rfl⟩
  · cases hstep

theorem step_load (hstep : s.step .load = some s') :
    ∃ i items p, s.poller = .feeding i items ∧ s.procs i.handle = some p ∧
      s' = { s with poller := .loaded i (p.buf i.stream) items } := by
  rw [State.step] at hstep
  split at hstep
  · next i items hpc =>
    obtain ⟨p, hp, rfl⟩ := Option.map_eq_some_iff.1 hstep
    exact ⟨i, items, p, hpc, hp, rfl⟩
  · cases hstep

theorem step_append (hstep : s.step .append = some s') :
    ∃ i b items p, s.poller = .loaded i b items ∧ s.procs i.handle = some p ∧
      s' = { s.setProc i.handle (p.setBuf i.stream (b ++ i.data)) with
        poller := .appended i items } := by
  rw [State.step] at hstep
  split at hstep
  · next i b items hpc =>
    obtain ⟨p, hp, rfl⟩ := Option.map_eq_some_iff.1 hstep
    exact ⟨i, b, items, p, hpc, hp, rfl⟩
  · cases hstep

theorem step_split (hstep : s.step .split = some s') :
    ∃ i items p, s.poller = .appended i items ∧ s.procs i.handle = some p ∧
      s' = { s with
        poller := .split i (splitRest (p.buf i.stream)).1 (splitRest (p.buf i.stream)).2
          items } := by
  rw [State.step] at hstep
  split at hstep
  · next i items hpc =>
    obtain ⟨p, hp, rfl⟩ := Option.map_eq_some_iff.1 hstep
    exact ⟨i, items, p, hpc, hp, rfl⟩
  · cases hstep

theorem step_store (hstep : s.step .store = some s') :
    ∃ i lines rest items p, s.poller = .split i lines rest items ∧ s.procs i.handle = some p ∧
      s' = { s.setProc i.handle (p.setBuf i.stream rest) with
        poller := .emitting i lines items } := by
  rw [State.step] at hstep
  split at hstep
  · next i lines rest items hpc =>
    obtain ⟨p, hp, rfl⟩ := Option.map_eq_some_iff.1 hstep
    exact ⟨i, lines, rest, items, p, hpc, hp, rfl⟩
  · cases hstep

theorem step_emit (hstep : s.step .emit = some s') :
    (∃ i items, s.poller = .emitting i [] items ∧
        s' = { s with poller := .dispatching items }) ∨
      ∃ i line lines items p, s.poller = .emitting i (line :: lines) items ∧
        s.procs i.handle = some p ∧
        s' = { s.setProc i.handle (p.emit i.stream line) with
          poller := .emitting i lines items } := by
  rw [State.step] at hstep
  split at hstep
  · next i items hpc => exact Or.inl ⟨i, items, hpc, (Option.some.inj hstep).symm⟩
  · next i line lines items hpc =>
    obtain ⟨p, hp, rfl⟩ := Option.map_eq_some_iff.1 hstep
    exact Or.inr ⟨i, line, lines, items, p, hpc, hp, rfl⟩
  · cases hstep

theorem step_unregister {h : Nat} (hstep : s.step (.unregister h) = some s') :
    ∃ p, s.procs h = some p ∧ p.stopper = .no ∧
      s' = { s.setProc h (p.setStopper (.flushing .o)) with
        registered := s.registered.filter (· ≠ h) } := by
  obtain ⟨p, hp, hstep⟩ := Option.bind_eq_some_iff.1 hstep
  obtain ⟨hno, hs'⟩ := Option.ite_none_right_eq_some.1 hstep
  exact ⟨p, hp, hno, (Option.some.inj hs').symm⟩

theorem step_stop {h : Nat} {l : Step} (hstep : s.onStop h l = some s') :
    ∃ p p', s.procs h = some p ∧ p.stopStep l = some p' ∧ s' = s.setProc h p' := by
  obtain ⟨p, hp, hstep⟩ := Option.bind_eq_some_iff.1 hstep
  obtain ⟨p', hp', rfl⟩ := Option.map_eq_some_iff.1 hstep
  exact ⟨p, p', hp, hp', rfl⟩

/-- What a step of `stop` has done, in the order of its statements. -/
theorem stop_cases {p p' : Proc} {l : Step} (hstep : p.stopStep l = some p') :
    (∃ h stream, l = .flush h ∧ p.stopper = .flushing stream ∧
        p' = p.setStopper (if p.buf stream = [] then Proc.afterFlush stream else .loading stream)) ∨
      (∃ stream, p.stopper = .loading stream ∧
        p' = p.setStopper (.emitting stream (p.buf stream))) ∨
      (∃ stream line, p.stopper = .emitting stream line ∧
        p' = (p.emit stream line).setStopper (.clearing stream)) ∨
      (∃ stream, p.stopper = .clearing stream ∧
        p' = (p.setBuf stream []).setStopper (Proc.afterFlush stream)) ∨
      (p.stopper = .killing ∧
        p' = { p with ended := p.ended || p.hasPid, stopper := .collecting }) ∨
      (p.stopper = .collecting ∧ p' = p.setStopper .closing) ∨
      (p.stopper = .closing ∧ p' = { p with closed := p.hasLog, stopper := .removing }) ∨
      (p.stopper = .removing ∧ p' = { p with removed := true, stopper := .returning }) ∨
      p.stopper = .returning ∧ p' = p.setStopper .done := by
  unfold Proc.stopStep at hstep
  split at hstep
  all_goals try split at hstep
  all_goals cases hstep
  all_goals simp_all

end Step

end LiveStreaming
end Executors
end RocmTests

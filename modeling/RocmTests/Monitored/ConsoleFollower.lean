import Mathlib.Data.List.TakeDrop
import RocmTests.Conc.History
import RocmTests.Monitored.ConsoleLog

/-!
# Following a command's output

`RunContext.exec` with a `stdout_file` runs a command that writes to that file
while a thread copies the file to `console.log`.  The thread stops when it has
read nothing and then finds the event set that says the command has ended.  These
are two observations, and the command may write its last output and end between
them.  After the thread has stopped, the file is copied as text if the thread had
copied nothing at all.

The steps below are those of the workload, the thread and the caller, in any
order in which each is possible.  `read` is placed where its last look at the file
is; what it gives is then the unread part of the file, cut at the size asked for.
-/

namespace RocmTests
namespace Monitored
namespace ConsoleFollower

open Text Conc

/-! ## The state -/

/-- Where the thread `_follow` stands. -/
inductive Follower where
  | opening
  | reading
  | writing (chunk : Bytes)
  | checking
  | sleeping
  | finished
deriving DecidableEq

/-- Where the caller stands. -/
inductive Caller where
  | running
  | joining
  | repairing
  | finished
deriving DecidableEq

structure State where
  /-- Content of `stdout_file`. -/
  content : Bytes := []
  ended : Bool := false
  done : Bool := false
  /-- Position of the thread's reader. -/
  offset : Nat := 0
  streamed : Nat := 0
  /-- What the command has added to `console.log`. -/
  console : Bytes := []
  follower : Follower := .opening
  caller : Caller := .running
deriving DecidableEq

def chunkSize : Nat := 65536

/-- What `append_console` writes. -/
def appendConsole (text : Txt) : Bytes := Utf8.encode (consoleText text)

/-- The copy of the file that is made when nothing was streamed. -/
def repaired (content : Bytes) : Bytes := appendConsole (readText content)

inductive Step where
  | append (bytes : Bytes)
  | commandEnd
  | setDone
  | openFile
  | read
  | write
  | check
  | wake
  | join
  | repair
deriving DecidableEq

def Follower.isWriting : Follower → Bool
  | .writing _ => true
  | _ => false

def Follower.chunk : Follower → Bytes
  | .writing chunk => chunk
  | _ => []

namespace State

def unread (s : State) : Bytes := s.content.drop s.offset

/-- Whether a step is possible.  The join waits for the thread. -/
def enabled (s : State) : Step → Bool
  | .append _ => !s.ended
  | .commandEnd => !s.ended
  | .setDone => s.ended && s.caller = .running
  | .openFile => s.follower = .opening
  | .read => s.follower = .reading
  | .write => s.follower.isWriting
  | .check => s.follower = .checking
  | .wake => s.follower = .sleeping
  | .join => s.caller = .joining && s.follower = .finished
  | .repair => s.caller = .repairing

def afterRead (s : State) : State :=
  let chunk := s.unread.take chunkSize
  if chunk = [] then { s with follower := .checking }
  else { s with offset := s.offset + chunk.length, follower := .writing chunk }

def next (l : Step) (s : State) : State :=
  match l with
  | .append bytes => { s with content := s.content ++ bytes }
  | .commandEnd => { s with ended := true }
  | .setDone => { s with done := true, caller := .joining }
  | .openFile => { s with follower := .reading }
  | .read => s.afterRead
  | .write =>
    { s with
      console := s.console ++ s.follower.chunk
      streamed := s.streamed + s.follower.chunk.length
      follower := .reading }
  | .check => { s with follower := if s.done then .finished else .sleeping }
  | .wake => { s with follower := .reading }
  | .join => { s with caller := .repairing }
  | .repair =>
    { s with
      console := if s.streamed = 0 then s.console ++ repaired s.content else s.console
      caller := .finished }

end State

def start : State := {}

/-- The run of a sequence of steps. -/
def run (steps : List Step) : State := after State.next start steps

/-- Every step is possible where it stands. -/
def Possible (steps : List Step) : Prop :=
  Steps State.next (fun s l => s.enabled l = true) start steps

instance (steps : List Step) : Decidable (Possible steps) :=
  Steps.decidable State.next (fun s l => s.enabled l = true) start steps

/-! ## What every run keeps -/

/-- The thread copies the file from its beginning without gaps. -/
structure Inv (s : State) : Prop where
  copied : s.caller ≠ .finished → s.console ++ s.follower.chunk = s.content.take s.offset
  counted : s.streamed + s.follower.chunk.length = s.offset
  inside : s.offset ≤ s.content.length
  ended : s.done = true → s.ended = true
  running : s.done = false ↔ s.caller = .running
  stopped : s.follower = .finished → s.done = true
  joined : s.caller = .repairing ∨ s.caller = .finished → s.follower = .finished
  closed : s.caller = .finished →
    s.console = if s.offset = 0 then repaired s.content else s.content.take s.offset

theorem inv_start : Inv start where
  copied := fun _ => rfl
  counted := rfl
  inside := Nat.le_refl 0
  ended := by intro h; cases h
  running := by decide
  stopped := by intro h; cases h
  joined := by rintro (h | h) <;> cases h
  closed := by intro h; cases h

variable {s : State}

theorem inv_append (h : Inv s) (hs : s.ended = false) (bytes : Bytes) :
    Inv (s.next (.append bytes)) where
  copied := fun hc => (h.copied hc).trans (List.take_append_of_le_length h.inside).symm
  counted := h.counted
  inside := by
    show s.offset ≤ (s.content ++ bytes).length
    rw [List.length_append]
    have := h.inside
    omega
  ended := h.ended
  running := h.running
  stopped := h.stopped
  joined := h.joined
  closed := by
    -- the caller finishes after the command has ended
    intro hc
    have hdone := h.stopped (h.joined (Or.inr hc))
    rw [h.ended hdone] at hs
    cases hs

/-- A thread that has not stopped keeps the caller before its last phases. -/
theorem caller_of_not_finished (h : Inv s) (hf : s.follower ≠ .finished) :
    s.caller ≠ .repairing ∧ s.caller ≠ .finished :=
  ⟨fun hc => hf (h.joined (Or.inl hc)), fun hc => hf (h.joined (Or.inr hc))⟩

/-- The thread moves between two places where it holds no chunk. -/
theorem inv_move (h : Inv s) {f : Follower} (hs : s.follower ≠ .finished)
    (hchunk : s.follower.chunk = []) (hf : f.chunk = []) (hstop : f = .finished → s.done = true) :
    Inv { s with follower := f } where
  copied := by
    intro hc
    have := h.copied hc
    rw [hchunk] at this
    show s.console ++ f.chunk = s.content.take s.offset
    rw [hf, this]
  counted := by
    have := h.counted
    rw [hchunk] at this
    show s.streamed + f.chunk.length = s.offset
    rw [hf, this]
  inside := h.inside
  ended := h.ended
  running := h.running
  stopped := hstop
  joined := by
    intro hc
    obtain ⟨hr, hfin⟩ := caller_of_not_finished h hs
    rcases hc with hc | hc
    · exact absurd hc hr
    · exact absurd hc hfin
  closed := fun hc => absurd hc (caller_of_not_finished h hs).2

theorem inv_read (h : Inv s) (hs : s.follower = .reading) : Inv (s.next .read) := by
  have hne : s.follower ≠ .finished := by rw [hs]; decide
  have hchunk : s.follower.chunk = [] := by rw [hs]; rfl
  show Inv s.afterRead
  unfold State.afterRead
  by_cases hempty : s.unread.take chunkSize = []
  · simp only [if_pos hempty]
    exact inv_move h hne hchunk rfl (by intro hf; cases hf)
  · simp only [if_neg hempty]
    have hcopied := h.copied (caller_of_not_finished h hne).2
    have hcounted := h.counted
    rw [hchunk] at hcopied hcounted
    rw [List.append_nil] at hcopied
    have hlen : (s.unread.take chunkSize).length ≤ s.content.length - s.offset := by
      rw [← List.length_drop]
      exact List.length_take_le' chunkSize s.unread
    have hinside := h.inside
    refine
      { copied := ?_
        counted := ?_
        inside := ?_
        ended := h.ended
        running := h.running
        stopped := by intro hf; cases hf
        joined := ?_
        closed := fun hc => absurd hc (caller_of_not_finished h hne).2 }
    · intro _
      show s.console ++ s.unread.take chunkSize =
        s.content.take (s.offset + (s.unread.take chunkSize).length)
      rw [hcopied, List.take_add]
      congr 1
      show s.unread.take chunkSize = s.unread.take (s.unread.take chunkSize).length
      rw [List.take_eq_take_iff, List.length_take]
      omega
    · show s.streamed + (s.unread.take chunkSize).length =
        s.offset + (s.unread.take chunkSize).length
      simp only [List.length_nil, Nat.add_zero] at hcounted
      omega
    · show s.offset + (s.unread.take chunkSize).length ≤ s.content.length
      omega
    · intro hc
      obtain ⟨hr, hfin⟩ := caller_of_not_finished h hne
      rcases hc with hc | hc
      · exact absurd hc hr
      · exact absurd hc hfin

theorem inv_write (h : Inv s) (hs : s.follower.isWriting = true) : Inv (s.next .write) := by
  have hne : s.follower ≠ .finished := by
    intro hf
    rw [hf] at hs
    cases hs
  have hcopied := h.copied (caller_of_not_finished h hne).2
  refine
    { copied := ?_
      counted := h.counted
      inside := h.inside
      ended := h.ended
      running := h.running
      stopped := by intro hf; cases hf
      joined := ?_
      closed := fun hc => absurd hc (caller_of_not_finished h hne).2 }
  · intro _
    show s.console ++ s.follower.chunk ++ [] = s.content.take s.offset
    rw [List.append_nil, hcopied]
  · intro hc
    obtain ⟨hr, hfin⟩ := caller_of_not_finished h hne
    rcases hc with hc | hc
    · exact absurd hc hr
    · exact absurd hc hfin

theorem inv_repair (h : Inv s) (hs : s.caller = .repairing) : Inv (s.next .repair) := by
  have hfol : s.follower = .finished := h.joined (Or.inl hs)
  have hchunk : s.follower.chunk = [] := by rw [hfol]; rfl
  have hcopied := h.copied (by rw [hs]; decide)
  have hcounted := h.counted
  rw [hchunk] at hcopied hcounted
  rw [List.append_nil] at hcopied
  simp only [List.length_nil, Nat.add_zero] at hcounted
  refine
    { copied := fun hc => absurd rfl hc
      counted := h.counted
      inside := h.inside
      ended := h.ended
      running := ?_
      stopped := h.stopped
      joined := fun _ => hfol
      closed := ?_ }
  · show s.done = false ↔ Caller.finished = .running
    rw [h.running, hs]
    decide
  · intro _
    show (if s.streamed = 0 then s.console ++ repaired s.content else s.console) =
      if s.offset = 0 then repaired s.content else s.content.take s.offset
    by_cases hzero : s.offset = 0
    · have hconsole : s.console = [] := by rw [hcopied, hzero, List.take_zero]
      rw [if_pos (by omega), if_pos hzero, hconsole, List.nil_append]
    · rw [if_neg (by omega), if_neg hzero, hcopied]

/-- Every possible step keeps the invariant. -/
theorem inv_next (h : Inv s) {l : Step} (hl : s.enabled l = true) : Inv (s.next l) := by
  cases l with
  | append bytes => exact inv_append h (by simpa [State.enabled] using hl) bytes
  | commandEnd => exact { h with ended := fun _ => rfl }
  | setDone =>
    have hc : s.ended = true ∧ s.caller = .running := by simpa [State.enabled] using hl
    refine
      { h with
        copied := fun _ => h.copied (by rw [hc.2]; decide)
        ended := fun _ => hc.1
        running := ?_
        stopped := fun _ => rfl
        joined := by rintro (hf | hf) <;> cases hf
        closed := by intro hf; cases hf }
    show true = false ↔ Caller.joining = .running
    decide
  | openFile =>
    have hf : s.follower = .opening := of_decide_eq_true hl
    exact inv_move h (by rw [hf]; decide) (by rw [hf]; rfl) rfl (by intro h; cases h)
  | read => exact inv_read h (of_decide_eq_true hl)
  | write => exact inv_write h hl
  | check =>
    have hf : s.follower = .checking := of_decide_eq_true hl
    have hnot : s.follower ≠ .finished := by rw [hf]; decide
    have hchunk : s.follower.chunk = [] := by rw [hf]; rfl
    cases hdone : s.done with
    | true =>
      have hnext : s.next .check = { s with follower := .finished } := by
        simp [State.next, hdone]
      rw [hnext]
      exact inv_move h hnot hchunk rfl fun _ => hdone
    | false =>
      have hnext : s.next .check = { s with follower := .sleeping } := by
        simp [State.next, hdone]
      rw [hnext]
      exact inv_move h hnot hchunk rfl (by intro h; cases h)
  | wake =>
    have hf : s.follower = .sleeping := of_decide_eq_true hl
    exact inv_move h (by rw [hf]; decide) (by rw [hf]; rfl) rfl (by intro h; cases h)
  | join =>
    have hc : s.caller = .joining ∧ s.follower = .finished := by simpa [State.enabled] using hl
    refine
      { h with
        copied := fun _ => h.copied (by rw [hc.1]; decide)
        running := ?_
        joined := fun _ => hc.2
        closed := by intro hf; cases hf }
    show s.done = false ↔ Caller.repairing = .running
    rw [h.running, hc.1]
    decide
  | repair => exact inv_repair h (of_decide_eq_true hl)

/-! ## When the copy is exact -/

/-- Nothing is left unread, or nothing was streamed and the copy made afterwards is
the file itself. -/
def State.Complete (s : State) : Prop :=
  s.unread = [] ∨ s.streamed = 0 ∧ repaired s.content = s.content

instance (s : State) : Decidable s.Complete := inferInstanceAs (Decidable (_ ∨ _))

/-- A check that finds the event set is made on a complete copy.  The other steps
meet this always. -/
def Timely (s : State) (l : Step) : Prop := l = .check → s.done = true → s.Complete

instance (s : State) (l : Step) : Decidable (Timely s l) :=
  inferInstanceAs (Decidable (_ → _ → _))

theorem timely_of_ne {l : Step} (h : l ≠ .check) : Timely s l := fun hl => absurd hl h

/-- Once the thread has stopped, the file and the reader rest. -/
theorem next_of_stopped (h : Inv s) (hf : s.follower = .finished) {l : Step}
    (hl : s.enabled l = true) :
    l ≠ .check ∧ (s.next l).follower = .finished ∧ ((s.next l).Complete ↔ s.Complete) := by
  have hdone := h.stopped hf
  have hended := h.ended hdone
  cases l with
  | append bytes => simp [State.enabled, hended] at hl
  | commandEnd => simp [State.enabled, hended] at hl
  | setDone =>
    have hcaller : s.caller = .running := by
      simp only [State.enabled, Bool.and_eq_true, decide_eq_true_eq] at hl
      exact hl.2
    rw [h.running.mpr hcaller] at hdone
    cases hdone
  | openFile => simp [State.enabled, hf] at hl
  | read => simp [State.enabled, hf] at hl
  | write => simp [State.enabled, hf, Follower.isWriting] at hl
  | check => simp [State.enabled, hf] at hl
  | wake => simp [State.enabled, hf] at hl
  | join => exact ⟨by decide, hf, Iff.rfl⟩
  | repair => exact ⟨by decide, hf, Iff.rfl⟩

/-- A step of a thread that has not stopped leaves it so, unless it is a check that
finds the event set. -/
theorem next_of_following (hf : s.follower ≠ .finished) {l : Step}
    (hl : (s.next l).follower = .finished) : l = .check ∧ s.done = true := by
  cases l with
  | check =>
    cases hdone : s.done with
    | true => exact ⟨rfl, rfl⟩
    | false => simp [State.next, hdone] at hl
  | read =>
    simp only [State.next, State.afterRead] at hl
    split_ifs at hl
  | append bytes => exact absurd hl hf
  | commandEnd => exact absurd hl hf
  | setDone => exact absurd hl hf
  | openFile => cases hl
  | write => cases hl
  | wake => cases hl
  | join => exact absurd hl hf
  | repair => exact absurd hl hf

/-- The steps so far and the state they led to: while the thread runs no check has
found the event set, and afterwards the copy is complete exactly if that check was
timely. -/
def Account (steps : List Step) (s : State) : Prop :=
  Inv s ∧ (s.follower ≠ .finished → Steps State.next Timely start steps) ∧
    (s.follower = .finished → (Steps State.next Timely start steps ↔ s.Complete)) ∧
    s = run steps

theorem account_snoc {steps : List Step} {l : Step} (h : Account steps s)
    (hl : s.enabled l = true) : Account (steps ++ [l]) (s.next l) := by
  obtain ⟨hinv, hrunning, hstopped, hrun⟩ := h
  have hsteps : Steps State.next Timely start (steps ++ [l]) ↔
      Steps State.next Timely start steps ∧ Timely s l := by
    rw [steps_snoc, hrun]
    rfl
  refine ⟨inv_next hinv hl, ?_, ?_, ?_⟩
  · intro hnext
    have hfol : s.follower ≠ .finished := by
      intro hf
      exact hnext (next_of_stopped hinv hf hl).2.1
    rw [hsteps]
    refine ⟨hrunning hfol, ?_⟩
    rintro rfl hdone
    exact absurd (by simp [State.next, hdone]) hnext
  · intro hnext
    by_cases hfol : s.follower = .finished
    · obtain ⟨hne, _, hcomplete⟩ := next_of_stopped hinv hfol hl
      rw [hsteps, hcomplete, ← hstopped hfol]
      exact and_iff_left (timely_of_ne hne)
    · obtain ⟨rfl, hdone⟩ := next_of_following hfol hnext
      rw [hsteps]
      constructor
      · intro h
        exact h.2 rfl hdone
      · intro h
        exact ⟨hrunning hfol, fun _ _ => h⟩
  · rw [hrun]
    exact (after_snoc start steps l).symm

theorem account {steps : List Step} (h : Possible steps) : Account steps (run steps) := by
  have hstart : Account [] start :=
    ⟨inv_start, fun _ => trivial, (fun hf => by cases hf), rfl⟩
  have hsteps : Steps State.next (fun s l => s.enabled l = true) start steps := h
  exact hsteps.invariant hstart fun _ _ _ hacc hl => account_snoc hacc hl

/-- The bytes that the command adds to the console log are those of its output file
exactly if no check found the event set while output was still unread. -/
theorem console_exact_iff {steps : List Step} (hpossible : Possible steps)
    (hfinished : (run steps).caller = .finished) :
    (run steps).console = (run steps).content ↔ Steps State.next Timely start steps := by
  obtain ⟨hinv, _, hstopped, _⟩ := account hpossible
  have hfol := hinv.joined (Or.inr hfinished)
  have hcounted := hinv.counted
  rw [hfol] at hcounted
  have hstreamed : (run steps).streamed = (run steps).offset := hcounted
  rw [hstopped hfol, hinv.closed hfinished, State.Complete, State.unread, hstreamed]
  by_cases hzero : (run steps).offset = 0
  · rw [if_pos hzero, hzero, List.drop_zero]
    constructor
    · intro h
      exact Or.inr ⟨rfl, h⟩
    · rintro (h | h)
      · rw [h]
        rfl
      · exact h.2
  · rw [if_neg hzero, List.drop_eq_nil_iff, List.take_eq_self_iff]
    constructor
    · intro h
      exact Or.inl h
    · rintro (h | h)
      · exact h
      · exact absurd h.1 hzero

/-- The output arrives in two parts, and the thread looks once more after the end. -/
def calmRun : List Step :=
  [.openFile, .append [65], .read, .write, .read, .check, .append [66, 10], .commandEnd, .setDone,
    .wake, .read, .write, .read, .check, .join, .repair]

theorem console_exact_calmRun :
    Possible calmRun ∧ (run calmRun).caller = .finished ∧
      (run calmRun).console = (run calmRun).content := by
  have hpossible : Possible calmRun := by decide
  have hfinished : (run calmRun).caller = .finished := by decide
  have htimely : Steps State.next Timely start calmRun := by decide
  exact ⟨hpossible, hfinished, (console_exact_iff hpossible hfinished).mpr htimely⟩

/-- The last output and the end come between the thread's empty read and its check. -/
def lostTailRun : List Step :=
  [.openFile, .append [65], .read, .write, .read, .append [66, 10], .commandEnd, .setDone, .check,
    .join, .repair]

theorem lostTailRun_loses_output :
    Possible lostTailRun ∧ (run lostTailRun).caller = .finished ∧
      (run lostTailRun).console ≠ (run lostTailRun).content := by
  decide

-- only the first part has reached the console log
example : (run lostTailRun).content = [65, 66, 10] ∧ (run lostTailRun).console = [65] := by
  decide

end ConsoleFollower
end Monitored
end RocmTests

import RocmTests.Executors.ExactlyOnce

/-!
# What is in the log after `stop`

`stop` flushes the partial lines and closes the log without a last read.  The log is whole
when everything has been read before, and the poller is not at work on the stream.
-/

namespace RocmTests
namespace Executors
namespace LiveStreaming

open Text Text.Utf8 Conc

/-- The log has every line of both capture files once. -/
def Proc.Whole (p : Proc) : Prop :=
  ∀ stream, (linesOf stream p.log).Perm (fileLines (decode (p.file stream)))

/-- All that is in the file has been read, and `_feed` is not at work on the stream. -/
def ReadOut (pc : Poller) (h : Nat) (p : Proc) (stream : Stream) : Prop :=
  p.off stream = (p.file stream).length ∧ ∀ i ∈ pc.current, Item.key i ≠ (h, stream)

instance (pc : Poller) (h : Nat) (p : Proc) (stream : Stream) :
    Decidable (ReadOut pc h p stream) := by
  unfold ReadOut
  infer_instance

/-- `_flush_partial` comes to a stream of `h` that has been read out, and nothing is written to a
stream that it has come to. -/
def Settled (h : Nat) (s : State) : Step → Prop
  | .flush h' => h' = h → ∀ p ∈ s.procs h, ∀ stream ∈ [Stream.o, Stream.e],
      p.stopper = .flushing stream → ReadOut s.poller h p stream
  | .write h' stream _ => h' = h → ∀ p ∈ s.procs h, p.Unflushed stream
  | _ => True

instance (h : Nat) (s : State) (l : Step) : Decidable (Settled h s l) := by
  unfold Settled
  split <;> infer_instance

def SettledRun (h : Nat) (steps : List Step) : Prop :=
  Steps State.next (fun s l => (s.step l).isSome = true ∧ Clean s l ∧ Settled h s l) start steps

instance (h : Nat) (steps : List Step) : Decidable (SettledRun h steps) :=
  Steps.decidable State.next
    (fun s l => (s.step l).isSome = true ∧ Clean s l ∧ Settled h s l) start steps

/-! ## A stream that has been read out -/

/-- The poller has nothing for the stream, whose file has `n` bytes. -/
def Quiet (n : Nat) (h : Nat) (stream : Stream) : Poller → Prop
  | .script _ todo out =>
    (∀ f ∈ todo, Fragment.key f = (h, stream) → (n : Int) ≤ f.off) ∧
      ∀ g ∈ out, Fragment.key g.toFragment = (h, stream) → g.data = []
  | .measured _ f size todo out =>
    (Fragment.key f = (h, stream) → f.count size = 0) ∧
      (∀ f ∈ todo, Fragment.key f = (h, stream) → (n : Int) ≤ f.off) ∧
      ∀ g ∈ out, Fragment.key g.toFragment = (h, stream) → g.data = []
  | pc =>
    (∀ i ∈ pc.current, Item.key i ≠ (h, stream)) ∧
      ∀ i ∈ pc.items, Item.key i = (h, stream) → i.data = []

/-- What `stop` has in hand of a stream. -/
def Proc.left (p : Proc) (stream : Stream) : List Txt :=
  match p.stopper with
  | .loading stream' => if stream' = stream then [p.buf stream] else []
  | .emitting stream' line => if stream' = stream then [line] else []
  | _ => []

namespace Poller

/-- The item whose text stands in the buffer and has not been split. -/
def unsplit : Poller → Option Item
  | appended i _ => some i
  | split i _ _ _ => some i
  | _ => none

/-- The pieces of the buffer after the split. -/
def pieces : Poller → List Txt
  | split _ lines rest _ => rest :: lines
  | emitting _ lines _ => lines
  | _ => []

end Poller

/-- `stop` has come to the stream. -/
structure Flushed (pc : Poller) (h : Nat) (p : Proc) (stream : Stream) : Prop where
  quiet : Quiet (p.file stream).length h stream pc
  lines : linesOf stream p.emitted ++ p.left stream = fileLines (decode (p.file stream))

structure Kept (pc : Poller) (h : Nat) (p : Proc) : Prop where
  lines : ∀ stream, p.Unflushed stream → ∀ l ∈ linesOf stream p.emitted, '\n' ∉ l
  buf : ∀ stream, p.Unflushed stream → '\n' ∈ p.buf stream →
    ∃ i ∈ pc.unsplit, Item.key i = (h, stream)
  flushed : ∀ stream, ¬ p.Unflushed stream → Flushed pc h p stream
  closed : p.closed = true →
    p.stopper = .removing ∨ p.stopper = .returning ∨ p.stopper = .done
  log : p.hasLog = true → p.log = p.emitted ∧ p.late = []

structure StopInv (h : Nat) (s : State) : Prop where
  inv : Inv s
  pieces : ∀ l ∈ s.poller.pieces, '\n' ∉ l
  listed : h ∈ s.registered → ∀ p ∈ s.procs h, p.stopper = .no
  kept : ∀ p ∈ s.procs h, Kept s.poller h p

theorem stopInv_start (h : Nat) : StopInv h start where
  inv := inv_start
  pieces := fun l hl => absurd hl List.not_mem_nil
  listed := fun hh => absurd hh List.not_mem_nil
  kept := by
    intro p hp
    cases hp

variable {s : State} {h : Nat} {p : Proc} {stream : Stream} {pc : Poller}

theorem open_of_no (hno : p.stopper = .no) (stream : Stream) : p.Unflushed stream := by
  rw [Proc.Unflushed, hno]
  rfl

theorem Kept.closed_false (hk : Kept pc h p) (hopen : p.Unflushed stream) : p.closed = false := by
  refine eq_false_of_ne_true fun hclosed => ?_
  rw [Proc.Unflushed] at hopen
  rcases hk.closed hclosed with hpc | hpc | hpc
  all_goals
    rw [hpc] at hopen
    cases hopen

/-- The poller is at work only on streams that `stop` has not come to. -/
theorem Kept.open_of_current (hk : Kept pc h p) {i : Item} (hi : i ∈ pc.current)
    (hh : i.handle = h) : p.Unflushed i.stream := by
  by_contra hflushed
  have hquiet := (hk.flushed _ hflushed).quiet
  have hkey : Item.key i = (h, i.stream) := by rw [Item.key, hh]
  cases pc with
  | feeding j items => exact hquiet.1 i hi hkey
  | loaded j b items => exact hquiet.1 i hi hkey
  | appended j items => exact hquiet.1 i hi hkey
  | split j lines rest items => exact hquiet.1 i hi hkey
  | emitting j lines items => exact hquiet.1 i hi hkey
  | _ => cases hi

/-- A step of the poller that leaves the handle as it is. -/
theorem Kept.turn (hk : Kept pc h p) {pc' : Poller}
    (hunsplit : ∀ i ∈ pc.unsplit, i.handle = h → i ∈ pc'.unsplit)
    (hquiet : ∀ stream, ¬ p.Unflushed stream → Quiet (p.file stream).length h stream pc →
      Quiet (p.file stream).length h stream pc') : Kept pc' h p where
  lines := hk.lines
  buf := by
    intro stream hopen hmem
    obtain ⟨i, hi, hkey⟩ := hk.buf stream hopen hmem
    exact ⟨i, hunsplit i hi (Prod.mk.inj hkey).1, hkey⟩
  flushed := by
    intro stream hflushed
    obtain ⟨hq, hlines⟩ := hk.flushed stream hflushed
    exact ⟨hquiet stream hflushed hq, hlines⟩
  closed := hk.closed
  log := hk.log

/-! ## The poller passes a quiet stream -/

section Quiet
variable {n : Nat}

theorem count_eq_zero {f : Fragment} {size : Nat} (hle : (size : Int) ≤ f.off) :
    f.count size = 0 := by
  rw [Fragment.count, if_neg (by omega)]

theorem data_eq_nil {g : Segment} (hzero : g.count g.size = 0) : g.data = [] :=
  List.length_eq_zero_iff.1 (Nat.le_zero.1 (hzero ▸ g.fits))

theorem length_content_le (hp : s.procs h = some p) (stream : Stream) :
    (s.content h stream).length ≤ (p.file stream).length := by
  rw [State.content, hp, Option.map_some, Option.getD_some, Proc.content]
  split
  · exact Nat.zero_le _
  · exact Nat.le_refl _

theorem quiet_begin (hh : h ∉ s.registered) :
    Quiet n h stream (.script s.registered s.fragments []) := by
  refine ⟨fun f hf hkey => ?_, fun g hg => absurd hg List.not_mem_nil⟩
  have hhandle : f.handle = h := (Prod.mk.inj hkey).1
  exact absurd (hhandle ▸ (mem_fragments hf).1) hh

variable {ids : List Nat} {f : Fragment} {todo : List Fragment} {out : List Segment} {size : Nat}

theorem quiet_measure (hsize : f.handle = h → f.stream = stream → size ≤ n)
    (hq : Quiet n h stream (.script ids (f :: todo) out)) :
    Quiet n h stream (.measured ids f size todo out) := by
  obtain ⟨htodo, hout⟩ := hq
  refine ⟨fun hkey => count_eq_zero ?_, fun f' hf' => htodo f' (List.mem_cons_of_mem f hf'),
    hout⟩
  have hoff := htodo f List.mem_cons_self hkey
  have hle := hsize (Prod.mk.inj hkey).1 (Prod.mk.inj hkey).2
  omega

theorem quiet_read (content : Bytes) (hq : Quiet n h stream (.measured ids f size todo out)) :
    Quiet n h stream (.script ids todo (out ++ [f.read size content])) := by
  obtain ⟨hcount, htodo, hout⟩ := hq
  refine ⟨htodo, fun g hg hkey => ?_⟩
  rcases List.mem_append.1 hg with hg | hg
  · exact hout g hg hkey
  · cases List.mem_singleton.1 hg
    exact data_eq_nil (hcount hkey)

theorem quiet_reply {cut : Nat} (hq : Quiet n h stream (.script ids [] out)) :
    Quiet n h stream (.dispatching ((arrived out cut).map itemOf)) := by
  refine ⟨fun i hi => absurd hi (Option.not_mem_none i), fun i hi hkey => ?_⟩
  obtain ⟨g, hg, rfl⟩ := List.mem_map.1 (show i ∈ (arrived out cut).map itemOf from hi)
  have hdata := hq.2 g ((arrived_sub out cut).subset hg) hkey
  show decode g.data = []
  rw [hdata]
  rfl

variable {i : Item} {items : List Item}

theorem quiet_dispatch (hq : Quiet n h stream (.dispatching (i :: items))) :
    Quiet n h stream (if i.data = [] then .dispatching items else .feeding i items) := by
  obtain ⟨-, hitems⟩ := hq
  split
  · exact ⟨fun j hj => absurd hj (Option.not_mem_none j),
      fun j hj => hitems j (List.mem_cons_of_mem i hj)⟩
  · next hdata =>
    refine ⟨fun j hj hkey => ?_, fun j hj => hitems j (List.mem_cons_of_mem i hj)⟩
    cases Option.mem_some.1 hj
    exact hdata (hitems i List.mem_cons_self hkey)

/-- At the end of the file nothing is in flight. -/
theorem quiet_of_readOut (hinv : Inv s) (hp : s.procs h = some p) (hopen : p.Unflushed stream)
    (hread : ReadOut s.poller h p stream) : Quiet (p.file stream).length h stream s.poller := by
  obtain ⟨hoff, hcurrent⟩ := hread
  have hready := hinv.ready
  have hmem {h' : Nat} {st : Stream} (hkey : (h', st) = (h, stream)) :
      p ∈ s.procs h' ∧ p.Unflushed st ∧ p.off st = (p.file stream).length := by
    cases hkey
    exact ⟨hp, hopen, hoff⟩
  have htodo {f : Fragment} (hf : Current s.procs f) (hkey : Fragment.key f = (h, stream)) :
      ((p.file stream).length : Int) ≤ f.off := by
    obtain ⟨hp', hopen', hend⟩ := hmem hkey
    have := hf p hp' hopen'
    omega
  have hzero {f : Fragment} {size : Nat} (hf : Sized s.procs f size)
      (hkey : Fragment.key f = (h, stream)) : f.count size = 0 := by
    obtain ⟨hp', hopen', hend⟩ := hmem hkey
    obtain ⟨hoff', -, hsize⟩ := hf p hp' hopen'
    cases hkey
    exact count_eq_zero (by omega)
  have hitems {items : List Item} (hpending : ∀ i ∈ items, Pending s.procs i) :
      ∀ i ∈ items, Item.key i = (h, stream) → i.data = [] := by
    intro i hi hkey
    obtain ⟨hp', hopen', hend⟩ := hmem hkey
    obtain ⟨hle, hsize, htext⟩ := hpending i hi p hp' hopen'
    cases hkey
    have hall : i.size.toNat = (p.off i.stream).toNat := by omega
    rw [hall] at htext
    exact List.append_right_eq_self.1 htext
  generalize s.poller = pc at hready hcurrent
  cases pc with
  | script ids todo out =>
    exact ⟨fun f hf => htodo (hready.todo f hf),
      fun g hg hkey => data_eq_nil (hzero (hready.out g hg) hkey)⟩
  | measured ids f size todo out =>
    exact ⟨hzero (hready.sized _ rfl), fun f hf => htodo (hready.todo f hf),
      fun g hg hkey => data_eq_nil (hzero (hready.out g hg) hkey)⟩
  | _ => exact ⟨hcurrent, hitems hready.2.2⟩

end Quiet

/-! ## The poller feeds a stream -/

theorem left_setBuf {stream' : Stream} (hne : stream' ≠ stream) (b : Txt) :
    (p.setBuf stream b).left stream' = p.left stream' := by
  have hbuf : (p.setBuf stream b).buf stream' = p.buf stream' := Function.update_of_ne hne _ _
  have hstopper : (p.setBuf stream b).stopper = p.stopper := rfl
  rw [Proc.left, hbuf, hstopper, Proc.left]

theorem Kept.setOff (hk : Kept pc h p) (stream : Stream) (size : Int) :
    Kept pc h (p.setOff stream size) :=
  ⟨hk.lines, hk.buf, fun stream' hflushed => ⟨(hk.flushed stream' hflushed).quiet,
    (hk.flushed stream' hflushed).lines⟩, hk.closed, hk.log⟩

section Feed
variable {i : Item} {pc' : Poller} (hk : Kept pc h p) (hcurrent : pc.current = some i)
  (hh : i.handle = h)
include hk hcurrent hh

theorem ne_of_flushed (hflushed : ¬ p.Unflushed stream) : stream ≠ i.stream := by
  rintro rfl
  exact hflushed (hk.open_of_current (Option.mem_def.2 hcurrent) hh)

theorem Kept.setBuf {b : Txt} (hb : '\n' ∈ b → i ∈ pc'.unsplit)
    (hunsplit : ∀ j ∈ pc.unsplit, j = i)
    (hquiet : ∀ stream n, Quiet n h stream pc → Quiet n h stream pc') :
    Kept pc' h (p.setBuf i.stream b) where
  lines := hk.lines
  buf := by
    intro stream hopen hmem
    by_cases heq : stream = i.stream
    · subst heq
      have hbuf : (p.setBuf i.stream b).buf i.stream = b := Function.update_self _ _ _
      rw [hbuf] at hmem
      exact ⟨i, hb hmem, by rw [Item.key, hh]⟩
    · have hbuf : (p.setBuf i.stream b).buf stream = p.buf stream := Function.update_of_ne heq _ _
      rw [hbuf] at hmem
      obtain ⟨j, hj, hkey⟩ := hk.buf stream hopen hmem
      rw [hunsplit j hj] at hkey
      exact absurd (Prod.mk.inj hkey).2.symm heq
  flushed := by
    intro stream hflushed
    obtain ⟨hq, hlines⟩ := hk.flushed stream hflushed
    have hne := ne_of_flushed hk hcurrent hh hflushed
    exact ⟨hquiet stream _ hq, by rw [left_setBuf hne]; exact hlines⟩
  closed := hk.closed
  log := hk.log

theorem Kept.emit {line : Txt} (hline : '\n' ∉ line) (hunsplit : pc.unsplit = none)
    (hquiet : ∀ stream n, Quiet n h stream pc → Quiet n h stream pc') :
    Kept pc' h (p.emit i.stream line) where
  lines := by
    intro stream hopen l hl
    rw [linesOf_emit] at hl
    rcases List.mem_append.1 hl with hl | hl
    · exact hk.lines stream hopen l hl
    · split at hl
      · cases List.mem_singleton.1 hl
        exact hline
      · cases hl
  buf := by
    intro stream hopen hmem
    obtain ⟨j, hj, -⟩ := hk.buf stream hopen hmem
    rw [hunsplit] at hj
    cases hj
  flushed := by
    intro stream hflushed
    obtain ⟨hq, hlines⟩ := hk.flushed stream hflushed
    have hne := ne_of_flushed hk hcurrent hh hflushed
    refine ⟨hquiet stream _ hq, ?_⟩
    rw [linesOf_emit, if_neg hne.symm, List.append_nil]
    exact hlines
  closed := hk.closed
  log := by
    intro hlog
    have hopen := hk.open_of_current (Option.mem_def.2 hcurrent) hh
    have hclosed := hk.closed_false hopen
    have hlog' : p.hasLog = true := hlog
    obtain ⟨hsame, hlate⟩ := hk.log hlog'
    simp [Proc.emit, hlog', hclosed, hsame, hlate]

end Feed

/-! ## `stop` -/

/-- What `_flush_partial` has to find when it comes to a stream. -/
def Due (pc : Poller) (h : Nat) (p : Proc) (stream : Stream) : Prop :=
  Quiet (p.file stream).length h stream pc ∧ '\n' ∉ p.buf stream ∧
    unlines (linesOf stream p.emitted) ++ p.buf stream = decode (p.file stream)

theorem due_of_readOut (hs : StopInv h s) (hp : s.procs h = some p) (hopen : p.Unflushed stream)
    (hread : ReadOut s.poller h p stream) : Due s.poller h p stream := by
  obtain ⟨-, -, htext⟩ := hs.inv.streamed h p hp stream hopen
  have hquiet := quiet_of_readOut hs.inv hp hopen hread
  obtain ⟨hoff, hcurrent⟩ := hread
  refine ⟨hquiet, fun hmem => ?_, ?_⟩
  · obtain ⟨i, hi, hkey⟩ := (hs.kept p hp).buf stream hopen hmem
    have hi' : i ∈ s.poller.current := by
      cases hpc : s.poller with
      | appended j items =>
        rw [hpc] at hi
        exact hi
      | split j lines rest items =>
        rw [hpc] at hi
        exact hi
      | _ =>
        rw [hpc] at hi
        cases hi
    exact hcurrent i hi' hkey
  · rw [Poller.rest_of_ne hcurrent, Proc.read, hoff] at htext
    rw [htext]
    congr 1
    exact List.take_length

theorem Kept.of_beside (hk : Kept pc h p) {p' : Proc} (hb : Beside p p')
    (hflushed : ∀ stream, ¬ p'.Unflushed stream → Flushed pc h p' stream)
    (hclosed : p'.closed = true →
      p'.stopper = .removing ∨ p'.stopper = .returning ∨ p'.stopper = .done)
    (hlog : p'.hasLog = true → p'.log = p'.emitted ∧ p'.late = []) : Kept pc h p' where
  lines := by
    intro stream hopen
    rw [hb.lines stream hopen]
    exact hk.lines stream (hb.unflushed stream hopen)
  buf := by
    intro stream hopen hmem
    rw [hb.buf stream hopen] at hmem
    exact hk.buf stream (hb.unflushed stream hopen) hmem
  flushed := hflushed
  closed := hclosed
  log := hlog

theorem left_afterFlush (stream' : Stream) :
    (p.setStopper (Proc.afterFlush stream')).left stream = [] := by
  cases stream' <;> rfl

/-- The flush of a stream leaves at most the partial line. -/
theorem flushed_of_due (hk : Kept pc h p) {stream' : Stream} (hpc : p.stopper = .flushing stream')
    (hdue : Due pc h p stream') {x : Stopper}
    (hx : x = if p.buf stream' = [] then Proc.afterFlush stream' else .loading stream')
    (hflushed : ¬ (p.setStopper x).Unflushed stream) : Flushed pc h (p.setStopper x) stream := by
  by_cases heq : stream' = stream
  · subst heq
    obtain ⟨hquiet, hbuf, htext⟩ := hdue
    have hopen : p.Unflushed stream' := by
      rw [Proc.Unflushed, hpc]
      cases stream' <;> rfl
    refine ⟨hquiet, ?_⟩
    show linesOf stream' p.emitted ++ _ = fileLines (decode (p.file stream'))
    rw [← htext, fileLines_unlines_append (hk.lines stream' hopen) hbuf, hx]
    congr 1
    split
    · exact left_afterFlush stream'
    · exact if_pos rfl
  · have hold : ¬ p.Unflushed stream := by
      intro hopen
      refine hflushed ?_
      rw [Proc.Unflushed, hpc] at hopen
      show x.unflushed stream = true
      rw [hx]
      revert hopen
      split <;> cases stream' <;> cases stream <;> simp_all [Stopper.unflushed, Proc.afterFlush]
    obtain ⟨hquiet, hlines⟩ := hk.flushed stream hold
    refine ⟨hquiet, ?_⟩
    have hleft : p.left stream = [] := by rw [Proc.left, hpc]
    have hleft' : (p.setStopper x).left stream = [] := by
      rw [hx]
      split
      · exact left_afterFlush stream'
      · exact if_neg heq
    rw [hleft']
    rw [hleft] at hlines
    exact hlines

theorem Flushed.of_lines (hf : Flushed pc h p stream) {p' : Proc} (hfile : p'.file = p.file)
    (hlines : linesOf stream p'.emitted ++ p'.left stream =
      linesOf stream p.emitted ++ p.left stream) : Flushed pc h p' stream where
  quiet := by
    rw [hfile]
    exact hf.quiet
  lines := by
    rw [hlines, hfile]
    exact hf.lines

/-- From the end of `_flush_partial` on, `stop` has nothing in hand. -/
theorem Flushed.of_killing (hk : Kept pc h p) {x : Stopper} (hpc : p.stopper = x)
    (hx : ∀ stream, x.unflushed stream = false) (hleft : p.left stream = []) {p' : Proc}
    (hfile : p'.file = p.file) (hemitted : p'.emitted = p.emitted)
    (hleft' : p'.left stream = []) : Flushed pc h p' stream := by
  have hflushed : ¬ p.Unflushed stream := by
    rw [Proc.Unflushed, hpc, hx]
    exact Bool.false_ne_true
  exact (hk.flushed stream hflushed).of_lines hfile (by rw [hemitted, hleft, hleft'])

theorem Kept.stop (hk : Kept pc h p) {p' : Proc} {l : Step} (hstep : p.stopStep l = some p')
    (hdue : ∀ h' stream, l = .flush h' → p.stopper = .flushing stream → Due pc h p stream) :
    Kept pc h p' := by
  have hb := Beside.of_stop hstep
  have hopen {x : Stopper} (hpc : p.stopper = x)
      (hx : x ≠ .removing ∧ x ≠ .returning ∧ x ≠ .done) : ¬ p.closed = true := by
    intro hclosed
    rcases hk.closed hclosed with heq | heq | heq
    · exact hx.1 (hpc.symm.trans heq)
    · exact hx.2.1 (hpc.symm.trans heq)
    · exact hx.2.2 (hpc.symm.trans heq)
  have hleft {x : Stopper} (hpc : p.stopper = x) (hx : x = .killing ∨ x = .collecting ∨
      x = .closing ∨ x = .removing ∨ x = .returning) (stream : Stream) : p.left stream = [] := by
    rw [Proc.left, hpc]
    rcases hx with rfl | rfl | rfl | rfl | rfl <;> rfl
  rcases stop_cases hstep with ⟨h', stream', hl, hpc, rfl⟩ | ⟨stream', hpc, rfl⟩ |
    ⟨stream', line, hpc, rfl⟩ | ⟨stream', hpc, rfl⟩ | ⟨hpc, rfl⟩ | ⟨hpc, rfl⟩ | ⟨hpc, rfl⟩ |
    ⟨hpc, rfl⟩ | ⟨hpc, rfl⟩
  · refine hk.of_beside hb ?_ (fun hclosed => absurd hclosed (hopen hpc (by simp))) hk.log
    exact fun stream hflushed => flushed_of_due hk hpc (hdue h' stream' hl hpc) rfl hflushed
  · refine hk.of_beside hb ?_ (fun hclosed => absurd hclosed (hopen hpc (by simp))) hk.log
    intro stream hflushed
    have hold : ¬ p.Unflushed stream := by
      rw [Proc.Unflushed, hpc]
      revert hflushed
      cases stream' <;> cases stream <;> exact id
    refine (hk.flushed stream hold).of_lines rfl (congrArg _ ?_)
    rw [Proc.left, Proc.left, hpc]
    show (if stream' = stream then [p.buf stream'] else []) =
      if stream' = stream then [p.buf stream] else []
    split
    · next heq => rw [heq]
    · rfl
  · have hclosed := hopen hpc (by simp)
    refine hk.of_beside hb ?_ (fun hnow => absurd hnow hclosed) ?_
    · intro stream hflushed
      have hold : ¬ p.Unflushed stream := by
        rw [Proc.Unflushed, hpc]
        revert hflushed
        cases stream' <;> cases stream <;> exact id
      refine (hk.flushed stream hold).of_lines rfl ?_
      show linesOf stream (p.emit stream' line).emitted ++ [] = _
      rw [linesOf_emit, List.append_nil, Proc.left, hpc]
    · intro hlog
      have hlog' : p.hasLog = true := hlog
      obtain ⟨hsame, hlate⟩ := hk.log hlog'
      simp [Proc.setStopper, Proc.emit, hlog', hclosed, hsame, hlate]
  · refine hk.of_beside hb ?_ (fun hclosed => absurd hclosed (hopen hpc (by simp))) hk.log
    intro stream hflushed
    have hold : ¬ p.Unflushed stream := by
      rw [Proc.Unflushed, hpc, ← unflushed_afterFlush]
      exact hflushed
    have hnil : p.left stream = [] := by rw [Proc.left, hpc]
    refine (hk.flushed stream hold).of_lines rfl (congrArg _ ?_)
    rw [hnil]
    exact left_afterFlush stream'
  · refine hk.of_beside hb ?_ (fun hclosed => absurd hclosed (hopen hpc (by simp))) hk.log
    intro stream _
    exact Flushed.of_killing hk hpc (fun st => by cases st <;> rfl)
      (hleft hpc (by simp) stream) rfl rfl rfl
  · refine hk.of_beside hb ?_ (fun hclosed => absurd hclosed (hopen hpc (by simp))) hk.log
    exact fun stream _ => Flushed.of_killing hk hpc (fun st => by cases st <;> rfl)
      (hleft hpc (by simp) stream) rfl rfl rfl
  · refine hk.of_beside hb ?_ (fun _ => Or.inl rfl) hk.log
    exact fun stream _ => Flushed.of_killing hk hpc (fun st => by cases st <;> rfl)
      (hleft hpc (by simp) stream) rfl rfl rfl
  · refine hk.of_beside hb ?_ (fun _ => Or.inr (Or.inl rfl)) hk.log
    exact fun stream _ => Flushed.of_killing hk hpc (fun st => by cases st <;> rfl)
      (hleft hpc (by simp) stream) rfl rfl rfl
  · refine hk.of_beside hb ?_ (fun _ => Or.inr (Or.inr rfl)) hk.log
    exact fun stream _ => Flushed.of_killing hk hpc (fun st => by cases st <;> rfl)
      (hleft hpc (by simp) stream) rfl rfl rfl

/-! ## A run -/

/-- A step of the poller that touches no handle. -/
theorem StopInv.turn (hs : StopInv h s) {pc₀ : Poller} (hpc : s.poller = pc₀)
    (hinv : Inv { s with poller := pc }) (hpieces : ∀ l ∈ pc.pieces, '\n' ∉ l)
    (hunsplit : ∀ i ∈ pc₀.unsplit, i ∈ pc.unsplit)
    (hquiet : ∀ p ∈ s.procs h, ∀ stream, ¬ p.Unflushed stream →
      Quiet (p.file stream).length h stream pc₀ →
      Quiet (p.file stream).length h stream pc) : StopInv h { s with poller := pc } where
  inv := hinv
  pieces := hpieces
  listed := hs.listed
  kept := by
    subst hpc
    exact fun p hp => (hs.kept p hp).turn (fun i hi _ => hunsplit i hi) (hquiet p hp)

/-- A step of the poller on the handle of an item. -/
theorem StopInv.feed (hs : StopInv h s) {pc₀ : Poller} (hpc : s.poller = pc₀) {i : Item}
    {p' : Proc} (hp : s.procs i.handle = some p)
    (hinv : Inv { s.setProc i.handle p' with poller := pc })
    (hpieces : ∀ l ∈ pc.pieces, '\n' ∉ l) (hstopper : p'.stopper = p.stopper)
    (hunsplit : ∀ j ∈ pc₀.unsplit, j = i)
    (hquiet : ∀ stream n, Quiet n h stream pc₀ → Quiet n h stream pc)
    (hkept : i.handle = h → Kept pc₀ h p → Kept pc h p') :
    StopInv h { s.setProc i.handle p' with poller := pc } where
  inv := hinv
  pieces := hpieces
  listed := by
    intro hh q hq
    rcases mem_update hq with ⟨hhandle, rfl⟩ | ⟨-, hq⟩
    · rw [hstopper]
      exact hs.listed hh p (hhandle ▸ hp)
    · exact hs.listed hh q hq
  kept := by
    subst hpc
    intro q hq
    rcases mem_update hq with ⟨hhandle, rfl⟩ | ⟨hne, hq⟩
    · exact hkept hhandle.symm (hs.kept p (hhandle ▸ hp))
    · refine (hs.kept q hq).turn (fun j hj hh => ?_) fun stream _ => hquiet stream _
      rw [hunsplit j hj] at hh
      exact absurd hh.symm hne

/-- A step on one handle that leaves the poller where it is. -/
theorem StopInv.beside (hs : StopInv h s) {h' : Nat} {p' : Proc} (hp : s.procs h' = some p)
    {registered : List Nat} (hinv : Inv { s.setProc h' p' with registered := registered })
    (hlisted : h ∈ registered → h ∈ s.registered)
    (hstopper : h' = h → h ∈ registered → p.stopper = .no → p'.stopper = .no)
    (hkept : h' = h → Kept s.poller h p → Kept s.poller h p') :
    StopInv h { s.setProc h' p' with registered := registered } where
  inv := hinv
  pieces := hs.pieces
  listed := by
    intro hh q hq
    rcases mem_update hq with ⟨hhandle, rfl⟩ | ⟨-, hq⟩
    · exact hstopper hhandle.symm hh (hs.listed (hlisted hh) p (hhandle ▸ hp))
    · exact hs.listed (hlisted hh) q hq
  kept := by
    intro q hq
    rcases mem_update hq with ⟨hhandle, rfl⟩ | ⟨-, hq⟩
    · exact hkept hhandle.symm (hs.kept p (hhandle ▸ hp))
    · exact hs.kept q hq

theorem kept_new (pc : Poller) (h : Nat) (file : Stream → Bytes) (hasPid hasLog : Bool) :
    Kept pc h { file, hasPid, hasLog } where
  lines := fun _ _ _ hl => absurd hl List.not_mem_nil
  buf := fun _ _ hmem => absurd hmem List.not_mem_nil
  flushed := fun stream hflushed => absurd (open_of_no rfl stream) hflushed
  closed := fun hclosed => absurd hclosed Bool.false_ne_true
  log := fun _ => ⟨rfl, rfl⟩

theorem Kept.write (hk : Kept pc h p) (hopen : p.Unflushed stream) (bytes : Bytes) :
    Kept pc h (p.write stream bytes) := by
  refine ⟨hk.lines, hk.buf, fun stream' hflushed => ?_, hk.closed, hk.log⟩
  have hne : stream' ≠ stream := by
    rintro rfl
    exact hflushed hopen
  have hfile : (p.write stream bytes).file stream' = p.file stream' :=
    Function.update_of_ne hne _ _
  obtain ⟨hq, hlines⟩ := hk.flushed stream' hflushed
  refine ⟨?_, ?_⟩
  · rw [hfile]
    exact hq
  · rw [hfile]
    exact hlines

theorem stopInv_onStop (hs : StopInv h s) {h' : Nat} {l : Step} {s' : State} (hinv : Inv s')
    (hsettled : Settled h s l) (hl : ∀ k, l = .flush k → k = h')
    (hstep : s.onStop h' l = some s') : StopInv h s' := by
  obtain ⟨p, p', hp, hp', rfl⟩ := step_stop hstep
  refine hs.beside hp hinv id (fun hhandle hh hno => ?_) fun hhandle hk => hk.stop hp' ?_
  · exfalso
    rcases stop_cases hp' with ⟨_, _, -, hpc, -⟩ | ⟨_, hpc, -⟩ | ⟨_, _, hpc, -⟩ | ⟨_, hpc, -⟩ |
      ⟨hpc, -⟩ | ⟨hpc, -⟩ | ⟨hpc, -⟩ | ⟨hpc, -⟩ | ⟨hpc, -⟩
    all_goals
      rw [hno] at hpc
      cases hpc
  · rintro k stream rfl hpc
    cases hhandle
    have hopen : p.Unflushed stream := by
      rw [Proc.Unflushed, hpc]
      cases stream <;> rfl
    refine due_of_readOut hs hp hopen (hsettled (hl k rfl) p hp stream ?_ hpc)
    cases stream <;> simp

section Steps

variable {s' : State} (hs : StopInv h s) (hinv : Inv s')

theorem newline_free_nil (l : Txt) (hl : l ∈ ([] : List Txt)) : '\n' ∉ l :=
  absurd hl List.not_mem_nil

theorem of_mem_none {i : Item} {P : Prop} (hi : i ∈ (none : Option Item)) : P :=
  absurd hi (Option.not_mem_none i)

include hs hinv

theorem stopInv_new {h' : Nat} {out err : Bytes} {hasPid hasLog : Bool}
    (hstep : s.step (.start h' out err hasPid hasLog) = some s') : StopInv h s' := by
  obtain ⟨hfree, rfl⟩ := step_start hstep
  refine ⟨hinv, hs.pieces, fun hh q hq => ?_, fun q hq => ?_⟩
  · rcases mem_update hq with ⟨-, rfl⟩ | ⟨hne, hq⟩
    · rfl
    · rcases List.mem_append.1 hh with hh | hh
      · exact hs.listed hh q hq
      · exact absurd (List.mem_singleton.1 hh) hne
  · rcases mem_update hq with ⟨-, rfl⟩ | ⟨-, hq⟩
    · exact kept_new _ _ _ _ _
    · exact hs.kept q hq

theorem stopInv_write {h' : Nat} {bytes : Bytes}
    (hsettled : h' = h → ∀ p ∈ s.procs h, p.Unflushed stream)
    (hstep : s.step (.write h' stream bytes) = some s') : StopInv h s' := by
  obtain ⟨p, hp, -, rfl⟩ := step_write hstep
  refine hs.beside hp hinv id (fun _ _ => id) fun hh hk => ?_
  exact hk.write (hsettled hh p (hh ▸ hp)) bytes

theorem stopInv_processEnd {h' : Nat} (hstep : s.step (.processEnd h') = some s') :
    StopInv h s' := by
  obtain ⟨p, hp, rfl⟩ := step_processEnd hstep
  refine hs.beside hp hinv id (fun _ _ => id) fun _ hk => ?_
  exact ⟨hk.lines, hk.buf, fun stream hflushed => ⟨(hk.flushed stream hflushed).quiet,
    (hk.flushed stream hflushed).lines⟩, hk.closed, hk.log⟩

theorem stopInv_begin (hstep : s.step .begin = some s') : StopInv h s' := by
  obtain ⟨hidle, rfl | rfl⟩ := step_begin hstep
  · exact hs
  · refine hs.turn hidle hinv newline_free_nil (fun i hi => of_mem_none hi)
      fun p hp stream hflushed _ => ?_
    exact quiet_begin fun hh => hflushed (open_of_no (hs.listed hh p hp) stream)

theorem stopInv_measure (hstep : s.step .measure = some s') : StopInv h s' := by
  obtain ⟨ids, f, todo, out, hpc, rfl⟩ := step_measure hstep
  refine hs.turn hpc hinv ?_ (fun i hi => of_mem_none hi) fun p hp stream _ hq => ?_
  · split <;> exact newline_free_nil
  · have hsize : f.handle = h → f.stream = stream →
        (s.content f.handle f.stream).length ≤ (p.file stream).length := by
      intro hh hst
      rw [hh, hst]
      exact length_content_le hp stream
    have hmeasured := quiet_measure hsize hq
    split
    · exact quiet_read _ hmeasured
    · exact hmeasured

theorem stopInv_reply {cut : Nat} (hclean : Clean s (.reply cut))
    (hstep : s.step (.reply cut) = some s') : StopInv h s' := by
  obtain ⟨ids, out, hpc, rfl⟩ := step_reply hstep
  have hscript : Scripted s.procs ids [] none out := by
    have hready := hs.inv.ready
    rwa [hpc] at hready
  obtain ⟨haligned, -⟩ : Aligned out cut ∧ ∀ g ∈ arrived out cut, Exact s g := by
    simpa only [Clean, hpc] using hclean
  have hitems := itemsOf_of_aligned haligned fun g hg =>
    hscript.polled g.toFragment (List.mem_map_of_mem hg)
  rw [hitems] at hinv ⊢
  exact hs.turn hpc hinv newline_free_nil (fun i hi => of_mem_none hi)
    fun p _ stream _ hq => quiet_reply hq

theorem stopInv_dispatch (hstep : s.step .dispatch = some s') : StopInv h s' := by
  obtain ⟨hpc, rfl⟩ | ⟨i, items, p, hpc, hp, rfl⟩ := step_dispatch hstep
  · exact hs.turn hpc hinv newline_free_nil (fun i hi => hi) fun p _ stream _ hq => hq
  · refine hs.feed hpc hp hinv ?_ rfl (fun j hj => of_mem_none hj)
      (fun stream n hq => quiet_dispatch hq) fun hh hk => ?_
    · split <;> exact newline_free_nil
    · exact (hk.setOff i.stream i.size).turn (fun j hj => of_mem_none hj)
        fun stream _ hq => quiet_dispatch hq

theorem stopInv_append (hstep : s.step .append = some s') : StopInv h s' := by
  obtain ⟨i, b, items, p, hpc, hp, rfl⟩ := step_append hstep
  have hunsplit (j : Item) (hj : j ∈ (none : Option Item)) : j = i := of_mem_none hj
  refine hs.feed hpc hp hinv newline_free_nil rfl hunsplit (fun _ _ hq => hq) fun hh hk => ?_
  exact hk.setBuf rfl hh (fun _ => rfl) hunsplit fun _ _ hq => hq

theorem stopInv_split (hstep : s.step .split = some s') : StopInv h s' := by
  obtain ⟨i, items, p, hpc, hp, rfl⟩ := step_split hstep
  obtain ⟨hlines, hrest⟩ := splitRest_newline_free (p.buf i.stream)
  refine hs.turn hpc hinv (fun l hl => ?_) (fun i hi => hi) fun p _ stream _ hq => hq
  rcases List.mem_cons.1 hl with rfl | hl
  · exact hrest
  · exact hlines l hl

theorem stopInv_store (hstep : s.step .store = some s') : StopInv h s' := by
  obtain ⟨i, lines, rest, items, p, hpc, hp, rfl⟩ := step_store hstep
  have hpieces : ∀ l ∈ rest :: lines, '\n' ∉ l := by
    have := hs.pieces
    rwa [hpc] at this
  have hunsplit (j : Item) (hj : j ∈ some i) : j = i := (Option.mem_some.1 hj).symm
  refine hs.feed hpc hp hinv (fun l hl => hpieces l (List.mem_cons_of_mem rest hl)) rfl hunsplit
    (fun _ _ hq => hq) fun hh hk => ?_
  exact hk.setBuf rfl hh (fun hmem => absurd hmem (hpieces rest List.mem_cons_self)) hunsplit
    fun _ _ hq => hq

theorem stopInv_emit (hstep : s.step .emit = some s') : StopInv h s' := by
  obtain ⟨i, items, hpc, rfl⟩ | ⟨i, line, lines, items, p, hpc, hp, rfl⟩ := step_emit hstep
  · refine hs.turn hpc hinv newline_free_nil (fun i hi => of_mem_none hi)
      fun p _ stream _ hq => ?_
    exact ⟨fun j hj => absurd hj (Option.not_mem_none j), hq.2⟩
  · have hpieces : ∀ l ∈ line :: lines, '\n' ∉ l := by
      have := hs.pieces
      rwa [hpc] at this
    refine hs.feed hpc hp hinv (fun l hl => hpieces l (List.mem_cons_of_mem line hl)) rfl
      (fun j hj => of_mem_none hj) (fun _ _ hq => hq) fun hh hk => ?_
    exact hk.emit rfl hh (hpieces line List.mem_cons_self) rfl fun _ _ hq => hq

theorem stopInv_unregister {h' : Nat} (hstep : s.step (.unregister h') = some s') :
    StopInv h s' := by
  obtain ⟨p, hp, hno, rfl⟩ := step_unregister hstep
  refine hs.beside hp hinv (fun hh => (List.mem_filter.1 hh).1) (fun hhandle hh => ?_)
    fun _ hk => ?_
  · have := (List.mem_filter.1 hh).2
    simp [hhandle] at this
  · refine hk.of_beside (Beside.setStopper fun stream _ => open_of_no hno stream) ?_ ?_ hk.log
    · exact fun stream hflushed => absurd rfl hflushed
    · intro hclosed
      have := hk.closed hclosed
      rw [hno] at this
      simp at this

end Steps

theorem stopInv_step (hs : StopInv h s) {l : Step} (hclean : Clean s l)
    (hsettled : Settled h s l) {s' : State} (hstep : s.step l = some s') : StopInv h s' := by
  have hinv := inv_step hs.inv hclean hstep
  cases l with
  | start h' out err hasPid hasLog => exact stopInv_new hs hinv hstep
  | write h' stream bytes => exact stopInv_write hs hinv hsettled hstep
  | processEnd h' => exact stopInv_processEnd hs hinv hstep
  | begin => exact stopInv_begin hs hinv hstep
  | measure => exact stopInv_measure hs hinv hstep
  | tail =>
    obtain ⟨ids, f, size, todo, out, hpc, rfl⟩ := step_tail hstep
    exact hs.turn hpc hinv newline_free_nil (fun i hi => of_mem_none hi)
      fun p _ stream _ hq => quiet_read _ hq
  | reply cut => exact stopInv_reply hs hinv hclean hstep
  | dispatch => exact stopInv_dispatch hs hinv hstep
  | load =>
    obtain ⟨i, items, p, hpc, hp, rfl⟩ := step_load hstep
    exact hs.turn hpc hinv newline_free_nil (fun i hi => of_mem_none hi)
      fun p _ stream _ hq => hq
  | append => exact stopInv_append hs hinv hstep
  | split => exact stopInv_split hs hinv hstep
  | store => exact stopInv_store hs hinv hstep
  | emit => exact stopInv_emit hs hinv hstep
  | unregister h' => exact stopInv_unregister hs hinv hstep
  | _ => exact stopInv_onStop hs hinv hsettled (fun k hk => by cases hk <;> rfl) hstep

theorem stopInv_run {steps : List Step} (hsteps : SettledRun h steps) :
    StopInv h (run steps) := by
  refine Steps.invariant (I := fun _ s => StopInv h s) (stopInv_start h) ?_ hsteps
  intro _ s l hs ⟨hsome, hclean, hsettled⟩
  obtain ⟨s', hs'⟩ := Option.isSome_iff_exists.1 hsome
  rw [State.next, hs', Option.getD_some]
  exact stopInv_step hs hclean hsettled hs'

/-- After `stop` the log has the lines of both files, in their order. -/
theorem linesOf_log {steps : List Step} (hsteps : SettledRun h steps)
    (hp : (run steps).procs h = some p) (hlog : p.hasLog = true) (hdone : p.stopper = .done)
    (stream : Stream) : linesOf stream p.log = fileLines (decode (p.file stream)) := by
  have hk := (stopInv_run hsteps).kept p hp
  have hflushed : ¬ p.Unflushed stream := by
    rw [Proc.Unflushed, hdone]
    cases stream <;> exact Bool.false_ne_true
  have hlines := (hk.flushed stream hflushed).lines
  have hleft : p.left stream = [] := by rw [Proc.left, hdone]
  rw [hleft, List.append_nil] at hlines
  rw [(hk.log hlog).1, hlines]

/-- When `_flush_partial` has found both streams read out, and nothing was written to them from
then on, the log is whole, and stays so. -/
theorem whole_of_settled {steps : List Step} (hsteps : SettledRun h steps)
    (hp : (run steps).procs h = some p) (hlog : p.hasLog = true) (hdone : p.stopper = .done) :
    p.Whole ∧ p.late = [] := by
  refine ⟨fun stream => ?_, (((stopInv_run hsteps).kept p hp).log hlog).2⟩
  rw [linesOf_log hsteps hp hlog hdone stream]

/-- `stop`, with the steps of `_flush_partial` between. -/
def stopOf (flushes : List Step) : List Step :=
  .unregister 1 :: flushes ++ [.kill 1, .collect 1, .close 1, .remove 1, .finish 1]

/-- Two lines, of which the second has no newline. -/
def readBeforeStop : List Step :=
  .start 1 (encode "a\nb".toList) [] true true :: pollOf 1 ++
    .processEnd 1 :: stopOf [.flush 1, .loadPartial 1, .emitPartial 1, .clear 1, .flush 1]

theorem whole_of_settled_partial : ∃ p ∈ (run readBeforeStop).procs 1, p.Whole ∧ p.late = [] := by
  have hdone : ∃ p ∈ (run readBeforeStop).procs 1, p.hasLog = true ∧ p.stopper = .done := by
    decide
  obtain ⟨p, hp, hlog, hdone⟩ := hdone
  exact ⟨p, hp, whole_of_settled (by decide) hp hlog hdone⟩

/-- No response is cut. -/
def Uncut (s : State) : Step → Prop
  | .reply cut =>
    match s.poller with
    | .script _ _ out => (out.flatMap Segment.output).length ≤ cut
    | _ => True
  | _ => True

def Step.cut : Step → Option Nat
  | .reply cut => some cut
  | _ => none

/-- What the script has printed. -/
def Poller.printed : Poller → Option (List Segment)
  | .script _ _ out => some out
  | _ => none

theorem uncut_iff (s : State) (l : Step) : Uncut s l ↔ ∀ cut ∈ l.cut, ∀ out ∈ s.poller.printed,
    (out.flatMap Segment.output).length ≤ cut := by
  cases l with
  | reply cut =>
    rw [Uncut]
    cases s.poller with
    | script ids todo out => simp [Step.cut, Poller.printed]
    | _ => simp [Poller.printed]
  | _ => simp [Uncut, Step.cut]

instance (s : State) (l : Step) : Decidable (Uncut s l) := decidable_of_iff _ (uncut_iff s l).symm

/-- The process ends between two polls, and the line it has written since the first is not
read any more. -/
def endedBetween : List Step :=
  .start 1 [] [] true true :: .write 1 .o (encode "a\n".toList) :: .processEnd 1 ::
    stopOf [.flush 1, .flush 1]

theorem line_lost_at_stop :
    ¬ ∀ steps, Steps State.next (fun s l => (s.step l).isSome = true ∧ Uncut s l) start steps →
      ∀ h, ∀ p ∈ (run steps).procs h, p.hasLog = true → p.stopper = .done →
        p.Whole ∧ p.late = [] := by
  intro hall
  have hlost : ∃ p ∈ (run endedBetween).procs 1, p.hasLog = true ∧ p.stopper = .done ∧
      ¬ (linesOf .o p.log).Perm (fileLines (decode (p.file .o))) := by decide
  obtain ⟨p, hp, hlog, hdone, hlost⟩ := hlost
  exact hlost ((hall endedBetween (by decide) 1 p hp hlog hdone).1 .o)

end LiveStreaming
end Executors
end RocmTests

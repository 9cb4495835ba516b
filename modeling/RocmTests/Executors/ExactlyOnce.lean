import RocmTests.Executors.LiveStreaming

/-!
# Live output is emitted exactly once

Between two polls, the lines that were emitted and the buffer of a stream should be the text
of the capture file up to the offset.  This holds as long as every response is clean.
-/

namespace RocmTests
namespace Executors
namespace LiveStreaming

open Text Text.Utf8 Conc

/-! ## Clean responses -/

def Item.key (i : Item) : Nat × Stream := (i.handle, i.stream)

def Fragment.key (f : Fragment) : Nat × Stream := (f.handle, f.stream)

instance Aligned.decidable : ∀ gs cut, Decidable (Aligned gs cut)
  | [], _ => .isTrue trivial
  | g :: gs, cut =>
    have := Aligned.decidable gs (cut - g.output.length)
    inferInstanceAs (Decidable (_ ∨ _ ∧ _ ∧ _))

/-- The data of a segment is what the file holds from the offset on, and does not begin or
end within a character. -/
def Exact (s : State) (g : Segment) : Prop :=
  ∀ p ∈ s.procs g.handle, p.Unflushed g.stream →
    g.data = ((p.file g.stream).drop g.off.toNat).take g.n ∧
    decode ((p.file g.stream).take g.off.toNat) ++ decode g.data =
      decode ((p.file g.stream).take (g.off.toNat + g.n))

instance (s : State) (g : Segment) : Decidable (Exact s g) := by
  unfold Exact
  infer_instance

/-- A response arrives with all data it has a header for, its segments are aligned, and their
data is exact. -/
def Clean (s : State) : Step → Prop
  | .reply cut =>
    match s.poller with
    | .script _ [] out => Aligned out cut ∧ ∀ g ∈ arrived out cut, Exact s g
    | _ => True
  | _ => True

instance (s : State) (l : Step) : Decidable (Clean s l) := by
  unfold Clean
  split
  · split <;> infer_instance
  · infer_instance

/-- Every step is possible, and every response clean. -/
def CleanRun (steps : List Step) : Prop :=
  Steps State.next (fun s l => (s.step l).isSome = true ∧ Clean s l) start steps

instance (steps : List Step) : Decidable (CleanRun steps) :=
  Steps.decidable State.next (fun s l => (s.step l).isSome = true ∧ Clean s l) start steps

/-! ## What a poll has in hand -/

namespace Poller

/-- The item that `_feed` is at work on. -/
def current : Poller → Option Item
  | feeding i _ => some i
  | loaded i _ _ => some i
  | appended i _ => some i
  | split i _ _ _ => some i
  | emitting i _ _ => some i
  | _ => none

/-- The items that are still to be dispatched. -/
def items : Poller → List Item
  | dispatching items => items
  | feeding _ items => items
  | loaded _ _ items => items
  | appended _ items => items
  | split _ _ _ items => items
  | emitting _ _ items => items
  | _ => []

/-- What is between the emitted lines and the end of the text that was fed, when the buffer
of the stream is `b`. -/
def rest (pc : Poller) (h : Nat) (stream : Stream) (b : Txt) : Txt :=
  match pc with
  | feeding i _ => if Item.key i = (h, stream) then b ++ i.data else b
  | loaded i b' _ => if Item.key i = (h, stream) then b' ++ i.data else b
  | split i lines r _ => if Item.key i = (h, stream) then unlines lines ++ r else b
  | emitting i lines _ => if Item.key i = (h, stream) then unlines lines ++ b else b
  | _ => b

theorem rest_of_ne {pc : Poller} {h : Nat} {stream : Stream}
    (hne : ∀ i ∈ pc.current, Item.key i ≠ (h, stream)) (b : Txt) : pc.rest h stream b = b := by
  cases pc with
  | feeding i items => exact if_neg (hne i rfl)
  | loaded i b' items => exact if_neg (hne i rfl)
  | split i lines r items => exact if_neg (hne i rfl)
  | emitting i lines items => exact if_neg (hne i rfl)
  | _ => rfl

end Poller

/-- The offset lies within the file, and what was fed is the text up to there. -/
def Streamed (pc : Poller) (h : Nat) (p : Proc) (stream : Stream) : Prop :=
  0 ≤ p.off stream ∧ p.off stream ≤ (p.file stream).length ∧
    unlines (linesOf stream p.emitted) ++ pc.rest h stream (p.buf stream) = p.read stream

abbrev Procs := Nat → Option Proc

/-- The fragment has the offset that the handle still has. -/
def Current (procs : Procs) (f : Fragment) : Prop :=
  ∀ p ∈ procs f.handle, p.Unflushed f.stream → p.off f.stream = f.off

/-- The file has had the size that `wc` gave. -/
def Sized (procs : Procs) (f : Fragment) (size : Nat) : Prop :=
  ∀ p ∈ procs f.handle, p.Unflushed f.stream →
    p.off f.stream = f.off ∧ f.off ≤ size ∧ size ≤ (p.file f.stream).length

/-- The item continues the text where the handle is. -/
def Pending (procs : Procs) (i : Item) : Prop :=
  ∀ p ∈ procs i.handle, p.Unflushed i.stream →
    p.off i.stream ≤ i.size ∧ i.size ≤ (p.file i.stream).length ∧
      p.read i.stream ++ i.data = decode ((p.file i.stream).take i.size.toNat)

/-- Fragments that are to be run, the one that is being run, and those that have been. -/
structure Scripted (procs : Procs) (ids : List Nat) (todo : List Fragment)
    (sized : Option (Fragment × Nat)) (out : List Segment) : Prop where
  known : ∀ h ∈ ids, (procs h).isSome = true
  distinct : ((todo ++ sized.toList.map (·.1) ++ out.map (·.toFragment)).map
    Fragment.key).Nodup
  polled : ∀ f ∈ todo ++ sized.toList.map (·.1) ++ out.map (·.toFragment), f.handle ∈ ids
  todo : ∀ f ∈ todo, Current procs f
  sized : ∀ x ∈ sized, Sized procs x.1 x.2
  out : ∀ g ∈ out, Sized procs g.toFragment g.size

/-- What the poller relies on. -/
def Ready (procs : Procs) : Poller → Prop
  | .script ids todo out => Scripted procs ids todo none out
  | .measured ids f size todo out => Scripted procs ids todo (some (f, size)) out
  | pc =>
    ((pc.current.toList ++ pc.items).map Item.key).Nodup ∧
      (∀ i ∈ pc.current.toList ++ pc.items, (procs i.handle).isSome = true) ∧
      ∀ i ∈ pc.items, Pending procs i

structure Inv (s : State) : Prop where
  nodup : s.registered.Nodup
  known : ∀ h ∈ s.registered, (s.procs h).isSome = true
  intact : ∀ h, ∀ p ∈ s.procs h, ∀ stream, p.Unflushed stream → p.removed = false
  streamed : ∀ h, ∀ p ∈ s.procs h, ∀ stream, p.Unflushed stream → Streamed s.poller h p stream
  ready : Ready s.procs s.poller

theorem ready_idle (procs : Procs) : Ready procs .idle :=
  ⟨List.nodup_nil, fun _ hi => absurd hi List.not_mem_nil,
    fun _ hi => absurd hi List.not_mem_nil⟩

theorem inv_start : Inv start where
  nodup := List.nodup_nil
  known := fun h hmem => absurd hmem List.not_mem_nil
  intact := by
    intro h p hp
    cases hp
  streamed := by
    intro h p hp
    cases hp
  ready := ready_idle start.procs

variable {s : State}

/-! ## Steps beside the poller -/

/-- What others may do to a handle: the file grows, and once `stop` has come to a stream
anything may happen to that. -/
structure Beside (p p' : Proc) : Prop where
  unflushed : ∀ stream, p'.Unflushed stream → p.Unflushed stream
  removed : ∀ stream, p'.Unflushed stream → p'.removed = p.removed
  off : ∀ stream, p'.Unflushed stream → p'.off stream = p.off stream
  buf : ∀ stream, p'.Unflushed stream → p'.buf stream = p.buf stream
  lines : ∀ stream, p'.Unflushed stream → linesOf stream p'.emitted = linesOf stream p.emitted
  file : ∀ stream, p.file stream <+: p'.file stream

theorem mem_update {procs : Procs} {h h' : Nat} {p p' : Proc}
    (hp : p' ∈ Function.update procs h (some p) h') : h' = h ∧ p' = p ∨ h' ≠ h ∧ p' ∈ procs h' := by
  by_cases heq : h' = h
  · subst heq
    rw [Function.update_self] at hp
    cases hp
    exact Or.inl ⟨rfl, rfl⟩
  · rw [Function.update_of_ne heq] at hp
    exact Or.inr ⟨heq, hp⟩

theorem isSome_update {procs : Procs} {h h' : Nat} (p : Proc) (hsome : (procs h').isSome = true) :
    (Function.update procs h (some p) h').isSome = true := by
  by_cases heq : h' = h
  · subst heq
    rw [Function.update_self]
    rfl
  · rwa [Function.update_of_ne heq]

namespace Beside
variable {p p' : Proc} (hb : Beside p p') {stream : Stream}
include hb

theorem length_le (stream : Stream) : (p.file stream).length ≤ (p'.file stream).length :=
  (hb.file stream).length_le

theorem take_eq {n : Nat} (hn : n ≤ (p.file stream).length) :
    (p'.file stream).take n = (p.file stream).take n := by
  obtain ⟨more, hmore⟩ := hb.file stream
  rw [← hmore, List.take_append_of_le_length hn]

theorem streamed {pc : Poller} {h : Nat} (hopen : p'.Unflushed stream)
    (hs : Streamed pc h p stream) : Streamed pc h p' stream := by
  obtain ⟨hpos, hle, htext⟩ := hs
  have hlen := hb.length_le stream
  have hoff := hb.off stream hopen
  refine ⟨by rwa [hoff], by rw [hoff]; omega, ?_⟩
  rw [hb.lines stream hopen, hb.buf stream hopen, htext, Proc.read, Proc.read, hoff,
    hb.take_eq (by omega)]

end Beside

section Beside
variable {procs : Procs} {h : Nat} {p p' : Proc} (hp : procs h = some p) (hb : Beside p p')
include hp hb

theorem current_beside {f : Fragment} (hf : Current procs f) :
    Current (Function.update procs h (some p')) f := by
  intro q hq hopen
  rcases mem_update hq with ⟨hh, rfl⟩ | ⟨-, hq⟩
  · rw [hb.off _ hopen]
    exact hf p (by rw [hh]; exact hp) (hb.unflushed _ hopen)
  · exact hf q hq hopen

theorem sized_beside {f : Fragment} {size : Nat} (hf : Sized procs f size) :
    Sized (Function.update procs h (some p')) f size := by
  intro q hq hopen
  rcases mem_update hq with ⟨hh, rfl⟩ | ⟨-, hq⟩
  · obtain ⟨hoff, hle, hsize⟩ := hf p (by rw [hh]; exact hp) (hb.unflushed _ hopen)
    have hlen := hb.length_le f.stream
    exact ⟨by rwa [hb.off _ hopen], hle, by omega⟩
  · exact hf q hq hopen

theorem pending_beside {i : Item} (hi : Pending procs i) (hpos : ∀ q ∈ procs i.handle,
    q.Unflushed i.stream → 0 ≤ q.off i.stream) :
    Pending (Function.update procs h (some p')) i := by
  intro q hq hopen
  rcases mem_update hq with ⟨hh, rfl⟩ | ⟨-, hq⟩
  · have hmem : p ∈ procs i.handle := by rw [hh]; exact hp
    have hoff := hb.off _ hopen
    obtain ⟨hle, hsize, htext⟩ := hi p hmem (hb.unflushed _ hopen)
    have hzero := hpos p hmem (hb.unflushed _ hopen)
    have hlen := hb.length_le i.stream
    refine ⟨by rwa [hoff], by omega, ?_⟩
    rw [Proc.read] at htext ⊢
    rw [hoff, hb.take_eq (by omega), hb.take_eq (by omega), htext]
  · exact hi q hq hopen

theorem scripted_beside {ids : List Nat} {todo : List Fragment} {sized : Option (Fragment × Nat)}
    {out : List Segment} (hs : Scripted procs ids todo sized out) :
    Scripted (Function.update procs h (some p')) ids todo sized out where
  known := fun h' hh' => isSome_update p' (hs.known h' hh')
  distinct := hs.distinct
  polled := hs.polled
  todo := fun f hf => current_beside hp hb (hs.todo f hf)
  sized := fun x hx => sized_beside hp hb (hs.sized x hx)
  out := fun g hg => sized_beside hp hb (hs.out g hg)

end Beside

/-- A step on one handle that leaves the poller where it is. -/
theorem inv_beside (hinv : Inv s) {h : Nat} {p p' : Proc} (hp : s.procs h = some p)
    (hb : Beside p p') {registered : List Nat} (hsub : registered.Sublist s.registered) :
    Inv { s.setProc h p' with registered := registered } where
  nodup := hinv.nodup.sublist hsub
  known := fun h' hh' => isSome_update p' (hinv.known h' (hsub.subset hh'))
  intact := by
    intro h' q hq stream hopen
    rcases mem_update hq with ⟨rfl, rfl⟩ | ⟨-, hq⟩
    · rw [hb.removed stream hopen]
      exact hinv.intact h' p hp stream (hb.unflushed stream hopen)
    · exact hinv.intact h' q hq stream hopen
  streamed := by
    intro h' q hq stream hopen
    rcases mem_update hq with ⟨rfl, rfl⟩ | ⟨-, hq⟩
    · exact hb.streamed hopen (hinv.streamed h' p hp stream (hb.unflushed stream hopen))
    · exact hinv.streamed h' q hq stream hopen
  ready := by
    have hready := hinv.ready
    show Ready (Function.update s.procs h (some p')) s.poller
    unfold Ready at hready ⊢
    split at hready
    · exact scripted_beside hp hb hready
    · exact scripted_beside hp hb hready
    · obtain ⟨hdistinct, hknown, hpending⟩ := hready
      refine ⟨hdistinct, fun i hi => isSome_update p' (hknown i hi), fun i hi => ?_⟩
      exact pending_beside hp hb (hpending i hi) fun q hq hopen =>
        (hinv.streamed i.handle q hq i.stream hopen).1

/-! ## A new handle -/

theorem ne_of_known {procs : Procs} {h h' : Nat} (hnone : procs h = none)
    (hsome : (procs h').isSome = true) : h' ≠ h := by
  rintro rfl
  rw [hnone] at hsome
  cases hsome

theorem mem_of_update {procs : Procs} {h h' : Nat} {p q : Proc} (hne : h' ≠ h)
    (hq : q ∈ Function.update procs h (some p) h') : q ∈ procs h' := by
  rwa [Function.update_of_ne hne] at hq

theorem scripted_start {procs : Procs} {h : Nat} (hnone : procs h = none) (p : Proc)
    {ids : List Nat} {todo : List Fragment} {sized : Option (Fragment × Nat)} {out : List Segment}
    (hs : Scripted procs ids todo sized out) :
    Scripted (Function.update procs h (some p)) ids todo sized out := by
  have hne {f : Fragment} (hf : f ∈ todo ++ sized.toList.map (·.1) ++ out.map (·.toFragment)) :
      f.handle ≠ h := ne_of_known hnone (hs.known _ (hs.polled f hf))
  refine
    { known := fun h' hh' => isSome_update p (hs.known h' hh')
      distinct := hs.distinct
      polled := hs.polled
      todo := ?_
      sized := ?_
      out := ?_ }
  · intro f hf q hq
    exact hs.todo f hf q (mem_of_update (hne (by simp [hf])) hq)
  · intro x hx q hq
    have hmem : x.1 ∈ sized.toList.map (·.1) :=
      List.mem_map_of_mem (Option.mem_toList.2 hx)
    exact hs.sized x hx q (mem_of_update (hne (by simp only [List.mem_append, hmem]; tauto)) hq)
  · intro g hg q hq
    have hmem : g.toFragment ∈ out.map (·.toFragment) := List.mem_map_of_mem hg
    exact hs.out g hg q (mem_of_update (hne (List.mem_append_right _ hmem)) hq)

/-- The current item is one of a known handle. -/
theorem current_known (hinv : Inv s) {i : Item} (hi : i ∈ s.poller.current) :
    (s.procs i.handle).isSome = true := by
  have hready := hinv.ready
  unfold Ready at hready
  split at hready
  · next heq =>
    rw [heq] at hi
    cases hi
  · next heq =>
    rw [heq] at hi
    cases hi
  · exact hready.2.1 i (List.mem_append_left _ (Option.mem_toList.2 hi))

theorem inv_start_step (hinv : Inv s) {h : Nat} (hnone : s.procs h = none) {p : Proc}
    (hremoved : p.removed = false) (hoff : ∀ stream, p.off stream = 0)
    (hbuf : ∀ stream, p.buf stream = []) (hemitted : p.emitted = []) :
    Inv { s.setProc h p with registered := s.registered ++ [h] } where
  nodup := by
    refine List.nodup_append.2 ⟨hinv.nodup, List.nodup_singleton h, ?_⟩
    intro h' hh' k hk
    cases List.mem_singleton.1 hk
    exact ne_of_known hnone (hinv.known h' hh')
  known := by
    intro h' hh'
    rcases List.mem_append.1 hh' with hh' | hh'
    · exact isSome_update p (hinv.known h' hh')
    · cases List.mem_singleton.1 hh'
      show (Function.update s.procs h (some p) h).isSome = true
      rw [Function.update_self]
      rfl
  intact := by
    intro h' q hq stream hopen
    rcases mem_update hq with ⟨-, rfl⟩ | ⟨-, hq⟩
    · exact hremoved
    · exact hinv.intact h' q hq stream hopen
  streamed := by
    intro h' q hq stream hopen
    rcases mem_update hq with ⟨rfl, rfl⟩ | ⟨-, hq⟩
    · have hrest : s.poller.rest h' stream (q.buf stream) = q.buf stream := by
        refine Poller.rest_of_ne (fun i hi heq => ?_) _
        exact ne_of_known hnone (current_known hinv hi) (Prod.mk.inj heq).1
      refine ⟨by rw [hoff], by rw [hoff]; exact Int.natCast_nonneg _, ?_⟩
      show unlines (linesOf stream q.emitted) ++ s.poller.rest h' stream (q.buf stream) = _
      rw [hrest, hbuf, hemitted, Proc.read, hoff]
      rfl
    · exact hinv.streamed h' q hq stream hopen
  ready := by
    have hready := hinv.ready
    show Ready (Function.update s.procs h (some p)) s.poller
    unfold Ready at hready ⊢
    split at hready
    · exact scripted_start hnone p hready
    · exact scripted_start hnone p hready
    · obtain ⟨hdistinct, hknown, hpending⟩ := hready
      refine ⟨hdistinct, fun i hi => isSome_update p (hknown i hi), fun i hi q hq => ?_⟩
      have hne := ne_of_known hnone (hknown i (List.mem_append_right _ hi))
      exact hpending i hi q (mem_of_update hne hq)

/-! ## Feeding an item -/

/-- `_feed` is at work on `i`, and `items` are left. -/
def Work (procs : Procs) (i : Item) (items : List Item) : Prop :=
  ((i :: items).map Item.key).Nodup ∧ (∀ j ∈ i :: items, (procs j.handle).isSome = true) ∧
    ∀ j ∈ items, Pending procs j

/-- What the poller does to a handle on behalf of an item. -/
structure Feeds (i : Item) (p p' : Proc) : Prop where
  stopper : p'.stopper = p.stopper
  removed : p'.removed = p.removed
  file : p'.file = p.file
  off : ∀ stream, stream ≠ i.stream → p'.off stream = p.off stream
  buf : ∀ stream, stream ≠ i.stream → p'.buf stream = p.buf stream
  lines : ∀ stream, stream ≠ i.stream → linesOf stream p'.emitted = linesOf stream p.emitted

theorem Feeds.rfl (i : Item) (p : Proc) : Feeds i p p :=
  ⟨Eq.refl _, Eq.refl _, Eq.refl _, fun _ _ => Eq.refl _, fun _ _ => Eq.refl _,
    fun _ _ => Eq.refl _⟩

theorem Feeds.unflushed {i : Item} {p p' : Proc} (hf : Feeds i p p') {stream : Stream}
    (hopen : p'.Unflushed stream) : p.Unflushed stream := by
  rwa [Proc.Unflushed, hf.stopper] at hopen

theorem Feeds.work {procs : Procs} {i : Item} {items : List Item} {p p' : Proc}
    (hp : procs i.handle = some p) (hf : Feeds i p p') (hw : Work procs i items) :
    Work (Function.update procs i.handle (some p')) i items := by
  obtain ⟨hdistinct, hknown, hpending⟩ := hw
  refine ⟨hdistinct, fun j hj => isSome_update p' (hknown j hj), fun j hj q hq hopen => ?_⟩
  rcases mem_update hq with ⟨hh, rfl⟩ | ⟨-, hq⟩
  · have hstream : j.stream ≠ i.stream := by
      intro heq
      have hkey : Item.key j = Item.key i := Prod.ext hh heq
      rw [List.map_cons] at hdistinct
      exact (List.nodup_cons.1 hdistinct).1 (hkey ▸ List.mem_map_of_mem hj)
    have hold := hpending j hj p (by rw [hh]; exact hp) (hf.unflushed hopen)
    rw [Proc.read] at hold ⊢
    rw [hf.off _ hstream, hf.file]
    exact hold
  · exact hpending j hj q hq hopen

theorem inv_feed (hinv : Inv s) {i : Item} {p p' : Proc} {pc : Poller}
    (hp : s.procs i.handle = some p) (hf : Feeds i p p')
    (hcurrent : ∀ j ∈ s.poller.current, j = i) (hcurrent' : ∀ j ∈ pc.current, j = i)
    (hstep : p.Unflushed i.stream → Streamed s.poller i.handle p i.stream →
      Streamed pc i.handle p' i.stream)
    (hready : Ready (Function.update s.procs i.handle (some p')) pc) :
    Inv { s.setProc i.handle p' with poller := pc } where
  nodup := hinv.nodup
  known := fun h hh => isSome_update p' (hinv.known h hh)
  intact := by
    intro h q hq stream hopen
    rcases mem_update hq with ⟨rfl, rfl⟩ | ⟨-, hq⟩
    · rw [hf.removed]
      exact hinv.intact _ p hp stream (hf.unflushed hopen)
    · exact hinv.intact h q hq stream hopen
  streamed := by
    intro h q hq stream hopen
    have hrest {h' : Nat} {st : Stream} (hne : Item.key i ≠ (h', st)) (b : Txt) :
        pc.rest h' st b = s.poller.rest h' st b := by
      rw [Poller.rest_of_ne (fun j hj => (hcurrent' j hj).symm ▸ hne),
        Poller.rest_of_ne (fun j hj => (hcurrent j hj).symm ▸ hne)]
    rcases mem_update hq with ⟨rfl, rfl⟩ | ⟨hne, hq⟩
    · have hold := hinv.streamed _ p hp stream (hf.unflushed hopen)
      by_cases hstream : stream = i.stream
      · subst hstream
        exact hstep (hf.unflushed hopen) hold
      · obtain ⟨hpos, hle, htext⟩ := hold
        have hkey : Item.key i ≠ (i.handle, stream) := fun heq => hstream (Prod.mk.inj heq).2.symm
        refine ⟨by rwa [hf.off _ hstream], by rwa [hf.off _ hstream, hf.file], ?_⟩
        rw [Proc.read] at htext ⊢
        show _ ++ pc.rest i.handle stream _ = _
        rw [hf.lines _ hstream, hf.buf _ hstream, hrest hkey, htext, hf.off _ hstream, hf.file]
    · obtain ⟨hpos, hle, htext⟩ := hinv.streamed h q hq stream hopen
      refine ⟨hpos, hle, ?_⟩
      show _ ++ pc.rest h stream _ = _
      rw [hrest fun heq => hne (Prod.mk.inj heq).1.symm, htext]
  ready := hready

/-- A step of the poller that touches no handle. -/
theorem inv_turn (hinv : Inv s) {pc : Poller}
    (hrest : ∀ h stream b, pc.rest h stream b = s.poller.rest h stream b)
    (hready : Ready s.procs pc) : Inv { s with poller := pc } where
  nodup := hinv.nodup
  known := hinv.known
  intact := hinv.intact
  streamed := by
    intro h p hp stream hopen
    obtain ⟨hpos, hle, htext⟩ := hinv.streamed h p hp stream hopen
    refine ⟨hpos, hle, ?_⟩
    show _ ++ pc.rest h stream _ = _
    rw [hrest, htext]
  ready := hready

/-! ## A poll -/

theorem mem_fragments {f : Fragment} (hf : f ∈ s.fragments) :
    f.handle ∈ s.registered ∧ Current s.procs f := by
  obtain ⟨h, hh, hf⟩ := List.mem_flatMap.1 hf
  cases hp : s.procs h with
  | none =>
    rw [hp] at hf
    cases hf
  | some p =>
    rw [hp] at hf
    have hcases : f = ⟨h, .o, p.off .o⟩ ∨ f = ⟨h, .e, p.off .e⟩ := by
      simpa [Proc.fragments] using hf
    rcases hcases with rfl | rfl
    · exact ⟨hh, fun q hq _ => by cases hp.symm.trans hq; rfl⟩
    · exact ⟨hh, fun q hq _ => by cases hp.symm.trans hq; rfl⟩

theorem keys_fragments (hknown : ∀ h ∈ s.registered, (s.procs h).isSome = true) :
    s.fragments.map Fragment.key = s.registered.product [Stream.o, Stream.e] := by
  rw [State.fragments, List.map_flatMap, List.product]
  refine List.flatMap_congr fun h hh => ?_
  obtain ⟨p, hp⟩ := Option.isSome_iff_exists.1 (hknown h hh)
  rw [hp]
  rfl

theorem scripted_fragments (hinv : Inv s) : Scripted s.procs s.registered s.fragments none [] where
  known := hinv.known
  distinct := by
    have hkeys : (s.fragments.map Fragment.key).Nodup := by
      rw [keys_fragments hinv.known]
      exact hinv.nodup.product (by decide)
    simpa using hkeys
  polled := by
    intro f hf
    have hmem : f ∈ s.fragments := by simpa using hf
    exact (mem_fragments hmem).1
  todo := fun f hf => (mem_fragments hf).2
  sized := fun x hx => absurd hx (Option.not_mem_none x)
  out := fun g hg => absurd hg List.not_mem_nil

namespace Scripted
variable {procs : Procs} {ids : List Nat} {f : Fragment} {todo : List Fragment} {size : Nat}
  {out : List Segment}

theorem measure (hs : Scripted procs ids (f :: todo) none out) (hsized : Sized procs f size) :
    Scripted procs ids todo (some (f, size)) out := by
  have hmove : (f :: todo).Perm (todo ++ [f]) := (List.perm_append_singleton f todo).symm
  have hperm : (f :: todo ++ [] ++ out.map Segment.toFragment).Perm
      (todo ++ [f] ++ out.map Segment.toFragment) := by
    rw [List.append_nil]
    exact hmove.append_right _
  refine
    { known := hs.known
      distinct := ((hperm.map Fragment.key).nodup_iff).1 hs.distinct
      polled := fun f' hf' => hs.polled f' (hperm.mem_iff.2 hf')
      todo := fun f' hf' => hs.todo f' (List.mem_cons_of_mem f hf')
      sized := ?_
      out := hs.out }
  intro x hx
  cases Option.mem_some.1 hx
  exact hsized

theorem read (hs : Scripted procs ids todo (some (f, size)) out) (content : Bytes) :
    Scripted procs ids todo none (out ++ [f.read size content]) := by
  have hperm : (todo ++ [f] ++ out.map Segment.toFragment).Perm
      (todo ++ [] ++ (out ++ [f.read size content]).map Segment.toFragment) := by
    rw [List.append_nil, List.append_assoc, List.map_append]
    exact List.perm_append_comm.append_left todo
  refine
    { known := hs.known
      distinct := ((hperm.map Fragment.key).nodup_iff).1 hs.distinct
      polled := fun f' hf' => hs.polled f' (hperm.mem_iff.2 hf')
      todo := hs.todo
      sized := fun x hx => absurd hx (Option.not_mem_none x)
      out := ?_ }
  intro g hg
  rcases List.mem_append.1 hg with hg | hg
  · exact hs.out g hg
  · cases List.mem_singleton.1 hg
    exact hs.sized _ rfl

end Scripted

/-- `wc` gives the size of the file. -/
theorem sized_measure (hinv : Inv s) {f : Fragment} (hf : Current s.procs f) :
    Sized s.procs f (s.content f.handle f.stream).length := by
  intro p hp hopen
  have hcontent : s.content f.handle f.stream = p.file f.stream := by
    rw [State.content, hp, Option.map_some, Option.getD_some, Proc.content,
      hinv.intact f.handle p hp f.stream hopen]
    rfl
  obtain ⟨hpos, hle, htext⟩ := hinv.streamed f.handle p hp f.stream hopen
  rw [hcontent, ← hf p hp hopen]
  exact ⟨rfl, hle, Nat.le_refl _⟩

theorem pending_itemOf (hinv : Inv s) {g : Segment} (hsized : Sized s.procs g.toFragment g.size)
    (hexact : Exact s g) : Pending s.procs (itemOf g) := by
  intro p hp hopen
  obtain ⟨hoff, hle, hsize⟩ := hsized p hp hopen
  obtain ⟨-, htext⟩ := hexact p hp hopen
  have hpos : 0 ≤ p.off g.stream := (hinv.streamed g.handle p hp g.stream hopen).1
  have hend : g.off.toNat + g.n = (itemOf g).size.toNat := by
    show g.off.toNat + (if g.off < g.size then (g.size - g.off).toNat else 0) = _
    show _ = ((g.size : Int)).toNat
    split <;> omega
  refine ⟨?_, ?_, ?_⟩
  · show p.off g.stream ≤ g.size
    rwa [hoff]
  · show (g.size : Int) ≤ (p.file g.stream).length
    omega
  · rw [← hend]
    show decode ((p.file g.stream).take (p.off g.stream).toNat) ++ decode g.data = _
    rw [hoff]
    exact htext

theorem key_itemOf (gs : List Segment) :
    (gs.map itemOf).map Item.key = (gs.map Segment.toFragment).map Fragment.key := by
  rw [List.map_map, List.map_map]
  rfl

/-- What a clean response leaves to be dispatched. -/
theorem ready_reply (hinv : Inv s) {ids : List Nat} {out : List Segment} {cut : Nat}
    (hs : Scripted s.procs ids [] none out) (hexact : ∀ g ∈ arrived out cut, Exact s g) :
    Ready s.procs (.dispatching ((arrived out cut).map itemOf)) := by
  have hsub := arrived_sub out cut
  have hids : ∀ g ∈ out, g.handle ∈ ids := fun g hg =>
    hs.polled g.toFragment (List.mem_map_of_mem hg)
  refine ⟨?_, ?_, ?_⟩
  · show (((arrived out cut).map itemOf).map Item.key).Nodup
    rw [key_itemOf]
    exact hs.distinct.sublist ((hsub.sublist.map _).map _)
  · intro i hi
    obtain ⟨g, hg, rfl⟩ := List.mem_map.1 (show i ∈ (arrived out cut).map itemOf from hi)
    exact hs.known _ (hids g (hsub.subset hg))
  · intro i hi
    obtain ⟨g, hg, rfl⟩ := List.mem_map.1 (show i ∈ (arrived out cut).map itemOf from hi)
    exact pending_itemOf hinv (hs.out g (hsub.subset hg)) (hexact g hg)

theorem setProc_self {h : Nat} {p : Proc} (hp : s.procs h = some p) : s.setProc h p = s := by
  rw [State.setProc, ← hp, Function.update_eq_self]

theorem linesOf_emit (p : Proc) (stream stream' : Stream) (line : Txt) :
    linesOf stream' (p.emit stream line).emitted =
      linesOf stream' p.emitted ++ if stream = stream' then [line] else [] := by
  show linesOf stream' (p.emitted ++ [(stream, line)]) = _
  rw [linesOf, List.filter_append, List.map_append]
  by_cases heq : stream = stream'
  · simp [heq, linesOf]
  · simp [heq, linesOf]

section Feed
variable {i : Item} {p : Proc} {items : List Item} (hinv : Inv s)
include hinv

/-- `handle._o_off = size`. -/
theorem inv_dispatch (hp : s.procs i.handle = some p)
    (hpc : s.poller = .dispatching (i :: items)) :
    Inv { s.setProc i.handle (p.setOff i.stream i.size) with
      poller := if i.data = [] then .dispatching items else .feeding i items } := by
  have hready : Ready s.procs (.dispatching (i :: items)) := hpc ▸ hinv.ready
  obtain ⟨hdistinct, hknown, hpending⟩ := hready
  have hf : Feeds i p (p.setOff i.stream i.size) :=
    { Feeds.rfl i p with off := fun stream hne => Function.update_of_ne hne _ _ }
  have hwork := hf.work hp ⟨hdistinct, hknown, fun j hj =>
    hpending j (List.mem_cons_of_mem i hj)⟩
  have hmoved : (p.setOff i.stream i.size).off i.stream = i.size := Function.update_self _ _ _
  refine inv_feed hinv hp hf ?_ ?_ ?_ ?_
  · rw [hpc]
    exact fun j hj => absurd hj (Option.not_mem_none j)
  · split
    · exact fun j hj => absurd hj (Option.not_mem_none j)
    · exact fun j hj => (Option.mem_some.1 hj).symm
  · intro hopen hs
    obtain ⟨hpos, -, htext⟩ := hs
    obtain ⟨hle, hsize, hread⟩ := hpending i List.mem_cons_self p hp hopen
    refine ⟨by rw [hmoved]; omega, by rw [hmoved]; exact hsize, ?_⟩
    rw [hpc] at htext
    have hall : unlines (linesOf i.stream p.emitted) ++ (p.buf i.stream ++ i.data) =
        decode ((p.file i.stream).take i.size.toNat) := by
      rw [← hread, ← htext, List.append_assoc]
      rfl
    rw [Proc.read, hmoved]
    show _ = decode ((p.file i.stream).take i.size.toNat)
    rw [← hall]
    split
    · next hnil =>
      rw [hnil, List.append_nil]
      rfl
    · congr 1
      exact if_pos rfl
  · split
    · obtain ⟨hdistinct', hknown', hpending'⟩ := hwork
      exact ⟨(List.nodup_cons.1 hdistinct').2, fun j hj => hknown' j (List.mem_cons_of_mem i hj),
        hpending'⟩
    · exact hwork

/-- The poller stays at the item that it is at. -/
theorem inv_feed_same {i : Item} {p p' : Proc} {pc : Poller} (hp : s.procs i.handle = some p)
    (hf : Feeds i p p') (hcurrent : s.poller.current = some i) (hcurrent' : pc.current = some i)
    (hstep : p.Unflushed i.stream → Streamed s.poller i.handle p i.stream →
      Streamed pc i.handle p' i.stream)
    (hready : Ready (Function.update s.procs i.handle (some p')) pc) :
    Inv { s.setProc i.handle p' with poller := pc } := by
  refine inv_feed hinv hp hf ?_ ?_ hstep hready
  · rw [hcurrent]
    exact fun j hj => (Option.mem_some.1 hj).symm
  · rw [hcurrent']
    exact fun j hj => (Option.mem_some.1 hj).symm

theorem work_of_poller {pc : Poller} (hpc : s.poller = pc)
    (hready : Ready s.procs pc = Work s.procs i items) : Work s.procs i items := by
  rw [← hready, ← hpc]
  exact hinv.ready

theorem inv_load (hp : s.procs i.handle = some p) (hpc : s.poller = .feeding i items) :
    Inv { s with poller := .loaded i (p.buf i.stream) items } := by
  have hwork : Work s.procs i items := work_of_poller hinv hpc rfl
  have hnew : Inv { s.setProc i.handle p with poller := .loaded i (p.buf i.stream) items } := by
    refine inv_feed_same hinv hp (Feeds.rfl i p) (by rw [hpc]; rfl) rfl (fun _ hs => ?_)
      ((Feeds.rfl i p).work hp hwork)
    rwa [hpc] at hs
  rwa [setProc_self hp] at hnew

/-- The handle whose buffer was loaded is still the one that it is stored to. -/
theorem inv_append (hp : s.procs i.handle = some p) {b : Txt}
    (hpc : s.poller = .loaded i b items) :
    Inv { s.setProc i.handle (p.setBuf i.stream (b ++ i.data)) with
      poller := .appended i items } := by
  have hf : Feeds i p (p.setBuf i.stream (b ++ i.data)) :=
    { Feeds.rfl i p with buf := fun stream hne => Function.update_of_ne hne _ _ }
  have hbuf : (p.setBuf i.stream (b ++ i.data)).buf i.stream = b ++ i.data :=
    Function.update_self _ _ _
  refine inv_feed_same hinv hp hf (by rw [hpc]; rfl) rfl (fun _ hs => ?_)
    (hf.work hp (work_of_poller hinv hpc rfl))
  obtain ⟨hpos, hle, htext⟩ := hs
  refine ⟨hpos, hle, ?_⟩
  rw [hpc] at htext
  show _ = p.read i.stream
  rw [← htext, hbuf]
  congr 1
  exact (if_pos rfl).symm

theorem inv_split (hp : s.procs i.handle = some p) (hpc : s.poller = .appended i items) :
    Inv { s with
      poller := .split i (splitRest (p.buf i.stream)).1 (splitRest (p.buf i.stream)).2 items } := by
  have hwork : Work s.procs i items := work_of_poller hinv hpc rfl
  have hnew : Inv { s.setProc i.handle p with
      poller := .split i (splitRest (p.buf i.stream)).1 (splitRest (p.buf i.stream)).2 items } := by
    refine inv_feed_same hinv hp (Feeds.rfl i p) (by rw [hpc]; rfl) rfl (fun _ hs => ?_)
      ((Feeds.rfl i p).work hp hwork)
    obtain ⟨hpos, hle, htext⟩ := hs
    refine ⟨hpos, hle, ?_⟩
    rw [hpc] at htext
    rw [← htext]
    congr 1
    exact (if_pos rfl).trans (unlines_splitRest _)
  rwa [setProc_self hp] at hnew

theorem inv_store (hp : s.procs i.handle = some p) {lines : List Txt} {rest : Txt}
    (hpc : s.poller = .split i lines rest items) :
    Inv { s.setProc i.handle (p.setBuf i.stream rest) with poller := .emitting i lines items } := by
  have hf : Feeds i p (p.setBuf i.stream rest) :=
    { Feeds.rfl i p with buf := fun stream hne => Function.update_of_ne hne _ _ }
  have hbuf : (p.setBuf i.stream rest).buf i.stream = rest := Function.update_self _ _ _
  refine inv_feed_same hinv hp hf (by rw [hpc]; rfl) rfl (fun _ hs => ?_)
    (hf.work hp (work_of_poller hinv hpc rfl))
  obtain ⟨hpos, hle, htext⟩ := hs
  refine ⟨hpos, hle, ?_⟩
  rw [hpc] at htext
  show _ = p.read i.stream
  rw [← htext, hbuf]
  congr 1
  exact (if_pos rfl).trans (if_pos rfl).symm

theorem inv_emit (hp : s.procs i.handle = some p) {line : Txt} {lines : List Txt}
    (hpc : s.poller = .emitting i (line :: lines) items) :
    Inv { s.setProc i.handle (p.emit i.stream line) with
      poller := .emitting i lines items } := by
  have hf : Feeds i p (p.emit i.stream line) :=
    { Feeds.rfl i p with
      lines := fun stream hne => by rw [linesOf_emit, if_neg hne.symm, List.append_nil] }
  refine inv_feed_same hinv hp hf (by rw [hpc]; rfl) rfl (fun _ hs => ?_)
    (hf.work hp (work_of_poller hinv hpc rfl))
  obtain ⟨hpos, hle, htext⟩ := hs
  refine ⟨hpos, hle, ?_⟩
  have hrest (ls : List Txt) : Poller.rest (.emitting i ls items) i.handle i.stream
      (p.buf i.stream) = unlines ls ++ p.buf i.stream := if_pos rfl
  rw [hpc, hrest] at htext
  show _ ++ Poller.rest (.emitting i lines items) i.handle i.stream (p.buf i.stream) =
    p.read i.stream
  rw [← htext, linesOf_emit, if_pos rfl, hrest]
  simp [unlines]

theorem inv_emitted (hpc : s.poller = .emitting i [] items) :
    Inv { s with poller := .dispatching items } := by
  obtain ⟨hdistinct, hknown, hpending⟩ : Work s.procs i items := work_of_poller hinv hpc rfl
  refine inv_turn hinv ?_ ?_
  · intro h stream b
    rw [hpc]
    exact (ite_self b).symm
  · exact ⟨(List.nodup_cons.1 hdistinct).2, fun j hj => hknown j (List.mem_cons_of_mem i hj),
      hpending⟩

end Feed

/-! ## A run -/

theorem Beside.setStopper {p : Proc} {x : Stopper}
    (hx : ∀ stream, x.unflushed stream = true → p.Unflushed stream) :
    Beside p (p.setStopper x) :=
  ⟨hx, fun _ _ => rfl, fun _ _ => rfl, fun _ _ => rfl, fun _ _ => rfl, fun _ => List.prefix_rfl⟩

theorem unflushed_afterFlush (stream stream' : Stream) :
    (Proc.afterFlush stream).unflushed stream' = (Stopper.clearing stream).unflushed stream' := by
  cases stream <;> cases stream' <;> rfl

/-- From the end of `_flush_partial` on. -/
theorem Beside.of_flushed {p p' : Proc} (hflushed : ∀ stream, ¬ p'.Unflushed stream)
    (hfile : p'.file = p.file) : Beside p p' where
  unflushed := fun stream hopen => absurd hopen (hflushed stream)
  removed := fun stream hopen => absurd hopen (hflushed stream)
  off := fun stream hopen => absurd hopen (hflushed stream)
  buf := fun stream hopen => absurd hopen (hflushed stream)
  lines := fun stream hopen => absurd hopen (hflushed stream)
  file := fun stream => by rw [hfile]

/-- What `stop` does to a stream, it does when it has come to it. -/
theorem Beside.of_stop {p p' : Proc} {l : Step} (hstep : p.stopStep l = some p') :
    Beside p p' := by
  rcases stop_cases hstep with ⟨_, stream, -, hpc, rfl⟩ | ⟨stream, hpc, rfl⟩ |
    ⟨stream, line, hpc, rfl⟩ | ⟨stream, hpc, rfl⟩ | ⟨-, rfl⟩ | ⟨-, rfl⟩ | ⟨-, rfl⟩ | ⟨-, rfl⟩ |
    ⟨-, rfl⟩
  · refine Beside.setStopper fun stream' hopen => ?_
    rw [Proc.Unflushed, hpc]
    revert hopen
    split <;> cases stream <;> cases stream' <;> decide
  · refine Beside.setStopper fun stream' hopen => ?_
    rw [Proc.Unflushed, hpc]
    revert hopen
    cases stream <;> cases stream' <;> exact id
  · refine ⟨fun stream' hopen => ?_, fun _ _ => rfl, fun _ _ => rfl, fun _ _ => rfl,
      fun stream' hopen => ?_, fun _ => List.prefix_rfl⟩
    · rw [Proc.Unflushed, hpc]
      revert hopen
      cases stream <;> cases stream' <;> exact id
    · have hne : stream ≠ stream' := by
        rintro rfl
        revert hopen
        cases stream <;> exact Bool.noConfusion
      exact (linesOf_emit p stream stream' line).trans (by rw [if_neg hne, List.append_nil])
  · refine ⟨fun stream' hopen => ?_, fun _ _ => rfl, fun _ _ => rfl, fun stream' hopen => ?_,
      fun _ _ => rfl, fun _ => List.prefix_rfl⟩
    · rw [Proc.Unflushed, hpc, ← unflushed_afterFlush]
      exact hopen
    · have hne : stream' ≠ stream := by
        rintro rfl
        revert hopen
        cases stream' <;> exact Bool.noConfusion
      exact Function.update_of_ne hne _ _
  · exact Beside.of_flushed (fun stream => by cases stream <;> exact Bool.noConfusion) rfl
  · exact Beside.of_flushed (fun stream => by cases stream <;> exact Bool.noConfusion) rfl
  · exact Beside.of_flushed (fun stream => by cases stream <;> exact Bool.noConfusion) rfl
  · exact Beside.of_flushed (fun stream => by cases stream <;> exact Bool.noConfusion) rfl
  · exact Beside.of_flushed (fun stream => by cases stream <;> exact Bool.noConfusion) rfl

theorem inv_step (hinv : Inv s) {l : Step} (hclean : Clean s l) {s' : State}
    (hstep : s.step l = some s') : Inv s' := by
  have hself := List.Sublist.refl s.registered
  have hscript {ids : List Nat} {todo : List Fragment} {out : List Segment}
      (hpc : s.poller = .script ids todo out) : Scripted s.procs ids todo none out := by
    have hready := hinv.ready
    rwa [hpc] at hready
  cases l with
  | start h out err hasPid hasLog =>
    obtain ⟨hnone, rfl⟩ := step_start hstep
    exact inv_start_step hinv hnone rfl (fun _ => rfl) (fun _ => rfl) rfl
  | write h stream bytes =>
    obtain ⟨p, hp, -, rfl⟩ := step_write hstep
    refine inv_beside hinv hp ?_ hself
    refine ⟨fun _ => id, fun _ _ => rfl, fun _ _ => rfl, fun _ _ => rfl, fun _ _ => rfl,
      fun stream' => ?_⟩
    by_cases heq : stream' = stream
    · subst heq
      simp [Proc.write]
    · simp [Proc.write, heq]
  | processEnd h =>
    obtain ⟨p, hp, rfl⟩ := step_processEnd hstep
    have hb : Beside p { p with ended := true } :=
      ⟨fun _ => id, fun _ _ => rfl, fun _ _ => rfl, fun _ _ => rfl, fun _ _ => rfl,
        fun _ => List.prefix_rfl⟩
    exact inv_beside hinv hp hb hself
  | begin =>
    obtain ⟨hidle, rfl | rfl⟩ := step_begin hstep
    · exact hinv
    · refine inv_turn hinv (fun h stream b => ?_) (scripted_fragments hinv)
      rw [hidle]
      rfl
  | measure =>
    obtain ⟨ids, f, todo, out, hpc, rfl⟩ := step_measure hstep
    have hsized := (hscript hpc).measure
      (sized_measure hinv ((hscript hpc).todo f List.mem_cons_self))
    refine inv_turn hinv (fun h stream b => ?_) ?_
    · rw [hpc]
      split <;> rfl
    · split
      · exact hsized.read _
      · exact hsized
  | tail =>
    obtain ⟨ids, f, size, todo, out, hpc, rfl⟩ := step_tail hstep
    have hs : Scripted s.procs ids todo (some (f, size)) out := by
      have hready := hinv.ready
      rwa [hpc] at hready
    refine inv_turn hinv (fun h stream b => ?_) (hs.read _)
    rw [hpc]
    rfl
  | reply cut =>
    obtain ⟨ids, out, hpc, rfl⟩ := step_reply hstep
    obtain ⟨haligned, hexact⟩ : Aligned out cut ∧ ∀ g ∈ arrived out cut, Exact s g := by
      simpa only [Clean, hpc] using hclean
    rw [itemsOf_of_aligned haligned fun g hg =>
      (hscript hpc).polled g.toFragment (List.mem_map_of_mem hg)]
    refine inv_turn hinv (fun h stream b => ?_) (ready_reply hinv (hscript hpc) hexact)
    rw [hpc]
    rfl
  | dispatch =>
    obtain ⟨hpc, rfl⟩ | ⟨i, items, p, hpc, hp, rfl⟩ := step_dispatch hstep
    · refine inv_turn hinv (fun h stream b => ?_) (ready_idle s.procs)
      rw [hpc]
      rfl
    · exact inv_dispatch hinv hp hpc
  | load =>
    obtain ⟨i, items, p, hpc, hp, rfl⟩ := step_load hstep
    exact inv_load hinv hp hpc
  | append =>
    obtain ⟨i, b, items, p, hpc, hp, rfl⟩ := step_append hstep
    exact inv_append hinv hp hpc
  | split =>
    obtain ⟨i, items, p, hpc, hp, rfl⟩ := step_split hstep
    exact inv_split hinv hp hpc
  | store =>
    obtain ⟨i, lines, rest, items, p, hpc, hp, rfl⟩ := step_store hstep
    exact inv_store hinv hp hpc
  | emit =>
    obtain ⟨i, items, hpc, rfl⟩ | ⟨i, line, lines, items, p, hpc, hp, rfl⟩ := step_emit hstep
    · exact inv_emitted hinv hpc
    · exact inv_emit hinv hp hpc
  | unregister h =>
    obtain ⟨p, hp, hno, rfl⟩ := step_unregister hstep
    have hb : Beside p (p.setStopper (.flushing .o)) :=
      ⟨fun stream _ => by rw [Proc.Unflushed, hno]; rfl, fun _ _ => rfl, fun _ _ => rfl,
        fun _ _ => rfl, fun _ _ => rfl, fun _ => List.prefix_rfl⟩
    exact inv_beside hinv hp hb List.filter_sublist
  | _ =>
    obtain ⟨p, p', hp, hp', rfl⟩ := step_stop hstep
    exact inv_beside hinv hp (Beside.of_stop hp') hself

theorem inv_run {steps : List Step} (hsteps : CleanRun steps) : Inv (run steps) := by
  refine Steps.invariant (I := fun _ s => Inv s) inv_start ?_ hsteps
  intro _ s l hinv ⟨hsome, hclean⟩
  obtain ⟨s', hs'⟩ := Option.isSome_iff_exists.1 hsome
  rw [State.next, hs', Option.getD_some]
  exact inv_step hinv hclean hs'

/-- After a poll, what was emitted and the partial line are what the file holds up to the
offset, as text, when every response has been clean. -/
theorem streamed_of_clean {steps : List Step} (hsteps : CleanRun steps)
    (hidle : (run steps).poller = .idle) {h : Nat} {p : Proc} (hp : (run steps).procs h = some p)
    {stream : Stream} (hopen : p.Unflushed stream) :
    unlines (linesOf stream p.emitted) ++ p.buf stream = p.read stream := by
  obtain ⟨-, -, htext⟩ := (inv_run hsteps).streamed h p hp stream hopen
  rw [hidle] at htext
  exact htext

/-- A poll of one handle with `lines` lines of standard output and nothing else. -/
def pollOf (lines : Nat) : List Step :=
  ([.begin, .measure, .tail, .measure, .reply 1000, .dispatch, .load, .append, .split,
    .store] : List Step) ++ List.replicate (lines + 1) .emit ++ [.dispatch, .dispatch]

/-- A line, and the beginning of another that the next poll completes. -/
theorem streamed_of_clean_partial :
    ∃ p ∈ (run (.start 1 (encode "a\nb".toList) [] true true :: pollOf 1 ++
        .write 1 .o (encode "c\n".toList) :: pollOf 1)).procs 1,
      unlines (linesOf .o p.emitted) ++ p.buf .o = p.read .o := by
  have hopen : ∃ p ∈ (run (.start 1 (encode "a\nb".toList) [] true true :: pollOf 1 ++
      .write 1 .o (encode "c\n".toList) :: pollOf 1)).procs 1, p.Unflushed .o := by
    decide
  obtain ⟨p, hp, hopen⟩ := hopen
  exact ⟨p, hp, streamed_of_clean (by decide) (by decide) hp hopen⟩

/-- The process writes a line between `wc` and `tail`: the line before it is lost, and the
new line comes again with the next poll. -/
def writtenBetween : List Step :=
  [.start 1 [] [] true true, .write 1 .o (encode "a\n".toList), .begin, .measure,
    .write 1 .o (encode "b\n".toList), .tail, .measure, .reply 1000, .dispatch, .load, .append,
    .split, .store, .emit, .emit, .dispatch, .dispatch]

theorem line_lost_between :
    ¬ ∀ steps, Possible steps → (run steps).poller = .idle → ∀ h, ∀ p ∈ (run steps).procs h,
      ∀ stream, p.Unflushed stream →
        unlines (linesOf stream p.emitted) ++ p.buf stream = p.read stream := by
  intro hall
  have hlost : ∃ p ∈ (run writtenBetween).procs 1, p.Unflushed .o ∧
      unlines (linesOf .o p.emitted) ++ p.buf .o ≠ p.read .o := by decide
  obtain ⟨p, hp, hopen, hne⟩ := hlost
  exact hne (hall writtenBetween (by decide) (by decide) 1 p hp .o hopen)

end LiveStreaming
end Executors
end RocmTests

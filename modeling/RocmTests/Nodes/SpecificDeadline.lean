import RocmTests.Conc.Ending
import RocmTests.Nodes.NodePool

/-!
# The deadline of `acquire_specific_slot`

Every attempt meets an `_available` set, a lock file, a sidecar and a clock that
other threads and processes decide.  An attempt that fails is followed by the
deadline check, except where the lock is held and its sidecar does not name a
live process: the source takes such a lock for one the kernel has already
released and starts over.  A holder that wrote no sidecar, because its test id is
empty, looks the same.

What is followed here is what the call itself leaves in the allocator and in the
registry.
-/

namespace RocmTests
namespace Nodes
namespace SpecificDeadline

open Conc Gpu Pool

/-- What one attempt meets, and the clock when it is over.  `alive` is about the
process the sidecar names. -/
structure Meeting where
  available : Finset Int
  busy : Bool
  info : Option Info
  alive : Bool
  now : ℚ

namespace Meeting

/-- The index is not in `_available`, or its lock file is held. -/
def fails (m : Meeting) (gpuIndex : Int) : Bool := !decide (gpuIndex ∈ m.available) || m.busy

/-- The lock file is held and no sidecar names a live process. -/
def holderGone (m : Meeting) (gpuIndex : Int) : Bool :=
  decide (gpuIndex ∈ m.available) && m.busy && !(m.info.isSome && m.alive)

end Meeting

/-- What the call has taken out of `_available` and put into the registry, and how
many attempts it has begun. -/
structure Footprint where
  attempts : Nat
  out : Finset (String × Int)
  registered : Finset (String × Nat)
  nextId : Nat

namespace Footprint

def start : Footprint := { attempts := 0, out := ∅, registered := ∅, nextId := 0 }

end Footprint

section

variable (T : Topology) (begin : ℚ) (meets : Nat → Meeting)

/-- The attempt under way. -/
def current (s : Footprint) : Meeting := meets (s.attempts - 1)

/-- The clock says `begin` before the first attempt. -/
def osExec : (o : OsOp) → Footprint → o.Resp × Footprint
  | .flock _, s =>
    if (current meets s).busy then ((none : Option Nat), s)
    else ((some s.nextId : Option Nat), { s with nextId := s.nextId + 1 })
  | .funlock _ _, s => ((), s)
  | .writeInfo _ _, s => ((), s)
  | .removeInfo _, s => ((), s)
  | .readInfo _, s => ((current meets s).info, s)
  | .pidExists _, s => ((current meets s).alive, s)
  | .monotonic, s => (if s.attempts = 0 then begin else (current meets s).now, s)
  | .addPending safe _, s =>
    (s.nextId, { s with
      registered := insert (safe, s.nextId) s.registered
      nextId := s.nextId + 1 })
  | .dropPending safe req, s => ((), { s with registered := s.registered.erase (safe, req) })
  | .livePending _ _, s => ((none : Option (List Int)), s)

/-- The allocator as the attempt finds it. -/
def alloc (s : Footprint) (label : String) : GpuAllocator :=
  ⟨(T.gpus label).getD [], (current meets s).available.filter fun i => (label, i) ∉ s.out,
    T.headroomGb⟩

def exec : (o : PoolOp) → Footprint → Option (o.Resp × Footprint)
  | .os o, s => some (osExec begin meets o s)
  | .lockPool, s => some ((), { s with attempts := s.attempts + 1 })
  | .unlockPool, s => some ((), s)
  | .allocate label v, s =>
    match (alloc T meets s label).allocate v with
    | .error e => some (Except.error e, s)
    | .ok x => some (Except.ok x.1, { s with out := insert (label, x.1.index) s.out })
  | .allocateSpecific label i, s =>
    match (alloc T meets s label).allocateSpecific i with
    | .error e => some (Except.error e, s)
    | .ok x => some (Except.ok x.1, { s with out := insert (label, x.1.index) s.out })
  | .deallocate label gpu _, s => some ((), { s with out := s.out.erase (label, gpu.index) })
  | .deliver _ _, s => some ((), s)
  | .rest, s => some ((), s)
  | .wake, s => some ((), s)
  | .nextCall, _ => none

/-- Attempt `k` is the first to fail at or after the deadline. -/
def FirstLate (gpuIndex : Int) (deadline : ℚ) (k : Nat) : Prop :=
  (meets k).fails gpuIndex = true ∧ deadline ≤ (meets k).now ∧
    ∀ j < k, (meets j).fails gpuIndex = true ∧ (meets j).now < deadline

variable (pid : Nat) (gpuIndex : Int) (waitTimeoutSecs : ℚ) (testId : String)

/-- The call raises after attempt `k`, with nothing left in the allocator or in the
registry. -/
def RaisesAfter (k : Nat) : Prop :=
  ∃ s, Ends (exec T begin meets) (acquireSpecificSlot T pid gpuIndex waitTimeoutSecs testId)
      Footprint.start (.error (.indexNotAcquired gpuIndex waitTimeoutSecs)) s ∧
    s.attempts = k + 1 ∧ s.registered = ∅ ∧ s.out = ∅

/-- The first attempt that fails at or after the deadline is the last. -/
def RespectsDeadline : Prop :=
  ∀ spec ∈ T.ownerOf [gpuIndex], ∀ k, FirstLate meets gpuIndex (begin + waitTimeoutSecs) k →
    RaisesAfter T begin meets pid gpuIndex waitTimeoutSecs testId k

end

/-! ## One attempt -/

section

variable {T : Topology} {begin : ℚ} {meets : Nat → Meeting} {pid : Nat} {gpuIndex : Int}
  {waitTimeoutSecs : ℚ} {testId : String} {spec : NodeSpec}

/-- Where the call stands once `n` attempts have failed. -/
def failed (spec : NodeSpec) (n : Nat) : Footprint :=
  { attempts := n, out := ∅, registered := {(safeLabel spec.label, 0)}, nextId := 1 }

theorem current_failed (n : Nat) :
    current meets { failed spec n with attempts := n + 1 } = meets n := rfl

theorem pool_find (hspec : T.ownerOf [gpuIndex] = some spec) : ∃ gpu,
    ((T.gpus spec.label).getD []).find? (fun g => g.index = gpuIndex) = some gpu ∧
      gpu.index = gpuIndex := by
  have howns := List.find?_some hspec
  cases hg : T.gpus spec.label with
  | none =>
    rw [hg] at howns
    cases howns
  | some gpus =>
    rw [hg] at howns
    have hmem : gpuIndex ∈ gpus.map GpuInfo.index := by simpa using howns
    obtain ⟨g, hgmem, hindex⟩ := List.mem_map.mp hmem
    cases hf : gpus.find? (fun g => g.index = gpuIndex) with
    | none => exact absurd hindex (by simpa using List.find?_eq_none.mp hf g hgmem)
    | some gpu => exact ⟨gpu, hf, by simpa using List.find?_some hf⟩

theorem allocateSpecific_of_find {a : GpuAllocator} {gpu : GpuInfo}
    (hf : a.pool.find? (fun g => g.index = gpuIndex) = some gpu) :
    a.allocateSpecific gpuIndex = if gpuIndex ∈ a.available then
      .ok (gpu, { a with available := a.available.erase gpuIndex })
    else .error (.indexUnavailable gpuIndex) := by
  unfold GpuAllocator.allocateSpecific
  rw [hf]

theorem mem_alloc_failed (n : Nat) {label : String} :
    gpuIndex ∈ (alloc T meets { failed spec n with attempts := n + 1 } label).available ↔
      gpuIndex ∈ (meets n).available := by
  rw [alloc, current_failed, Finset.mem_filter]
  exact and_iff_left (Finset.notMem_empty _)

/-- The index is not in `_available`. -/
theorem round_absent (hspec : T.ownerOf [gpuIndex] = some spec) {n : Nat}
    (h : gpuIndex ∉ (meets n).available) :
    Ends (exec T begin meets) (specificRound T pid spec gpuIndex testId) (failed spec n)
      .unavailable (failed spec (n + 1)) := by
  obtain ⟨gpu, hf, _⟩ := pool_find hspec
  have halloc : exec T begin meets (.allocateSpecific spec.label gpuIndex)
      { failed spec n with attempts := n + 1 } =
        some (.error (.indexUnavailable gpuIndex), failed spec (n + 1)) := by
    have hnot : gpuIndex ∉
        (alloc T meets { failed spec n with attempts := n + 1 } spec.label).available := by
      rwa [mem_alloc_failed]
    have hno := allocateSpecific_of_find
      (a := alloc T meets { failed spec n with attempts := n + 1 } spec.label) hf
    rw [if_neg hnot] at hno
    rw [exec, hno]
    rfl
  exact Ends.perform rfl (Ends.perform halloc (Ends.perform rfl (Ends.ret _ _)))

theorem holderIsAlive_ends {label : String} (s : Footprint) :
    Ends (exec T begin meets) (inOs (GpuFileLock.holderIsAlive label gpuIndex)) s
      ((current meets s).info.isSome && (current meets s).alive) s := by
  have hread : exec T begin meets (.os (.readInfo (lockFile label gpuIndex))) s =
      some ((current meets s).info, s) := rfl
  refine Ends.perform hread ?_
  cases hinfo : (current meets s).info with
  | none => exact Ends.ret _ _
  | some info =>
    have hprobe : exec T begin meets (.os (.pidExists info.pid)) s =
        some ((current meets s).alive, s) := rfl
    exact Ends.perform hprobe (Ends.ret _ _)

variable (T begin pid testId) in
/-- The lock file is held: what the allocator gave is given back. -/
theorem round_busy (hspec : T.ownerOf [gpuIndex] = some spec) {n : Nat}
    (h : gpuIndex ∈ (meets n).available) (hbusy : (meets n).busy = true) :
    Ends (exec T begin meets) (specificRound T pid spec gpuIndex testId) (failed spec n)
      (if (meets n).info.isSome && (meets n).alive then .unavailable else .holderGone)
      (failed spec (n + 1)) := by
  obtain ⟨gpu, hf, hindex⟩ := pool_find hspec
  obtain ⟨t, ht⟩ : ∃ t, t = { failed spec (n + 1) with out := {(spec.label, gpu.index)} } :=
    ⟨_, rfl⟩
  have halloc : exec T begin meets (.allocateSpecific spec.label gpuIndex)
      { failed spec n with attempts := n + 1 } = some (.ok gpu, t) := by
    have hin : gpuIndex ∈
        (alloc T meets { failed spec n with attempts := n + 1 } spec.label).available :=
      mem_alloc_failed n |>.mpr h
    have hyes := allocateSpecific_of_find
      (a := alloc T meets { failed spec n with attempts := n + 1 } spec.label) hf
    rw [if_pos hin] at hyes
    rw [exec, hyes, ht]
    rfl
  have hflock : exec T begin meets (.os (.flock (lockFile spec.label gpuIndex))) t =
      some ((none : Option Nat), t) := by
    have hcur : (current meets t).busy = true := by
      rw [ht]
      exact hbusy
    exact congrArg some (if_pos hcur)
  have hback : exec T begin meets (.deallocate spec.label gpu none) t =
      some ((), failed spec (n + 1)) := by
    have hout : t.out.erase (spec.label, gpu.index) = ∅ := by
      rw [ht]
      exact Finset.erase_singleton _
    have hrest : exec T begin meets (.deallocate spec.label gpu none) t =
        some ((), { t with out := t.out.erase (spec.label, gpu.index) }) := rfl
    rw [hrest, hout, ht]
    rfl
  refine Ends.perform rfl (Ends.perform halloc (Ends.perform hflock (Ends.perform hback
    (Ends.bind (holderIsAlive_ends _) ?_))))
  exact Ends.perform rfl (Ends.ret _ _)

variable (begin pid testId) in
theorem round_failed (hspec : T.ownerOf [gpuIndex] = some spec) {n : Nat}
    (hfails : (meets n).fails gpuIndex = true) :
    Ends (exec T begin meets) (specificRound T pid spec gpuIndex testId) (failed spec n)
      (if (meets n).holderGone gpuIndex then .holderGone else .unavailable)
      (failed spec (n + 1)) := by
  unfold Meeting.holderGone
  by_cases hin : gpuIndex ∈ (meets n).available
  · have hbusy : (meets n).busy = true := by simpa [Meeting.fails, hin] using hfails
    have hround := round_busy T begin pid testId hspec
      hin hbusy
    rw [decide_eq_true hin, hbusy]
    cases hknown : (meets n).info.isSome && (meets n).alive with
    | true => rwa [hknown] at hround
    | false => rwa [hknown] at hround
  · rw [decide_eq_false hin]
    exact round_absent hspec hin

/-! ## The loop -/

variable (T pid spec gpuIndex waitTimeoutSecs testId) in
/-- One iteration, when the call gives up at `deadline`. -/
def specificStep (deadline : ℚ) : PoolProg (Unit ⊕ Except PoolError NodeSlot) := do
  match ← specificRound T pid spec gpuIndex testId with
  | .taken slot => pure (.inr (.ok slot))
  | .holderGone => pure (.inl ())
  | .unavailable =>
    let now ← inOs Os.monotonic
    if deadline ≤ now then
      pure (.inr (.error (.indexNotAcquired gpuIndex waitTimeoutSecs)))
    else do
      pause
      pure (.inl ())

theorem acquireSpecificSlot_eq (hspec : T.ownerOf [gpuIndex] = some spec) :
    acquireSpecificSlot T pid gpuIndex waitTimeoutSecs testId =
      (inOs Os.monotonic).bind fun start =>
        (inOs (PendingAcquisitionTracker.register spec.label 1 (start + waitTimeoutSecs)
          (some (spec.label, gpuIndex)))).bind fun reqId =>
        (Prog.iter (fun _ => specificStep T pid gpuIndex waitTimeoutSecs testId spec
          (start + waitTimeoutSecs)) ()).bind fun result =>
        (inOs (PendingAcquisitionTracker.deregister spec.label reqId)).bind fun _ =>
          .ret result := by
  unfold acquireSpecificSlot
  rw [hspec]
  rfl

/-- An attempt that fails early, or finds the holder gone, is followed by another. -/
theorem step_next (hspec : T.ownerOf [gpuIndex] = some spec) {n : Nat} {deadline : ℚ}
    (hfails : (meets n).fails gpuIndex = true)
    (h : (meets n).holderGone gpuIndex = true ∨ (meets n).now < deadline) :
    Ends (exec T begin meets) (specificStep T pid gpuIndex waitTimeoutSecs testId spec deadline)
      (failed spec n) (.inl ()) (failed spec (n + 1)) := by
  have hround := round_failed begin pid testId hspec hfails
  cases hgone : (meets n).holderGone gpuIndex with
  | true =>
    rw [hgone] at hround
    exact Ends.bind hround (Ends.ret _ _)
  | false =>
    rw [hgone] at hround h
    have hlt : ¬ deadline ≤ (meets n).now := by simpa using h
    refine Ends.bind hround (Ends.perform rfl ?_)
    show Ends _ (if deadline ≤ (meets n).now then _ else _) _ _ _
    rw [if_neg hlt]
    exact Ends.of_evaluate rfl

theorem step_last (hspec : T.ownerOf [gpuIndex] = some spec) {n : Nat} {deadline : ℚ}
    (hfails : (meets n).fails gpuIndex = true) (hknown : (meets n).holderGone gpuIndex = false)
    (hlate : deadline ≤ (meets n).now) :
    Ends (exec T begin meets) (specificStep T pid gpuIndex waitTimeoutSecs testId spec deadline)
      (failed spec n) (.inr (.error (.indexNotAcquired gpuIndex waitTimeoutSecs)))
      (failed spec (n + 1)) := by
  have hround := round_failed begin pid testId hspec hfails
  rw [hknown] at hround
  refine Ends.bind hround (Ends.perform rfl ?_)
  show Ends _ (if deadline ≤ (meets n).now then _ else _) _ _ _
  rw [if_pos hlate]
  exact Ends.ret _ _

variable (T begin meets pid gpuIndex waitTimeoutSecs testId spec) in
/-- From where `n` attempts have failed, the loop ends so. -/
def LoopEnds (n : Nat) (result : Except PoolError NodeSlot) (s : Footprint) : Prop :=
  Ends (exec T begin meets) (Prog.iter (fun _ => specificStep T pid gpuIndex waitTimeoutSecs testId
    spec (begin + waitTimeoutSecs)) ()) (failed spec n) result s

theorem loop_next (hspec : T.ownerOf [gpuIndex] = some spec) {n : Nat}
    (hfails : (meets n).fails gpuIndex = true)
    (h : (meets n).holderGone gpuIndex = true ∨ (meets n).now < begin + waitTimeoutSecs)
    (result : Except PoolError NodeSlot) (s : Footprint) :
    LoopEnds T begin meets pid gpuIndex waitTimeoutSecs testId spec n result s ↔
      LoopEnds T begin meets pid gpuIndex waitTimeoutSecs testId spec (n + 1) result s :=
  Ends.iter_of_next (step_next hspec hfails h)

/-- While attempts fail before the deadline the loop goes on. -/
theorem loop_early (hspec : T.ownerOf [gpuIndex] = some spec) {n : Nat}
    (h : ∀ j < n, (meets j).fails gpuIndex = true ∧ (meets j).now < begin + waitTimeoutSecs)
    (result : Except PoolError NodeSlot) (s : Footprint) :
    LoopEnds T begin meets pid gpuIndex waitTimeoutSecs testId spec 0 result s ↔
      LoopEnds T begin meets pid gpuIndex waitTimeoutSecs testId spec n result s := by
  induction n with
  | zero => exact Iff.rfl
  | succ n ih =>
    obtain ⟨hfails, hearly⟩ := h n (Nat.lt_succ_self n)
    rw [ih fun j hj => h j (Nat.lt_succ_of_lt hj)]
    exact loop_next hspec hfails (Or.inr hearly) result s

theorem exec_attempts {m : Nat} (o : PoolOp) (s : Footprint) (b : o.Resp) (s' : Footprint)
    (hs : m ≤ s.attempts) (h : exec T begin meets o s = some (b, s')) : m ≤ s'.attempts := by
  cases o with
  | os o =>
    cases o with
    | flock f =>
      rw [exec, osExec] at h
      split at h
      · cases h
        exact hs
      · cases h
        exact hs
    | _ =>
      cases h
      exact hs
  | lockPool =>
    cases h
    exact Nat.le_succ_of_le hs
  | allocate label v =>
    rw [exec] at h
    split at h
    · cases h
      exact hs
    · cases h
      exact hs
  | allocateSpecific label i =>
    rw [exec] at h
    split at h
    · cases h
      exact hs
    · cases h
      exact hs
  | nextCall => cases h
  | _ =>
    cases h
    exact hs

/-- Every further iteration is a further attempt. -/
theorem loop_attempts {n : Nat} {result : Except PoolError NodeSlot} {s : Footprint}
    (h : LoopEnds T begin meets pid gpuIndex waitTimeoutSecs testId spec n result s) :
    n + 1 ≤ s.attempts := by
  obtain ⟨x, t, hstep, hrest⟩ := Ends.first h
  have hfirst : n + 1 ≤ t.attempts := by
    have hlocked := (Ends.perform_iff (o := PoolOp.lockPool) rfl).mp hstep
    exact Ends.keeps exec_attempts (Nat.le_refl _) hlocked
  exact Ends.keeps exec_attempts hfirst hrest

/-- The call around its loop. -/
theorem call_iff (hspec : T.ownerOf [gpuIndex] = some spec) (result : Except PoolError NodeSlot)
    (s : Footprint) :
    Ends (exec T begin meets) (acquireSpecificSlot T pid gpuIndex waitTimeoutSecs testId)
        Footprint.start result s ↔
      ∃ t, LoopEnds T begin meets pid gpuIndex waitTimeoutSecs testId spec 0 result t ∧
        s = { t with registered := t.registered.erase (safeLabel spec.label, 0) } := by
  have hdrop : ∀ t, exec T begin meets (.os (.dropPending (safeLabel spec.label) 0)) t =
      some ((), { t with registered := t.registered.erase (safeLabel spec.label, 0) }) :=
    fun t => rfl
  have hclock : exec T begin meets (.os .monotonic) Footprint.start =
      some (begin, Footprint.start) := rfl
  have hregister : exec T begin meets (.os (.addPending (safeLabel spec.label)
      ⟨1, begin + waitTimeoutSecs, some (spec.label, gpuIndex)⟩)) Footprint.start =
        some (0, failed spec 0) := rfl
  rw [acquireSpecificSlot_eq hspec]
  refine (Ends.perform_iff hclock).trans ((Ends.perform_iff hregister).trans
    (Ends.bind_iff.trans ?_))
  constructor
  · intro ⟨a, t, hloop, hdone⟩
    obtain ⟨rfl, rfl⟩ := ((Ends.perform_iff (hdrop t)).mp hdone).unique (Ends.ret a _)
    exact ⟨t, hloop, rfl⟩
  · intro ⟨t, hloop, hs⟩
    rw [hs]
    exact ⟨result, t, hloop, Ends.perform (hdrop t) (Ends.ret _ _)⟩

/-- The call ends with the check of the first late attempt, and leaves nothing. -/
theorem raises_of_late (hspec : T.ownerOf [gpuIndex] = some spec) {k : Nat}
    (hlate : FirstLate meets gpuIndex (begin + waitTimeoutSecs) k)
    (hknown : (meets k).holderGone gpuIndex = false) :
    RaisesAfter T begin meets pid gpuIndex waitTimeoutSecs testId k := by
  obtain ⟨hfails, hpast, hbefore⟩ := hlate
  have hend : LoopEnds T begin meets pid gpuIndex waitTimeoutSecs testId spec k
      (.error (.indexNotAcquired gpuIndex waitTimeoutSecs)) (failed spec (k + 1)) :=
    Ends.last (step_last hspec hfails hknown hpast)
  have hloop := (loop_early hspec hbefore _ _).mpr hend
  refine ⟨_, (call_iff hspec _ _).mpr ⟨_, hloop, rfl⟩, rfl, ?_, rfl⟩
  exact Finset.erase_singleton _

/-- A holder that seems gone at the deadline is tried again. -/
theorem not_raises_of_gone (hspec : T.ownerOf [gpuIndex] = some spec) {k : Nat}
    (hlate : FirstLate meets gpuIndex (begin + waitTimeoutSecs) k)
    (hgone : (meets k).holderGone gpuIndex = true) :
    ¬ RaisesAfter T begin meets pid gpuIndex waitTimeoutSecs testId k := by
  intro ⟨s, hrun, hattempts, _⟩
  obtain ⟨hfails, _, hbefore⟩ := hlate
  obtain ⟨t, hloop, rfl⟩ := (call_iff hspec _ _).mp hrun
  have hnext := (loop_next hspec hfails (Or.inl hgone) _ _).mp
    ((loop_early hspec hbefore _ _).mp hloop)
  have hmore := loop_attempts hnext
  have hsame : t.attempts = k + 1 := hattempts
  omega

/-- If the holder always seems gone, the call never ends. -/
theorem endless_of_gone (hspec : T.ownerOf [gpuIndex] = some spec)
    (hgone : ∀ k, (meets k).fails gpuIndex = true ∧ (meets k).holderGone gpuIndex = true)
    (result : Except PoolError NodeSlot) (s : Footprint) :
    ¬ Ends (exec T begin meets) (acquireSpecificSlot T pid gpuIndex waitTimeoutSecs testId)
      Footprint.start result s := by
  intro hrun
  obtain ⟨t, hloop, _⟩ := (call_iff hspec _ _).mp hrun
  have hall : ∀ n, LoopEnds T begin meets pid gpuIndex waitTimeoutSecs testId spec n result t := by
    intro n
    induction n with
    | zero => exact hloop
    | succ n ih => exact (loop_next hspec (hgone n).1 (Or.inl (hgone n).2) _ _).mp ih
  have hmore := loop_attempts (hall t.attempts)
  omega

end

/-! ## The deadline -/

/-- The first attempt to fail at or after the deadline is the last one exactly when
it does not take the holder of the lock for gone. -/
theorem respectsDeadline_iff (T : Topology) (begin : ℚ) (meets : Nat → Meeting) (pid : Nat)
    (gpuIndex : Int) (waitTimeoutSecs : ℚ) (testId : String) :
    RespectsDeadline T begin meets pid gpuIndex waitTimeoutSecs testId ↔
      ∀ spec ∈ T.ownerOf [gpuIndex], ∀ k,
        FirstLate meets gpuIndex (begin + waitTimeoutSecs) k →
          (meets k).holderGone gpuIndex = false := by
  constructor
  · intro h spec hspec k hk
    cases hgone : (meets k).holderGone gpuIndex with
    | false => rfl
    | true => exact absurd (h spec hspec k hk) (not_raises_of_gone hspec hk hgone)
  · intro h spec hspec k hk
    exact raises_of_late hspec hk (h spec hspec k hk)

/-- One node with one GPU. -/
def oneGpu : Topology :=
  { nodeSpecs := [{ hostname := "localhost" }]
    gpus := fun _ => some [⟨0, "gfx942", 65536, 0⟩]
    headroomGb := 0
    sshSessions := fun _ => none }

/-- A live process holds the lock file and has written no sidecar.  Every attempt
takes a second. -/
def heldWithoutInfo (k : Nat) : Meeting :=
  { available := {0}, busy := true, info := none, alive := true, now := k }

/-- With a timeout of one second the second attempt is late, and the call goes on
for ever. -/
theorem heldWithoutInfo_endless :
    ¬ RespectsDeadline oneGpu 0 heldWithoutInfo 1 0 1 "test" ∧
      ∀ result s, ¬ Ends (exec oneGpu 0 heldWithoutInfo) (acquireSpecificSlot oneGpu 1 0 1 "test")
        Footprint.start result s := by
  have hspec : oneGpu.ownerOf [0] = some { hostname := "localhost" } := by decide
  have hgone : ∀ k, (heldWithoutInfo k).fails 0 = true ∧
      (heldWithoutInfo k).holderGone 0 = true := fun k => ⟨rfl, rfl⟩
  refine ⟨fun h => ?_, fun result s => endless_of_gone hspec hgone result s⟩
  have hlate : FirstLate heldWithoutInfo 0 (0 + 1) 1 := by
    refine ⟨(hgone 1).1, by decide +kernel, fun j hj => ⟨(hgone j).1, ?_⟩⟩
    obtain rfl : j = 0 := by omega
    decide +kernel
  exact not_raises_of_gone hspec hlate (hgone 1).2 (h _ hspec 1 hlate)

end SpecificDeadline
end Nodes
end RocmTests

import RocmTests.Conc.System
import RocmTests.Nodes.Os

/-!
# Lock files across pytest sessions

Several sessions can share `output/.gpu-locks/`.  A file lock is held on the
file an opened descriptor refers to, not on its name, so what a session's
clean-up removes matters to the others: once a name is gone, the next opener
creates a new file and its `flock` contends with nobody.

`DirState` is the directory at that level: names refer to inodes, and open files
keep their inode whatever happens to the name.  `cleanup_session_start` and
`_cleanup_gpu_lock_files` list names by pattern and remove them one at a time.
`removesUnopened` is the condition under which they do no harm: the file being
removed is not open in any process.
-/

namespace RocmTests
namespace Plugins
namespace SessionLocks

open Conc Nodes

def lockName (nodeLabel : String) (gpuIndex : Int) : String :=
  safeLabel nodeLabel ++ "_gpu" ++ toString gpuIndex ++ ".lock"

def infoName (nodeLabel : String) (gpuIndex : Int) : String :=
  safeLabel nodeLabel ++ "_gpu" ++ toString gpuIndex ++ ".info"

/-- Does the glob pattern `*<suffix>` match?  A leading star skips hidden names. -/
def globMatches (suffix name : String) : Bool :=
  suffix.toList.isSuffixOf name.toList && decide (name.toList.head? ≠ some '.')

/-- An open descriptor of a lock file: the name it was opened under and the
inode it refers to. -/
structure OpenFile where
  fd : Nat
  pid : Nat
  name : String
  inode : Nat
  locked : Bool
deriving DecidableEq, Repr

structure DirState where
  entries : List (String × Nat)
  openFiles : List OpenFile
  nextInode : Nat
  nextFd : Nat

/-- What a running session does next. -/
inductive Request where
  | acquire (nodeLabel : String) (gpuIndex : Int) (testId : String)
  | release (held : Nat)
  | finish

inductive DirOp where
  | openFile (name : String)
  | flock (fd : Nat)
  | close (fd : Nat)
  | timedOut
  | write (name : String)
  | remove (name : String)
  | glob (suffix : String)
  | nextRequest

abbrev DirOp.Resp : DirOp → Type
  | .openFile _ => Nat
  | .flock _ => Bool
  | .close _ => Unit
  | .timedOut => Bool
  | .write _ => Unit
  | .remove _ => Bool
  | .glob _ => List String
  | .nextRequest => Request

abbrev DirProg := Prog DirOp DirOp.Resp

/-! ## What the sessions run -/

/-- `FileLock.acquire`: open and try to lock, again and again until the timeout
has passed.  A descriptor that could not be locked is closed. -/
def fileLockAcquire (name : String) : DirProg (Option Nat) :=
  Prog.iter (fun _ => do
    let fd ← Prog.perform (DirOp.openFile name)
    if ← Prog.perform (DirOp.flock fd) then
      pure (.inr (some fd))
    else
      Prog.perform (DirOp.close fd)
      if ← Prog.perform DirOp.timedOut then pure (.inr none) else pure (.inl ())) ()

structure HeldLock where
  nodeLabel : String
  gpuIndex : Int
  fd : Nat

def acquire (nodeLabel : String) (gpuIndex : Int) (testId : String) :
    DirProg (Option HeldLock) := do
  match ← fileLockAcquire (lockName nodeLabel gpuIndex) with
  | none => pure none
  | some fd => do
    (if testId ≠ "" then Prog.perform (DirOp.write (infoName nodeLabel gpuIndex)) else pure ())
    pure (some ⟨nodeLabel, gpuIndex, fd⟩)

def release (l : HeldLock) : DirProg Unit := do
  Prog.perform (DirOp.close l.fd)
  let _ ← Prog.perform (DirOp.remove (infoName l.nodeLabel l.gpuIndex))
  pure ()

/-- Remove every path in turn and count those that were there. -/
def removeAll : List String → DirProg Nat
  | [] => pure 0
  | path :: paths => do
    let ok ← Prog.perform (DirOp.remove path)
    let removed ← removeAll paths
    pure ((if ok then 1 else 0) + removed)

def removeMatching : List String → DirProg Nat
  | [] => pure 0
  | suffix :: suffixes => do
    let paths ← Prog.perform (DirOp.glob suffix)
    let here ← removeAll paths
    let rest ← removeMatching suffixes
    pure (here + rest)

def cleanupSessionStart : DirProg Nat := removeMatching ["_pending.json", "_pending.lock"]

def cleanupGpuLockFiles : DirProg Nat :=
  removeMatching [".lock", ".info", "_pending.json", "_pending.lock"]

/-- How a process was started: with `--no-gpu`, and as an xdist worker or not. -/
structure Role where
  noGpu : Bool := false
  worker : Bool := false

def pytestConfigure (r : Role) : DirProg Unit :=
  if r.noGpu || r.worker then pure () else do
    let _ ← cleanupSessionStart
    pure ()

/-- Acquire locks and release held ones, in any order, until the tests end. -/
def tests : DirProg Unit :=
  Prog.iter (fun (held : List HeldLock) => do
    match ← Prog.perform DirOp.nextRequest with
    | .acquire nodeLabel gpuIndex testId => do
      let l ← acquire nodeLabel gpuIndex testId
      pure (.inl (held ++ l.toList))
    | .release k =>
      match held[k]? with
      | none => pure (.inl held)
      | some l => do
        release l
        pure (.inl (held.eraseIdx k))
    | .finish => pure (.inr ())) []

def pytestSessionfinish (r : Role) : DirProg Unit :=
  if r.worker then pure () else do
    let _ ← cleanupGpuLockFiles
    pure ()

def session (r : Role) : DirProg Unit := do
  pytestConfigure r
  (if r.noGpu then pure () else tests)
  pytestSessionfinish r

/-! ## The directory -/

structure DirChoice where
  timedOut : Bool := true
  listing : List String := []
  request : Request := .finish

namespace DirState

/-- Nothing is open; the directory holds the names earlier sessions left. -/
def start (names : List String) : DirState :=
  { entries := names.zipIdx, openFiles := [], nextInode := names.length, nextFd := 0 }

def inodeOf (s : DirState) (name : String) : Option Nat := s.entries.lookup name

/-- Add a directory entry for a new file. -/
def create (s : DirState) (name : String) : DirState :=
  { s with
    entries := (name, s.nextInode) :: s.entries
    nextInode := s.nextInode + 1 }

/-- The directory once `name` exists. -/
def ensure (s : DirState) (name : String) : DirState :=
  if (s.inodeOf name).isSome then s else s.create name

def addOpen (s : DirState) (pid : Nat) (name : String) (inode : Nat) : DirState :=
  { s with
    openFiles := ⟨s.nextFd, pid, name, inode, false⟩ :: s.openFiles
    nextFd := s.nextFd + 1 }

def lockedInode (s : DirState) (inode : Nat) : Bool :=
  s.openFiles.any fun o => o.locked && decide (o.inode = inode)

def setLocked (s : DirState) (fd : Nat) : DirState :=
  { s with openFiles := s.openFiles.map fun o =>
    if o.fd = fd then { o with locked := true } else o }

def unlink (s : DirState) (name : String) : DirState :=
  { s with entries := s.entries.filter fun e => decide (e.1 ≠ name) }

def exec (pid : Nat) : (o : DirOp) → DirChoice → DirState → Option (o.Resp × DirState)
  | .openFile name, _, s =>
    let d := s.ensure name
    some (d.nextFd, d.addOpen pid name ((d.inodeOf name).getD 0))
  | .flock fd, _, s =>
    match s.openFiles.find? fun o => decide (o.fd = fd) with
    | none => some (false, s)
    | some o => if s.lockedInode o.inode then some (false, s) else some (true, s.setLocked fd)
  | .close fd, _, s =>
    -- Closing the descriptor drops its lock.
    some ((), { s with openFiles := s.openFiles.filter fun o => decide (o.fd ≠ fd) })
  | .timedOut, ch, s => some (ch.timedOut, s)
  | .write name, _, s => some ((), s.ensure name)
  | .remove name, _, s => some ((s.inodeOf name).isSome, s.unlink name)
  | .glob suffix, ch, s =>
    -- The order of a listing is the file system's.
    if ch.listing.isPerm ((s.entries.map (·.1)).filter (globMatches suffix)) then
      some (ch.listing, s)
    else none
  | .nextRequest, ch, s => some (ch.request, s)

/-- The kernel closes every descriptor of a process that dies. -/
def die (pid : Nat) (s : DirState) : DirState :=
  { s with openFiles := s.openFiles.filter fun o => decide (o.pid ≠ pid) }

end DirState

def sessions : System where
  Tid := Nat
  Op := DirOp
  Resp := DirOp.Resp
  State := DirState
  Choice := DirChoice
  exec := DirState.exec
  Fault := Nat
  fault := DirState.die
  kills := fun pid t => decide (t = pid)

def sessionsStart (roles : Nat → Role) (names : List String) : sessions.Config :=
  ⟨DirState.start names, fun pid => session (roles pid)⟩

/-- `o` is a lock object of (`nodeLabel`, `gpuIndex`) that holds its lock. -/
def Holds (s : DirState) (nodeLabel : String) (gpuIndex : Int) (o : OpenFile) : Prop :=
  o ∈ s.openFiles ∧ o.name = lockName nodeLabel gpuIndex ∧ o.locked = true

def Exclusive (s : DirState) : Prop :=
  ∀ nodeLabel gpuIndex o o', Holds s nodeLabel gpuIndex o → Holds s nodeLabel gpuIndex o' → o = o'

def removesUnopened (_ : Nat) : DirOp → DirChoice → DirState → Bool
  | .remove name, _, s => s.openFiles.all fun o => decide (s.inodeOf name ≠ some o.inode)
  | _, _, _ => true

/-! ## Exclusivity -/

theorem lookup_filter_ne (entries : List (String × Nat)) {name other : String}
    (hne : other ≠ name) :
    (entries.filter fun e => decide (e.1 ≠ name)).lookup other = entries.lookup other := by
  induction entries with
  | nil => rfl
  | cons e entries ih =>
    by_cases he : e.1 = name
    · have hother : (other == e.1) = false := beq_false_of_ne (he ▸ hne)
      rw [List.filter_cons_of_neg (by simpa using he), ih, List.lookup_cons, hother]
    · rw [List.filter_cons_of_pos (by simpa using he), List.lookup_cons, List.lookup_cons, ih]

theorem inodeOf_ensure (s : DirState) (name : String) :
    ∃ i, (s.ensure name).inodeOf name = some i := by
  unfold DirState.ensure
  cases hi : s.inodeOf name with
  | some i => exact ⟨i, hi⟩
  | none => exact ⟨s.nextInode, List.lookup_cons_self⟩

/-- Every open file still has the name it was opened under, descriptors are
distinct, and no two locked descriptors share an inode. -/
structure DirInv (s : DirState) : Prop where
  named : ∀ o ∈ s.openFiles, s.inodeOf o.name = some o.inode
  bound : ∀ o ∈ s.openFiles, o.fd < s.nextFd
  distinct : ∀ o ∈ s.openFiles, ∀ o' ∈ s.openFiles, o.fd = o'.fd → o = o'
  alone : ∀ o ∈ s.openFiles, ∀ o' ∈ s.openFiles, o.locked = true → o'.locked = true →
    o.inode = o'.inode → o = o'

namespace DirInv

variable {s : DirState}

theorem start (names : List String) : DirInv (DirState.start names) where
  named o ho := by simp [DirState.start] at ho
  bound o ho := by simp [DirState.start] at ho
  distinct o ho := by simp [DirState.start] at ho
  alone o ho := by simp [DirState.start] at ho

theorem exclusive (h : DirInv s) : Exclusive s := by
  intro nodeLabel gpuIndex o o' ho ho'
  obtain ⟨hmem, hname, hlocked⟩ := ho
  obtain ⟨hmem', hname', hlocked'⟩ := ho'
  have hinode : some o.inode = some o'.inode := by
    rw [← h.named o hmem, ← h.named o' hmem', hname, hname']
  exact h.alone o hmem o' hmem' hlocked hlocked' (Option.some.inj hinode)

/-- Closing descriptors keeps the invariant. -/
theorem keep (h : DirInv s) (p : OpenFile → Bool) :
    DirInv { s with openFiles := s.openFiles.filter p } where
  named o ho := h.named o (List.mem_filter.mp ho).1
  bound o ho := h.bound o (List.mem_filter.mp ho).1
  distinct o ho o' ho' := h.distinct o (List.mem_filter.mp ho).1 o' (List.mem_filter.mp ho').1
  alone o ho o' ho' := h.alone o (List.mem_filter.mp ho).1 o' (List.mem_filter.mp ho').1

/-- A change to the directory that leaves the names of open files alone. -/
theorem rename (h : DirInv s) {entries : List (String × Nat)} {n : Nat}
    (hsame : ∀ o ∈ s.openFiles, entries.lookup o.name = s.inodeOf o.name) :
    DirInv { s with
      entries := entries
      nextInode := n } where
  named o ho := (hsame o ho).trans (h.named o ho)
  bound := h.bound
  distinct := h.distinct
  alone := h.alone

theorem ensure (h : DirInv s) (name : String) : DirInv (s.ensure name) := by
  unfold DirState.ensure
  cases hi : s.inodeOf name with
  | some i => exact h
  | none =>
    apply h.rename
    intro o ho
    have hne : o.name ≠ name := by
      intro heq
      have hnamed := h.named o ho
      rw [heq, hi] at hnamed
      cases hnamed
    rw [List.lookup_cons, beq_false_of_ne hne]
    rfl

theorem unlink (h : DirInv s) {name : String}
    (hopen : ∀ o ∈ s.openFiles, s.inodeOf name ≠ some o.inode) : DirInv (s.unlink name) := by
  apply h.rename
  intro o ho
  have hne : o.name ≠ name := by
    intro heq
    exact hopen o ho (heq ▸ h.named o ho)
  exact lookup_filter_ne s.entries hne

theorem addOpen (h : DirInv s) (pid : Nat) {name : String} {inode : Nat}
    (hname : s.inodeOf name = some inode) : DirInv (s.addOpen pid name inode) where
  named o ho := by
    rcases List.mem_cons.mp ho with rfl | ho
    · exact hname
    · exact h.named o ho
  bound o ho := by
    show o.fd < s.nextFd + 1
    rcases List.mem_cons.mp ho with rfl | ho
    · exact Nat.lt_succ_self _
    · have hlt := h.bound o ho
      omega
  distinct o ho o' ho' heq := by
    rcases List.mem_cons.mp ho with rfl | ho <;> rcases List.mem_cons.mp ho' with rfl | ho'
    · rfl
    · have hlt := h.bound o' ho'
      have hfd : s.nextFd = o'.fd := heq
      omega
    · have hlt := h.bound o ho
      have hfd : o.fd = s.nextFd := heq
      omega
    · exact h.distinct o ho o' ho' heq
  alone o ho o' ho' hl hl' heq := by
    rcases List.mem_cons.mp ho with rfl | ho
    · cases hl
    · rcases List.mem_cons.mp ho' with rfl | ho'
      · cases hl'
      · exact h.alone o ho o' ho' hl hl' heq

/-- An inode that no descriptor has locked can be locked by one. -/
theorem setLocked (h : DirInv s) {f : OpenFile} (hf : f ∈ s.openFiles)
    (hfree : s.lockedInode f.inode = false) : DirInv (s.setLocked f.fd) := by
  have hmem : ∀ o ∈ (s.setLocked f.fd).openFiles,
      (o ∈ s.openFiles ∧ o.fd ≠ f.fd) ∨ o = { f with locked := true } := by
    intro o ho
    obtain ⟨p, hp, rfl⟩ := List.mem_map.mp ho
    by_cases hfd : p.fd = f.fd
    · have hpf := h.distinct p hp f hf hfd
      rw [if_pos hfd, hpf]
      exact Or.inr rfl
    · rw [if_neg hfd]
      exact Or.inl ⟨hp, hfd⟩
  have hother : ∀ o ∈ s.openFiles, o.locked = true → o.inode ≠ f.inode := by
    intro o ho hl heq
    have hlocked : s.lockedInode f.inode = true :=
      List.any_eq_true.mpr ⟨o, ho, by simp [hl, heq]⟩
    rw [hfree] at hlocked
    cases hlocked
  constructor
  · intro o ho
    rcases hmem o ho with ⟨ho, -⟩ | rfl
    · exact h.named o ho
    · exact h.named f hf
  · intro o ho
    rcases hmem o ho with ⟨ho, -⟩ | rfl
    · exact h.bound o ho
    · exact h.bound f hf
  · intro o ho o' ho' heq
    rcases hmem o ho with ⟨ho, hne⟩ | rfl <;> rcases hmem o' ho' with ⟨ho', hne'⟩ | rfl
    · exact h.distinct o ho o' ho' heq
    · exact absurd heq hne
    · exact absurd heq.symm hne'
    · rfl
  · intro o ho o' ho' hl hl' heq
    rcases hmem o ho with ⟨ho, -⟩ | rfl <;> rcases hmem o' ho' with ⟨ho', -⟩ | rfl
    · exact h.alone o ho o' ho' hl hl' heq
    · exact absurd heq (hother o ho hl)
    · exact absurd heq.symm (hother o' ho' hl')
    · rfl

/-- One access that removes no open file keeps the invariant. -/
theorem exec (h : DirInv s) {pid : Nat} {o : DirOp} {ch : DirChoice} {b : o.Resp} {s' : DirState}
    (hg : removesUnopened pid o ch s = true) (he : DirState.exec pid o ch s = some (b, s')) :
    DirInv s' := by
  cases o with
  | openFile name =>
    cases he
    obtain ⟨i, hi⟩ := inodeOf_ensure s name
    rw [hi]
    exact (h.ensure name).addOpen pid hi
  | flock fd =>
    simp only [DirState.exec] at he
    cases hf : s.openFiles.find? fun o => decide (o.fd = fd) with
    | none =>
      rw [hf] at he
      cases he
      exact h
    | some f =>
      have hfd : f.fd = fd := by simpa using List.find?_some hf
      rw [hf] at he
      cases hl : s.lockedInode f.inode with
      | true =>
        simp only [hl, if_true] at he
        cases he
        exact h
      | false =>
        simp only [hl] at he
        cases he
        exact hfd ▸ h.setLocked (List.mem_of_find?_eq_some hf) hl
  | close fd =>
    cases he
    exact h.keep _
  | timedOut =>
    cases he
    exact h
  | write name =>
    cases he
    exact h.ensure name
  | remove name =>
    cases he
    apply h.unlink
    intro f hf
    have hall := List.all_eq_true.mp hg f hf
    exact of_decide_eq_true hall
  | glob suffix =>
    simp only [DirState.exec] at he
    split at he
    · cases he
      exact h
    · cases he
  | nextRequest =>
    cases he
    exact h

end DirInv

/-- In a run that removes no open file, at most one lock object holds the lock of
a GPU. -/
theorem unopened_exclusive (roles : Nat → Role) (names : List String)
    {c : (sessions.guarded removesUnopened).Config}
    (h : System.Reachable ((sessionsStart roles names).under removesUnopened) c) :
    Exclusive c.st := by
  apply DirInv.exclusive
  refine h.stateInduct (DirInv.start names) ?_ ?_
  · intro pid o ch s b s' hs he
    obtain ⟨hg, he⟩ := System.guarded_exec he
    exact hs.exec hg he
  · intro pid s hs
    exact hs.keep _

/-- Session 0 takes GPU 0 and gives it back, session 1 ends and removes the lock
file, and session 2 takes the GPU. -/
def inTurnSchedule : List (Nat × DirChoice) :=
  [(0, {}), (0, {}), (0, {}), (0, { request := .acquire "localhost" 0 "test" }), (0, {}), (0, {}),
   (0, {}), (0, {}), (0, {}), (0, { request := .release 0 }), (0, {}), (0, {}),
   (1, {}), (1, {}), (1, {}), (1, { request := .finish }),
   (1, { listing := ["localhost_gpu0.lock"] }), (1, {}),
   (2, {}), (2, {}), (2, {}), (2, { request := .acquire "localhost" 0 "test" }), (2, {}), (2, {}),
   (2, {})]

theorem inTurn_run :
    ((System.run ((sessionsStart (fun _ => {}) []).under removesUnopened)
      (inTurnSchedule.map fun x => .run x.1 x.2)).map
        fun c => c.st.openFiles) = some [⟨1, 2, "localhost_gpu0.lock", 2, true⟩] := by
  decide

theorem unopened_exclusive_inTurn :
    ∃ c : (sessions.guarded removesUnopened).Config,
      (∃ o, Holds c.st "localhost" 0 o) ∧ Exclusive c.st := by
  obtain ⟨c, hc, hopen⟩ := Option.map_eq_some_iff.mp inTurn_run
  refine ⟨c, ⟨⟨1, 2, "localhost_gpu0.lock", 2, true⟩, ?_, by decide, rfl⟩, ?_⟩
  · rw [hopen]
    exact List.mem_singleton_self _
  · exact unopened_exclusive (fun _ => {}) [] ⟨_, hc⟩

/-- Session 1 ends and removes the lock file while session 0 holds GPU 0, and
session 2 then takes the same GPU. -/
def overlapSchedule : List (Nat × DirChoice) :=
  [(0, {}), (0, {}), (0, {}), (0, { request := .acquire "localhost" 0 "test" }), (0, {}), (0, {}),
   (0, {}),
   (1, {}), (1, {}), (1, {}), (1, { request := .finish }),
   (1, { listing := ["localhost_gpu0.lock"] }), (1, {}),
   (2, {}), (2, {}), (2, {}), (2, { request := .acquire "localhost" 0 "test" }), (2, {}), (2, {}),
   (2, {})]

theorem overlap_run :
    ((System.run (sessionsStart (fun _ => {}) [])
      (overlapSchedule.map fun x => .run x.1 x.2)).map fun c => c.st.openFiles) =
      some [⟨1, 2, "localhost_gpu0.lock", 1, true⟩, ⟨0, 0, "localhost_gpu0.lock", 0, true⟩] := by
  decide

theorem cleanup_breaks_exclusivity :
    ∃ c, System.Reachable (sessionsStart (fun _ => {}) []) c ∧ ¬ Exclusive c.st := by
  obtain ⟨c, hc, hopen⟩ := Option.map_eq_some_iff.mp overlap_run
  refine ⟨c, ⟨_, hc⟩, fun hexcl => ?_⟩
  have hfirst : Holds c.st "localhost" 0 ⟨1, 2, "localhost_gpu0.lock", 1, true⟩ :=
    ⟨by rw [hopen]; simp, by decide, rfl⟩
  have hsecond : Holds c.st "localhost" 0 ⟨0, 0, "localhost_gpu0.lock", 0, true⟩ :=
    ⟨by rw [hopen]; simp, by decide, rfl⟩
  have hsame := hexcl "localhost" 0 _ _ hfirst hsecond
  exact absurd hsame (by decide)

end SessionLocks
end Plugins
end RocmTests

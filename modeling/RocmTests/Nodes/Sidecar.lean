import RocmTests.Conc.System
import RocmTests.Nodes.GpuFileLock
import RocmTests.Nodes.PendingTracker

/-!
# Does the sidecar name the holder?

Any number of processes acquire and release one GPU lock over and over.
`release` drops the lock first and removes the sidecar second, so another
process can take the lock and write its own sidecar in between, and the removal
then deletes the new holder's.  `sidecarKept` is the condition under which that
does not happen: the file being removed does not name the process that holds the
lock now.
-/

namespace RocmTests
namespace Nodes
namespace Sidecar

open Conc

/-- The accesses of one process, with a mark where `acquire` has returned and
one where `release` is called. -/
inductive UserOp where
  | os (o : OsOp)
  | acquired
  | releaseCalled

abbrev UserOp.Resp : UserOp → Type
  | .os o => o.Resp
  | .acquired => Unit
  | .releaseCalled => Unit

structure UserState where
  os : OsState
  holding : Nat → Bool

abbrev UserProg := Prog UserOp UserOp.Resp

def inOs {α : Type} (p : OsProg α) : UserProg α := Prog.mapOp UserOp.os (fun _ b => b) p

def userExec (pid : Nat) : (o : UserOp) → OsChoice → UserState → Option (o.Resp × UserState)
  | .os o, ch, s =>
    let x := OsState.exec pid o ch s.os
    some (x.1, { s with os := x.2 })
  | .acquired, _, s => some ((), { s with holding := Function.update s.holding pid true })
  | .releaseCalled, _, s => some ((), { s with holding := Function.update s.holding pid false })

def users : System where
  Tid := Nat
  Op := UserOp
  Resp := UserOp.Resp
  State := UserState
  Choice := OsChoice
  exec := userExec
  Fault := Empty
  fault := fun f _ => f.elim
  kills := fun f _ => f.elim

/-- Acquire and release one GPU for ever. -/
def user (nodeLabel : String) (gpuIndex : Int) (testId : String) (pid : Nat) : UserProg Unit :=
  Prog.iter (fun _ => do
    match ← inOs (GpuFileLock.acquire pid nodeLabel gpuIndex testId) with
    | .error _ => pure (.inl ())
    | .ok lock =>
      Prog.perform UserOp.acquired
      Prog.perform UserOp.releaseCalled
      inOs lock.release
      pure (.inl ())) ()

/-- Nobody holds the lock; the sidecar may be left over from anything. -/
def startState (info : LockFile → Option Info) : UserState :=
  { os := { OsState.start with info }, holding := fun _ => false }

def sidecarKept (_ : Nat) : UserOp → OsChoice → UserState → Bool
  | .os (.removeInfo f), _, s =>
    match s.os.holder f, s.os.info f with
    | some h, some i => decide (i.pid ≠ h.pid)
    | _, _ => true
  | _, _, _ => true

abbrev carefulUsers : System := users.guarded sidecarKept

/-! ## Ownership of the lock and its sidecar -/

/-- How far a process is: not holding, holding with the sidecar still to write,
holding with it written, and between `acquire` and `release`. -/
inductive Phase where
  | out
  | locked (id : Nat)
  | noted (id : Nat)
  | held (id : Nat)

def Phase.id? : Phase → Option Nat
  | .out => none
  | .locked id => some id
  | .noted id => some id
  | .held id => some id

/-- The sidecar names the process in this phase. -/
def Phase.named : Phase → Bool
  | .out => false
  | .locked _ => false
  | .noted _ => true
  | .held _ => true

def osActions (f : LockFile) (pid : Nat) : Actions OsOp OsOp.Resp Phase where
  pre
    | .flock g, r => g = f ∧ r = .out
    | .writeInfo g i, r => g = f ∧ i.pid = pid ∧ ∃ id, r = .locked id
    | .funlock g id, r => g = f ∧ r = .noted id
    | .removeInfo g, r => g = f ∧ r = .out
    | _, _ => False
  post
    | .flock _, r, b, r' => (b = none ∧ r' = r) ∨ ∃ id, b = some id ∧ r' = .locked id
    | .writeInfo _ _, r, _, r' => ∃ id, r = .locked id ∧ r' = .noted id
    | .funlock _ _, _, _, r' => r' = .out
    | _, r, _, r' => r' = r

def userActions (f : LockFile) (pid : Nat) : Actions UserOp UserOp.Resp Phase where
  pre
    | .os o, r => (osActions f pid).pre o r
    | .acquired, r => ∃ id, r = .noted id
    | .releaseCalled, r => ∃ id, r = .held id
  post
    | .os o, r, b, r' => (osActions f pid).post o r b r'
    | .acquired, r, _, r' => ∃ id, r = .noted id ∧ r' = .held id
    | .releaseCalled, r, _, r' => ∃ id, r = .held id ∧ r' = .noted id

theorem inOs_safe {f : LockFile} {pid : Nat} {α : Type} {p : OsProg α} {Q : α → Phase → Prop}
    {r : Phase} (h : Safe (osActions f pid) p Q r) : Safe (userActions f pid) (inOs p) Q r := by
  refine Safe.mapOp ?_ ?_ h
  · intro o r ho; exact ho
  · intro o r b r' hb; exact hb

theorem acquire_safe (pid : Nat) (nodeLabel : String) (gpuIndex : Int) {testId : String}
    (hid : testId ≠ "") :
    Safe (osActions (lockFile nodeLabel gpuIndex) pid)
      (GpuFileLock.acquire pid nodeLabel gpuIndex testId)
      (fun res r => match res with
        | .error _ => r = .out
        | .ok l => l.file = lockFile nodeLabel gpuIndex ∧ r = .noted l.id) .out := by
  refine .act ⟨rfl, rfl⟩ fun b r hb => ?_
  rcases hb with ⟨rfl, rfl⟩ | ⟨id, rfl, rfl⟩
  · exact .ret rfl
  · show Safe _ (Prog.bind (if testId ≠ "" then Os.writeInfo _ _ else pure ()) _) _ _
    rw [if_pos hid]
    refine .act ⟨rfl, rfl, id, rfl⟩ fun _ r hr => ?_
    obtain ⟨j, hj, rfl⟩ := hr
    cases hj
    exact .ret ⟨rfl, rfl⟩

theorem release_safe (pid : Nat) (l : GpuFileLock) :
    Safe (osActions l.file pid) l.release (fun _ r => r = .out) (.noted l.id) := by
  refine .act ⟨rfl, rfl⟩ fun _ r hr => .act ⟨rfl, hr⟩ fun _ r' hr' => .ret ?_
  exact hr'.trans hr

structure UserInv (f : LockFile) (s : UserState) (res : Nat → Phase) : Prop where
  lock : ∀ p id, (res p).id? = some id → s.os.holder f = some ⟨p, id⟩
  info : ∀ p, (res p).named = true → ∃ i, s.os.info f = some i ∧ i.pid = p
  holding : ∀ p, s.holding p = true ↔ ∃ id, res p = .held id
  alive : ∀ p, s.os.dead p = false

namespace UserInv

variable {f : LockFile} {s : UserState} {res : Nat → Phase}

theorem start (f : LockFile) (info : LockFile → Option Info) :
    UserInv f (startState info) fun _ => .out where
  lock _ _ h := by cases h
  info _ h := by cases h
  holding p := by
    constructor
    · intro h; cases h
    · rintro ⟨id, h⟩; cases h
  alive _ := rfl

/-- Only one process is in a phase that owns the lock. -/
theorem unique (h : UserInv f s res) {p q : Nat} {i j : Nat} (hp : (res p).id? = some i)
    (hq : (res q).id? = some j) : p = q := by
  have hboth := (h.lock p i hp).symm.trans (h.lock q j hq)
  have hholder := Option.some.inj hboth
  exact congrArg Holder.pid hholder

theorem id_of_named {r : Phase} (h : r.named = true) : ∃ id, r.id? = some id := by
  cases r with
  | out => cases h
  | locked id => cases h
  | noted id => exact ⟨id, rfl⟩
  | held id => exact ⟨id, rfl⟩

/-- Moving a process between two phases that own the lock, with the sidecar
named afterwards and the mark set to match. -/
theorem move (h : UserInv f s res) (p id : Nat) {r : Phase} {s' : UserState}
    (hp : (res p).id? = some id) (hr : r.id? = some id) (hos : s'.os.holder = s.os.holder)
    (hdead : s'.os.dead = s.os.dead) (hinfo : ∃ i, s'.os.info f = some i ∧ i.pid = p)
    (hmark : s'.holding p = true ↔ ∃ id, r = .held id)
    (hother : ∀ q, q ≠ p → s'.holding q = s.holding q) :
    UserInv f s' (Function.update res p r) where
  lock q j hq := by
    by_cases hqp : q = p
    · subst hqp
      rw [Function.update_self, hr] at hq
      rw [hos, ← Option.some.inj hq]
      exact h.lock q id hp
    · rw [Function.update_of_ne hqp] at hq
      exact absurd (h.unique hq hp) hqp
  info q hq := by
    by_cases hqp : q = p
    · rw [hqp]; exact hinfo
    · rw [Function.update_of_ne hqp] at hq
      obtain ⟨j, hj⟩ := id_of_named hq
      exact absurd (h.unique hj hp) hqp
  holding q := by
    by_cases hqp : q = p
    · subst hqp; rw [Function.update_self]; exact hmark
    · rw [Function.update_of_ne hqp, hother q hqp]; exact h.holding q
  alive q := by rw [hdead]; exact h.alive q

theorem flock_none (h : UserInv f s res) {p : Nat} :
    UserInv f s (Function.update res p (res p)) := by
  rwa [Function.update_eq_self]

theorem flock_some (h : UserInv f s res) {p : Nat} (hout : res p = .out)
    (hfree : s.os.holder f = none) :
    UserInv f
      { s with os := { s.os with
          holder := Function.update s.os.holder f (some ⟨p, s.os.nextId⟩)
          nextId := s.os.nextId + 1 } }
      (Function.update res p (.locked s.os.nextId)) where
  lock q j hq := by
    by_cases hqp : q = p
    · subst hqp
      rw [Function.update_self] at hq
      rw [← Option.some.inj hq]
      exact Function.update_self ..
    · rw [Function.update_of_ne hqp] at hq
      have hheld := h.lock q j hq
      rw [hfree] at hheld
      cases hheld
  info q hq := by
    by_cases hqp : q = p
    · subst hqp; rw [Function.update_self] at hq; cases hq
    · rw [Function.update_of_ne hqp] at hq
      exact h.info q hq
  holding q := by
    by_cases hqp : q = p
    · subst hqp
      rw [Function.update_self]
      have hnot := h.holding q
      rw [hout] at hnot
      simpa using hnot
    · rw [Function.update_of_ne hqp]; exact h.holding q
  alive q := h.alive q

theorem funlock (h : UserInv f s res) {p id : Nat} (hp : res p = .noted id) :
    UserInv f { s with os := { s.os with holder := Function.update s.os.holder f none } }
      (Function.update res p .out) where
  lock q j hq := by
    by_cases hqp : q = p
    · subst hqp; rw [Function.update_self] at hq; cases hq
    · rw [Function.update_of_ne hqp] at hq
      exact absurd (h.unique hq (by rw [hp]; rfl)) hqp
  info q hq := by
    by_cases hqp : q = p
    · subst hqp; rw [Function.update_self] at hq; cases hq
    · rw [Function.update_of_ne hqp] at hq
      exact h.info q hq
  holding q := by
    by_cases hqp : q = p
    · subst hqp
      rw [Function.update_self]
      have hnot := h.holding q
      rw [hp] at hnot
      simpa using hnot
    · rw [Function.update_of_ne hqp]; exact h.holding q
  alive q := h.alive q

/-- The one step the condition is about.  A process whose sidecar is in place
also holds the lock, so a removal that meets the condition is not of its file. -/
theorem removeInfo (h : UserInv f s res) {p : Nat} {ch : OsChoice}
    (hkept : sidecarKept p (.os (.removeInfo f)) ch s = true) :
    UserInv f { s with os := { s.os with info := Function.update s.os.info f none } } res where
  lock q j hq := h.lock q j hq
  info q hq := by
    obtain ⟨i, hi, hpid⟩ := h.info q hq
    obtain ⟨j, hj⟩ := id_of_named hq
    have hholder := h.lock q j hj
    simp only [sidecarKept, hholder, hi, decide_eq_true_eq] at hkept
    exact absurd hpid hkept
  holding q := h.holding q
  alive q := h.alive q

end UserInv

/-- Each action of a careful user keeps the invariant. -/
theorem careful_act_ok {f : LockFile} {s s' : UserState} {res : Nat → Phase} {p : Nat}
    {o : UserOp} {ch : OsChoice} {b : o.Resp} (hinv : UserInv f s res)
    (hpre : (userActions f p).pre o (res p)) (hkept : sidecarKept p o ch s = true)
    (hexec : userExec p o ch s = some (b, s')) :
    ∃ r', (userActions f p).post o (res p) b r' ∧ UserInv f s' (Function.update res p r') := by
  match o, hpre with
  | .os (.flock g), ⟨hg, hout⟩ =>
    subst hg
    cases hf : s.os.holder g with
    | some h =>
      simp only [userExec, OsState.flock_held hf] at hexec
      cases hexec
      exact ⟨res p, Or.inl ⟨rfl, rfl⟩, hinv.flock_none⟩
    | none =>
      simp only [userExec, OsState.flock_free hf] at hexec
      cases hexec
      exact ⟨.locked s.os.nextId, Or.inr ⟨_, rfl, rfl⟩, hinv.flock_some hout hf⟩
  | .os (.writeInfo g i), ⟨hg, hi, id, hid⟩ =>
    subst hg
    cases hexec
    refine ⟨.noted id, ⟨id, hid, rfl⟩, ?_⟩
    refine hinv.move p id (by rw [hid]; rfl) rfl rfl rfl ⟨i, Function.update_self .., hi⟩ ?_
      fun _ _ => rfl
    rw [show _ ↔ _ from hinv.holding p, hid]
    constructor
    · rintro ⟨j, hj⟩; cases hj
    · rintro ⟨j, hj⟩; cases hj
  | .os (.funlock g id), ⟨hg, hid⟩ =>
    subst hg
    have hholder := hinv.lock p id (by rw [hid]; rfl)
    simp only [userExec, OsState.exec, hholder, if_true] at hexec
    cases hexec
    exact ⟨.out, rfl, hinv.funlock hid⟩
  | .os (.removeInfo g), ⟨hg, hout⟩ =>
    subst hg
    cases hexec
    exact ⟨res p, rfl, by rw [Function.update_eq_self]; exact hinv.removeInfo hkept⟩
  | .acquired, ⟨id, hid⟩ =>
    cases hexec
    obtain ⟨i, hi⟩ := hinv.info p (by rw [hid]; rfl)
    refine ⟨.held id, ⟨id, hid, rfl⟩, ?_⟩
    refine hinv.move p id (by rw [hid]; rfl) rfl rfl rfl ⟨i, hi⟩ ?_
      fun q hq => Function.update_of_ne hq ..
    exact iff_of_true (Function.update_self ..) ⟨id, rfl⟩
  | .releaseCalled, ⟨id, hid⟩ =>
    cases hexec
    obtain ⟨i, hi⟩ := hinv.info p (by rw [hid]; rfl)
    refine ⟨.noted id, ⟨id, hid, rfl⟩, ?_⟩
    refine hinv.move p id (by rw [hid]; rfl) rfl rfl rfl ⟨i, hi⟩ ?_
      fun q hq => Function.update_of_ne hq ..
    have hfalse : Function.update s.holding p false p = false := Function.update_self ..
    refine iff_of_false (fun h => ?_) ?_
    · exact Bool.noConfusion (hfalse.symm.trans h)
    · rintro ⟨j, hj⟩; cases hj

def carefulOwnership (f : LockFile) : Ownership carefulUsers where
  R := Phase
  actions := userActions f
  Inv := UserInv f
  act_ok hinv hpre hexec := by
    obtain ⟨hkept, hexec⟩ := System.guarded_exec hexec
    exact careful_act_ok hinv hpre hkept hexec
  fault_ok e := e.elim

theorem user_safe (nodeLabel : String) (gpuIndex : Int) {testId : String} (pid : Nat)
    (hid : testId ≠ "") :
    Safe (userActions (lockFile nodeLabel gpuIndex) pid) (user nodeLabel gpuIndex testId pid)
      (fun _ _ => True) .out := by
  refine Safe.iter (fun _ r => r = .out) rfl fun _ r hr => ?_
  subst hr
  refine (inOs_safe (acquire_safe pid nodeLabel gpuIndex hid)).bind fun x r hx => ?_
  cases x with
  | error e => exact .ret hx
  | ok l =>
    obtain ⟨hfile, rfl⟩ := hx
    refine .act ⟨l.id, rfl⟩ fun _ r hr => ?_
    obtain ⟨i, hi, rfl⟩ := hr
    cases hi
    refine .act ⟨l.id, rfl⟩ fun _ r hr => ?_
    obtain ⟨i, hi, rfl⟩ := hr
    cases hi
    rw [← hfile]
    exact (inOs_safe (release_safe pid l)).bind fun _ r hr => .ret hr

/-! ## The sidecar along a run -/

/-- Between its `acquire` and its `release` the sidecar names `p`, the listing of
holders shows it, and the liveness probe says the holder is there. -/
def SidecarRight (nodeLabel : String) (gpuIndex : Int) (s : UserState) : Prop :=
  ∀ p, s.holding p = true →
    ∃ i, s.os.info (lockFile nodeLabel gpuIndex) = some i ∧ i.pid = p ∧
      (∀ files, lockFile nodeLabel gpuIndex ∈ files →
        i ∈ GpuFileLock.readAllHolders files s.os) ∧
      (∀ q, PendingAcquisitionTracker.runAlone q [{}, {}]
        (GpuFileLock.holderIsAlive nodeLabel gpuIndex) s.os = some (true, [], s.os))

theorem UserInv.sidecarRight {nodeLabel : String} {gpuIndex : Int} {s : UserState}
    {res : Nat → Phase} (h : UserInv (lockFile nodeLabel gpuIndex) s res) :
    SidecarRight nodeLabel gpuIndex s := by
  intro p hp
  obtain ⟨id, hid⟩ := (h.holding p).mp hp
  obtain ⟨i, hi, hpid⟩ := h.info p (by rw [hid]; rfl)
  refine ⟨i, hi, hpid, fun files hf => ?_, fun q => ?_⟩
  · exact List.mem_filterMap.mpr ⟨_, hf, hi⟩
  · have halive := h.alive i.pid
    simp [PendingAcquisitionTracker.runAlone, GpuFileLock.holderIsAlive, runSeq, OsState.exec,
      Prog.perform, Prog.bind, hi, halive]

/-- Process `p` runs `user` with its own test name. -/
def usersStart (nodeLabel : String) (gpuIndex : Int) (testId : Nat → String)
    (info : LockFile → Option Info) : users.Config :=
  ⟨startState info, fun p => user nodeLabel gpuIndex (testId p) p⟩

/-- In every run whose removals all keep the current holder's sidecar, the
sidecar is right about every process that holds the lock. -/
theorem careful_sidecarRight (nodeLabel : String) (gpuIndex : Int) (testId : Nat → String)
    (info : LockFile → Option Info) (hid : ∀ p, testId p ≠ "") (c : carefulUsers.Config)
    (hreach : System.Reachable
      ((usersStart nodeLabel gpuIndex testId info).under sidecarKept) c) :
    SidecarRight nodeLabel gpuIndex c.st := by
  have hstart : (carefulOwnership (lockFile nodeLabel gpuIndex)).Holds
      ((usersStart nodeLabel gpuIndex testId info).under sidecarKept) :=
    ⟨fun _ => .out, UserInv.start _ info, fun p => user_safe nodeLabel gpuIndex p (hid p)⟩
  obtain ⟨res, hinv, _⟩ := Ownership.reachable hstart hreach
  exact UserInv.sidecarRight hinv

/-- Two processes take turns on one GPU without overtaking each other. -/
def turnsSchedule : List carefulUsers.Event :=
  ([0, 0, 0, 0, 0, 0, 0, 1, 1, 1, 1] : List Nat).map fun p => .run p ({} : OsChoice)

theorem turns_run :
    ((System.run ((usersStart "local" 0 (fun _ => "test") fun _ => none).under sidecarKept)
      turnsSchedule).map fun c => c.st.holding 1) = some true := by
  decide

theorem careful_sidecarRight_turns :
    ∃ c : carefulUsers.Config, c.st.holding 1 = true ∧ SidecarRight "local" 0 c.st := by
  obtain ⟨c, hc, hholding⟩ := Option.map_eq_some_iff.mp turns_run
  refine ⟨c, hholding, ?_⟩
  exact careful_sidecarRight "local" 0 (fun _ => "test") (fun _ => none)
    (fun _ => by decide) c ⟨turnsSchedule, hc⟩

/-- Process 0 drops the lock, process 1 takes it and writes its sidecar, and
process 0 then removes the file. -/
def overtakeSchedule : List users.Event :=
  ([0, 0, 0, 0, 0, 0, 1, 1, 1, 1, 0] : List Nat).map fun p => .run p ({} : OsChoice)

theorem overtake_run :
    ((System.run (usersStart "local" 0 (fun _ => "test") fun _ => none) overtakeSchedule).map
      fun c => (c.st.holding 1, c.st.os.info (lockFile "local" 0))) = some (true, none) := by
  decide

theorem sidecar_lost :
    ∃ c, System.Reachable (usersStart "local" 0 (fun _ => "test") fun _ => none) c ∧
      ¬ SidecarRight "local" 0 c.st := by
  obtain ⟨c, hc, hst⟩ := Option.map_eq_some_iff.mp overtake_run
  refine ⟨c, ⟨overtakeSchedule, hc⟩, fun hright => ?_⟩
  have hholding : c.st.holding 1 = true := congrArg Prod.fst hst
  have hinfo : c.st.os.info (lockFile "local" 0) = none := congrArg Prod.snd hst
  obtain ⟨i, hi, _⟩ := hright 1 hholding
  rw [hinfo] at hi
  cases hi

end Sidecar
end Nodes
end RocmTests

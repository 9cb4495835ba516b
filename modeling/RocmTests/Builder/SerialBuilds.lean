import RocmTests.Builder.AutotoolsMake

/-!
# One build after the other

The log of a tree is read as a list of attempts.  An attempt is what one worker did under the lock:
all steps, or the first of them up to one that failed.  Only the last may be underway, and then its
worker holds the lock.  Where the steps do what they are for, nothing is built again once all steps
were done.
-/

namespace RocmTests
namespace Builder
namespace Autotools

open Conc Text

/-- The marks of steps that succeeded. -/
def trail (steps : List Step) : List Mark := steps.flatMap fun s => [.begun s, .ended s true]

theorem trail_append (before after : List Step) :
    trail (before ++ after) = trail before ++ trail after :=
  List.flatMap_append ..

theorem trail_snoc (before : List Step) (s : Step) :
    trail (before ++ [s]) = trail before ++ [.begun s] ++ [.ended s true] := by
  rw [trail_append, List.append_assoc]
  rfl

theorem failed_not_mem_trail (s : Step) (steps : List Step) : Mark.ended s false ∉ trail steps := by
  intro hmem
  obtain ⟨s', -, h⟩ := List.mem_flatMap.mp hmem
  rcases List.mem_cons.mp h with h | h
  · cases h
  · cases List.mem_singleton.mp h

/-- All steps were done, or one of them failed. -/
def Ended (steps : List Step) (marks : List Mark) : Prop :=
  marks = trail steps ∨ ∃ before s after, steps = before ++ s :: after ∧
    marks = trail before ++ [.begun s] ++ [.ended s false]

/-- The worker is between two steps, or a step has begun. -/
def Underway (steps : List Step) (marks : List Mark) : Prop :=
  ∃ before after, steps = before ++ after ∧
    (marks = trail before ∨ ∃ s rest, after = s :: rest ∧ marks = trail before ++ [.begun s])

structure Attempt (Tid : Type) where
  worker : Tid
  call : MakeCall
  marks : List Mark

namespace Attempt

variable {Tid : Type}

def entries (a : Attempt Tid) : List (Tid × Mark) := a.marks.map fun m => (a.worker, m)

def Complete (a : Attempt Tid) : Prop := a.marks = trail a.call.steps

/-- After the one attempt was complete, the other looks for another sentinel. -/
def Settles (a b : Attempt Tid) : Prop :=
  a.Complete → ∀ path ∈ a.call.sentinelPath, b.call.sentinelPath ≠ some path

end Attempt

section Invariant

variable {Tid : Type} {honest : Prop} {dir : Txt} {x : Trees Tid} {as : List (Attempt Tid)}
  {last : Option (Attempt Tid)} {a : Attempt Tid}

/-- The log of a tree, taken apart. -/
structure Split (honest : Prop) (dir : Txt) (x : Trees Tid) (as : List (Attempt Tid))
    (last : Option (Attempt Tid)) : Prop where
  log : x.log dir = (as ++ last.toList).flatMap Attempt.entries
  own : ∀ a ∈ as ++ last.toList, a.call.absBuild = dir
  ended : ∀ a ∈ as, Ended a.call.steps a.marks
  settled : honest → (as ++ last.toList).Pairwise Attempt.Settles
  files : honest → ∀ a ∈ as, a.Complete → ∀ path ∈ a.call.sentinelPath, path ∈ x.files

/-- The holder of the lock is the one who has begun something. -/
def Orderly (honest : Prop) (holder : Option Tid) (x : Trees Tid) : Prop :=
  ∀ dir, ∃ as last, Split honest dir x as last ∧
    ∀ a ∈ last, holder = some a.worker ∧ Underway a.call.steps a.marks

theorem Split.mark (h : Split honest dir x as (some a)) (m : Mark) :
    Split honest dir (x.mark a.worker dir m) as (some { a with marks := a.marks ++ [m] }) where
  log := by
    have hlog := h.log
    rw [Option.toList_some, List.flatMap_append, List.flatMap_singleton] at hlog ⊢
    show Function.update x.log dir _ dir = _
    rw [Function.update_self, hlog, List.append_assoc, Attempt.entries, Attempt.entries,
      List.map_append]
    rfl
  own b hb := by
    rcases List.mem_append.mp hb with hb | hb
    · exact h.own b (List.mem_append_left _ hb)
    · rw [List.mem_singleton.mp hb]
      exact h.own a (List.mem_append_right _ (List.mem_singleton_self a))
  ended := h.ended
  settled hhonest := by
    have hpairs := h.settled hhonest
    rw [Option.toList_some, List.pairwise_append] at hpairs ⊢
    refine ⟨hpairs.1, List.pairwise_singleton _ _, fun b hb d hd => ?_⟩
    rw [List.mem_singleton.mp hd]
    exact hpairs.2.2 b hb a (List.mem_singleton_self a)
  files := h.files

theorem Split.mark_other (h : Split honest dir x as last) {dir' : Txt} (hne : dir ≠ dir') (t : Tid)
    (m : Mark) : Split honest dir (x.mark t dir' m) as last where
  log := by
    show Function.update x.log dir' _ dir = _
    rw [Function.update_of_ne hne]
    exact h.log
  own := h.own
  ended := h.ended
  settled := h.settled
  files := h.files

theorem Split.refile (h : Split honest dir x as last) {files : List Txt}
    (hfiles : honest → ∀ path, path ∈ x.files → path ∈ files) :
    Split honest dir { x with files := files } as last where
  log := h.log
  own := h.own
  ended := h.ended
  settled := h.settled
  files hhonest a ha hcomplete path hpath :=
    hfiles hhonest path (h.files hhonest a ha hcomplete path hpath)

/-- The last attempt is over. -/
theorem Split.close (h : Split honest dir x as (some a)) (hended : Ended a.call.steps a.marks)
    (hfiles : honest → a.Complete → ∀ path ∈ a.call.sentinelPath, path ∈ x.files) :
    Split honest dir x (as ++ [a]) none where
  log := by
    rw [Option.toList_none, List.append_nil]
    exact h.log
  own := by
    rw [Option.toList_none, List.append_nil]
    exact h.own
  ended b hb := by
    rcases List.mem_append.mp hb with hb | hb
    · exact h.ended b hb
    · rw [List.mem_singleton.mp hb]
      exact hended
  settled hhonest := by
    rw [Option.toList_none, List.append_nil]
    exact h.settled hhonest
  files hhonest b hb := by
    rcases List.mem_append.mp hb with hb | hb
    · exact h.files hhonest b hb
    · rw [List.mem_singleton.mp hb]
      exact hfiles hhonest

/-- A worker that found no sentinel begins another attempt. -/
theorem Split.start (h : Split honest dir x as none) (t : Tid) {c : MakeCall}
    (hdir : c.absBuild = dir)
    (hfiles : honest → ∀ path ∈ c.sentinelPath, path ∉ x.files) :
    Split honest dir x as (some ⟨t, c, []⟩) where
  log := by
    have hlog := h.log
    rw [Option.toList_none, List.append_nil] at hlog
    rw [Option.toList_some, List.flatMap_append, List.flatMap_singleton, hlog]
    exact (List.append_nil _).symm
  own b hb := by
    rcases List.mem_append.mp hb with hb | hb
    · exact h.own b (List.mem_append_left _ hb)
    · rw [List.mem_singleton.mp hb]
      exact hdir
  ended := h.ended
  settled hhonest := by
    have hpairs := h.settled hhonest
    rw [Option.toList_none, List.append_nil] at hpairs
    rw [Option.toList_some, List.pairwise_append]
    refine ⟨hpairs, List.pairwise_singleton _ _, fun b hb d hd hcomplete path hpath hsame => ?_⟩
    rw [List.mem_singleton.mp hd] at hsame
    exact hfiles hhonest path hsame (h.files hhonest b hb hcomplete path hpath)
  files := h.files

theorem Orderly.split (h : Orderly honest none x) (dir : Txt) :
    ∃ as, Split honest dir x as none := by
  obtain ⟨as, last, hsplit, hlast⟩ := h dir
  cases last with
  | none => exact ⟨as, hsplit⟩
  | some a => cases (hlast a rfl).1

theorem orderly_of_split (h : ∀ dir, ∃ as, Split honest dir x as none) (holder : Option Tid) :
    Orderly honest holder x := by
  intro dir
  obtain ⟨as, hsplit⟩ := h dir
  exact ⟨as, none, hsplit, fun a ha => by cases ha⟩

theorem Orderly.enter (t : Tid) (x : Trees Tid) (h : Orderly honest none x) :
    Orderly honest (some t) x := orderly_of_split h.split _

/-! ## A worker at work -/

/-- The worker `t` has left these marks in the tree of its call, and nobody is at work elsewhere. -/
def Doing (honest : Prop) (t : Tid) (c : MakeCall) (marks : List Mark) (x : Trees Tid) : Prop :=
  (∃ as, Split honest c.absBuild x as (some ⟨t, c, marks⟩)) ∧
    ∀ dir ≠ c.absBuild, ∃ as, Split honest dir x as none

variable {t : Tid} {c : MakeCall} {marks : List Mark}

theorem Doing.start (h : Orderly honest none x)
    (hfiles : honest → ∀ path ∈ c.sentinelPath, path ∉ x.files) : Doing honest t c [] x := by
  obtain ⟨as, hsplit⟩ := h.split c.absBuild
  exact ⟨⟨as, hsplit.start t rfl hfiles⟩, fun dir _ => h.split dir⟩

theorem Doing.mark (h : Doing honest t c marks x) (m : Mark) :
    Doing honest t c (marks ++ [m]) (x.mark t c.absBuild m) := by
  obtain ⟨⟨as, hsplit⟩, hother⟩ := h
  refine ⟨⟨as, hsplit.mark m⟩, fun dir hdir => ?_⟩
  obtain ⟨as', hsplit'⟩ := hother dir hdir
  exact ⟨as', hsplit'.mark_other hdir t m⟩

theorem Doing.refile (h : Doing honest t c marks x) {files : List Txt}
    (hfiles : honest → ∀ path, path ∈ x.files → path ∈ files) :
    Doing honest t c marks { x with files := files } := by
  obtain ⟨⟨as, hsplit⟩, hother⟩ := h
  refine ⟨⟨as, hsplit.refile hfiles⟩, fun dir hdir => ?_⟩
  obtain ⟨as', hsplit'⟩ := hother dir hdir
  exact ⟨as', hsplit'.refile hfiles⟩

theorem Doing.underway (h : Doing honest t c marks x) (hmarks : Underway c.steps marks) :
    Orderly honest (some t) x := by
  intro dir
  by_cases hdir : dir = c.absBuild
  · obtain ⟨as, hsplit⟩ := h.1
    rw [hdir]
    refine ⟨as, _, hsplit, fun a ha => ?_⟩
    cases ha
    exact ⟨rfl, hmarks⟩
  · obtain ⟨as, hsplit⟩ := h.2 dir hdir
    exact ⟨as, none, hsplit, fun a ha => by cases ha⟩

theorem Doing.close (h : Doing honest t c marks x) (hended : Ended c.steps marks)
    (hfiles : honest → marks = trail c.steps → ∀ path ∈ c.sentinelPath, path ∈ x.files) :
    Orderly honest none x := by
  refine orderly_of_split (fun dir => ?_) none
  by_cases hdir : dir = c.absBuild
  · obtain ⟨as, hsplit⟩ := h.1
    rw [hdir]
    exact ⟨_, hsplit.close hended hfiles⟩
  · exact h.2 dir hdir

end Invariant

/-! ## The programs -/

/-- Tests tell the truth, no step takes a sentinel away, and the last of the steps leaves one. -/
structure Honest {Tid : Type} (allowed : Allowed Tid) : Prop where
  probe : ∀ path ch x, allowed (.probe path) ch x = true → ch.failed = false
  keeps : ∀ c s ch x, allowed (.finish c s) ch x = true →
    ∀ path, path ∈ x.files → path ∈ ch.files
  leaves : ∀ c s ch x, allowed (.finish c s) ch x = true → ch.failed = false →
    c.steps.getLast? = some s → ∀ path ∈ c.sentinelPath, path ∈ ch.files

section Programs

variable {Tid : Type} {allowed : Allowed Tid} {L : Locks} {honest : Prop} {t : Tid} {c : MakeCall}

variable (allowed L honest t) in
def buildOwned : Actions (LockOp (trees allowed) (Call L)) LockOp.Resp (Option (Txt × Trees Tid)) :=
  lockOwned (Orderly honest) t

/-- The lock of `dir` is held, and nobody is at work behind it. -/
def Holding (L : Locks) (honest : Prop) (dir : Txt) (r : Option (Txt × Trees Tid)) : Prop :=
  ∃ x, r = some (L.of dir, x) ∧ Orderly honest none x

/-- The lock was taken, or there was an exception. -/
def Entered (L : Locks) (honest : Prop) (dir : Txt) (result : Except BuildError Unit)
    (r : Option (Txt × Trees Tid)) : Prop :=
  (result = .ok () ∧ Holding L honest dir r) ∨ (∃ e, result = .error e) ∧ r = none

theorem lockTurn_owned {key dir : Txt} {deadline : ℚ} (hkey : L.digest key = L.of dir)
    {r : Option (Txt × Trees Tid)} (hr : r = none) :
    Safe (buildOwned allowed L honest t) (lockTurn key deadline)
      (fun a r => Sum.elim (fun _ => r = none) (fun result => Entered L honest dir result r) a)
        r := by
  refine .act hr fun a r' ha => ?_
  rcases ha with ⟨ha, hsame⟩ | ⟨rfl, x, hx, hr'⟩
  · have hnone : r' = none := hsame.trans hr
    cases a with
    | taken => exact absurd rfl ha
    | failed => exact .ret (Or.inr ⟨⟨_, rfl⟩, hnone⟩)
    | busy =>
      refine .act trivial fun now r₁ h₁ => ?_
      have hnone₁ : r₁ = none := Eq.trans h₁ hnone
      by_cases hlate : deadline ≤ now
      · rw [if_pos hlate]
        exact .ret (Or.inr ⟨⟨_, rfl⟩, hnone₁⟩)
      · rw [if_neg hlate]
        exact .act trivial fun _ r₂ h₂ => .ret (Eq.trans h₂ hnone₁)
  · exact .ret (Or.inl ⟨rfl, x, hkey ▸ hr', hx⟩)

/-- What leaves the lock as it found it may stand in the section. -/
theorem externalBuildLock_owned {α : Type} {key dir : Txt} {timeout : ℚ}
    {body : BuildProg allowed L (Except BuildError α)} (hkey : L.digest key = L.of dir)
    (hbody : ∀ r, Holding L honest dir r →
      Safe (buildOwned allowed L honest t) body (fun _ => Holding L honest dir) r) :
    Safe (buildOwned allowed L honest t) (externalBuildLock key timeout body) (fun _ r => r = none)
      none := by
  refine .act trivial fun (start : ℚ) r hr => ?_
  have hloop : Safe (buildOwned allowed L honest t)
      (Prog.iter (fun _ : Unit => lockTurn key (start + timeout)) ()) (Entered L honest dir) r :=
    Safe.iter (fun _ r => r = none) hr fun _ _ hr => lockTurn_owned hkey hr
  refine hloop.bind fun result r' hresult => ?_
  rcases hresult with ⟨rfl, hholding⟩ | ⟨⟨e, rfl⟩, hnone⟩
  · refine (hbody r' hholding).bind fun _ r₁ h₁ => ?_
    obtain ⟨x, hx, hinv⟩ := h₁
    exact .act ⟨x, hkey.symm ▸ hx, hinv⟩ fun _ r₂ h₂ => .ret h₂
  · exact .ret hnone

theorem trees_exec {o : TreeOp} {ch : TreeChoice} {x x' : Trees Tid} {b : o.Resp}
    (h : (trees allowed).exec t o ch x = some (b, x')) :
    allowed o ch x = true ∧ Trees.perform t o ch x = (b, x') := by
  have h' : (if allowed o ch x then some (Trees.perform t o ch x) else none) = some (b, x') := h
  split_ifs at h' with hallowed
  exact ⟨hallowed, Option.some.inj h'⟩

/-- What is known when a step succeeded that `rest` are behind. -/
structure Between (honest : Prop) (t : Tid) (c : MakeCall) (before rest : List Step)
    (x : Trees Tid) :
    Prop where
  steps : c.steps = before ++ rest
  doing : Doing honest t c (trail before) x
  sentinel : rest = [] → honest → ∀ path ∈ c.sentinelPath, path ∈ x.files

theorem runStreamStep_owned (hhonest : honest → Honest allowed) {before rest : List Step} {s : Step}
    {x : Trees Tid} (h : Between honest t c before (s :: rest) x) {r : Option (Txt × Trees Tid)}
    (hr : r = some (L.of c.absBuild, x)) :
    Safe (buildOwned allowed L honest t) (runStreamStep c s)
      (fun result r => (result = .ok () ∧
          ∃ x, r = some (L.of c.absBuild, x) ∧ Between honest t c (before ++ [s]) rest x) ∨
        (∃ e, result = .error e) ∧ Holding L honest c.absBuild r) r := by
  have hbegun := h.doing.mark (.begun s)
  have hunderway : Underway c.steps (trail before ++ [.begun s]) :=
    ⟨before, s :: rest, h.steps, Or.inr ⟨s, rest, rfl, rfl⟩⟩
  have hfailed : Ended c.steps (trail before ++ [.begun s] ++ [.ended s false]) :=
    Or.inr ⟨before, s, rest, h.steps, rfl⟩
  have hincomplete : trail before ++ [Mark.begun s] ++ [Mark.ended s false] ≠ trail c.steps := by
    intro heq
    exact failed_not_mem_trail s c.steps (heq ▸ List.mem_append_right _ (List.mem_singleton_self _))
  have hsplit : c.steps = (before ++ [s]) ++ rest := by
    rw [List.append_assoc]
    exact h.steps
  -- what the end of the step leaves
  have hok : ∀ ch : TreeChoice, allowed (.finish c s) ch (x.mark t c.absBuild (.begun s)) = true →
      ch.failed = false → Between honest t c (before ++ [s]) rest
        ({ x.mark t c.absBuild (.begun s) with files := ch.files }.mark t c.absBuild
          (.ended s true)) := by
    intro ch hallowed hch
    refine ⟨hsplit, ?_, fun hrest hh => ?_⟩
    · rw [trail_snoc]
      exact (hbegun.refile fun hh => (hhonest hh).keeps c s ch _ hallowed).mark (.ended s true)
    · refine (hhonest hh).leaves c s ch _ hallowed hch ?_
      rw [hsplit, hrest, List.append_nil, List.getLast?_concat]
  have hnotOk : ∀ ch : TreeChoice,
      allowed (.finish c s) ch (x.mark t c.absBuild (.begun s)) = true →
      Orderly honest none
        ({ x.mark t c.absBuild (.begun s) with files := ch.files }.mark t c.absBuild
          (.ended s false)) := by
    intro ch hallowed
    exact ((hbegun.refile fun hh => (hhonest hh).keeps c s ch _ hallowed).mark
      (.ended s false)).close
      hfailed fun _ heq => absurd heq hincomplete
  refine .act ⟨x, hr, fun ch b x' hexec => ?_⟩ fun b r₁ h₁ => ?_
  · obtain ⟨-, hperform⟩ := trees_exec hexec
    cases hperform
    exact hbegun.underway hunderway
  obtain ⟨x₀, ch₀, x₁, hx₀, hexec, hr₁⟩ := h₁
  cases hr.symm.trans hx₀
  obtain ⟨-, hperform⟩ := trees_exec hexec
  cases hperform
  refine .act ⟨_, hr₁, fun ch b x' hexec => ?_⟩ fun b r₂ h₂ => ?_
  · obtain ⟨hallowed, hperform⟩ := trees_exec hexec
    cases hperform
    cases hch : ch.failed with
    | true => exact (hnotOk ch hallowed).enter t _
    | false =>
      have hnext := hok ch hallowed hch
      exact hnext.doing.underway ⟨before ++ [s], rest, hsplit, Or.inl rfl⟩
  obtain ⟨x₂, ch, x₃, hx₂, hexec, hr₂⟩ := h₂
  cases hr₁.symm.trans hx₂
  obtain ⟨hallowed, hperform⟩ := trees_exec hexec
  cases hperform
  cases hch : ch.failed with
  | true =>
    rw [hch] at hr₂
    exact .ret (Or.inr ⟨⟨_, rfl⟩, _, hr₂, hnotOk ch hallowed⟩)
  | false =>
    rw [hch] at hr₂
    exact .ret (Or.inl ⟨rfl, _, hr₂, hok ch hallowed hch⟩)

theorem eachStep_owned (hhonest : honest → Honest allowed) (rest : List Step) :
    ∀ {before : List Step} {x : Trees Tid} {r : Option (Txt × Trees Tid)},
      Between honest t c before rest x → r = some (L.of c.absBuild, x) →
        Safe (buildOwned allowed L honest t) (Prog.eachE (runStreamStep c) rest)
          (fun _ => Holding L honest c.absBuild) r := by
  induction rest with
  | nil =>
    intro before x r h hr
    have hsteps := h.steps
    rw [List.append_nil] at hsteps
    refine .ret ⟨x, hr, h.doing.close (Or.inl ?_) fun hh _ => h.sentinel rfl hh⟩
    rw [hsteps]
  | cons s rest ih =>
    intro before x r h hr
    refine (runStreamStep_owned hhonest h hr).bind fun result r' hresult => ?_
    rcases hresult with ⟨rfl, x', hr', hnext⟩ | ⟨⟨e, rfl⟩, hholding⟩
    · exact ih hnext hr'
    · exact .ret hholding

theorem steps_ne_nil (c : MakeCall) : c.steps ≠ [] := by
  unfold MakeCall.steps
  exact List.append_ne_nil_of_left_ne_nil
    (List.append_ne_nil_of_right_ne_nil _ (List.cons_ne_nil _ _)) _

theorem runSteps_owned (hhonest : honest → Honest allowed) {r : Option (Txt × Trees Tid)}
    (hr : Holding L honest c.absBuild r) :
    Safe (buildOwned allowed L honest t) (runSteps c) (fun _ => Holding L honest c.absBuild) r := by
  obtain ⟨x, hr, hx⟩ := hr
  have hsteps : ∀ {r}, r = some (L.of c.absBuild, x) →
      (honest → ∀ path ∈ c.sentinelPath, path ∉ x.files) →
        Safe (buildOwned allowed L honest t) (Prog.eachE (runStreamStep c) c.steps)
          (fun _ => Holding L honest c.absBuild) r := by
    intro r hr hfiles
    have hstart : Between honest t c [] c.steps x :=
      ⟨rfl, Doing.start hx hfiles, fun hnil => absurd hnil (steps_ne_nil c)⟩
    exact eachStep_owned hhonest c.steps hstart hr
  unfold runSteps sentinelPresentAgain
  cases hpath : c.sentinelPath with
  | none => exact hsteps hr fun _ path h => by rw [hpath] at h; cases h
  | some path =>
    refine .act ⟨x, hr, fun ch b x' hexec => ?_⟩ fun b r' h' => ?_
    · obtain ⟨-, hperform⟩ := trees_exec hexec
      cases hperform
      exact hx.enter t x
    obtain ⟨x₀, ch, x', hx₀, hexec, hr'⟩ := h'
    cases hr.symm.trans hx₀
    obtain ⟨hallowed, hperform⟩ := trees_exec hexec
    cases hperform
    cases hpresent : x.probe path ch with
    | true => exact .ret ⟨x, hr', hx⟩
    | false =>
      refine hsteps hr' fun hh p hp => ?_
      cases hp.symm.trans hpath
      have hfound : (decide (path ∈ x.files) && !ch.failed) = false := hpresent
      rw [(hhonest hh).probe path ch x hallowed, Bool.not_false, Bool.and_true] at hfound
      exact of_decide_eq_false hfound

/-- Whatever a thread owns, to look leaves it alone. -/
theorem sentinelPresent_owned (r : Option (Txt × Trees Tid)) :
    Safe (buildOwned allowed L honest t) (sentinelPresent c) (fun _ r' => r' = r) r := by
  unfold sentinelPresent
  cases c.sentinelPath with
  | none => exact .ret rfl
  | some path => exact .act trivial fun _ r' hr' => .ret hr'

theorem autotoolsMake_owned (hhonest : honest → Honest allowed) (hlock : c.useLock = true)
    (hkey : L.digest c.absBuild = L.of c.absBuild) :
    Safe (buildOwned allowed L honest t) (autotoolsMake c) (fun _ r => r = none) none := by
  refine (sentinelPresent_owned none).bind fun present r hr => ?_
  subst hr
  cases present with
  | true => exact .ret rfl
  | false =>
    show Safe _ (Prog.bind (if c.useLock = true then _ else _) _) _ _
    rw [if_pos hlock]
    refine (externalBuildLock_owned hkey fun r hr => runSteps_owned hhonest hr).bind
      fun result r hr => ?_
    cases result with
    | error e => exact .ret hr
    | ok u => exact .ret hr

theorem autotoolsMake_owned_within (hhonest : honest → Honest allowed) (hlock : c.useLock = false)
    {r : Option (Txt × Trees Tid)} (hr : Holding L honest c.absBuild r) :
    Safe (buildOwned allowed L honest t) (autotoolsMake c) (fun _ => Holding L honest c.absBuild)
      r := by
  refine (sentinelPresent_owned r).bind fun present r' hr' => ?_
  subst hr'
  cases present with
  | true => exact .ret hr
  | false =>
    show Safe _ (Prog.bind (if c.useLock = true then _ else _) _) _ _
    rw [if_neg (by rw [hlock]; exact Bool.false_ne_true)]
    refine (runSteps_owned hhonest hr).bind fun result r hr => ?_
    cases result with
    | error e => exact .ret hr
    | ok u => exact .ret hr

theorem run_owned (hhonest : honest → Honest allowed) {c : Client} (h : c.Agrees L) :
    Safe (buildOwned allowed L honest t) (c.run : BuildProg allowed L _) (fun _ r => r = none)
      none := by
  obtain ⟨make, outerLock⟩ := c
  cases outerLock with
  | none => exact autotoolsMake_owned hhonest h.1 h.2
  | some key =>
    exact externalBuildLock_owned h.2 fun r hr => autotoolsMake_owned_within hhonest h.1 hr

theorem worker_owned (hhonest : honest → Honest allowed) :
    Safe (buildOwned allowed L honest t) (worker : BuildProg allowed L Unit) (fun _ _ => True)
      none := by
  refine Safe.iter (fun _ r => r = none) rfl fun _ r hr => ?_
  refine .act trivial fun (c : Call L) r' hr' => ?_
  have hnone : r' = none := Eq.trans hr' hr
  rw [hnone]
  exact (run_owned hhonest c.2).bind fun _ r₁ h₁ => .ret h₁

end Programs

/-! ## All interleavings -/

section Builds

variable {Tid : Type} {allowed : Allowed Tid} {L : Locks}

/-- What was done in the tree `dir`, as attempts. -/
structure Attempts (L : Locks) (s : LockState (trees allowed)) (dir : Txt)
    (as : List (Attempt Tid)) : Prop where
  log : (s.behind (L.of dir)).log dir = as.flatMap Attempt.entries
  own : ∀ a ∈ as, a.call.absBuild = dir
  ended : ∀ a ∈ as.dropLast, Ended a.call.steps a.marks
  last : ∀ a ∈ as.getLast?, Ended a.call.steps a.marks ∨
    s.holder (L.of dir) = some a.worker ∧ Underway a.call.steps a.marks

theorem attempts_of_orderly {honest : Prop} {s : LockState (trees allowed)} (dir : Txt)
    (h : Orderly honest (s.holder (L.of dir)) (s.behind (L.of dir))) :
    ∃ as, Attempts L s dir as ∧ (honest → as.Pairwise Attempt.Settles) := by
  obtain ⟨as, last, hsplit, hlast⟩ := h dir
  refine ⟨as ++ last.toList, ⟨hsplit.log, hsplit.own, ?_, ?_⟩, hsplit.settled⟩
  · intro a ha
    cases last with
    | none =>
      rw [Option.toList_none, List.append_nil] at ha
      exact hsplit.ended a (List.mem_of_mem_dropLast ha)
    | some b =>
      rw [Option.toList_some, List.dropLast_concat] at ha
      exact hsplit.ended a ha
  · intro a ha
    cases last with
    | none =>
      rw [Option.toList_none, List.append_nil] at ha
      exact Or.inl (hsplit.ended a (List.mem_of_getLast? ha))
    | some b =>
      rw [Option.toList_some, List.getLast?_concat] at ha
      cases ha
      exact Or.inr (hlast _ rfl)

variable [DecidableEq Tid] {files : Txt → List Txt} {c : (builds allowed L).Config}

theorem orderly_reachable {honest : Prop} (hhonest : honest → Honest allowed)
    (h : System.Reachable (buildsStart allowed L files) c) (k : Txt) :
    Orderly honest (c.st.holder k) (c.st.behind k) := by
  have hthr : ∀ t, Safe (buildOwned allowed L honest t) ((buildsStart allowed L files).thr t)
      (fun _ _ => True) none := fun t => worker_owned hhonest
  refine locked_reachable Orderly.enter (fun _ => rfl) (fun k dir => ?_) hthr h k
  refine ⟨[], none, ⟨rfl, ?_, ?_, fun _ => List.Pairwise.nil, ?_⟩, ?_⟩
  · exact fun a ha => (List.not_mem_nil ha).elim
  · exact fun a ha => (List.not_mem_nil ha).elim
  · exact fun _ a ha => (List.not_mem_nil ha).elim
  · exact fun a ha => by cases ha

/-- Two workers are never in one tree: what the steps do there is one attempt after the other. -/
theorem steps_never_mix (h : System.Reachable (buildsStart allowed L files) c) (dir : Txt) :
    ∃ as, Attempts L c.st dir as := by
  have horderly : Orderly False (c.st.holder (L.of dir)) (c.st.behind (L.of dir)) :=
    orderly_reachable (fun h => h.elim) h (L.of dir)
  obtain ⟨as, has, -⟩ := attempts_of_orderly dir horderly
  exact ⟨as, has⟩

/-- Once all steps of a call are done, its tree is not built again for the same sentinel. -/
theorem built_once (hhonest : Honest allowed) (h : System.Reachable (buildsStart allowed L files) c)
    (dir : Txt) : ∃ as, Attempts L c.st dir as ∧ as.Pairwise Attempt.Settles := by
  have horderly : Orderly True (c.st.holder (L.of dir)) (c.st.behind (L.of dir)) :=
    orderly_reachable (fun _ => hhonest) h (L.of dir)
  obtain ⟨as, has, hsettled⟩ := attempts_of_orderly dir horderly
  exact ⟨as, has, hsettled trivial⟩

end Builds

/-! ## Two workers -/

/-- Steps that do what they are for, decided. -/
def sound {Tid : Type} : Allowed Tid := fun o ch x =>
  match o with
  | .probe _ => !ch.failed
  | .begin _ _ => true
  | .finish c s => decide (x.files ⊆ ch.files) &&
    (ch.failed || decide (c.steps.getLast? ≠ some s) ||
      c.sentinelPath.all fun path => decide (path ∈ ch.files))

theorem sound_honest {Tid : Type} : Honest (sound : Allowed Tid) where
  probe path ch x h := by
    have h' : (!ch.failed) = true := h
    rwa [Bool.not_eq_true'] at h'
  keeps c s ch x h path hpath := by
    rw [sound, Bool.and_eq_true] at h
    exact of_decide_eq_true h.1 hpath
  leaves c s ch x h hfailed hlast path hpath := by
    rw [sound, Bool.and_eq_true, hfailed, decide_eq_false (not_not.mpr hlast)] at h
    rw [Option.mem_def.mp hpath] at h
    exact of_decide_eq_true h.2

def oneLock : Locks := ⟨id, id⟩

def oneCall : Call oneLock :=
  ⟨⟨{ absBuild := "/b".toList, absSource := "/s".toList, sentinel := some "m".toList }, none⟩, rfl,
    rfl⟩

/-- Turns of one worker, after each of which the files are these. -/
def turns (t : Nat) (n : Nat) (files : List Txt) :
    List (builds (sound : Allowed Nat) oneLock).Event :=
  List.replicate n (.run t ⟨false, 0, oneCall, ⟨false, files⟩⟩)

/-- One worker builds while another one waits, and then the other one finds the sentinel. -/
def twoWorkers : List (builds (sound : Allowed Nat) oneLock).Event :=
  turns 0 8 [] ++ turns 1 8 [] ++ turns 0 6 ["/b/m".toList] ++ turns 1 4 ["/b/m".toList]

theorem twoWorkers_run :
    (System.run (buildsStart sound oneLock fun _ => []) twoWorkers).isSome = true := by
  decide +kernel

theorem steps_never_mix_two :
    ∃ c, System.run (buildsStart sound oneLock fun _ => []) twoWorkers = some c ∧
    ∃ as, Attempts oneLock c.st "/b".toList as := by
  obtain ⟨c, hc⟩ := Option.isSome_iff_exists.mp twoWorkers_run
  exact ⟨c, hc, steps_never_mix ⟨_, hc⟩ _⟩

theorem built_once_two :
    ∃ c, System.run (buildsStart sound oneLock fun _ => []) twoWorkers = some c ∧
    ∃ as, Attempts oneLock c.st "/b".toList as ∧ as.Pairwise Attempt.Settles := by
  obtain ⟨c, hc⟩ := Option.isSome_iff_exists.mp twoWorkers_run
  exact ⟨c, hc, built_once sound_honest ⟨_, hc⟩ _⟩

end Autotools
end Builder
end RocmTests

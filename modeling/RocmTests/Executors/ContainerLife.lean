import Mathlib.Logic.Function.Basic
import RocmTests.Executors.Container
import RocmTests.Shell.Strict

/-!
# The containers that stay

`start` makes a container that stays, `run` works in it and `stop` removes it.  A `Host` has seen
the commands of any number of processes, each with any number of executors, and it may answer each
of them in any way: the command may fail or raise, and docker may have done it all the same.

While an executor has a container it makes no other.  A name that no caller gave is given once, and
its container has one owner.  A container that nobody has is one whose `run -d` did not succeed or
whose `rm -f` was refused.
-/

namespace RocmTests
namespace Executors
namespace Container

open Text Shell

/-- What becomes of a command: `result.ok`, a result that is not, or an exception.  In the last two
docker may have done it. -/
inductive Answer where
  | ok
  | failed (done : Bool)
  | raised (done : Bool)
deriving DecidableEq

namespace Answer

/-- Whether docker did what was asked. -/
def done : Answer → Bool
  | ok => true
  | failed done => done
  | raised done => done

def isRaised : Answer → Bool
  | ok => false
  | failed _ => false
  | raised _ => true

end Answer

/-- An executor, in the process with a number. -/
abbrev Owner (Ex : Type) := Nat × Ex

structure Entry (Ex : Type) where
  owner : Owner Ex
  command : HostCommand
  answer : Answer
deriving DecidableEq

/-- `_NAME_COUNTER` of each process, `_container` of each executor, and what the host was asked. -/
structure Host (Ex : Type) where
  counter : Nat → Nat
  container : Owner Ex → Option Txt
  log : List (Entry Ex)

/-- What a call comes to for its caller. -/
inductive Ending where
  | returned (name : Txt)
  | done (answer : Answer)
  | pullFailed
  | startFailed
  | hostRaised
deriving DecidableEq

def containerName (pid n : Nat) : Txt :=
  "rocmtest_".toList ++ (showNat pid ++ '_' :: showNat n)

/-- The name of a `start` is empty where the caller gives none. -/
inductive Call (Ex : Type) where
  | start (owner : Owner Ex) (name : Txt) (pulled started : Answer)
  | run (owner : Owner Ex) (command : Txt) (answer : Answer)
  | stop (owner : Owner Ex) (answer : Answer)

section

variable {Ex : Type}

namespace Host

def initial : Host Ex := ⟨fun _ => 1, fun _ => none, []⟩

def ask (s : Host Ex) (x : Owner Ex) (c : HostCommand) (a : Answer) : Host Ex :=
  { s with log := s.log ++ [⟨x, c, a⟩] }

/-- `name or f"rocmtest_{os.getpid()}_{next(_NAME_COUNTER)}"` -/
def chosen (s : Host Ex) (pid : Nat) (name : Txt) : Txt :=
  if name = [] then containerName pid (s.counter pid) else name

/-- The counter goes on where no name is given. -/
def counted (s : Host Ex) (pid : Nat) (name : Txt) : Host Ex :=
  { s with counter := Function.update s.counter pid <|
      if name = [] then s.counter pid + 1 else s.counter pid }

theorem counter_counted (s : Host Ex) (pid : Nat) (name : Txt) (p : Nat) :
    s.counter p ≤ (s.counted pid name).counter p := by
  show s.counter p ≤ Function.update s.counter pid _ p
  by_cases h : p = pid
  · rw [h, Function.update_self]
    split_ifs
    · exact Nat.le_succ _
    · exact Nat.le_refl _
  · rw [Function.update_of_ne h]

theorem lt_counted (s : Host Ex) (pid : Nat) : s.counter pid < (s.counted pid []).counter pid := by
  show s.counter pid < Function.update s.counter pid _ pid
  rw [Function.update_self, if_pos rfl]
  exact Nat.lt_succ_self _

variable [DecidableEq Ex]

def keep (s : Host Ex) (x : Owner Ex) (name : Option Txt) : Host Ex :=
  { s with container := Function.update s.container x name }

@[simp] theorem container_keep_self (s : Host Ex) (x : Owner Ex) (name : Option Txt) :
    (s.keep x name).container x = name := Function.update_self (β := fun _ => Option Txt) x name _

theorem container_keep_of_ne (s : Host Ex) {x y : Owner Ex} (h : y ≠ x) (name : Option Txt) :
    (s.keep x name).container y = s.container y :=
  Function.update_of_ne (β := fun _ => Option Txt) h name _

theorem keep_same {s : Host Ex} {x : Owner Ex} {name : Option Txt} (h : s.container x = name) :
    s.keep x name = s := by
  rw [← h]
  exact congrArg (fun c => { s with container := c }) (Function.update_eq_self x s.container)

def start (s : Host Ex) (x : Owner Ex) (name : Txt) (pulled started : Answer) :
    Ending × Host Ex :=
  match s.container x with
  | some name => (.returned name, s)
  | none =>
    let containerName := s.chosen x.1 name
    let s := (s.counted x.1 name).ask x .pull pulled
    match pulled with
    | .raised _ => (.hostRaised, s)
    | .failed _ => (.pullFailed, s)
    | .ok =>
      let s := s.ask x (.start containerName) started
      match started with
      | .raised _ => (.hostRaised, s)
      | .failed _ => (.startFailed, s)
      | .ok => (.returned containerName, s.keep x (some containerName))

def run (s : Host Ex) (x : Owner Ex) (command : Txt) (a : Answer) : Ending × Host Ex :=
  match s.container x with
  | some name => (.done a, s.ask x (.exec name command) a)
  | none => (.done a, s.ask x (.once command) a)

/-- The result of `rm -f` is not looked at. -/
def stop (s : Host Ex) (x : Owner Ex) (a : Answer) : Ending × Host Ex :=
  match s.container x with
  | none => (.done .ok, s)
  | some name =>
    match a with
    | .raised _ => (.hostRaised, s.ask x (.remove name) a)
    | _ => (.done .ok, (s.ask x (.remove name) a).keep x none)

def call (s : Host Ex) : Call Ex → Host Ex
  | .start x name pulled started => (s.start x name pulled started).2
  | .run x command a => (s.run x command a).2
  | .stop x a => (s.stop x a).2

def after (calls : List (Call Ex)) : Host Ex := calls.foldl call initial

end Host

/-! ## The life of a container -/

/-- What an executor may ask next, by the container it takes itself to have.  It has one from when
`run -d` succeeds until `rm -f` comes to any result. -/
def Entry.next (entry : Entry Ex) (live : Option Txt) : Option (Option Txt) :=
  match live, entry.command with
  | none, .pull => some none
  | none, .once _ => some none
  | none, .start name => some (if entry.answer = .ok then some name else none)
  | some name, .exec name' _ => if name' = name then some (some name) else none
  | some name, .remove name' =>
    if name' = name then some (if entry.answer.isRaised then some name else none) else none
  | _, _ => none

/-- What docker makes of the containers it has. -/
def Entry.changes (entry : Entry Ex) (present : List Txt) : List Txt :=
  match entry.command with
  | .start name => if entry.answer.done then name :: present else present
  | .remove name => if entry.answer.done then present.filter (· ≠ name) else present
  | _ => present

/-- A command that leaves a container to nobody. -/
def Entry.Strays (entry : Entry Ex) (name : Txt) : Prop :=
  entry.command = .start name ∧ entry.answer ≠ .ok ∨
    entry.command = .remove name ∧ entry.answer = .failed false

/-- A command that removes a container of an executor which does not learn of it. -/
def Entry.Robs (entry : Entry Ex) (x : Owner Ex) (name : Txt) : Prop :=
  entry.command = .remove name ∧ entry.answer.done = true ∧
    (entry.owner = x → entry.answer.isRaised = true)

/-- The containers that docker has after these entries. -/
def containers (log : List (Entry Ex)) : List Txt :=
  log.foldl (fun present entry => entry.changes present) []

/-- The container that a list of entries leaves, if each of them is one that was due. -/
def lives (live : Option Txt) (log : List (Entry Ex)) : Option (Option Txt) :=
  log.foldlM (fun live entry => entry.next live) live

/-- The names that `docker run -d` was asked for. -/
def startedNames (log : List (Entry Ex)) : List Txt :=
  log.filterMap fun entry => match entry.command with
    | .start name => some name
    | _ => none

theorem lives_append (live : Option Txt) (log log' : List (Entry Ex)) :
    lives live (log ++ log') = (lives live log).bind (lives · log') :=
  List.foldlM_append

theorem startedNames_append (log log' : List (Entry Ex)) :
    startedNames (log ++ log') = startedNames log ++ startedNames log' :=
  List.filterMap_append

theorem name?_of_mem_startedNames {log : List (Entry Ex)} {name : Txt}
    (h : name ∈ startedNames log) :
    ∃ entry ∈ log, name ∈ entry.command.name? := by
  obtain ⟨entry, hmem, hname⟩ := List.mem_filterMap.mp h
  refine ⟨entry, hmem, ?_⟩
  generalize hcommand : entry.command = c at hname ⊢
  cases c with
  | start => exact hname
  | pull => cases hname
  | exec => cases hname
  | once => cases hname
  | remove => cases hname

theorem containerName_inj {pid n pid' n' : Nat} (h : containerName pid n = containerName pid' n') :
    pid = pid' ∧ n = n' := by
  have hshow {m m' : Nat} (h : showNat m = showNat m') : m = m' := by
    have hparse := congrArg (Markers.parseDigits · 0 false) h
    simpa only [parseDigits_showNat, Option.some.injEq] using hparse
  have htake (m : Nat) (t : Txt) : (showNat m ++ '_' :: t).takeWhile Char.isDigit = showNat m := by
    rw [List.takeWhile_append_of_pos fun c => isDigit_of_mem_showNat]
    exact List.append_nil _
  have hrest : showNat pid ++ '_' :: showNat n = showNat pid' ++ '_' :: showNat n' :=
    List.append_cancel_left h
  have hpid : showNat pid = showNat pid' := by
    rw [← htake pid (showNat n), hrest, htake]
  rw [hpid] at hrest
  exact ⟨hshow hpid, hshow (List.cons.inj (List.append_cancel_left hrest)).2⟩

/-- A caller gave the executor this name. -/
def Given (calls : List (Call Ex)) (x : Owner Ex) (name : Txt) : Prop :=
  name ≠ [] ∧ ∃ pulled started, .start x name pulled started ∈ calls

theorem Given.append {calls : List (Call Ex)} {x : Owner Ex} {name : Txt} (h : Given calls x name)
    (c : Call Ex) : Given (calls ++ [c]) x name := by
  obtain ⟨hne, pulled, started, hmem⟩ := h
  exact ⟨hne, pulled, started, List.mem_append_left [c] hmem⟩

variable [DecidableEq Ex]

def entriesOf (x : Owner Ex) (log : List (Entry Ex)) : List (Entry Ex) :=
  log.filter fun entry => decide (entry.owner = x)

/-- Each executor's entries are those of one container after the other, the last of which is the one
it has.  Only a name that a caller gave is used twice, or by two.  Docker has the containers of the
executors, but for what a command left to nobody or took from one that did not learn of it. -/
structure Orderly (calls : List (Call Ex)) (s : Host Ex) : Prop where
  due : ∀ x, lives none (entriesOf x s.log) = some (s.container x)
  source : ∀ entry ∈ s.log, ∀ name ∈ entry.command.name?, Given calls entry.owner name ∨
    ∃ n, name = containerName entry.owner.1 n
  once : ∀ name, (∀ x, ¬ Given calls x name) → (startedNames s.log).count name ≤ 1
  owner : ∀ entry ∈ s.log, ∀ entry' ∈ s.log, ∀ name ∈ entry.command.name?,
    name ∈ entry'.command.name? → entry.owner = entry'.owner ∨
      Given calls entry.owner name ∨ Given calls entry'.owner name
  had : ∀ name ∈ containers s.log, (∃ x, s.container x = some name) ∨
    ∃ entry ∈ s.log, entry.Strays name
  there : ∀ x name, s.container x = some name → name ∈ containers s.log ∨
    ∃ entry ∈ s.log, entry.Robs x name

/-! ## What docker has -/

omit [DecidableEq Ex] in
theorem containers_append (log : List (Entry Ex)) (entry : Entry Ex) :
    containers (log ++ [entry]) = entry.changes (containers log) :=
  List.foldl_append

omit [DecidableEq Ex] in
theorem next_cases {entry : Entry Ex} {live live' : Option Txt} (h : entry.next live = some live') :
    (live' = live ∧ ∀ present, entry.changes present = present) ∨
      (∃ name, entry.command = .start name ∧ live = none ∧
        live' = if entry.answer = .ok then some name else none) ∨
      ∃ name, entry.command = .remove name ∧ live = some name ∧
        live' = if entry.answer.isRaised then some name else none := by
  obtain ⟨x, command, a⟩ := entry
  cases live with
  | none =>
    cases command with
    | pull => exact Or.inl ⟨(Option.some.inj h).symm, fun _ => rfl⟩
    | once => exact Or.inl ⟨(Option.some.inj h).symm, fun _ => rfl⟩
    | start name => exact Or.inr (Or.inl ⟨name, rfl, rfl, (Option.some.inj h).symm⟩)
    | exec => cases h
    | remove => cases h
  | some name =>
    cases command with
    | pull => cases h
    | once => cases h
    | start => cases h
    | exec name' =>
      obtain ⟨-, hlive⟩ := Option.ite_none_right_eq_some.mp h
      exact Or.inl ⟨(Option.some.inj hlive).symm, fun _ => rfl⟩
    | remove name' =>
      obtain ⟨rfl, hlive⟩ := Option.ite_none_right_eq_some.mp h
      exact Or.inr (Or.inr ⟨name', rfl, rfl, (Option.some.inj hlive).symm⟩)

omit [DecidableEq Ex] in
theorem mem_changes_start {entry : Entry Ex} {given name : Txt} {present : List Txt}
    (h : entry.command = .start given) : name ∈ entry.changes present ↔
      name ∈ present ∨ entry.answer.done = true ∧ name = given := by
  rw [Entry.changes, h]
  dsimp only
  split_ifs with hdone
  · rw [List.mem_cons, or_comm]
    exact or_congr_right (and_iff_right hdone).symm
  · exact (or_iff_left fun hname => hdone hname.1).symm

omit [DecidableEq Ex] in
theorem mem_changes_remove {entry : Entry Ex} {given name : Txt} {present : List Txt}
    (h : entry.command = .remove given) : name ∈ entry.changes present ↔
      name ∈ present ∧ (entry.answer.done = true → name ≠ given) := by
  rw [Entry.changes, h]
  dsimp only
  split_ifs with hdone
  · rw [List.mem_filter, decide_eq_true_iff]
    exact and_congr_right fun _ => ⟨fun hne _ => hne, fun hne => hne hdone⟩
  · exact (and_iff_left fun hname => absurd hname hdone).symm

/-- One entry less. -/
theorem due_concat {log : List (Entry Ex)} {entry : Entry Ex} {container : Owner Ex → Option Txt}
    (hdue : ∀ x, lives none (entriesOf x (log ++ [entry])) = some (container x)) :
    ∃ live, entry.next live = some (container entry.owner) ∧
      ∀ x, lives none (entriesOf x log) = some (Function.update container entry.owner live x) := by
  have hown := hdue entry.owner
  have hone (live : Option Txt) : lives live [entry] = entry.next live := by
    rw [lives, List.foldlM_cons]
    exact bind_pure _
  rw [entriesOf, List.filter_append, List.filter_singleton, decide_eq_true rfl,
    lives_append] at hown
  obtain ⟨live, hlive, hnext⟩ := Option.bind_eq_some_iff.mp hown
  refine ⟨live, (hone live).symm.trans hnext, fun x => ?_⟩
  by_cases hx : x = entry.owner
  · rw [hx, Function.update_self (β := fun _ => Option Txt)]
    exact hlive
  · rw [Function.update_of_ne (β := fun _ => Option Txt) hx, ← hdue x, entriesOf, entriesOf,
      List.filter_append, List.filter_singleton, decide_eq_false (Ne.symm hx)]
    exact congrArg (lives none) (List.append_nil _).symm

section

variable {log : List (Entry Ex)} {entry : Entry Ex} {container : Owner Ex → Option Txt}
  {live : Option Txt} {name : Txt}

theorem had_concat (hnext : entry.next live = some (container entry.owner))
    (hbefore : name ∈ containers log → (∃ x, Function.update container entry.owner live x =
      some name) ∨ ∃ entry' ∈ log, entry'.Strays name)
    (hmem : name ∈ entry.changes (containers log)) :
    (∃ x, container x = some name) ∨ ∃ entry' ∈ log ++ [entry], entry'.Strays name := by
  have hlater (h : ∃ entry' ∈ log, entry'.Strays name) :
      ∃ entry' ∈ log ++ [entry], entry'.Strays name :=
    h.imp fun _ h => h.imp_left (List.mem_append_left [entry])
  have hlast (h : entry.Strays name) : ∃ entry' ∈ log ++ [entry], entry'.Strays name :=
    ⟨entry, List.mem_append_right log List.mem_cons_self, h⟩
  rcases next_cases hnext with ⟨hsame, hchanges⟩ | ⟨given, hstart, rfl, hown⟩ |
    ⟨given, hremove, rfl, hown⟩
  · rw [hchanges] at hmem
    rw [← hsame, Function.update_eq_self] at hbefore
    exact (hbefore hmem).imp_right hlater
  · rcases (mem_changes_start hstart).mp hmem with hmem | ⟨-, rfl⟩
    · rcases hbefore hmem with ⟨x, hx⟩ | hleft
      · by_cases hxe : x = entry.owner
        · rw [hxe, Function.update_self (β := fun _ => Option Txt)] at hx
          cases hx
        · rw [Function.update_of_ne (β := fun _ => Option Txt) hxe] at hx
          exact Or.inl ⟨x, hx⟩
      · exact Or.inr (hlater hleft)
    · by_cases hok : entry.answer = .ok
      · exact Or.inl ⟨entry.owner, hown.trans (if_pos hok)⟩
      · exact Or.inr (hlast (Or.inl ⟨hstart, hok⟩))
  · obtain ⟨hmem, hstays⟩ := (mem_changes_remove hremove).mp hmem
    rcases hbefore hmem with ⟨x, hx⟩ | hleft
    · by_cases hxe : x = entry.owner
      · rw [hxe, Function.update_self (β := fun _ => Option Txt)] at hx
        cases hx
        -- It was asked to remove the container, and it is there still.
        have hdone : entry.answer.done ≠ true := fun hdone => hstays hdone rfl
        cases hanswer : entry.answer with
        | ok => exact absurd (congrArg Answer.done hanswer) hdone
        | failed done =>
          rw [hanswer] at hdone
          obtain rfl := Bool.eq_false_iff.mpr hdone
          exact Or.inr (hlast (Or.inr ⟨hremove, hanswer⟩))
        | raised done =>
          rw [hanswer] at hown
          exact Or.inl ⟨entry.owner, hown⟩
      · rw [Function.update_of_ne (β := fun _ => Option Txt) hxe] at hx
        exact Or.inl ⟨x, hx⟩
    · exact Or.inr (hlater hleft)

theorem there_concat {x : Owner Ex} (hnext : entry.next live = some (container entry.owner))
    (hbefore : Function.update container entry.owner live x = some name →
      name ∈ containers log ∨ ∃ entry' ∈ log, entry'.Robs x name)
    (hx : container x = some name) : name ∈ entry.changes (containers log) ∨
      ∃ entry' ∈ log ++ [entry], entry'.Robs x name := by
  have hlater (h : ∃ entry' ∈ log, entry'.Robs x name) :
      ∃ entry' ∈ log ++ [entry], entry'.Robs x name :=
    h.imp fun _ h => h.imp_left (List.mem_append_left [entry])
  rcases next_cases hnext with ⟨hsame, hchanges⟩ | ⟨given, hstart, rfl, hown⟩ |
    ⟨given, hremove, rfl, hown⟩
  · rw [hchanges]
    rw [← hsame, Function.update_eq_self] at hbefore
    exact (hbefore hx).imp_right hlater
  · rw [mem_changes_start hstart]
    by_cases hxe : x = entry.owner
    · rw [hxe, hown] at hx
      obtain ⟨hok, hname⟩ := Option.ite_none_right_eq_some.mp hx
      exact Or.inl (Or.inr ⟨congrArg Answer.done hok, (Option.some.inj hname).symm⟩)
    · rw [Function.update_of_ne (β := fun _ => Option Txt) hxe] at hbefore
      exact (hbefore hx).imp Or.inl hlater
  · have hraised (hxe : entry.owner = x) : entry.answer.isRaised = true ∧ given = name := by
      rw [← hxe, hown] at hx
      exact (Option.ite_none_right_eq_some.mp hx).imp_right Option.some.inj
    have hlive : Function.update container entry.owner (some given) x = some name := by
      by_cases hxe : x = entry.owner
      · rw [hxe, Function.update_self (β := fun _ => Option Txt), (hraised hxe.symm).2]
      · rwa [Function.update_of_ne (β := fun _ => Option Txt) hxe]
    rcases hbefore hlive with hmem | hrobbed
    · rw [mem_changes_remove hremove]
      by_cases hgone : entry.answer.done = true ∧ name = given
      · obtain ⟨hdone, rfl⟩ := hgone
        exact Or.inr ⟨entry, List.mem_append_right log List.mem_cons_self, hremove, hdone,
          fun hxe => (hraised hxe).1⟩
      · exact Or.inl ⟨hmem, fun hdone hname => hgone ⟨hdone, hname⟩⟩
    · exact Or.inr (hlater hrobbed)

end

/-- A container that docker has is somebody's, or it was left. -/
theorem had_of_due (log : List (Entry Ex)) : ∀ container : Owner Ex → Option Txt,
    (∀ x, lives none (entriesOf x log) = some (container x)) → ∀ name ∈ containers log,
      (∃ x, container x = some name) ∨ ∃ entry ∈ log, entry.Strays name := by
  induction log using List.reverseRecOn with
  | nil => intro _ _ name h; cases h
  | append_singleton log entry ih =>
    intro container hdue name hmem
    obtain ⟨live, hnext, hbefore⟩ := due_concat hdue
    rw [containers_append] at hmem
    exact had_concat hnext (ih _ hbefore name) hmem

/-- A container that somebody has is there, or it was taken. -/
theorem there_of_due (log : List (Entry Ex)) : ∀ container : Owner Ex → Option Txt,
    (∀ x, lives none (entriesOf x log) = some (container x)) → ∀ x name,
      container x = some name → name ∈ containers log ∨ ∃ entry ∈ log, entry.Robs x name := by
  induction log using List.reverseRecOn with
  | nil =>
    intro container hdue x name hx
    rw [← Option.some.inj (hdue x)] at hx
    cases hx
  | append_singleton log entry ih =>
    intro container hdue x name hx
    obtain ⟨live, hnext, hbefore⟩ := due_concat hdue
    rw [containers_append]
    exact there_concat hnext (ih _ hbefore x name) hx

/-! ## One call -/

/-- What a call with this name can do: its executor asks for what is due, with the container it has
or with the name that is chosen. -/
structure Moved (x : Owner Ex) (given : Txt) (s s' : Host Ex) (es : List (Entry Ex)) : Prop where
  log : s'.log = s.log ++ es
  owner : ∀ entry ∈ es, entry.owner = x
  due : lives (s.container x) es = some (s'.container x)
  others : ∀ y, y ≠ x → s'.container y = s.container y
  counter : ∀ pid, s.counter pid ≤ s'.counter pid
  started : startedNames es = [] ∨ startedNames es = [s.chosen x.1 given]
  names : ∀ entry ∈ es, ∀ name ∈ entry.command.name?, s.container x = some name ∨
    name = s.chosen x.1 given ∧ (given = [] → s.counter x.1 < s'.counter x.1)
  named : ∀ name ∈ s'.container x, s.container x = some name ∨
    ∃ entry ∈ es, name ∈ entry.command.name?

omit [DecidableEq Ex] in
theorem moved_none (x : Owner Ex) (given : Txt) (s : Host Ex) : Moved x given s s [] where
  log := (List.append_nil _).symm
  owner _ h := by cases h
  due := rfl
  others _ _ := rfl
  counter _ := Nat.le_refl _
  started := .inl rfl
  names _ h := by cases h
  named _ h := .inl h

/-- One command, after which the executor has its container still or none. -/
theorem moved_one {x : Owner Ex} {s : Host Ex} {c : HostCommand} {a : Answer} {live : Option Txt}
    (given : Txt)
    (hdue : Entry.next ⟨x, c, a⟩ (s.container x) = some live)
    (hnames : ∀ name ∈ c.name?, s.container x = some name)
    (hstart : ∀ name, c ≠ .start name) (hlive : ∀ name ∈ live, s.container x = some name) :
    Moved x given s ((s.ask x c a).keep x live) [⟨x, c, a⟩] where
  log := rfl
  owner entry h := by rw [List.mem_singleton.mp h]
  due := by
    rw [Host.container_keep_self, lives, List.foldlM_cons, hdue]
    rfl
  others y hy := Host.container_keep_of_ne _ hy live
  counter _ := Nat.le_refl _
  started := by
    left
    cases c with
    | start name => exact absurd rfl (hstart name)
    | pull => rfl
    | exec => rfl
    | once => rfl
    | remove => rfl
  names entry h name hname := by
    rw [List.mem_singleton.mp h] at hname
    exact .inl (hnames name hname)
  named name h := by
    rw [Host.container_keep_self] at h
    exact .inl (hlive name h)

/-- A command in the container that the executor has, or without one. -/
theorem moved_asked {x : Owner Ex} {s : Host Ex} {c : HostCommand} {a : Answer} (given : Txt)
    (hdue : Entry.next ⟨x, c, a⟩ (s.container x) = some (s.container x))
    (hnames : ∀ name ∈ c.name?, s.container x = some name) (hstart : ∀ name, c ≠ .start name) :
    Moved x given s (s.ask x c a) [⟨x, c, a⟩] := by
  have hmoved := moved_one given hdue hnames hstart fun _ h => h
  have hkeep : (s.ask x c a).keep x (s.container x) = s.ask x c a := Host.keep_same rfl
  rwa [hkeep] at hmoved

theorem moved_run (s : Host Ex) (x : Owner Ex) (command : Txt) (a : Answer) :
    ∃ es, Moved x [] s (s.run x command a).2 es := by
  rw [Host.run]
  cases hlive : s.container x with
  | none =>
    refine ⟨_, moved_asked [] ?_ (fun _ h => by cases h) fun _ h => by cases h⟩
    rw [hlive]
    rfl
  | some name =>
    refine ⟨_, moved_asked [] ?_ (fun _ h => hlive.trans h) fun _ h => by cases h⟩
    rw [hlive]
    exact if_pos rfl

theorem moved_stop (s : Host Ex) (x : Owner Ex) (a : Answer) :
    ∃ es, Moved x [] s (s.stop x a).2 es := by
  rw [Host.stop]
  cases hlive : s.container x with
  | none => exact ⟨_, moved_none x [] s⟩
  | some name =>
    have hgone (ha : a.isRaised = false) :
        Entry.next ⟨x, .remove name, a⟩ (s.container x) = some none := by
      rw [hlive]
      exact (if_pos rfl).trans (congrArg some (if_neg (Bool.eq_false_iff.mp ha)))
    have hremoved (ha : a.isRaised = false) :
        Moved x [] s ((s.ask x (.remove name) a).keep x none) _ :=
      moved_one [] (hgone ha) (fun _ h => hlive.trans h) (fun _ h => by cases h)
        fun _ h => by cases h
    cases a with
    | ok => exact ⟨_, hremoved rfl⟩
    | failed => exact ⟨_, hremoved rfl⟩
    | raised =>
      refine ⟨_, moved_asked [] ?_ (fun _ h => hlive.trans h) fun _ h => by cases h⟩
      rw [hlive]
      exact if_pos rfl

omit [DecidableEq Ex] in
/-- The image is asked for, and the name is spent. -/
theorem moved_pull {s : Host Ex} {x : Owner Ex} (hnone : s.container x = none) (given : Txt)
    (pulled : Answer) :
    Moved x given s ((s.counted x.1 given).ask x .pull pulled) [⟨x, .pull, pulled⟩] where
  log := rfl
  owner entry h := by rw [List.mem_singleton.mp h]
  due := by
    rw [hnone]
    exact congrArg some hnone.symm
  others _ _ := rfl
  counter := s.counter_counted x.1 given
  started := .inl rfl
  names entry h name hname := by
    rw [List.mem_singleton.mp h] at hname
    cases hname
  named _ h := .inl h

theorem moved_started {s : Host Ex} {x : Owner Ex} (hnone : s.container x = none) (given : Txt)
    (started : Answer) :
    Moved x given s ((((s.counted x.1 given).ask x .pull .ok).ask x (.start (s.chosen x.1 given))
        started).keep x (if started = .ok then some (s.chosen x.1 given) else none))
      [⟨x, .pull, .ok⟩, ⟨x, .start (s.chosen x.1 given), started⟩] where
  log := List.append_assoc s.log _ _
  owner entry h := by
    rcases List.mem_pair.mp h with rfl | rfl
    · rfl
    · rfl
  due := by
    rw [Host.container_keep_self, hnone]
    rfl
  others y hy := Host.container_keep_of_ne _ hy _
  counter := s.counter_counted x.1 given
  started := .inr rfl
  names entry h name hname := by
    rcases List.mem_pair.mp h with rfl | rfl
    · cases hname
    · refine .inr ⟨(Option.some.inj hname).symm, ?_⟩
      rintro rfl
      exact s.lt_counted x.1
  named name h := by
    rw [Host.container_keep_self] at h
    exact .inr ⟨_, List.mem_cons_of_mem _ List.mem_cons_self,
      (Option.ite_none_right_eq_some.mp h).2⟩

theorem moved_start (s : Host Ex) (x : Owner Ex) (given : Txt) (pulled started : Answer) :
    ∃ es, Moved x given s (s.start x given pulled started).2 es := by
  rw [Host.start]
  cases hlive : s.container x with
  | some name => exact ⟨_, moved_none x given s⟩
  | none =>
    cases pulled with
    | raised => exact ⟨_, moved_pull hlive given _⟩
    | failed => exact ⟨_, moved_pull hlive given _⟩
    | ok =>
      have hmoved := moved_started hlive given started
      have hsame (a : Answer) : (((s.counted x.1 given).ask x .pull .ok).ask x
          (.start (s.chosen x.1 given)) a).keep x none =
          ((s.counted x.1 given).ask x .pull .ok).ask x (.start (s.chosen x.1 given)) a :=
        Host.keep_same hlive
      cases started with
      | ok => exact ⟨_, hmoved⟩
      | failed =>
        rw [if_neg (fun h => by cases h), hsame] at hmoved
        exact ⟨_, hmoved⟩
      | raised =>
        rw [if_neg (fun h => by cases h), hsame] at hmoved
        exact ⟨_, hmoved⟩

theorem moved_call (s : Host Ex) (c : Call Ex) : ∃ x given es, Moved x given s (s.call c) es ∧
    (given = [] ∨ ∃ pulled started, c = .start x given pulled started) := by
  cases c with
  | start x given pulled started =>
    obtain ⟨es, hmoved⟩ := moved_start s x given pulled started
    exact ⟨x, given, es, hmoved, .inr ⟨pulled, started, rfl⟩⟩
  | run x command a =>
    obtain ⟨es, hmoved⟩ := moved_run s x command a
    exact ⟨x, [], es, hmoved, .inl rfl⟩
  | stop x a =>
    obtain ⟨es, hmoved⟩ := moved_stop s x a
    exact ⟨x, [], es, hmoved, .inl rfl⟩

/-! ## All calls -/

/-- What holds after every call.  A name that no caller gave to its executor has been counted. -/
structure Kept (calls : List (Call Ex)) (s : Host Ex) : Prop where
  due : ∀ x, lives none (entriesOf x s.log) = some (s.container x)
  counted : ∀ entry ∈ s.log, ∀ name ∈ entry.command.name?, Given calls entry.owner name ∨
    ∃ n, name = containerName entry.owner.1 n ∧ n < s.counter entry.owner.1
  once : ∀ name, (∀ x, ¬ Given calls x name) → (startedNames s.log).count name ≤ 1
  owner : ∀ entry ∈ s.log, ∀ entry' ∈ s.log, ∀ name ∈ entry.command.name?,
    name ∈ entry'.command.name? → entry.owner = entry'.owner ∨
      Given calls entry.owner name ∨ Given calls entry'.owner name
  named : ∀ x, ∀ name ∈ s.container x, ∃ entry ∈ s.log, entry.owner = x ∧ name ∈ entry.command.name?

theorem kept_initial : Kept [] (Host.initial : Host Ex) where
  due _ := rfl
  counted _ h := by cases h
  once _ _ := Nat.zero_le 1
  owner _ h := by cases h
  named _ _ h := by cases h

section

variable {calls : List (Call Ex)} {s s' : Host Ex} {x : Owner Ex} {given : Txt}
  {es : List (Entry Ex)}

omit [DecidableEq Ex] in
theorem chosen_cases (s : Host Ex) (pid : Nat) (given : Txt) :
    given ≠ [] ∧ s.chosen pid given = given ∨
      given = [] ∧ s.chosen pid given = containerName pid (s.counter pid) := by
  by_cases h : given = []
  · exact Or.inr ⟨h, if_pos h⟩
  · exact Or.inl ⟨h, if_neg h⟩

/-- The next name of a process has not been asked for, unless a caller gave it. -/
theorem given_of_fresh (h : Kept calls s) {pid : Nat} {entry : Entry Ex} (hmem : entry ∈ s.log)
    (hname : containerName pid (s.counter pid) ∈ entry.command.name?) :
    Given calls entry.owner (containerName pid (s.counter pid)) := by
  rcases h.counted entry hmem _ hname with hgiven | ⟨n, hsame, hlt⟩
  · exact hgiven
  · obtain ⟨hpid, hn⟩ := containerName_inj hsame
    rw [← hpid, ← hn] at hlt
    exact absurd hlt (Nat.lt_irrefl _)

/-- A name that the call asks for is new, or it is that of the executor's own container, or
given. -/
theorem owner_of_named (h : Kept calls s) (hmoved : Moved x given s s' es) {entry : Entry Ex}
    (hmem : entry ∈ es) {name : Txt} (hname : name ∈ entry.command.name?) {entry' : Entry Ex}
    (hmem' : entry' ∈ s.log) (hname' : name ∈ entry'.command.name?) : entry'.owner = x ∨
      (given ≠ [] ∧ name = given) ∨ Given calls x name ∨ Given calls entry'.owner name := by
  rcases hmoved.names entry hmem name hname with hown | ⟨rfl, -⟩
  · obtain ⟨first, hfirst, rfl, hnamed⟩ := h.named x name hown
    rcases h.owner entry' hmem' first hfirst name hname' hnamed with hsame | hleft | hright
    · exact Or.inl hsame
    · exact Or.inr (Or.inr (Or.inr hleft))
    · exact Or.inr (Or.inr (Or.inl hright))
  · rcases chosen_cases s x.1 given with ⟨hne, hsame⟩ | ⟨-, hsame⟩
    · exact Or.inr (Or.inl ⟨hne, hsame⟩)
    · rw [hsame] at hname' ⊢
      exact Or.inr (Or.inr (Or.inr (given_of_fresh h hmem' hname')))

theorem due_moved (h : Kept calls s) (hmoved : Moved x given s s' es) (y : Owner Ex) :
    lives none (entriesOf y s'.log) = some (s'.container y) := by
  rw [hmoved.log, entriesOf, List.filter_append, lives_append]
  by_cases hy : y = x
  · have hall : es.filter (fun entry => decide (entry.owner = y)) = es :=
      List.filter_eq_self.mpr fun entry he => decide_eq_true ((hmoved.owner entry he).trans hy.symm)
    rw [hall, ← entriesOf, h.due, hy]
    exact hmoved.due
  · have hnone : es.filter (fun entry => decide (entry.owner = y)) = [] :=
      List.filter_eq_nil_iff.mpr fun entry he => by
        rw [hmoved.owner entry he]
        exact fun heq => hy (of_decide_eq_true heq).symm
    rw [hnone, ← entriesOf, h.due, hmoved.others y hy]
    rfl

theorem named_moved (h : Kept calls s) (hmoved : Moved x given s s' es) (y : Owner Ex) :
    ∀ name ∈ s'.container y, ∃ entry ∈ s'.log, entry.owner = y ∧ name ∈ entry.command.name? := by
  have hbefore (name : Txt) (hname : name ∈ s.container y) :
      ∃ entry ∈ s'.log, entry.owner = y ∧ name ∈ entry.command.name? := by
    obtain ⟨entry, hmem, hy, hnamed⟩ := h.named y name hname
    exact ⟨entry, hmoved.log ▸ List.mem_append_left es hmem, hy, hnamed⟩
  intro name hname
  by_cases hy : y = x
  · rw [hy] at hname
    rcases hmoved.named name hname with hown | ⟨entry, hmem, hnamed⟩
    · exact hbefore name (hy ▸ hown)
    · exact ⟨entry, hmoved.log ▸ List.mem_append_right s.log hmem,
        (hmoved.owner entry hmem).trans hy.symm, hnamed⟩
  · exact hbefore name (hmoved.others y hy ▸ hname)

section

variable {c : Call Ex} (h : Kept calls s) (hmoved : Moved x given s s' es)
  (hcall : given = [] ∨ ∃ pulled started, c = .start x given pulled started)

omit [DecidableEq Ex] in
include hcall in
/-- The name of this call is given now. -/
theorem given_last (hne : given ≠ []) : Given (calls ++ [c]) x given := by
  obtain ⟨pulled, started, rfl⟩ := hcall.resolve_left hne
  exact ⟨hne, pulled, started, List.mem_append_right calls List.mem_cons_self⟩

include h hmoved hcall

theorem once_moved (name : Txt) (hnot : ∀ y, ¬ Given (calls ++ [c]) y name) :
    (startedNames s'.log).count name ≤ 1 := by
  have hbefore (y : Owner Ex) : ¬ Given calls y name := fun hgiven => hnot y (hgiven.append c)
  rw [hmoved.log, startedNames_append]
  rcases hmoved.started with hnone | hone
  · rw [hnone, List.append_nil]
    exact h.once name hbefore
  · rw [hone, List.count_append]
    by_cases hname : s.chosen x.1 given = name
    · rcases chosen_cases s x.1 given with ⟨hne, hsame⟩ | ⟨-, hsame⟩
      · rw [← hname, hsame] at hnot
        exact absurd (given_last hcall hne) (hnot x)
      · have hzero : (startedNames s.log).count name = 0 := by
          refine List.count_eq_zero.mpr fun hmem => ?_
          obtain ⟨entry, hentry, hnamed⟩ := name?_of_mem_startedNames hmem
          rw [← hname, hsame] at hnamed hbefore
          exact hbefore _ (given_of_fresh h hentry hnamed)
        rw [hzero, Nat.zero_add]
        exact List.count_le_length
    · have hzero : [s.chosen x.1 given].count name = 0 :=
        List.count_eq_zero.mpr fun hmem => hname (List.mem_singleton.mp hmem).symm
      rw [hzero]
      exact h.once name hbefore

theorem owner_moved : ∀ entry ∈ s'.log, ∀ entry' ∈ s'.log, ∀ name ∈ entry.command.name?,
    name ∈ entry'.command.name? → entry.owner = entry'.owner ∨
      Given (calls ++ [c]) entry.owner name ∨ Given (calls ++ [c]) entry'.owner name := by
  have hnamed (new : Entry Ex) (hnew : new ∈ es) (old : Entry Ex) (hold : old ∈ s.log)
      (name : Txt) (hname : name ∈ new.command.name?) (hname' : name ∈ old.command.name?) :
      old.owner = x ∨ Given (calls ++ [c]) x name ∨ Given (calls ++ [c]) old.owner name := by
    rcases owner_of_named h hmoved hnew hname hold hname' with hsame | ⟨hne, rfl⟩ | hown | hother
    · exact Or.inl hsame
    · exact Or.inr (Or.inl (given_last hcall hne))
    · exact Or.inr (Or.inl (hown.append c))
    · exact Or.inr (Or.inr (hother.append c))
  intro entry hmem entry' hmem' name hname hname'
  rw [hmoved.log] at hmem hmem'
  rcases List.mem_append.mp hmem with hold | hnew
  · rcases List.mem_append.mp hmem' with hold' | hnew'
    · exact (h.owner entry hold entry' hold' name hname hname').imp_right
        (Or.imp (Given.append · c) (Given.append · c))
    · rw [hmoved.owner entry' hnew']
      exact (hnamed entry' hnew' entry hold name hname' hname).imp_right Or.symm
  · rw [hmoved.owner entry hnew]
    rcases List.mem_append.mp hmem' with hold' | hnew'
    · exact (hnamed entry hnew entry' hold' name hname hname').imp_left Eq.symm
    · exact Or.inl (hmoved.owner entry' hnew').symm

theorem counted_moved : ∀ entry ∈ s'.log, ∀ name ∈ entry.command.name?,
    Given (calls ++ [c]) entry.owner name ∨
      ∃ n, name = containerName entry.owner.1 n ∧ n < s'.counter entry.owner.1 := by
  have hlater (entry : Entry Ex) (hmem : entry ∈ s.log) (name : Txt)
      (hname : name ∈ entry.command.name?) : Given (calls ++ [c]) entry.owner name ∨
        ∃ n, name = containerName entry.owner.1 n ∧ n < s'.counter entry.owner.1 := by
    refine (h.counted entry hmem name hname).imp (Given.append · c) ?_
    rintro ⟨n, hsame, hlt⟩
    exact ⟨n, hsame, Nat.lt_of_lt_of_le hlt (hmoved.counter _)⟩
  intro entry hmem name hname
  rw [hmoved.log] at hmem
  rcases List.mem_append.mp hmem with hold | hnew
  · exact hlater entry hold name hname
  · have hx := hmoved.owner entry hnew
    rcases hmoved.names entry hnew name hname with hown | ⟨rfl, hlt⟩
    · obtain ⟨first, hfirst, hfx, hnamed⟩ := h.named x name hown
      rw [hx, ← hfx]
      exact hlater first hfirst name hnamed
    · rw [hx]
      rcases chosen_cases s x.1 given with ⟨hne, hsame⟩ | ⟨hnil, hsame⟩
      · rw [hsame]
        exact Or.inl (given_last hcall hne)
      · exact Or.inr ⟨s.counter x.1, hsame, hlt hnil⟩

theorem kept_moved : Kept (calls ++ [c]) s' where
  due := due_moved h hmoved
  counted := counted_moved h hmoved hcall
  once := once_moved h hmoved hcall
  owner := owner_moved h hmoved hcall
  named := named_moved h hmoved

end

end

theorem kept_after (calls : List (Call Ex)) : Kept calls (Host.after calls) := by
  induction calls using List.reverseRecOn with
  | nil => exact kept_initial
  | append_singleton calls c ih =>
    obtain ⟨x, given, es, hmoved, hcall⟩ := moved_call (Host.after calls) c
    rw [Host.after, List.foldl_append]
    exact kept_moved ih hmoved hcall

/-- Whatever the host answers.  Where no two executors are given the same name, or one that looks
like a counted name, each container has one owner. -/
theorem orderly_after (calls : List (Call Ex)) : Orderly calls (Host.after calls) where
  due := (kept_after calls).due
  source entry hmem name hname := by
    refine ((kept_after calls).counted entry hmem name hname).imp_right ?_
    rintro ⟨n, hsame, -⟩
    exact ⟨n, hsame⟩
  once := (kept_after calls).once
  owner := (kept_after calls).owner
  had := had_of_due _ _ (kept_after calls).due
  there := there_of_due _ _ (kept_after calls).due

theorem unspecial_containerName (pid n : Nat) : Unspecial (containerName pid n) := by
  have hnat (n : Nat) : ∀ c ∈ showNat n, c ∉ special :=
    fun c hc => not_mem_special_of_isSafe (isSafe_showInt n c hc)
  refine (unspecial_of_all (List.cons_ne_nil _ _) (by decide)).append (forall_append (hnat pid) ?_)
  exact forall_cons (by decide) (hnat n)

section

variable {kept : Txt → Prop} {M : Machine} {W : World} {linux : Bool}

/-- What was asked, but for the images, is what the host ran: the container runtime with the words
and with the command as it was given. -/
theorem log_runs (hbash : Bash kept M W) (executor : Owner Ex → ContainerExecutor)
    (extra : Owner Ex → List Txt) (hprogram : ∀ x, Program M (executor x).runtime)
    (hwritable : ∀ x, Writable (executor x) (extra x)) (calls : List (Call Ex))
    (hgiven : ∀ x name, Given calls x name → Unspecial name) (s : State) :
    ∀ entry ∈ (Host.after calls).log, entry.command ≠ .pull →
      (M.run W s (entry.command.text (executor entry.owner) linux)).ran.map Executed.command =
        [launched s (entry.command.words (executor entry.owner) linux (extra entry.owner) ++
          entry.command.quoted)] := by
  intro entry hmem hpull
  refine runs_runtime hbash (hprogram _) (hwritable _) hpull fun name hname => ?_
  rcases (kept_after calls).counted entry hmem name hname with hname | ⟨n, rfl, -⟩
  · exact hgiven _ name hname
  · exact unspecial_containerName _ n

end

end

/-- A container with a given name that works twice and is removed, one without a name, and flags of
the caller's. -/
theorem log_runs_quoted :
    let calls : List (Call Unit) := [.start (7, ()) "criu".toList .ok .ok,
      .run (7, ()) "echo \"$HOME\"; rocminfo | grep 'gfx'".toList (.failed true),
      .stop (7, ()) .ok, .start (7, ()) [] .ok (.failed false)]
    let e : ContainerExecutor :=
      { image := "rocm/pytorch:latest".toList, gpuIndices := [2, 3],
        extraRunFlags := "--shm-size=8g --cap-add=SYS_PTRACE".toList }
    ∀ entry ∈ (Host.after calls).log, entry.command ≠ .pull →
      (posix.run .strict (fresh (fun _ => none) []) (entry.command.text e true)).ran.map
        Executed.command = [launched (fresh (fun _ => none) []) (entry.command.words e true
          ["--shm-size=8g".toList, "--cap-add=SYS_PTRACE".toList] ++ entry.command.quoted)] := by
  intro calls e
  have hdocker : Program posix "docker".toList := ⟨by decide, by decide⟩
  have hwritable : Writable e ["--shm-size=8g".toList, "--cap-add=SYS_PTRACE".toList] :=
    { runtime := unspecial_of_all (List.cons_ne_nil _ _) (by decide)
      name := by decide
      image := unspecial_of_all (List.cons_ne_nil _ _) (by decide)
      ipc := fun _ h => by cases h
      flags := Unspecial.all (by decide)
      joined := rfl }
  have hgiven (x : Owner Unit) (name : Txt) (h : Given calls x name) : Unspecial name := by
    obtain ⟨hne, pulled, started, hmem⟩ := h
    rcases List.mem_cons.mp hmem with heq | hmem
    · cases heq
      exact unspecial_of_all (List.cons_ne_nil _ _) (by decide)
    · rcases List.mem_cons.mp hmem with heq | hmem
      · cases heq
      · rcases List.mem_pair.mp hmem with heq | heq
        · cases heq
        · cases heq
          exact absurd rfl hne
  exact log_runs (bash_strict fun _ => False) (fun _ => e)
    (fun _ => ["--shm-size=8g".toList, "--cap-add=SYS_PTRACE".toList]) (fun _ => hdocker)
    (fun _ => hwritable) calls hgiven _

end Container
end Executors
end RocmTests

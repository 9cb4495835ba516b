import RocmTests.Conc.Locked
import RocmTests.Conc.Raise
import RocmTests.Shell.Quote
import RocmTests.Text.Numeral

/-!
# Trees that several workers build

`autotools_make` configures, compiles and installs a tree, unless its sentinel is there.  Any number
of workers call it for the same trees.  `external_build_lock` lets one of them at a time pass, and
whoever passes looks for the sentinel again; the first look needs no lock.

What a step does to the files is open.  The marks that the steps leave in the log of a tree are what
the order of the steps can be read from.
-/

namespace RocmTests
namespace Builder
namespace Autotools

open Conc Text Shell

/-- The path of the build directory and of the sources are absolute, as `_abspath_for` makes
them. -/
structure MakeCall where
  absBuild : Txt
  absSource : Txt
  configureScript : Txt := "./configure".toList
  configureArgs : List Txt := []
  bootstrapScript : Option Txt := none
  envPrefix : Txt := []
  makeInstall : Bool := true
  makeArgs : List Txt := []
  jobs : Nat := 1
  sentinel : Option Txt := none
  remote : Bool := false
  useLock : Bool := true
  timeout : ℚ := 7200
deriving DecidableEq

structure Step where
  label : Txt
  cmd : Txt
deriving DecidableEq

namespace MakeCall

variable (c : MakeCall)

def envKw : Txt := if c.envPrefix = [] then [] else "env ".toList ++ c.envPrefix ++ [' ']

def cd (dir : Txt) : Txt := "cd ".toList ++ quote dir ++ " && ".toList

def jobsOption : Txt := "-j".toList ++ showNat c.jobs

def configureCmd : Txt :=
  "mkdir -p ".toList ++ quote c.absBuild ++ " && ".toList ++ cd c.absBuild ++ c.envKw ++
    c.configureScript ++ ' ' :: [' '].intercalate c.configureArgs

def buildCmd : Txt :=
  cd c.absBuild ++ c.envKw ++ "make ".toList ++ c.jobsOption ++ ' ' :: [' '].intercalate c.makeArgs

def installCmd : Txt :=
  cd c.absBuild ++ c.envKw ++ "make ".toList ++ c.jobsOption ++ " install".toList

def wrapped (cmd : Txt) : Txt :=
  if c.remote then "bash -c \"".toList ++ cmd ++ ['"'] else cmd

def step (label cmd : Txt) : Step := ⟨label, c.wrapped cmd⟩

/-- `steps`, each with the text that is run. -/
def steps : List Step :=
  (c.bootstrapScript.toList.map fun script =>
      c.step "bootstrap".toList (cd c.absSource ++ c.envKw ++ script)) ++
    [c.step "configure".toList c.configureCmd, c.step "compile".toList c.buildCmd] ++
    if c.makeInstall then [c.step "install".toList c.installCmd] else []

def sentinelPath : Option Txt := c.sentinel.map fun name => c.absBuild ++ '/' :: name

end MakeCall

/-! ## The trees -/

inductive Mark where
  | begun (s : Step)
  | ended (s : Step) (ok : Bool)
deriving DecidableEq

/-- The files that sentinels may be, and what the steps in each build directory were. -/
structure Trees (Tid : Type) where
  files : List Txt
  log : Txt → List (Tid × Mark)

inductive TreeOp where
  | probe (path : Txt)
  | begin (c : MakeCall) (s : Step)
  | finish (c : MakeCall) (s : Step)

def TreeOp.Resp : TreeOp → Type
  | .probe _ => Bool
  | .begin _ _ => Unit
  | .finish _ _ => Bool

/-- How a test or a step ends, and the files after a step. -/
structure TreeChoice where
  failed : Bool
  files : List Txt

namespace Trees

variable {Tid : Type}

def mark (x : Trees Tid) (t : Tid) (dir : Txt) (m : Mark) : Trees Tid :=
  { x with log := Function.update x.log dir (x.log dir ++ [(t, m)]) }

def probe (path : Txt) (ch : TreeChoice) (x : Trees Tid) : Bool :=
  decide (path ∈ x.files) && !ch.failed

def perform (t : Tid) : (o : TreeOp) → TreeChoice → Trees Tid → o.Resp × Trees Tid
  | .probe path, ch, x => (x.probe path ch, x)
  | .begin c s, _, x => ((), x.mark t c.absBuild (.begun s))
  | .finish c s, ch, x =>
    (!ch.failed, { x with files := ch.files }.mark t c.absBuild (.ended s !ch.failed))

end Trees

/-- What can be relied on of a step: nothing, or more. -/
abbrev Allowed (Tid : Type) := TreeOp → TreeChoice → Trees Tid → Bool

/-- The trees behind the lock files, each of which is named by a digest. -/
def trees {Tid : Type} (allowed : Allowed Tid) : Resource Tid where
  Key := Txt
  State := Trees Tid
  Op := TreeOp
  Resp := TreeOp.Resp
  Look := Txt
  Seen := fun _ => Bool
  Choice := TreeChoice
  look := Trees.probe
  exec t o ch x := if allowed o ch x then some (Trees.perform t o ch x) else none

/-! ## The calls -/

inductive BuildError where
  | timedOut (buildDir : Txt)
  | os
  | step (label : Txt)

/-- The lock file of a key, and the one under which a tree is built. -/
structure Locks where
  digest : Txt → Txt
  of : Txt → Txt

/-- A call that takes the lock itself, or a section of the caller around one that does not. -/
structure Client where
  make : MakeCall
  outerLock : Option Txt

/-- The one thing that callers agree on: the lock of a tree. -/
def Client.Agrees (L : Locks) (c : Client) : Prop :=
  match c.outerLock with
  | none => c.make.useLock = true ∧ L.digest c.make.absBuild = L.of c.make.absBuild
  | some key => c.make.useLock = false ∧ L.digest key = L.of c.make.absBuild

abbrev Call (L : Locks) := { c : Client // c.Agrees L }

section Programs

variable {Tid : Type} (allowed : Allowed Tid) (L : Locks)

abbrev BuildProg (α : Type) : Type 1 := Prog (LockOp (trees allowed) (Call L)) LockOp.Resp α

variable {allowed L}

/-- One turn of the loop that waits for the lock. -/
def lockTurn (buildDir : Txt) (deadline : ℚ) :
    BuildProg allowed L (Unit ⊕ Except BuildError Unit) :=
  .act (.take (L.digest buildDir)) fun a : Taken =>
    match a with
    | .taken => .ret (.inr (.ok ()))
    | .failed => .ret (.inr (.error .os))
    | .busy => .act .clock fun now : ℚ =>
      if deadline ≤ now then .ret (.inr (.error (.timedOut buildDir)))
      else .act (.sleep 5) fun _ => .ret (.inl ())

/-- `external_build_lock` around a body. -/
def externalBuildLock {α : Type} (buildDir : Txt) (timeout : ℚ)
    (body : BuildProg allowed L (Except BuildError α)) : BuildProg allowed L
      (Except BuildError α) :=
  .act .clock fun start : ℚ =>
    (Prog.iter (fun _ : Unit => lockTurn buildDir (start + timeout)) ()).thenE fun _ =>
      body.bind fun result => .act (.drop (L.digest buildDir)) fun _ => .ret result

/-- The look that needs no lock. -/
def sentinelPresent (c : MakeCall) : BuildProg allowed L Bool :=
  match c.sentinelPath with
  | none => .ret false
  | some path => .act (.look (L.of c.absBuild) path) fun present : Bool => .ret present

/-- The look under the lock. -/
def sentinelPresentAgain (c : MakeCall) : BuildProg allowed L Bool :=
  match c.sentinelPath with
  | none => .ret false
  | some path => .act (.use (L.of c.absBuild) (.probe path)) fun present : Bool => .ret present

def runStreamStep (c : MakeCall) (s : Step) : BuildProg allowed L (Except BuildError Unit) :=
  .act (.use (L.of c.absBuild) (.begin c s)) fun _ =>
    .act (.use (L.of c.absBuild) (.finish c s)) fun ok : Bool =>
      .ret (if ok then .ok () else .error (.step s.label))

def runSteps (c : MakeCall) : BuildProg allowed L (Except BuildError Unit) :=
  (sentinelPresentAgain c).bind fun present =>
    if present then .ret (.ok ()) else Prog.eachE (runStreamStep c) c.steps

def autotoolsMake (c : MakeCall) : BuildProg allowed L (Except BuildError Txt) :=
  (sentinelPresent c).bind fun present =>
    if present then .ret (.ok c.absBuild)
    else
      (if c.useLock then externalBuildLock c.absBuild c.timeout (runSteps c) else runSteps c).thenE
        fun _ => .ret (.ok c.absBuild)

def Client.run (c : Client) : BuildProg allowed L (Except BuildError Txt) :=
  match c.outerLock with
  | none => autotoolsMake c.make
  | some key => externalBuildLock key c.make.timeout (autotoolsMake c.make)

/-- A worker makes one call after the other. -/
def worker : BuildProg allowed L Unit :=
  Prog.iter (fun _ : Unit => .act .next fun c : Call L =>
    c.1.run.bind fun _ => .ret (.inl ())) ()

end Programs

variable {Tid : Type} [DecidableEq Tid]

abbrev builds (allowed : Allowed Tid) (L : Locks) : System := locked (trees allowed) (Call L)

/-- No lock is held and no tree was touched; what files there are is open. -/
def buildsStart (allowed : Allowed Tid) (L : Locks) (files : Txt → List Txt) :
    (builds allowed L).Config :=
  ⟨⟨fun _ => none, fun k => ⟨files k, fun _ => []⟩⟩, fun _ => worker⟩

end Autotools
end Builder
end RocmTests

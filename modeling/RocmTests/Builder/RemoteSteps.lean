import RocmTests.Builder.RemoteMake
import RocmTests.Executors.SshCommand

/-!
# The steps of an autotools build on a node

`autotools_make` gives each of its steps to a shell: here as it is, and on a node as `bash -c` with
the step between double quotes.
-/

namespace RocmTests
namespace Builder
namespace RemoteSteps

open Text Shell
open Executors.SshCommand
open RemoteMake

/-- What the steps of `autotools_make` are made of.  `None` is the empty text or list. -/
structure AutotoolsMake where
  absBuild : Txt
  absSource : Txt
  configureScript : Txt
  configureArgs : List Txt
  bootstrapScript : Txt
  envPrefix : Txt
  makeInstall : Bool
  makeArgs : List Txt
  jobs : Nat

section

variable (a : AutotoolsMake)

def envKw : Txt := if a.envPrefix = [] then [] else "env ".toList ++ (a.envPrefix ++ [' '])

def configureCmd : Txt :=
  "mkdir -p ".toList ++ (quote a.absBuild ++ (" && cd ".toList ++ (quote a.absBuild ++
    (" && ".toList ++
      (envKw a ++ (a.configureScript ++ ' ' :: [' '].intercalate a.configureArgs))))))

def makeCmd (args : Txt) : Txt :=
  "cd ".toList ++ (quote a.absBuild ++ (" && ".toList ++ (envKw a ++
    ("make ".toList ++ (jobsOption a.jobs ++ ' ' :: args)))))

def bootstrapCmd : Txt :=
  "cd ".toList ++ (quote a.absSource ++ (" && ".toList ++ (envKw a ++ a.bootstrapScript)))

/-- `steps`, without their names. -/
def steps : List Txt :=
  (if a.bootstrapScript = [] then [] else [bootstrapCmd a]) ++
    [configureCmd a, makeCmd a ([' '].intercalate a.makeArgs)] ++
      if a.makeInstall then [makeCmd a "install".toList] else []

/-- `wrapped`, on a node. -/
def wrapped (cmd : Txt) : Txt := bashC cmd

/-- Each step is handed over as it is, and comes to what a shell makes of it here. -/
def StepsSame (kept : Txt → Prop) : Prop :=
  ∀ step ∈ steps a, Handed kept step ∧ ∀ M W s, Bash kept M W →
    leaves M W s (wrapped step) = (M.run W (fresh s.env s.dir) step).programs

/-- Directories that can stand, quoted, between double quotes, and other texts that are calm. -/
structure StepsClean : Prop where
  build : Quotable a.absBuild
  env : calm a.envPrefix (some ' ') = true
  configure : calm a.configureScript (some ' ') = true
  configureArgs : calm ([' '].intercalate a.configureArgs) (some '"') = true
  makeArgs : calm ([' '].intercalate a.makeArgs) (some '"') = true
  bootstrap : a.bootstrapScript ≠ [] →
    Quotable a.absSource ∧ calm a.bootstrapScript (some '"') = true

end

section

variable {a : AutotoolsMake} {kept : Txt → Prop}

theorem calm_quoted (v t : Txt) (next : Option Char) :
    calm (quote v ++ (" && ".toList ++ t)) next = true ↔ Quotable v ∧ calm t next = true := by
  have hand : calm (" && ".toList ++ t) next = calm t next :=
    calm_front (forall_of_all (by decide)) t next
  rw [calm_append, Bool.and_eq_true, calm_quote]
  exact and_congr_right fun _ => Eq.congr_left hand

theorem calm_envKw (t : Txt) (next : Option Char) : calm (envKw a ++ t) next = true ↔
    calm a.envPrefix (some ' ') = true ∧ calm t next = true := by
  unfold envKw
  by_cases hnil : a.envPrefix = []
  · rw [if_pos hnil, hnil, List.nil_append]
    exact ⟨fun h => ⟨rfl, h⟩, fun h => h.2⟩
  · have henv : calm ("env ".toList ++ (a.envPrefix ++ [' '] ++ t)) next =
        calm (a.envPrefix ++ [' '] ++ t) next := calm_front (forall_of_all (by decide)) _ next
    have hblank : calm ([' '] ++ t) next = calm t next :=
      calm_front (forall_of_all (by decide)) t next
    have hhead : ([' '] ++ t).head?.or next = some ' ' := rfl
    have hrest : calm (a.envPrefix ++ [' '] ++ t) next = true ↔
        calm a.envPrefix (some ' ') = true ∧ calm t next = true := by
      rw [List.append_assoc, calm_append, hhead, hblank, Bool.and_eq_true]
    rw [if_neg hnil, List.append_assoc]
    exact (Eq.congr_left henv).trans hrest

theorem calm_makeCmd (args : Txt) : calm (makeCmd a args) (some '"') = true ↔
    Quotable a.absBuild ∧ calm a.envPrefix (some ' ') = true ∧ calm args (some '"') = true := by
  have hsub : doubleSpecial ⊆ special := by decide
  have hcd := calm_front (a := "cd ".toList) (forall_of_all (by decide)) (quote a.absBuild ++
    (" && ".toList ++ (envKw a ++ ("make ".toList ++ (jobsOption a.jobs ++ ' ' :: args)))))
      (some '"')
  have hmake := calm_front (a := "make ".toList) (forall_of_all (by decide))
    (jobsOption a.jobs ++ ' ' :: args) (some '"')
  have hjobs := calm_front (fun c hc hs => bare_jobsOption a.jobs c hc (hsub hs)) (' ' :: args)
    (some '"')
  have hblank := calm_cons_of_not_special (c := ' ') (by decide) args (some '"')
  have hall := hmake.trans (hjobs.trans hblank)
  have hquoted := calm_quoted a.absBuild
    (envKw a ++ ("make ".toList ++ (jobsOption a.jobs ++ ' ' :: args))) (some '"')
  rw [calm_envKw] at hquoted
  refine (Eq.congr_left hcd).trans (hquoted.trans ?_)
  exact and_congr_right fun _ => and_congr_right fun _ => Eq.congr_left hall

theorem calm_configureCmd : calm (configureCmd a) (some '"') = true ↔
    Quotable a.absBuild ∧ calm a.envPrefix (some ' ') = true ∧
      calm a.configureScript (some ' ') = true ∧
        calm ([' '].intercalate a.configureArgs) (some '"') = true := by
  have hmkdir := calm_front (a := "mkdir -p ".toList) (forall_of_all (by decide))
    (quote a.absBuild ++ (" && cd ".toList ++ (quote a.absBuild ++ (" && ".toList ++
      (envKw a ++ (a.configureScript ++ ' ' :: [' '].intercalate a.configureArgs))))))
    (some '"')
  have hcd := calm_front (a := " && cd ".toList) (forall_of_all (by decide)) (quote a.absBuild ++
    (" && ".toList ++ (envKw a ++ (a.configureScript ++ ' ' :: [' '].intercalate a.configureArgs))))
      (some '"')
  have hquoted := calm_quoted a.absBuild
    (envKw a ++ (a.configureScript ++ ' ' :: [' '].intercalate a.configureArgs)) (some '"')
  have hblank := calm_cons_of_not_special (c := ' ') (by decide)
    ([' '].intercalate a.configureArgs) (some '"')
  have hhead : (' ' :: [' '].intercalate a.configureArgs).head?.or (some '"') = some ' ' := rfl
  have hscript : calm (a.configureScript ++ ' ' :: [' '].intercalate a.configureArgs) (some '"') =
      (calm a.configureScript (some ' ') &&
        calm ([' '].intercalate a.configureArgs) (some '"')) := by
    rw [calm_append, hhead, hblank]
  rw [calm_envKw, hscript, Bool.and_eq_true] at hquoted
  refine (Eq.congr_left hmkdir).trans ?_
  rw [calm_append, Bool.and_eq_true, calm_quote]
  refine (and_congr_right fun _ => (Eq.congr_left hcd).trans hquoted).trans ?_
  exact ⟨fun h => h.2, fun h => ⟨h.1, h⟩⟩

theorem calm_bootstrapCmd : calm (bootstrapCmd a) (some '"') = true ↔
    Quotable a.absSource ∧ calm a.envPrefix (some ' ') = true ∧
      calm a.bootstrapScript (some '"') = true := by
  have hcd := calm_front (a := "cd ".toList) (forall_of_all (by decide)) (quote a.absSource ++
    (" && ".toList ++ (envKw a ++ a.bootstrapScript))) (some '"')
  have hquoted := calm_quoted a.absSource (envKw a ++ a.bootstrapScript) (some '"')
  rw [calm_envKw] at hquoted
  exact (Eq.congr_left hcd).trans hquoted

/-- The steps are calm exactly where what they are made of is. -/
theorem calm_steps : (∀ step ∈ steps a, calm step (some '"') = true) ↔ StepsClean a := by
  have hinstall : calm "install".toList (some '"') = true := calm_of_not_special
    (forall_of_all (by decide)) _
  constructor
  · intro h
    have hconfigure := calm_configureCmd.mp (h (configureCmd a)
      (List.mem_append_left _ (List.mem_append_right _ List.mem_cons_self)))
    have hmake := (calm_makeCmd _).mp (h (makeCmd a ([' '].intercalate a.makeArgs))
      (List.mem_append_left _ (List.mem_append_right _
        (List.mem_cons_of_mem _ List.mem_cons_self))))
    refine ⟨hconfigure.1, hconfigure.2.1, hconfigure.2.2.1, hconfigure.2.2.2, hmake.2.2, ?_⟩
    intro hne
    have hmem : bootstrapCmd a ∈ steps a := by
      refine List.mem_append_left _ (List.mem_append_left _ ?_)
      rw [if_neg hne]
      exact List.mem_cons_self
    have hbootstrap := calm_bootstrapCmd.mp (h _ hmem)
    exact ⟨hbootstrap.1, hbootstrap.2.2⟩
  · intro h step hstep
    rcases List.mem_append.mp hstep with hstep | hstep
    · rcases List.mem_append.mp hstep with hstep | hstep
      · by_cases hnil : a.bootstrapScript = []
        · rw [if_pos hnil] at hstep
          cases hstep
        · rw [if_neg hnil] at hstep
          rw [List.mem_singleton.mp hstep]
          exact calm_bootstrapCmd.mpr ⟨(h.bootstrap hnil).1, h.env, (h.bootstrap hnil).2⟩
      · rcases List.mem_cons.mp hstep with rfl | hstep
        · exact calm_configureCmd.mpr ⟨h.build, h.env, h.configure, h.configureArgs⟩
        · rw [List.mem_singleton.mp hstep]
          exact (calm_makeCmd _).mpr ⟨h.build, h.env, h.makeArgs⟩
    · by_cases hyes : a.makeInstall = true
      · rw [if_pos hyes] at hstep
        rw [List.mem_singleton.mp hstep]
        exact (calm_makeCmd _).mpr ⟨h.build, h.env, hinstall⟩
      · rw [if_neg hyes] at hstep
        cases hstep

theorem stepsSame_iff : StepsSame a kept ↔ StepsClean a := by
  rw [← calm_steps]
  constructor
  · exact fun h step hstep => (handed_iff kept step).mp (h step hstep).1
  · intro h step hstep
    have hhanded : Handed kept step := handed_of_calm (h step hstep)
    exact ⟨hhanded, fun M W s hbash => leaves_bashC hbash hhanded⟩

end

/-- Whatever a command is, the login shell on the node is given it as it is. -/
def LoginGiven (kept : Txt → Prop) : Prop :=
  ∀ M W s effectiveEnv cmd, Bash kept M W → Execs M → (∀ p ∈ effectiveEnv, isName p.1 = true) →
    GivesLogin M W s effectiveEnv cmd

/-- A build on a node is the build here exactly for clean arguments, values and steps, and it is not
the way to the node that changes anything. -/
theorem remote_build_iff (kept : Txt → Prop) {b : MakeBuild} (hset : Setting kept b) (jobs : Nat)
    (a : AutotoolsMake) : (SeesTheSame b jobs kept ↔ Clean b) ∧ (StepsSame a kept ↔ StepsClean a) ∧
      LoginGiven kept :=
  ⟨⟨clean_of_seesTheSame hset, seesTheSame_of_clean hset⟩, stepsSame_iff,
    fun _ _ s _ cmd hbash hexecs hname => gives_login hbash hexecs hname s cmd⟩

/-- An argument with a blank in it is two on the node. -/
theorem not_same_blank :
    let b : MakeBuild := ⟨"/r".toList, ["CFLAGS=-O2 -g".toList], [], true⟩
    let s := fresh (fun _ => none) []
    Setting (fun _ => False) b ∧ Bash (fun _ => False) posix .strict ∧ Program posix makeName ∧
      (leaves posix .strict s (remoteCommand b 4)).map Command.argv =
        [["make".toList, "-j4".toList, "CFLAGS=-O2".toList, "-g".toList]] ∧
      (localRun b 4 posix s).map Command.argv =
        [["make".toList, "-j4".toList, "CFLAGS=-O2 -g".toList]] ∧
      ¬ SeesTheSame b 4 (fun _ => False) := by
  intro b s
  have hremote : (leaves posix .strict s (remoteCommand b 4)).map Command.argv =
      [["make".toList, "-j4".toList, "CFLAGS=-O2".toList, "-g".toList]] := by decide +kernel
  have hlocal : (localRun b 4 posix s).map Command.argv =
      [["make".toList, "-j4".toList, "CFLAGS=-O2 -g".toList]] := by decide +kernel
  have hmake : Program posix makeName := ⟨by decide, by decide⟩
  refine ⟨⟨by decide, by decide, by decide, by decide⟩, bash_strict _, hmake, hremote, hlocal, ?_⟩
  intro h
  have hsame := congrArg (List.map Command.argv) (h.2 posix .strict s (bash_strict _) hmake)
  rw [hremote, hlocal] at hsame
  exact absurd hsame (by decide +kernel)

/-- Values with blanks and arguments without any. -/
theorem remote_build_blank_value :
    let b : MakeBuild :=
      ⟨"/r".toList, ["MPI=0".toList], [("CXXFLAGS".toList, "-O2 -g".toList)], true⟩
    SeesTheSame b 4 (fun name => name = "PWD".toList) :=
  (remote_build_iff (fun name => name = "PWD".toList) ⟨by decide, by decide, by decide, by decide⟩ 4
    ⟨[], [], [], [], [], [], false, [], 4⟩).1.mpr ⟨rfl, by decide, by decide⟩

end RemoteSteps
end Builder
end RocmTests

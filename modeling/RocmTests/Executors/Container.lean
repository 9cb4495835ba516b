import RocmTests.Executors.SshCommand
import RocmTests.Shell.Words
import RocmTests.Text.Numeral

/-!
# Commands in containers

`ContainerExecutor` puts together the texts that a host runs for it: `docker run` for a container of
one command, `docker run -d`, `docker exec` and `docker rm` for one that stays.  Only the command is
quoted.  The rest is written as it stands, so that it has to be plain.

On a node the host's shell is a login shell inside the text of `SshExecutor`.
-/

namespace RocmTests
namespace Executors
namespace Container

open Text Shell

structure ContainerExecutor where
  image : Txt
  gpuIndex : Int := 0
  gpuIndices : List Int := []
  runtime : Txt := "docker".toList
  useAmdDevices : Bool := true
  ipc : Txt := []
  privileged : Bool := false
  extraRunFlags : Txt := []
deriving DecidableEq

namespace ContainerExecutor

variable (e : ContainerExecutor) (linux : Bool)

def rocrValue : Txt :=
  if e.gpuIndices ≠ [] then [','].intercalate (e.gpuIndices.map showInt) else showInt e.gpuIndex

/-- The flags that come from the executor's own fields, on Linux or on Windows. -/
def ownFlags : List Txt :=
  (if e.ipc ≠ [] then ["--ipc=".toList ++ e.ipc] else []) ++
  (if e.privileged then ["--privileged".toList] else []) ++
  (if e.useAmdDevices then
    (if linux then
      ["--device=/dev/kfd".toList, "--device=/dev/dri".toList, "--group-add=video".toList]
      else []) ++ ["--env=ROCR_VISIBLE_DEVICES=".toList ++ e.rocrValue]
  else [])

def commonRunFlags : List Txt :=
  e.ownFlags linux ++ (if e.extraRunFlags ≠ [] then [e.extraRunFlags] else [])

def assembleRunCommand (userCommand : Txt) : Txt :=
  [' '].intercalate
    ([e.runtime, "run".toList, "--rm".toList] ++ e.commonRunFlags linux ++ [e.image] ++
    ["sh".toList, "-c".toList, quote userCommand])

/-- `cli` of `exec_in` -/
def execCommand (containerName command : Txt) : Txt :=
  e.runtime ++ " exec ".toList ++ containerName ++ ' ' :: ("sh -c ".toList ++ quote command)

def pullCommand : Txt :=
  e.runtime ++ " image inspect ".toList ++ e.image ++ " >/dev/null 2>&1 || ".toList ++ e.runtime ++
    " pull ".toList ++ e.image

def startCommand (containerName : Txt) : Txt :=
  [' '].intercalate ([e.runtime, "run".toList, "-d".toList, "--init".toList, "--name".toList,
    containerName] ++ e.commonRunFlags linux ++ [e.image, "sleep".toList, "infinity".toList])

def stopCommand (containerName : Txt) : Txt := e.runtime ++ " rm -f ".toList ++ containerName

end ContainerExecutor

/-- What an executor asks of its host. -/
inductive HostCommand where
  | pull
  | start (containerName : Txt)
  | exec (containerName command : Txt)
  | once (command : Txt)
  | remove (containerName : Txt)
deriving DecidableEq

namespace HostCommand

variable (e : ContainerExecutor) (linux : Bool) (extra : List Txt)

/-- What is given to the host. -/
def text : HostCommand → Txt
  | pull => e.pullCommand
  | start containerName => e.startCommand linux containerName
  | exec containerName command => e.execCommand containerName command
  | once command => e.assembleRunCommand linux command
  | remove containerName => e.stopCommand containerName

/-- The container of a command that is about one. -/
def name? : HostCommand → Option Txt
  | start containerName => some containerName
  | exec containerName _ => some containerName
  | remove containerName => some containerName
  | _ => none

/-- What is written as it stands. -/
def words : HostCommand → List Txt
  | pull => []
  | start containerName =>
    [e.runtime, "run".toList, "-d".toList, "--init".toList, "--name".toList, containerName] ++
      e.ownFlags linux ++ extra ++ [e.image, "sleep".toList, "infinity".toList]
  | exec containerName _ => [e.runtime, "exec".toList, containerName, "sh".toList, "-c".toList]
  | once _ => [e.runtime, "run".toList, "--rm".toList] ++ e.ownFlags linux ++ extra ++
      [e.image, "sh".toList, "-c".toList]
  | remove containerName => [e.runtime, "rm".toList, "-f".toList, containerName]

/-- What is quoted. -/
def quoted : HostCommand → List Txt
  | exec _ command => [command]
  | once command => [command]
  | pull => []
  | start _ => []
  | remove _ => []

end HostCommand

/-! ## What a shell makes of the texts -/

/-- What is written without quotes can stand so; the extra flags are these. -/
structure Writable (e : ContainerExecutor) (extra : List Txt) : Prop where
  runtime : Unspecial e.runtime
  name : Plainly e.runtime
  image : Unspecial e.image
  ipc : ∀ c ∈ e.ipc, c ∉ special
  flags : ∀ f ∈ extra, Unspecial f
  joined : e.extraRunFlags = [' '].intercalate extra

theorem isSafe_indices (is : List Int) :
    ∀ c ∈ [','].intercalate (is.map showInt), isSafe c = true := by
  induction is with
  | nil =>
    intro c hc
    cases hc
  | cons i is ih =>
    intro c hc
    by_cases hnil : is = []
    · rw [hnil, List.map_singleton, List.intercalate_singleton] at hc
      exact isSafe_showInt i c hc
    · rw [List.map_cons, List.intercalate_cons_of_ne_nil (mt List.map_eq_nil_iff.mp hnil),
        List.append_assoc] at hc
      rcases List.mem_append.mp hc with hc | hc
      · exact isSafe_showInt i c hc
      · rcases List.mem_append.mp hc with hc | hc
        · rw [List.mem_singleton.mp hc]
          decide
        · exact ih c hc

theorem safe_rocrValue (e : ContainerExecutor) : ∀ c ∈ e.rocrValue, c ∉ special := by
  intro c hc
  refine not_mem_special_of_isSafe ?_
  rw [ContainerExecutor.rocrValue] at hc
  split_ifs at hc
  · exact isSafe_indices e.gpuIndices c hc
  · exact isSafe_showInt e.gpuIndex c hc

theorem forall_cons {α : Type} {P : α → Prop} {a : α} {l : List α} (ha : P a) (h : ∀ b ∈ l, P b) :
    ∀ b ∈ a :: l, P b := List.forall_mem_cons.mpr ⟨ha, h⟩

theorem forall_append {α : Type} {P : α → Prop} {l m : List α} (h : ∀ b ∈ l, P b)
    (hm : ∀ b ∈ m, P b) : ∀ b ∈ l ++ m, P b := List.forall_mem_append.mpr ⟨h, hm⟩

section

variable {e : ContainerExecutor} {linux : Bool} {extra : List Txt} (h : Writable e extra)

include h in
theorem unspecial_ownFlags : ∀ f ∈ e.ownFlags linux, Unspecial f := by
  have hif {p : Prop} [Decidable p] {ts : List Txt} (hts : ∀ t ∈ ts, Unspecial t) :
      ∀ t ∈ (if p then ts else []), Unspecial t := by
    intro t ht
    split_ifs at ht
    · exact hts t ht
    · cases ht
  have hnone : ∀ t ∈ ([] : List Txt), Unspecial t := Unspecial.all rfl
  have hipc : Unspecial ("--ipc=".toList ++ e.ipc) :=
    (unspecial_of_all (List.cons_ne_nil _ _) (by decide)).append h.ipc
  have hdevices : ∀ t ∈ ["--device=/dev/kfd".toList, "--device=/dev/dri".toList,
      "--group-add=video".toList], Unspecial t := Unspecial.all (by decide +kernel)
  have henv : Unspecial ("--env=ROCR_VISIBLE_DEVICES=".toList ++ e.rocrValue) :=
    (unspecial_of_all (List.cons_ne_nil _ _) (by decide +kernel)).append (safe_rocrValue e)
  have hprivileged : ∀ t ∈ ["--privileged".toList], Unspecial t := Unspecial.all (by decide +kernel)
  exact forall_append (forall_append (hif (forall_cons hipc hnone)) (hif hprivileged))
    (hif (forall_append (hif hdevices) (forall_cons henv hnone)))

include h in
theorem unspecial_words (c : HostCommand) (hname : ∀ name ∈ c.name?, Unspecial name) :
    ∀ t ∈ c.words e linux extra, Unspecial t := by
  have hlast : ∀ t ∈ ["sh".toList, "-c".toList], Unspecial t := Unspecial.all (by decide)
  have hback (ts : List Txt) (hts : ∀ t ∈ ts, Unspecial t) : ∀ t ∈ e.image :: ts, Unspecial t :=
    forall_cons h.image hts
  have hflags (ts : List Txt) (hts : ∀ t ∈ ts, Unspecial t) :
      ∀ t ∈ ts ++ e.ownFlags linux ++ extra, Unspecial t :=
    forall_append (forall_append hts (unspecial_ownFlags h)) h.flags
  cases c with
  | pull => exact Unspecial.all rfl
  | start name =>
    have hfront : ∀ t ∈ ["run".toList, "-d".toList, "--init".toList, "--name".toList],
        Unspecial t :=
      Unspecial.all (by decide)
    have hsleep : ∀ t ∈ ["sleep".toList, "infinity".toList], Unspecial t :=
      Unspecial.all (by decide)
    exact forall_append (hflags _ (forall_cons h.runtime
      (forall_append hfront (forall_cons (hname name rfl) (Unspecial.all rfl))))) (hback _ hsleep)
  | exec name command =>
    exact forall_cons h.runtime (forall_cons (unspecial_of_all (List.cons_ne_nil _ _) (by decide))
      (forall_cons (hname name rfl) hlast))
  | once command =>
    have hfront : ∀ t ∈ ["run".toList, "--rm".toList], Unspecial t := Unspecial.all (by decide)
    exact forall_append (hflags _ (forall_cons h.runtime hfront)) (hback _ hlast)
  | remove name =>
    have hfront : ∀ t ∈ ["rm".toList, "-f".toList], Unspecial t := Unspecial.all (by decide)
    exact forall_cons h.runtime
      (forall_append hfront (forall_cons (hname name rfl) (Unspecial.all rfl)))

include h in
/-- The flags that the caller gives are words of their own. -/
theorem joined_flags {front back : List Txt} (hfront : front ≠ []) (hback : back ≠ []) :
    [' '].intercalate (front ++ e.commonRunFlags linux ++ back) =
      [' '].intercalate (front ++ e.ownFlags linux ++ extra ++ back) := by
  have hempty : [] ∉ extra := fun hmem => (h.flags [] hmem).1 rfl
  have hwithin :=
    joined_within (List.append_ne_nil_of_left_ne_nil hfront (e.ownFlags linux)) hback hempty
  rw [← h.joined, List.append_assoc front] at hwithin
  exact hwithin

include h in
theorem text_eq {c : HostCommand} (hpull : c ≠ .pull) : c.text e linux =
    [' '].intercalate (c.words e linux extra ++ (c.quoted).map quote) := by
  cases c with
  | pull => exact absurd rfl hpull
  | start name =>
    rw [HostCommand.quoted, List.map_nil, List.append_nil]
    exact joined_flags h (List.cons_ne_nil _ _) (List.cons_ne_nil _ _)
  | exec name command =>
    have hexec : " exec ".toList = ' ' :: ("exec".toList ++ [' ']) := rfl
    have hsh : "sh -c ".toList = "sh".toList ++ ' ' :: ("-c".toList ++ [' ']) := rfl
    rw [HostCommand.words, HostCommand.text, ContainerExecutor.execCommand, HostCommand.quoted,
      hexec,
      hsh]
    generalize "exec".toList = a, "sh".toList = b, "-c".toList = c
    simp only [List.cons_append, List.nil_append, List.map_cons, List.map_nil,
      List.intercalate_cons_cons, List.intercalate_singleton, List.append_assoc]
  | once command =>
    rw [HostCommand.words, HostCommand.text, ContainerExecutor.assembleRunCommand,
      HostCommand.quoted,
      List.append_assoc _ [e.image], List.append_assoc _ [e.image, _, _]]
    exact joined_flags h (List.cons_ne_nil _ _) (List.cons_ne_nil _ _)
  | remove name =>
    have hrm : " rm -f ".toList = ' ' :: ("rm".toList ++ ' ' :: ("-f".toList ++ [' '])) := rfl
    rw [HostCommand.words, HostCommand.text, ContainerExecutor.stopCommand, HostCommand.quoted, hrm]
    generalize "rm".toList = a, "-f".toList = b
    simp only [List.cons_append, List.nil_append, List.map_nil, List.append_nil,
      List.intercalate_cons_cons, List.intercalate_singleton, List.append_assoc]

end

section

variable {kept : Txt → Prop} {M : Machine} {W : World} {s : State} {e : ContainerExecutor}
  {linux : Bool} {extra : List Txt}

/-- A shell that reads the text starts the container runtime and nothing else. -/
theorem runs_runtime (hbash : Bash kept M W) (hprogram : Program M e.runtime) (h : Writable e extra)
    {c : HostCommand} (hpull : c ≠ .pull) (hname : ∀ name ∈ c.name?, Unspecial name) :
    (M.run W s (c.text e linux)).ran.map Executed.command =
      [launched s (c.words e linux extra ++ c.quoted)] := by
  obtain ⟨ps, hline, hargs⟩ := exists_line (unspecial_words h c hname) c.quoted
  have hwords : ∃ texts, c.words e linux extra = e.runtime :: texts := by
    cases c with
    | pull => exact absurd rfl hpull
    | start name => exact ⟨_, rfl⟩
    | exec name command => exact ⟨_, rfl⟩
    | once command => exact ⟨_, rfl⟩
    | remove name => exact ⟨_, rfl⟩
  obtain ⟨texts, hwords⟩ := hwords
  rw [hwords, List.cons_append] at hargs
  obtain ⟨p, ps', rfl, hp, hps⟩ := List.map_eq_cons_iff.mp hargs
  rw [text_eq h hpull, ← hline, hwords, List.cons_append, ← hps, ← hp]
  exact hbash.run_line ps' (hp ▸ hprogram) (hp ▸ h.name)

end

end Container
end Executors
end RocmTests

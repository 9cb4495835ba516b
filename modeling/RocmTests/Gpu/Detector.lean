import RocmTests.Conc.Fallible
import RocmTests.Text.Find
import RocmTests.Text.JsonValue
import RocmTests.Text.PosixPath

/-!
# Detection of the GPUs of a node

`GpuDetector.detect` counts GPUs with `lspci` and fills in what `lspci` cannot know from
the KFD sysfs tree and from `amd-smi`; where `lspci` finds none these are asked one after
the other.  The environment answers every command and every read of the file system,
with an exception where it likes.  A command or file that is asked for twice may answer
differently the second time, so each question names the place it is asked from.

What is only logged or printed is left out, and so is the artifact of `amd-smi list`.
-/

namespace RocmTests
namespace Gpu
namespace Detection

open Conc Text
open Markers (isSpace strip)

/-- The exceptions, as far as some handler tells them apart. -/
inductive Raised where
  | osError
  | runtimeError
  | valueError
  | other
deriving DecidableEq

inductive Site where
  | detection
  | diagnostics
deriving DecidableEq

/-- `command` answers with the exit status and the output. -/
structure Env where
  command : Site → Txt → Except Raised (Int × Txt)
  pathExists : Site → Txt → Except Raised Bool
  iterdir : Site → Txt → Except Raised (List Txt)
  readText : Site → Txt → Except Raised Txt

structure GpuInfo where
  index : Nat
  arch : JsonValue
  vramMb : Int
  numaNode : Int := -1

/-- `rockDir` is empty when there is none. -/
structure Detector where
  rockDir : Txt
  remote : Bool
  cached : Option (List GpuInfo)

def Detector.init (rockDir : Txt) (remote : Bool) : Detector := { rockDir, remote, cached := none }

def unknownArch : Txt := "unknown".toList

def gpuPciClasses : List Txt :=
  ["Display controller".toList, "VGA compatible controller".toList,
    "Processing accelerators".toList]

/-- The lines of `lspci` that are about a GPU. -/
def gpuLines (out : Txt) : List Txt :=
  ((splitlines out).filter fun line => strip line ≠ []).filter fun line =>
    gpuPciClasses.any fun c => (indexOf c line).isSome

def sorted (names : List Txt) : List Txt := names.insertionSort (· ≤ ·)

/-! ## Properties of a KFD node -/

/-- `line.split(None, 1)`, when it has two fields. -/
def splitOnce (line : Txt) : Option (Txt × Txt) :=
  let text := line.dropWhile isSpace
  let word := text.takeWhile (!isSpace ·)
  let rest := (text.dropWhile (!isSpace ·)).dropWhile isSpace
  if word = [] ∨ rest = [] then none else some (word, rest)

/-- The items of `dict(..)` of the lines with a space.  It raises when one of them has no
two fields. -/
def parseProps (text : Txt) : Except Raised (List (Txt × Txt)) :=
  ((splitlines text).filter fun line => ' ' ∈ line).mapM fun line =>
    match splitOnce line with
    | some item => .ok item
    | none => .error .valueError

/-- `props.get(key, default).strip()`. -/
def getProp (props : List (Txt × Txt)) (key default : Txt) : Txt :=
  strip ((props.reverse.lookup key).getD default)

def hexDigits (n : Int) : Txt := Nat.toDigits 16 n.toNat

def kfdGfxVersion (raw : Txt) : Txt :=
  match parseInt raw with
  | none => raw
  | some v =>
    "gfx".toList ++ showInt (v / 10000) ++ hexDigits (v / 100 % 100) ++ hexDigits (v % 100)

def intOf (t : Txt) : Except Raised Int := ((parseInt t).map Except.ok).getD (.error .valueError)

/-- The GPU of a node, after those found so far; a node of a CPU is passed over. -/
def addNode (gpus : List GpuInfo) (text : Txt) : Except Raised (List GpuInfo) :=
  (parseProps text).bind fun props =>
    if getProp props "gpu_id".toList "0".toList = "0".toList then .ok gpus
    else
      (intOf (getProp props "local_mem_size".toList "0".toList)).bind fun mem =>
        (intOf (getProp props "numa_node".toList "-1".toList)).map fun numa =>
          gpus ++ [{
            index := gpus.length
            arch := .str (kfdGfxVersion (getProp props "gfx_target_version".toList unknownArch))
            vramMb := mem / (1024 * 1024)
            numaNode := numa }]

def kfdBase : Txt := "/sys/class/kfd/kfd/topology/nodes".toList

def propFile (name : Txt) : Txt := kfdBase ++ '/' :: name ++ "/properties".toList

/-! ## What `amd-smi` reports -/

/-- `list(x)`. -/
def toList : JsonValue → Except Raised (List JsonValue)
  | .arr xs => .ok xs
  | .obj items => .ok (items.map fun x => .str x.1)
  | .str s => .ok (s.map fun c => .str [c])
  | _ => .error .other

def unwrapEntries : JsonValue → Except Raised (List JsonValue)
  | .obj items => toList ((JsonValue.get? items "gpu_data".toList).getD (.arr []))
  | .arr xs => .ok xs
  | _ => .ok []

def pyInt (v : JsonValue) : Except Raised Int := v.toInt.mapError fun _ => .other

def toMb : JsonValue → Except Raised Int
  | .obj items => pyInt ((JsonValue.get? items "value".toList).getD (.int 0))
  | .int n => pyInt (.int n)
  | .float x => pyInt (.float x)
  | .bool b => pyInt (.bool b)
  | _ => .ok 0

/-- `x.get(key, default)`, of what may be no dict. -/
def getOf (key : Txt) (default : JsonValue) : JsonValue → Except Raised JsonValue
  | .obj items => .ok ((JsonValue.get? items key).getD default)
  | _ => .error .other

def gpuOfEntry (index : Nat) (dev : JsonValue) : Except Raised GpuInfo :=
  (getOf "asic".toList (.obj []) dev).bind fun asic =>
    (getOf "vram".toList (.obj []) dev).bind fun vram =>
      (getOf "size".toList (.int 0) vram).bind fun size =>
        (toMb size).bind fun vramMb =>
          (getOf "target_graphics_version".toList (.str unknownArch) asic).map fun arch =>
            { index, arch, vramMb }

def isUnknown : JsonValue → Bool
  | .str s => s = unknownArch
  | _ => false

/-! ## The detector -/

section

variable (loads : Txt → Except Raised JsonValue) (env : Env)

abbrev Sys := Traced Txt

def runCommand (site : Site) (cmd : Txt) : Sys (Except Raised Txt) where
  value := (env.command site cmd).bind fun x => if x.1 ≠ 0 then .error .runtimeError else .ok x.2
  trace := [cmd]

def lspciCommand : Txt := "lspci -d 1002: -nn".toList

def detectViaLspci : Sys (Except Raised (List GpuInfo)) := do
  let out ← runCommand env .detection lspciCommand
  return out.map fun text =>
    (gpuLines text).mapIdx fun i _ => { index := i, arch := .str unknownArch, vramMb := 0 }

/-- The nodes of the local tree. -/
def kfdLocalNodes (gpus : List GpuInfo) : List Txt → Except Raised (List GpuInfo)
  | [] => .ok gpus
  | name :: names =>
    (env.pathExists .detection (propFile name)).bind fun there =>
      if there then
        (env.readText .detection (propFile name)).bind fun text =>
          (addNode gpus text).bind fun gpus => kfdLocalNodes gpus names
      else kfdLocalNodes gpus names

def kfdLocal : Except Raised (List GpuInfo) :=
  (env.pathExists .detection kfdBase).bind fun there =>
    if there then
      (env.iterdir .detection kfdBase).bind fun names => kfdLocalNodes env [] (sorted names)
    else .error .osError

def kfdRemoteNodes (gpus : List GpuInfo) : List Txt → Sys (Except Raised (List GpuInfo))
  | [] => pure (.ok gpus)
  | name :: names => do
    let content ← runCommand env .detection
      ("cat ".toList ++ propFile name ++ " 2>/dev/null".toList)
    match content with
    | .error .runtimeError => kfdRemoteNodes gpus names
    | .error e => return .error e
    | .ok text =>
      if text = [] then kfdRemoteNodes gpus names
      else
        match addNode gpus text with
        | .error e => return .error e
        | .ok gpus => kfdRemoteNodes gpus names

def kfdRemote : Sys (Except Raised (List GpuInfo)) := do
  let dirs ← runCommand env .detection ("ls ".toList ++ kfdBase)
  match dirs with
  | .error .runtimeError => return .error .osError
  | .error e => return .error e
  | .ok out => kfdRemoteNodes env [] (sorted (((splitlines out).map strip).filter (· ≠ [])))

def detectViaKfd (d : Detector) : Sys (Except Raised (List GpuInfo)) :=
  if d.remote then kfdRemote env else pure (kfdLocal env)

def detectViaAmdSmiAt (path : Txt) : Sys (Except Raised (List GpuInfo)) := do
  let raw ← runCommand env .detection (path ++ " static --json".toList)
  return raw.bind fun text => (loads text).bind fun data => (unwrapEntries data).bind fun entries =>
    (entries.zipIdx).mapM fun x => gpuOfEntry x.2 x.1

def enrichViaKfd (d : Detector) (gpus : List GpuInfo) : Sys (List GpuInfo) := do
  let kfd ← detectViaKfd env d
  match kfd with
  | .error _ => return gpus
  | .ok kfdGpus =>
    if kfdGpus = [] ∨ kfdGpus.length ≠ gpus.length then return gpus
    else
      return gpus.zipWith (fun g k =>
        { index := g.index
          arch := if isUnknown k.arch then g.arch else k.arch
          vramMb := k.vramMb
          numaNode := if k.numaNode ≠ -1 then k.numaNode else g.numaNode }) kfdGpus

def systemAmdSmi : Txt := "amd-smi".toList

def rockAmdSmi (d : Detector) : Txt :=
  join (join d.rockDir "bin".toList) systemAmdSmi

/-- One GPU with what `amd-smi` says of it. -/
def withSmi (arch : JsonValue) (vramMb : Int) (g : GpuInfo) : GpuInfo :=
  { g with
    arch := if isUnknown arch then g.arch else arch
    vramMb := if g.vramMb = 0 then vramMb else g.vramMb }

def enrichFrom (gpus : List GpuInfo) : List Txt → Sys (List GpuInfo)
  | [] => pure gpus
  | path :: paths => do
    let smi ← detectViaAmdSmiAt loads env path
    match smi with
    | .error _ => enrichFrom gpus paths
    | .ok smiGpus =>
      if smiGpus = [] then enrichFrom gpus paths
      else if smiGpus.length = gpus.length then
        return gpus.zipWith (fun g s => withSmi s.arch s.vramMb g) smiGpus
      else
        match smiGpus with
        | [physical] =>
          if 1 < gpus.length then
            let share := if 0 < physical.vramMb then physical.vramMb / gpus.length else 0
            return gpus.map fun g => withSmi physical.arch share g
          else enrichFrom gpus paths
        | _ => enrichFrom gpus paths

def enrichViaAmdSmi (d : Detector) (gpus : List GpuInfo) : Sys (List GpuInfo) :=
  if gpus.all fun g => 0 < g.vramMb then pure gpus
  else
    enrichFrom loads env gpus (systemAmdSmi :: if d.rockDir = [] then [] else [rockAmdSmi d])

/-! ### The diagnostics -/

/-- A handler of `OSError`. -/
def exceptOsError : Except Raised Unit → Except Raised Unit
  | .error .osError => .ok ()
  | x => x

def printNode (name : Txt) : Except Raised Unit :=
  (env.pathExists .diagnostics (propFile name)).bind fun there =>
    if there then
      (env.readText .diagnostics (propFile name)).bind fun text =>
        (parseProps text).map fun _ => ()
    else .ok ()

def printNodes : List Txt → Except Raised Unit
  | [] => .ok ()
  | name :: names => (printNode env name).bind fun _ => printNodes names

def driPath : Txt := "/dev/dri".toList

def printKfd : Except Raised Unit :=
  (env.pathExists .diagnostics kfdBase).bind fun there =>
    if there then
      exceptOsError ((env.iterdir .diagnostics kfdBase).bind fun names =>
        printNodes env ((sorted names).take 8))
    else .ok ()

def printDri : Except Raised Unit :=
  (env.pathExists .diagnostics driPath).bind fun there =>
    if there then exceptOsError ((env.iterdir .diagnostics driPath).map fun _ => ()) else .ok ()

/-- `_print_kfd_dri_diagnostics`. -/
def printKfdDriDiagnostics : Except Raised Unit := (printKfd env).bind fun _ => printDri env

/-- `_run_amd_smi_diagnostic`, which catches everything. -/
def runAmdSmiDiagnostic : Sys Unit := do
  let _ ← runCommand env .diagnostics "amd-smi list".toList
  return ()

/-! ### The cascade -/

/-- The GPUs are kept, and returned. -/
def keep (d : Detector) (gpus : List GpuInfo) : Sys (Except Raised (List GpuInfo) × Detector) := do
  runAmdSmiDiagnostic env
  return (.ok gpus, { d with cached := some gpus })

/-- What is tried last: `amd-smi` of `rock_dir`. -/
def detectViaRock (d : Detector) : Sys (Except Raised (List GpuInfo) × Detector) := do
  if d.rockDir = [] then return (.ok [], { d with cached := some [] })
  else
    let rock ← detectViaAmdSmiAt loads env (rockAmdSmi d)
    match rock with
    | .ok (g :: gs) => keep env d (g :: gs)
    | _ => return (.ok [], { d with cached := some [] })

/-- What is tried when there is no `lspci` and no KFD. -/
def detectViaTools (d : Detector) : Sys (Except Raised (List GpuInfo) × Detector) := do
  let smi ← detectViaAmdSmiAt loads env systemAmdSmi
  match smi with
  | .ok (g :: gs) => keep env d (g :: gs)
  | _ => detectViaRock loads env d

/-- The diagnostics are of the local tree only. -/
def detectWithoutKfd (d : Detector) : Sys (Except Raised (List GpuInfo) × Detector) :=
  match if d.remote then .ok () else printKfdDriDiagnostics env with
  | .error e => pure (.error e, d)
  | .ok _ => detectViaTools loads env d

def detectWithoutLspci (d : Detector) : Sys (Except Raised (List GpuInfo) × Detector) := do
  let kfd ← detectViaKfd env d
  match kfd with
  | .ok (g :: gs) =>
    let gpus ← enrichViaAmdSmi loads env d (g :: gs)
    keep env d gpus
  | _ => detectWithoutKfd loads env d

def detect (d : Detector) : Sys (Except Raised (List GpuInfo) × Detector) := do
  match d.cached with
  | some gpus => return (.ok gpus, d)
  | none =>
    let lspci ← detectViaLspci env
    match lspci with
    | .ok (g :: gs) =>
      let gpus ← enrichViaKfd env d (g :: gs)
      let gpus ← enrichViaAmdSmi loads env d gpus
      keep env d gpus
    | .ok [] =>
      -- the output is printed unfiltered
      let _ ← runCommand env .diagnostics lspciCommand
      detectWithoutLspci loads env d
    | .error _ => detectWithoutLspci loads env d

end

/-! ## What detection promises -/

def WellIndexed (gpus : List GpuInfo) : Prop :=
  gpus.map GpuInfo.index = List.range gpus.length

section

variable (loads : Txt → Except Raised JsonValue) (env : Env)

/-- The GPU lines of `lspci`, when it succeeds. -/
def lspciCount : Nat :=
  match (runCommand env .detection lspciCommand).value with
  | .ok out => (gpuLines out).length
  | .error _ => 0

/-- The call returns a list with the indices in order, as long as `lspci` says, and every
later one returns that list without a command. -/
def Sound (d : Detector) : Prop :=
  ∃ gpus d', (detect loads env d).value = (.ok gpus, d') ∧ WellIndexed gpus ∧
    (0 < lspciCount env → gpus.length = lspciCount env) ∧
    ∀ env', detect loads env' d' = ⟨(.ok gpus, d'), []⟩

def NoKfdGpu (d : Detector) : Prop :=
  ∀ g gs, (detectViaKfd env d).value ≠ .ok (g :: gs)

/-- A line with a space that has no two fields. -/
def Malformed (text : Txt) : Prop :=
  ∃ line ∈ splitlines text, ' ' ∈ line ∧ splitOnce line = none

/-- What goes wrong with a node that the diagnostics show. -/
def NodeRaises (name : Txt) (e : Raised) : Prop :=
  env.pathExists .diagnostics (propFile name) = .error e ∨
    env.pathExists .diagnostics (propFile name) = .ok true ∧
      (env.readText .diagnostics (propFile name) = .error e ∨
        ∃ text, env.readText .diagnostics (propFile name) = .ok text ∧ Malformed text ∧
          e = .valueError)

/-- Of the nodes, the first that goes wrong does so with this exception. -/
def FirstRaises (names : List Txt) (e : Raised) : Prop :=
  ∃ before name rest, names = before ++ name :: rest ∧ (∀ n ∈ before, ∀ e, ¬ NodeRaises env n e) ∧
    NodeRaises env name e

/-- Only an `OSError` is handled, and only while a directory is listed or shown. -/
def DiagnosticsRaise : Prop :=
  (∃ e, env.pathExists .diagnostics kfdBase = .error e) ∨
  (env.pathExists .diagnostics kfdBase = .ok true ∧
    ∃ e, e ≠ .osError ∧ (env.iterdir .diagnostics kfdBase = .error e ∨
      ∃ names, env.iterdir .diagnostics kfdBase = .ok names ∧
        FirstRaises env ((sorted names).take 8) e)) ∨
  (∃ e, env.pathExists .diagnostics driPath = .error e) ∨
  (env.pathExists .diagnostics driPath = .ok true ∧
    ∃ e, e ≠ .osError ∧ env.iterdir .diagnostics driPath = .error e)

/-! ### Indices -/

theorem WellIndexed.nil : WellIndexed [] := rfl

theorem WellIndexed.snoc {gpus : List GpuInfo} {g : GpuInfo} (h : WellIndexed gpus)
    (hg : g.index = gpus.length) : WellIndexed (gpus ++ [g]) := by
  unfold WellIndexed
  rw [List.map_append, h, List.length_append, List.length_singleton, List.range_succ, ← hg]
  rfl

theorem WellIndexed.of_map {gpus gpus' : List GpuInfo} (h : WellIndexed gpus)
    (heq : gpus'.map GpuInfo.index = gpus.map GpuInfo.index) : WellIndexed gpus' := by
  have hlength : gpus'.length = gpus.length := by
    rw [← List.length_map (f := GpuInfo.index), heq, List.length_map]
  unfold WellIndexed
  rw [heq, h, hlength]

theorem wellIndexed_mapIdx {α : Type} (f : Nat → α → GpuInfo) (hf : ∀ i a, (f i a).index = i)
    (xs : List α) : WellIndexed (xs.mapIdx f) := by
  induction xs using List.reverseRecOn with
  | nil => exact WellIndexed.nil
  | append_singleton xs x ih =>
    rw [List.mapIdx_concat]
    exact ih.snoc (by rw [hf, List.length_mapIdx])

theorem detectViaLspci_ok {gpus : List GpuInfo} (h : (detectViaLspci env).value = .ok gpus) :
    WellIndexed gpus ∧ gpus.length = lspciCount env := by
  have hvalue : (detectViaLspci env).value =
      (runCommand env .detection lspciCommand).value.map fun text =>
        (gpuLines text).mapIdx fun i _ => { index := i, arch := .str unknownArch, vramMb := 0 } :=
          rfl
  rw [hvalue] at h
  unfold lspciCount
  cases hrun : (runCommand env .detection lspciCommand).value with
  | error e =>
    rw [hrun] at h
    cases h
  | ok out =>
    rw [hrun] at h
    cases h
    exact ⟨wellIndexed_mapIdx _ (fun _ _ => rfl) _, List.length_mapIdx⟩

theorem addNode_ok {gpus gpus' : List GpuInfo} {text : Txt} (hgpus : WellIndexed gpus)
    (h : addNode gpus text = .ok gpus') : WellIndexed gpus' := by
  obtain ⟨props, _, h⟩ := Fallible.bind_eq_ok.mp h
  by_cases hcpu : getProp props "gpu_id".toList "0".toList = "0".toList
  · rw [if_pos hcpu] at h
    cases h
    exact hgpus
  · rw [if_neg hcpu] at h
    obtain ⟨mem, _, h⟩ := Fallible.bind_eq_ok.mp h
    obtain ⟨numa, _, rfl⟩ := Fallible.map_eq_ok.mp h
    exact hgpus.snoc rfl

theorem kfdLocalNodes_ok {names : List Txt} : ∀ {gpus gpus' : List GpuInfo}, WellIndexed gpus →
    kfdLocalNodes env gpus names = .ok gpus' → WellIndexed gpus' := by
  induction names with
  | nil =>
    intro gpus gpus' hgpus h
    cases h
    exact hgpus
  | cons name names ih =>
    intro gpus gpus' hgpus h
    obtain ⟨there, _, h⟩ := Fallible.bind_eq_ok.mp h
    cases there with
    | false => exact ih hgpus h
    | true =>
      obtain ⟨text, _, h⟩ := Fallible.bind_eq_ok.mp h
      obtain ⟨gpus₁, hadd, h⟩ := Fallible.bind_eq_ok.mp h
      exact ih (addNode_ok hgpus hadd) h

theorem kfdRemoteNodes_ok {names : List Txt} : ∀ {gpus gpus' : List GpuInfo}, WellIndexed gpus →
    (kfdRemoteNodes env gpus names).value = .ok gpus' → WellIndexed gpus' := by
  induction names with
  | nil =>
    intro gpus gpus' hgpus h
    cases h
    exact hgpus
  | cons name names ih =>
    intro gpus gpus' hgpus h
    rw [kfdRemoteNodes, Traced.value_bind] at h
    cases hrun : (runCommand env .detection
        ("cat ".toList ++ propFile name ++ " 2>/dev/null".toList)).value with
    | error e =>
      rw [hrun] at h
      cases e with
      | runtimeError => exact ih hgpus h
      | _ => cases h
    | ok text =>
      rw [hrun] at h
      by_cases hempty : text = []
      · simp only [hempty, if_true] at h
        exact ih hgpus h
      · simp only [hempty, if_false] at h
        cases hadd : addNode gpus text with
        | error e =>
          rw [hadd] at h
          cases h
        | ok gpus₁ =>
          rw [hadd] at h
          exact ih (addNode_ok hgpus hadd) h

theorem detectViaKfd_ok {d : Detector} {gpus : List GpuInfo}
    (h : (detectViaKfd env d).value = .ok gpus) : WellIndexed gpus := by
  unfold detectViaKfd at h
  cases hremote : d.remote with
  | false =>
    rw [hremote] at h
    obtain ⟨there, _, h⟩ := Fallible.bind_eq_ok.mp h
    cases there with
    | false => cases h
    | true =>
      obtain ⟨names, _, h⟩ := Fallible.bind_eq_ok.mp h
      exact kfdLocalNodes_ok env WellIndexed.nil h
  | true =>
    rw [hremote, if_pos rfl, kfdRemote, Traced.value_bind] at h
    cases hrun : (runCommand env .detection ("ls ".toList ++ kfdBase)).value with
    | error e =>
      rw [hrun] at h
      cases e <;> cases h
    | ok out =>
      rw [hrun] at h
      exact kfdRemoteNodes_ok env WellIndexed.nil h

theorem gpuOfEntry_index {i : Nat} {dev : JsonValue} {g : GpuInfo} (h : gpuOfEntry i dev = .ok g) :
    g.index = i := by
  obtain ⟨asic, _, h⟩ := Fallible.bind_eq_ok.mp h
  obtain ⟨vram, _, h⟩ := Fallible.bind_eq_ok.mp h
  obtain ⟨size, _, h⟩ := Fallible.bind_eq_ok.mp h
  obtain ⟨vramMb, _, h⟩ := Fallible.bind_eq_ok.mp h
  obtain ⟨arch, _, rfl⟩ := Fallible.map_eq_ok.mp h
  rfl

theorem detectViaAmdSmiAt_ok {path : Txt} {gpus : List GpuInfo}
    (h : (detectViaAmdSmiAt loads env path).value = .ok gpus) : WellIndexed gpus := by
  obtain ⟨text, _, h⟩ := Fallible.bind_eq_ok.mp h
  obtain ⟨data, _, h⟩ := Fallible.bind_eq_ok.mp h
  obtain ⟨entries, _, h⟩ := Fallible.bind_eq_ok.mp h
  have hall := Fallible.forall₂_of_mapM h
  have hindex : List.Forall₂ (· = ·) (entries.zipIdx.map Prod.snd) (gpus.map GpuInfo.index) := by
    rw [List.forall₂_map_left_iff, List.forall₂_map_right_iff]
    exact hall.imp fun x g hg => (gpuOfEntry_index hg).symm
  rw [List.forall₂_eq_eq_eq] at hindex
  have hlength : gpus.length = entries.length := by
    rw [← hall.length_eq, List.length_zipIdx]
  unfold WellIndexed
  rw [← hindex, hlength, List.zipIdx_map_snd, List.range_eq_range']

/-! ### Enrichment keeps the indices -/

theorem map_index_zipWith {α : Type} (f : GpuInfo → α → GpuInfo)
    (hf : ∀ g a, (f g a).index = g.index) {gpus : List GpuInfo} :
    ∀ {xs : List α}, xs.length = gpus.length →
      (gpus.zipWith f xs).map GpuInfo.index = gpus.map GpuInfo.index := by
  induction gpus with
  | nil =>
    intro xs _
    cases xs <;> rfl
  | cons g gpus ih =>
    intro xs hlength
    cases xs with
    | nil => cases hlength
    | cons x xs =>
      rw [List.zipWith_cons_cons, List.map_cons, List.map_cons, hf,
        ih (Nat.succ.inj hlength)]

theorem enrichViaKfd_index (d : Detector) (gpus : List GpuInfo) :
    (enrichViaKfd env d gpus).value.map GpuInfo.index = gpus.map GpuInfo.index := by
  rw [enrichViaKfd, Traced.value_bind]
  cases (detectViaKfd env d).value with
  | error e => rfl
  | ok kfdGpus =>
    by_cases hskip : kfdGpus = [] ∨ kfdGpus.length ≠ gpus.length
    · simp only [hskip, if_true]
      rfl
    · simp only [hskip, if_false]
      rw [Traced.value_pure]
      apply map_index_zipWith
      · intro g k
        rfl
      · exact not_not.mp (not_or.mp hskip).2

theorem enrichFrom_index (gpus : List GpuInfo) (paths : List Txt) :
    (enrichFrom loads env gpus paths).value.map GpuInfo.index = gpus.map GpuInfo.index := by
  induction paths with
  | nil => rfl
  | cons path paths ih =>
    rw [enrichFrom, Traced.value_bind]
    cases (detectViaAmdSmiAt loads env path).value with
    | error e => exact ih
    | ok smiGpus =>
      by_cases hempty : smiGpus = []
      · simp only [hempty, if_true]
        exact ih
      by_cases hlength : smiGpus.length = gpus.length
      · simp only [hempty, hlength, if_false, if_true]
        rw [Traced.value_pure]
        apply map_index_zipWith
        · intro g k
          rfl
        · exact hlength
      simp only [hempty, hlength, if_false]
      match smiGpus with
      | [] => exact ih
      | [physical] =>
        by_cases hpartitions : 1 < gpus.length
        · simp only [hpartitions, if_true]
          rw [Traced.value_pure, List.map_map]
          rfl
        · simp only [hpartitions, if_false]
          exact ih
      | _ :: _ :: _ => exact ih

theorem enrichViaAmdSmi_index (d : Detector) (gpus : List GpuInfo) :
    (enrichViaAmdSmi loads env d gpus).value.map GpuInfo.index = gpus.map GpuInfo.index := by
  unfold enrichViaAmdSmi
  by_cases hall : gpus.all fun g => 0 < g.vramMb
  · rw [if_pos hall]
    rfl
  · rw [if_neg hall]
    exact enrichFrom_index loads env gpus _

/-! ### The diagnostics -/

theorem parseProps_error {text : Txt} {e : Raised} :
    parseProps text = .error e ↔ Malformed text ∧ e = .valueError := by
  unfold parseProps Malformed
  rw [@Fallible.mapM_eq_error _ _ _ _ .valueError]
  · rw [and_comm]
    refine and_congr_left fun _ => exists_congr fun line => ?_
    rw [List.mem_filter, decide_eq_true_eq, and_assoc]
    refine and_congr_right fun _ => and_congr_right fun _ => ?_
    cases splitOnce line <;> simp
  · intro line e h
    cases hsplit : splitOnce line with
    | none =>
      rw [hsplit] at h
      cases h
      rfl
    | some item =>
      rw [hsplit] at h
      cases h

theorem printNode_error {name : Txt} {e : Raised} :
    printNode env name = .error e ↔ NodeRaises env name e := by
  unfold printNode NodeRaises
  rw [Fallible.bind_eq_error]
  refine or_congr_right ?_
  constructor
  · intro ⟨there, hthere, h⟩
    cases there with
    | false => cases h
    | true =>
      refine ⟨hthere, ?_⟩
      rcases Fallible.bind_eq_error.mp h with h | ⟨text, htext, h⟩
      · exact Or.inl h
      · exact Or.inr ⟨text, htext, parseProps_error.mp (Fallible.map_eq_error.mp h)⟩
  · intro ⟨hthere, h⟩
    refine ⟨true, hthere, Fallible.bind_eq_error.mpr ?_⟩
    rcases h with h | ⟨text, htext, h⟩
    · exact Or.inl h
    · exact Or.inr ⟨text, htext, Fallible.map_eq_error.mpr (parseProps_error.mpr h)⟩

theorem printNodes_error {names : List Txt} {e : Raised} :
    printNodes env names = .error e ↔ FirstRaises env names e := by
  induction names with
  | nil =>
    constructor
    · intro h
      cases h
    · intro ⟨before, name, rest, heq, _⟩
      cases before <;> cases heq
  | cons name names ih =>
    rw [printNodes, Fallible.bind_eq_error]
    constructor
    · intro h
      rcases h with h | ⟨_, hok, h⟩
      · refine ⟨[], name, names, rfl, ?_, (printNode_error env).mp h⟩
        intro n hn
        cases hn
      · obtain ⟨before, name', rest, heq, hquiet, hraises⟩ := ih.mp h
        refine ⟨name :: before, name', rest, by rw [heq]; rfl, ?_, hraises⟩
        intro n hn e' hn'
        rcases List.mem_cons.mp hn with rfl | hn
        · rw [(printNode_error env).mpr hn'] at hok
          cases hok
        · exact hquiet n hn e' hn'
    · intro ⟨before, name', rest, heq, hquiet, hraises⟩
      cases before with
      | nil =>
        cases heq
        exact Or.inl ((printNode_error env).mpr hraises)
      | cons n before =>
        cases heq
        cases hok : printNode env name with
        | error e' =>
          exact absurd ((printNode_error env).mp hok) (hquiet name List.mem_cons_self e')
        | ok u =>
          refine Or.inr ⟨u, rfl, ih.mpr ⟨before, name', rest, rfl, ?_, hraises⟩⟩
          exact fun n hn => hquiet n (List.mem_cons_of_mem _ hn)

theorem exceptOsError_error {x : Except Raised Unit} {e : Raised} :
    exceptOsError x = .error e ↔ x = .error e ∧ e ≠ .osError := by
  cases x with
  | ok u => simp [exceptOsError]
  | error e' => cases e' <;> simp [exceptOsError] <;> rintro rfl <;> decide

theorem printKfd_error {e : Raised} : printKfd env = .error e ↔
    env.pathExists .diagnostics kfdBase = .error e ∨
      env.pathExists .diagnostics kfdBase = .ok true ∧ e ≠ .osError ∧
        (env.iterdir .diagnostics kfdBase = .error e ∨
          ∃ names, env.iterdir .diagnostics kfdBase = .ok names ∧
            FirstRaises env ((sorted names).take 8) e) := by
  unfold printKfd
  rw [Fallible.bind_eq_error]
  refine or_congr_right ?_
  constructor
  · intro ⟨there, hthere, h⟩
    cases there with
    | false => cases h
    | true =>
      obtain ⟨h, he⟩ := exceptOsError_error.mp h
      refine ⟨hthere, he, (Fallible.bind_eq_error.mp h).imp_right ?_⟩
      intro ⟨names, hnames, h⟩
      exact ⟨names, hnames, (printNodes_error env).mp h⟩
  · intro ⟨hthere, he, h⟩
    refine ⟨true, hthere, exceptOsError_error.mpr ⟨Fallible.bind_eq_error.mpr ?_, he⟩⟩
    refine h.imp_right ?_
    intro ⟨names, hnames, h⟩
    exact ⟨names, hnames, (printNodes_error env).mpr h⟩

theorem printDri_error {e : Raised} : printDri env = .error e ↔
    env.pathExists .diagnostics driPath = .error e ∨
      env.pathExists .diagnostics driPath = .ok true ∧ e ≠ .osError ∧
        env.iterdir .diagnostics driPath = .error e := by
  unfold printDri
  rw [Fallible.bind_eq_error]
  refine or_congr_right ?_
  constructor
  · intro ⟨there, hthere, h⟩
    cases there with
    | false => cases h
    | true =>
      obtain ⟨h, he⟩ := exceptOsError_error.mp h
      exact ⟨hthere, he, Fallible.map_eq_error.mp h⟩
  · intro ⟨hthere, he, h⟩
    exact ⟨true, hthere, exceptOsError_error.mpr ⟨Fallible.map_eq_error.mpr h, he⟩⟩

theorem printKfdDriDiagnostics_raises :
    (∃ e, printKfdDriDiagnostics env = .error e) ↔ DiagnosticsRaise env := by
  have hsplit : (∃ e, printKfdDriDiagnostics env = .error e) ↔
      (∃ e, printKfd env = .error e) ∨ ∃ e, printDri env = .error e := by
    unfold printKfdDriDiagnostics
    cases printKfd env with
    | error e => exact ⟨fun _ => Or.inl ⟨e, rfl⟩, fun _ => ⟨e, rfl⟩⟩
    | ok u =>
      constructor
      · exact Or.inr
      · intro h
        rcases h with ⟨e, h⟩ | h
        · cases h
        · exact h
  unfold DiagnosticsRaise
  rw [hsplit, exists_congr fun e => printKfd_error env, exists_congr fun e => printDri_error env,
    exists_or, exists_or, exists_and_left, exists_and_left, or_assoc]

/-! ### The cascade -/

theorem sound_of_value {d d' : Detector} {gpus : List GpuInfo}
    (h : (detect loads env d).value = (.ok gpus, d')) (hcached : d'.cached = some gpus)
    (hindex : WellIndexed gpus) (hcount : 0 < lspciCount env → gpus.length = lspciCount env) :
    Sound loads env d := by
  refine ⟨gpus, d', h, hindex, hcount, fun env' => ?_⟩
  unfold detect
  rw [hcached]
  rfl

/-- A result of one of the later stages. -/
def Kept (x : Except Raised (List GpuInfo) × Detector) : Prop :=
  ∃ gpus, x.1 = .ok gpus ∧ x.2.cached = some gpus ∧ WellIndexed gpus

theorem kept_keep (d : Detector) {gpus : List GpuInfo} (h : WellIndexed gpus) :
    Kept (keep env d gpus).value := ⟨gpus, rfl, rfl, h⟩

theorem kept_nothing (d : Detector) : Kept (.ok [], { d with cached := some [] }) :=
  ⟨[], rfl, rfl, WellIndexed.nil⟩

theorem kept_detectViaRock (d : Detector) : Kept (detectViaRock loads env d).value := by
  unfold detectViaRock
  by_cases hrock : d.rockDir = []
  · rw [if_pos hrock]
    exact kept_nothing d
  · rw [if_neg hrock, Traced.value_bind]
    match h : (detectViaAmdSmiAt loads env (rockAmdSmi d)).value with
    | .error e => exact kept_nothing d
    | .ok [] => exact kept_nothing d
    | .ok (g :: gs) => exact kept_keep env d (detectViaAmdSmiAt_ok loads env h)

theorem kept_detectViaTools (d : Detector) : Kept (detectViaTools loads env d).value := by
  unfold detectViaTools
  rw [Traced.value_bind]
  match h : (detectViaAmdSmiAt loads env systemAmdSmi).value with
  | .error e => exact kept_detectViaRock loads env d
  | .ok [] => exact kept_detectViaRock loads env d
  | .ok (g :: gs) => exact kept_keep env d (detectViaAmdSmiAt_ok loads env h)

/-- A stage keeps a result, or it raises, which it does just when `raises` holds. -/
def Settles (d : Detector) (x : Except Raised (List GpuInfo) × Detector) (raises : Prop) : Prop :=
  Kept x ∧ ¬ raises ∨ (∃ e, x = (.error e, d)) ∧ raises

theorem Settles.and_left {d : Detector} {x : Except Raised (List GpuInfo) × Detector} {p q : Prop}
    (hp : p) (h : Settles d x q) : Settles d x (p ∧ q) := by
  rcases h with ⟨hkept, hno⟩ | ⟨herror, hyes⟩
  · exact Or.inl ⟨hkept, fun hpq => hno hpq.2⟩
  · exact Or.inr ⟨herror, hp, hyes⟩

/-- Without `lspci` and KFD there is a result, or the diagnostics raise. -/
theorem detectWithoutKfd_settles (d : Detector) :
    Settles d (detectWithoutKfd loads env d).value (d.remote = false ∧ DiagnosticsRaise env) := by
  unfold detectWithoutKfd
  cases hremote : d.remote with
  | true => exact Or.inl ⟨kept_detectViaTools loads env d, fun h => nomatch h.1⟩
  | false =>
    rw [if_neg Bool.false_ne_true]
    cases hprint : printKfdDriDiagnostics env with
    | error e =>
      exact Or.inr ⟨⟨e, rfl⟩, rfl, (printKfdDriDiagnostics_raises env).mp ⟨e, hprint⟩⟩
    | ok u =>
      refine Or.inl ⟨kept_detectViaTools loads env d, fun h => ?_⟩
      obtain ⟨e, he⟩ := (printKfdDriDiagnostics_raises env).mpr h.2
      rw [hprint] at he
      cases he

theorem detectWithoutLspci_settles (d : Detector) :
    Settles d (detectWithoutLspci loads env d).value
      (NoKfdGpu env d ∧ d.remote = false ∧ DiagnosticsRaise env) := by
  have hvalue : (detectWithoutLspci loads env d).value = _ := Traced.value_bind _ _
  match hkfd : (detectViaKfd env d).value with
  | .ok (g :: gs) =>
    rw [hkfd] at hvalue
    refine Or.inl ⟨?_, fun h => h.1 g gs hkfd⟩
    rw [hvalue]
    exact kept_keep env d
      ((detectViaKfd_ok env hkfd).of_map (enrichViaAmdSmi_index loads env d _))
  | .ok [] =>
    rw [hkfd] at hvalue
    rw [hvalue]
    exact (detectWithoutKfd_settles loads env d).and_left
      fun g gs h => by rw [hkfd] at h; cases h
  | .error e =>
    rw [hkfd] at hvalue
    rw [hvalue]
    exact (detectWithoutKfd_settles loads env d).and_left
      fun g gs h => by rw [hkfd] at h; cases h

theorem lspciCount_of_error {e : Raised} (h : (detectViaLspci env).value = .error e) :
    lspciCount env = 0 := by
  unfold lspciCount
  rw [Fallible.map_eq_error.mp h]

/-- Where `lspci` shows no GPU, the later stages decide. -/
theorem sound_iff_of_count_zero {d : Detector} (hcount : lspciCount env = 0)
    (hvalue : (detect loads env d).value = (detectWithoutLspci loads env d).value) :
    Sound loads env d ↔ ¬ (NoKfdGpu env d ∧ d.remote = false ∧ DiagnosticsRaise env) := by
  rcases detectWithoutLspci_settles loads env d with
    ⟨⟨gpus, hok, hcached, hindex⟩, hno⟩ | ⟨⟨e, herror⟩, hyes⟩
  · refine iff_of_true ?_ hno
    refine sound_of_value loads env (hvalue.trans (Prod.ext hok rfl)) hcached hindex ?_
    intro hpos
    omega
  · refine iff_of_false ?_ (fun hno => hno hyes)
    intro ⟨gpus, d', hok, _⟩
    rw [hvalue, herror] at hok
    cases hok

/-- A list of GPUs that `lspci` shows is the result, with more details. -/
theorem sound_of_lspci (rockDir : Txt) (remote : Bool) {g : GpuInfo} {gs : List GpuInfo}
    (hlspci : (detectViaLspci env).value = .ok (g :: gs)) :
    Sound loads env (Detector.init rockDir remote) := by
  have hvalue : (detect loads env (Detector.init rockDir remote)).value = _ :=
    Traced.value_bind _ _
  rw [hlspci] at hvalue
  obtain ⟨hindex, hcount⟩ := detectViaLspci_ok env hlspci
  have hkeep := (enrichViaAmdSmi_index loads env (Detector.init rockDir remote) _).trans
    (enrichViaKfd_index env (Detector.init rockDir remote) (g :: gs))
  refine sound_of_value loads env hvalue rfl (hindex.of_map hkeep) fun _ => ?_
  rw [← hcount, ← List.length_map (f := GpuInfo.index), hkeep, List.length_map]

/-- Detection is sound exactly when `lspci` or the KFD tree shows a GPU, or the node is
remote, or the diagnostics do not raise. -/
theorem detect_sound_iff (rockDir : Txt) (remote : Bool) :
    Sound loads env (Detector.init rockDir remote) ↔
      0 < lspciCount env ∨ ¬ NoKfdGpu env (Detector.init rockDir remote) ∨ remote = true ∨
        ¬ DiagnosticsRaise env := by
  have hvalue : (detect loads env (Detector.init rockDir remote)).value = _ :=
    Traced.value_bind _ _
  have hlater : ¬ (NoKfdGpu env (Detector.init rockDir remote) ∧
      (Detector.init rockDir remote).remote = false ∧ DiagnosticsRaise env) ↔
      ¬ NoKfdGpu env (Detector.init rockDir remote) ∨ remote = true ∨ ¬ DiagnosticsRaise env := by
    rw [not_and_or, not_and_or, show (Detector.init rockDir remote).remote = remote from rfl,
      Bool.not_eq_false]
  match hlspci : (detectViaLspci env).value with
  | .ok (g :: gs) =>
    have hcount := (detectViaLspci_ok env hlspci).2
    exact iff_of_true (sound_of_lspci loads env rockDir remote hlspci)
      (Or.inl (hcount ▸ Nat.succ_pos _))
  | .ok [] =>
    rw [hlspci] at hvalue
    have hcount := (detectViaLspci_ok env hlspci).2.symm
    rw [sound_iff_of_count_zero loads env hcount hvalue, hlater,
      or_iff_right (Nat.not_lt.mpr (Nat.le_zero.mpr hcount))]
  | .error e =>
    rw [hlspci] at hvalue
    have hcount := lspciCount_of_error env hlspci
    rw [sound_iff_of_count_zero loads env hcount hvalue, hlater,
      or_iff_right (Nat.not_lt.mpr (Nat.le_zero.mpr hcount))]

end

/-! ### A property without a value -/

section

/-- No `lspci`, no `amd-smi`, and a CPU node whose name is empty. -/
def unnamedNode : Env where
  command := fun _ _ => .ok (127, [])
  pathExists := fun _ _ => .ok true
  iterdir := fun _ _ => .ok ["0".toList]
  readText := fun _ _ => .ok "gpu_id 0\nname \n".toList

theorem unnamedNode_raises :
    ¬ Sound (fun _ => .error .valueError) unnamedNode (Detector.init [] false) := by
  intro ⟨gpus, d', h, _⟩
  have hraised : (detect (fun _ => .error .valueError) unnamedNode (Detector.init [] false)).value =
      (.error .valueError, Detector.init [] false) := rfl
  rw [hraised] at h
  cases h

end

end Detection
end Gpu
end RocmTests

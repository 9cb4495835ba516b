import RocmTests.Collections.Dict
import RocmTests.Executors.Executor
import RocmTests.Text.JsonValue

/-!
# The pool an xdist worker rebuilds

The master writes its pool's topology as JSON into `workerinput` and each worker
builds a pool from it.  JSON is a value tree here: `json.loads` gives back what
`json.dumps` was given for the strings, numbers, lists and string-keyed dicts
that occur.

A worker normally takes the GPU lists from the JSON and opens no SSH session.
When the JSON has no GPU list at all, the constructor falls back to detection,
whose results are the argument `redetected`.
-/

namespace RocmTests
namespace Plugins
namespace WorkerPool

open Gpu Nodes Executors Text

/-! ## What the pool takes from JSON -/

/-- A dict whose keys are strings. -/
def dict (items : List (String × JsonValue)) : JsonValue :=
  .obj (items.map fun e => (e.1.toList, e.2))

def ofString (s : String) : JsonValue := .str s.toList

def ofOptional : Option String → JsonValue
  | none => .null
  | some s => ofString s

def item? (key : String) : JsonValue → Option JsonValue
  | .obj items => JsonValue.get? items key.toList
  | _ => none

def str? : JsonValue → Option String
  | .str s => some (String.ofList s)
  | _ => none

def int? : JsonValue → Option Int
  | .int n => some n
  | _ => none

def float? : JsonValue → Option ℚ
  | .float (.finite q) => some q
  | .int n => some n
  | _ => none

def arr? : JsonValue → Option (List JsonValue)
  | .arr xs => some xs
  | _ => none

def obj? : JsonValue → Option (List (Txt × JsonValue))
  | .obj items => some items
  | _ => none

/-- `None` or a string. -/
def optional? : JsonValue → Option (Option String)
  | .null => some none
  | .str s => some (some (String.ofList s))
  | _ => none

@[simp] theorem item?_dict_cons (key k : String) (v : JsonValue)
    (items : List (String × JsonValue)) :
    item? key (dict ((k, v) :: items)) = if key = k then some v else item? key (dict items) := by
  show List.lookup _ _ = _
  rw [List.map_cons, List.lookup_cons]
  by_cases h : key = k
  · rw [if_pos h, h, beq_self_eq_true]
  · rw [if_neg h, beq_false_of_ne fun heq => h (String.toList_inj.mp heq)]
    rfl

@[simp] theorem str?_ofString (s : String) : str? (ofString s) = some s := by
  rw [ofString, str?, String.ofList_toList]

@[simp] theorem optional?_ofOptional (x : Option String) : optional? (ofOptional x) = some x := by
  cases x with
  | none => rfl
  | some s => rw [ofOptional, ofString, optional?, String.ofList_toList]

/-- A constructed pool.  `objs` holds the session objects that
`topology.sshSessions` refers to. -/
structure NodePool where
  topology : Topology
  rockDir : Option String
  objs : SshTable

namespace NodePool

def gpuList (p : NodePool) (label : String) : List GpuInfo := (p.topology.gpus label).getD []

/-- `self._allocators[label] = GpuAllocator(...)`. -/
def setAllocator (p : NodePool) (label : String) (gpus : List GpuInfo) : NodePool :=
  { p with
    topology := { p.topology with gpus := Function.update p.topology.gpus label (some gpus) } }

/-- Open the session object `ref` to a remote node. -/
def openSession (p : NodePool) (spec : NodeSpec) (ref : Nat) : NodePool :=
  { p with
    topology := { p.topology with
      sshSessions := Function.update p.topology.sshSessions spec.label (some ref) }
    objs := Function.update p.objs ref
      { host := spec.hostname, user := spec.username, keyPath := spec.sshKey,
        password := spec.password } }

end NodePool

/-! ## Writing -/

/-- The detected list of every node that has an allocator. -/
def gpuTopology (p : NodePool) : List (String × List GpuInfo) :=
  p.topology.nodeSpecs.foldl (fun d spec =>
    match p.topology.gpus spec.label with
    | none => d
    | some gpus => Dict.assignIn d spec.label gpus) []

def encodeGpu (g : GpuInfo) : JsonValue :=
  dict [("index", .int g.index), ("arch", ofString g.arch), ("vram_mb", .int g.vramMb),
    ("numa_node", .int g.numaNode)]

def encodeSpec (spec : NodeSpec) : JsonValue :=
  dict [("hostname", ofString spec.hostname), ("username", ofOptional spec.username),
    ("password", ofOptional spec.password), ("ssh_key", ofOptional spec.sshKey),
    ("gpu_arch", ofOptional spec.gpuArch), ("label", ofString spec.label)]

/-- The JSON of `pytest_configure_node`. -/
def encodeTopology (p : NodePool) : JsonValue :=
  dict [("nodes", .arr (p.topology.nodeSpecs.map encodeSpec)),
    ("gpu_topology", dict ((gpuTopology p).map fun e => (e.1, .arr (e.2.map encodeGpu)))),
    ("rock_dir", ofOptional p.rockDir),
    ("headroom_gb", .float (.finite p.topology.headroomGb))]

/-! ## Detection -/

/-- The arch filter of `_detect_node`, which falls back to every GPU when none
matches. -/
def archFilter (spec : NodeSpec) (gpus : List GpuInfo) : List GpuInfo :=
  match spec.gpuArch with
  | none => gpus
  | some arch =>
    if arch ≠ "" ∧ gpus.any (fun g => decide (g.arch ≠ "unknown")) then
      match gpus.filter fun g => decide (g.arch = arch) with
      | [] => gpus
      | filtered => filtered
    else gpus

/-- `_detect_node`, with the session object `ref` for a remote node.  `none` is a
detection that raised. -/
def detectNode (hostname : Option String) (p : NodePool)
    (x : (NodeSpec × Option (List GpuInfo)) × Nat) : NodePool :=
  let opened := if isLocal hostname x.1.1 then p else p.openSession x.1.1 x.2
  match x.1.2 with
  | none => opened
  | some gpus => opened.setAllocator x.1.1.label (archFilter x.1.1 gpus)

def emptyPool (nodeSpecs : List NodeSpec) (rockDir : Option String) (headroomGb : ℚ) : NodePool :=
  { topology :=
      { nodeSpecs := nodeSpecs, gpus := fun _ => none, headroomGb := headroomGb,
        sshSessions := fun _ => none }
    rockDir := rockDir
    objs := fun _ => { host := "" } }

/-- `_detect_all`: the nodes in the order their detection completed. -/
def detectAll (hostname : Option String) (nodeSpecs : List NodeSpec) (rockDir : Option String)
    (headroomGb : ℚ) (completed : List (NodeSpec × Option (List GpuInfo))) : NodePool :=
  completed.zipIdx.foldl (detectNode hostname) (emptyPool nodeSpecs rockDir headroomGb)

/-! ## Reading -/

def decodeSpec (entry : JsonValue) : Option NodeSpec := do
  let hostname ← str? (← item? "hostname" entry)
  let username ← optional? ((item? "username" entry).getD .null)
  let password ← optional? ((item? "password" entry).getD .null)
  let sshKey ← optional? ((item? "ssh_key" entry).getD .null)
  let gpuArch ← optional? ((item? "gpu_arch" entry).getD .null)
  let label ← str? (← item? "label" entry)
  pure { hostname, username, password, sshKey, gpuArch, label }

def decodeGpu (g : JsonValue) : Option GpuInfo := do
  let index ← int? (← item? "index" g)
  let arch ← str? (← item? "arch" g)
  let vramMb ← int? (← item? "vram_mb" g)
  let numaNode ← int? ((item? "numa_node" g).getD (.int (-1)))
  pure { index, arch, vramMb, numaNode }

def decodeGpus (e : Txt × JsonValue) : Option (String × List GpuInfo) := do
  let gpus ← (← arr? e.2).mapM decodeGpu
  pure (String.ofList e.1, gpus)

/-- `_init_from_prefilled`. -/
def initFromPrefilled (nodeSpecs : List NodeSpec) (rockDir : Option String) (headroomGb : ℚ)
    (prefilled : List (String × List GpuInfo)) : NodePool :=
  nodeSpecs.foldl (fun p spec =>
      p.setAllocator spec.label ((Dict.valueIn prefilled spec.label).getD []))
    (emptyPool nodeSpecs rockDir headroomGb)

/-- `_configure_worker_pool`.  `none` is `config._node_pool = None`; an argument
of `none` is an empty `workerinput` entry.  `redetected` is what detection in the
worker would give, `none` when it does not finish in time. -/
def configureWorkerPool (hostname : Option String)
    (redetected : Option (List (NodeSpec × Option (List GpuInfo)))) (topology : Option JsonValue) :
    Option NodePool := do
  let topology ← topology
  let nodes ← arr? ((item? "nodes" topology).getD (.arr []))
  let nodeSpecs ← nodes.mapM decodeSpec
  if nodeSpecs = [] then none
  else do
    let rawGpuTopology ← obj? ((item? "gpu_topology" topology).getD (.obj []))
    let prefilledGpus ← rawGpuTopology.mapM decodeGpus
    let rockDir ← optional? ((item? "rock_dir" topology).getD .null)
    let headroomGb ← float? ((item? "headroom_gb" topology).getD (.float (.finite 0)))
    if prefilledGpus = [] then do
      let completed ← redetected
      pure (detectAll hostname nodeSpecs rockDir headroomGb completed)
    else pure (initFromPrefilled nodeSpecs rockDir headroomGb prefilledGpus)

/-! ## Faithful copies -/

/-- A local executor, or an SSH executor to a host. -/
inductive Kind where
  | local
  | ssh (host : String)
deriving DecidableEq, Repr

/-- What `make_executor` makes of a slot; `none` when it raises. -/
def NodePool.executorKind (p : NodePool) (hostname : Option String) (slot : NodeSlot) :
    Option Kind :=
  match slotMakeExecutor hostname slot "" none none p.objs with
  | .error _ => none
  | .ok (.local _ _, _) => some .local
  | .ok (.ssh ref, objs) => some (.ssh (objs ref).host)

/-- The worker's pool has the master's nodes, GPU lists and reserve, and makes of
every slot that can be acquired from it what the master's would. -/
structure Faithful (hostname : Option String) (master worker : NodePool) : Prop where
  nodeSpecs : worker.topology.nodeSpecs = master.topology.nodeSpecs
  gpus : ∀ spec ∈ master.topology.nodeSpecs,
    worker.gpuList spec.label = master.gpuList spec.label
  headroom : worker.topology.headroomGb = master.topology.headroomGb
  executors : ∀ spec ∈ worker.topology.nodeSpecs, ∀ gpu ∈ worker.gpuList spec.label, ∀ lock,
    ∃ kind, worker.executorKind hostname (Pool.newSlot worker.topology spec gpu lock) = some kind ∧
      master.executorKind hostname (Pool.newSlot master.topology spec gpu lock) = some kind

/-! ## The round trip -/

theorem mapM_map_of_inverse {α β : Type} {encode : α → β} {decode : β → Option α}
    (h : ∀ a, decode (encode a) = some a) (as : List α) :
    (as.map encode).mapM decode = some as := by
  induction as with
  | nil => rfl
  | cons a as ih => simp [h, ih]

theorem decodeSpec_encodeSpec (spec : NodeSpec) : decodeSpec (encodeSpec spec) = some spec := by
  simp [decodeSpec, encodeSpec]

theorem decodeGpu_encodeGpu (g : GpuInfo) : decodeGpu (encodeGpu g) = some g := by
  simp [decodeGpu, encodeGpu, int?]

/-- The items of the dict of GPU lists. -/
theorem decodeGpus_gpuTopology (d : List (String × List GpuInfo)) :
    ∃ items, obj? (dict (d.map fun e => (e.1, .arr (e.2.map encodeGpu)))) = some items ∧
      items.mapM decodeGpus = some d := by
  refine ⟨_, rfl, ?_⟩
  rw [List.map_map]
  refine mapM_map_of_inverse (fun e => ?_) d
  simp [decodeGpus, arr?, mapM_map_of_inverse decodeGpu_encodeGpu]

/-- What the worker builds from the master's JSON. -/
theorem configureWorkerPool_encode (hostname : Option String)
    (redetected : Option (List (NodeSpec × Option (List GpuInfo)))) (p : NodePool) :
    configureWorkerPool hostname redetected (some (encodeTopology p)) =
      if p.topology.nodeSpecs = [] then none
      else if gpuTopology p = [] then
        redetected.map (detectAll hostname p.topology.nodeSpecs p.rockDir p.topology.headroomGb)
      else some (initFromPrefilled p.topology.nodeSpecs p.rockDir p.topology.headroomGb
        (gpuTopology p)) := by
  have hspecs := mapM_map_of_inverse decodeSpec_encodeSpec p.topology.nodeSpecs
  obtain ⟨items, hitems, hgpus⟩ := decodeGpus_gpuTopology (gpuTopology p)
  by_cases hnil : p.topology.nodeSpecs = []
  · simp [configureWorkerPool, encodeTopology, arr?, hnil]
  · simp only [configureWorkerPool, encodeTopology, arr?, float?, item?_dict_cons, hspecs, hitems,
      hgpus, hnil, optional?_ofOptional, String.reduceEq, Option.getD_some,
      Option.bind_eq_bind, Option.bind_some, if_true, if_false]
    by_cases hempty : gpuTopology p = []
    · rw [if_pos hempty, if_pos hempty]
      cases redetected <;> rfl
    · rw [if_neg hempty, if_neg hempty]
      rfl

/-! ## GPU lists -/

/-- The dict after writing the lists of `specs` over `d`. -/
theorem valueIn_foldl_assignIn (T : Topology) (specs : List NodeSpec)
    (d : List (String × List GpuInfo)) (label : String) :
    Dict.valueIn (specs.foldl (fun d spec =>
      match T.gpus spec.label with
      | none => d
      | some gpus => Dict.assignIn d spec.label gpus) d) label =
        if label ∈ specs.map NodeSpec.label then (T.gpus label).or (Dict.valueIn d label)
        else Dict.valueIn d label := by
  induction specs generalizing d with
  | nil => simp
  | cons spec specs ih =>
    rw [List.foldl_cons, ih, List.map_cons]
    by_cases hself : label = spec.label
    · subst hself
      cases hg : T.gpus spec.label with
      | none => simp
      | some gpus => simp [Dict.valueIn_assignIn]
    · cases hg : T.gpus spec.label with
      | none => simp [hself]
      | some gpus => simp [hself, Ne.symm hself, Dict.valueIn_assignIn]

theorem valueIn_gpuTopology (p : NodePool) {spec : NodeSpec} (h : spec ∈ p.topology.nodeSpecs) :
    Dict.valueIn (gpuTopology p) spec.label = p.topology.gpus spec.label := by
  have hmem : spec.label ∈ p.topology.nodeSpecs.map NodeSpec.label := List.mem_map_of_mem h
  have hvalue := valueIn_foldl_assignIn p.topology p.topology.nodeSpecs [] spec.label
  rw [if_pos hmem, Dict.valueIn, Option.or_none] at hvalue
  exact hvalue

theorem gpuTopology_eq_nil (p : NodePool) :
    gpuTopology p = [] ↔ ∀ spec ∈ p.topology.nodeSpecs, p.topology.gpus spec.label = none := by
  constructor
  · intro hnil spec hspec
    rw [← valueIn_gpuTopology p hspec, hnil]
    rfl
  · intro hnone
    have hvalue : ∀ label, Dict.valueIn (gpuTopology p) label = none := by
      intro label
      have hl := valueIn_foldl_assignIn p.topology p.topology.nodeSpecs [] label
      by_cases hmem : label ∈ p.topology.nodeSpecs.map NodeSpec.label
      · obtain ⟨spec, hspec, rfl⟩ := List.mem_map.mp hmem
        rw [valueIn_gpuTopology p hspec, hnone spec hspec]
      · rw [if_neg hmem] at hl
        exact hl
    cases htop : gpuTopology p with
    | nil => rfl
    | cons e d =>
      have hfirst := hvalue e.1
      rw [htop, Dict.valueIn, if_pos rfl] at hfirst
      cases hfirst

theorem prefill_foldl (prefilled : List (String × List GpuInfo)) (specs : List NodeSpec)
    (p : NodePool) :
    (specs.foldl (fun p spec =>
      p.setAllocator spec.label ((Dict.valueIn prefilled spec.label).getD [])) p).topology =
      ⟨p.topology.nodeSpecs,
        fun label =>
          if label ∈ specs.map NodeSpec.label then some ((Dict.valueIn prefilled label).getD [])
          else p.topology.gpus label,
        p.topology.headroomGb, p.topology.sshSessions⟩ := by
  induction specs generalizing p with
  | nil => simp
  | cons spec specs ih =>
    rw [List.foldl_cons, ih]
    simp only [NodePool.setAllocator, Topology.mk.injEq, true_and, and_true]
    funext label
    by_cases hself : label = spec.label
    · subst hself
      simp
    · simp [hself]

theorem initFromPrefilled_topology (nodeSpecs : List NodeSpec) (rockDir : Option String)
    (headroomGb : ℚ) (prefilled : List (String × List GpuInfo)) :
    (initFromPrefilled nodeSpecs rockDir headroomGb prefilled).topology =
      ⟨nodeSpecs,
        fun label =>
          if label ∈ nodeSpecs.map NodeSpec.label then some ((Dict.valueIn prefilled label).getD [])
          else none,
        headroomGb, fun _ => none⟩ :=
  prefill_foldl prefilled nodeSpecs (emptyPool nodeSpecs rockDir headroomGb)

/-- The list a completed detection gives for this label. -/
def foundFor (label : String) (x : NodeSpec × Option (List GpuInfo)) :
    Option (NodeSpec × List GpuInfo) :=
  if x.1.label = label then x.2.map fun gpus => (x.1, gpus) else none

/-- The last detection with this label that did not raise. -/
def lastFound (completed : List (NodeSpec × Option (List GpuInfo))) (label : String) :
    Option (NodeSpec × List GpuInfo) :=
  (completed.filterMap (foundFor label)).getLast?

theorem lastFound_cons (x : NodeSpec × Option (List GpuInfo))
    (completed : List (NodeSpec × Option (List GpuInfo))) (label : String) :
    lastFound (x :: completed) label = (lastFound completed label).or (foundFor label x) := by
  unfold lastFound
  cases hx : foundFor label x with
  | none => rw [List.filterMap_cons_none hx, Option.or_none]
  | some y =>
    rw [List.filterMap_cons_some hx, List.getLast?_cons]
    cases (completed.filterMap (foundFor label)).getLast? <;> rfl

theorem detectNode_keeps (hostname : Option String) (p : NodePool)
    (x : (NodeSpec × Option (List GpuInfo)) × Nat) :
    (detectNode hostname p x).topology.nodeSpecs = p.topology.nodeSpecs ∧
      (detectNode hostname p x).topology.headroomGb = p.topology.headroomGb := by
  unfold detectNode
  cases x.1.2 <;> by_cases hlocal : isLocal hostname x.1.1 = true <;>
    simp [hlocal, NodePool.setAllocator, NodePool.openSession]

theorem detectNode_gpus (hostname : Option String) (p : NodePool)
    (x : (NodeSpec × Option (List GpuInfo)) × Nat) (label : String) :
    (detectNode hostname p x).topology.gpus label =
      ((foundFor label x.1).map fun y => archFilter y.1 y.2).or (p.topology.gpus label) := by
  have hopen : (if isLocal hostname x.1.1 then p else p.openSession x.1.1 x.2).topology.gpus =
      p.topology.gpus := by
    by_cases hlocal : isLocal hostname x.1.1 = true <;> simp [hlocal, NodePool.openSession]
  unfold detectNode foundFor
  cases hx : x.1.2 with
  | none => simp [hopen]
  | some gpus =>
    simp only [NodePool.setAllocator, hopen]
    by_cases hself : x.1.1.label = label
    · subst hself
      simp
    · rw [Function.update_of_ne (Ne.symm hself), if_neg hself]
      rfl

theorem detect_foldl (hostname : Option String)
    (xs : List ((NodeSpec × Option (List GpuInfo)) × Nat)) (p : NodePool) :
    (xs.foldl (detectNode hostname) p).topology.nodeSpecs = p.topology.nodeSpecs ∧
      (xs.foldl (detectNode hostname) p).topology.headroomGb = p.topology.headroomGb ∧
      ∀ label, (xs.foldl (detectNode hostname) p).topology.gpus label =
        ((lastFound (xs.map Prod.fst) label).map fun x => archFilter x.1 x.2).or
          (p.topology.gpus label) := by
  induction xs generalizing p with
  | nil => exact ⟨rfl, rfl, fun _ => rfl⟩
  | cons x xs ih =>
    obtain ⟨hspecs, hheadroom, hgpus⟩ := ih (detectNode hostname p x)
    have hkeep := detectNode_keeps hostname p x
    refine ⟨hspecs.trans hkeep.1, hheadroom.trans hkeep.2, fun label => ?_⟩
    rw [List.foldl_cons, hgpus, detectNode_gpus, List.map_cons, lastFound_cons]
    cases lastFound (xs.map Prod.fst) label with
    | some y => rfl
    | none => rfl

theorem archFilter_eq_nil (spec : NodeSpec) (gpus : List GpuInfo) :
    archFilter spec gpus = [] ↔ gpus = [] := by
  unfold archFilter
  cases spec.gpuArch with
  | none => exact Iff.rfl
  | some arch =>
    dsimp only
    by_cases hany : arch ≠ "" ∧ gpus.any (fun g => decide (g.arch ≠ "unknown")) = true
    · rw [if_pos hany]
      cases hf : gpus.filter fun g => decide (g.arch = arch) with
      | nil => exact Iff.rfl
      | cons g gs =>
        have hne : gpus ≠ [] := by
          intro hnil
          rw [hnil] at hf
          cases hf
        simp [hne]
    · rw [if_neg hany]

/-- Detection in the worker finds no GPU on this node. -/
def NothingFound (completed : List (NodeSpec × Option (List GpuInfo))) (label : String) : Prop :=
  ∀ x, lastFound completed label = some x → x.2 = []

theorem detectAll_gpuList (hostname : Option String) (nodeSpecs : List NodeSpec)
    (rockDir : Option String) (headroomGb : ℚ)
    (completed : List (NodeSpec × Option (List GpuInfo))) (label : String) :
    (detectAll hostname nodeSpecs rockDir headroomGb completed).gpuList label = [] ↔
      NothingFound completed label := by
  have hgpus := (detect_foldl hostname completed.zipIdx
    (emptyPool nodeSpecs rockDir headroomGb)).2.2 label
  rw [List.zipIdx_map_fst] at hgpus
  unfold NodePool.gpuList NothingFound detectAll
  rw [hgpus]
  cases hfound : lastFound completed label with
  | none => simp [emptyPool]
  | some x => simp [archFilter_eq_nil]

/-! ## When the copy is faithful -/

theorem executorKind_local {hostname : Option String} {spec : NodeSpec}
    (hlocal : isLocal hostname spec = true) (p : NodePool) (gpu : GpuInfo) (lock : GpuFileLock) :
    p.executorKind hostname (Pool.newSlot p.topology spec gpu lock) = some .local := by
  unfold NodePool.executorKind slotMakeExecutor Pool.newSlot
  simp [hlocal]

theorem executorKind_noSession {hostname : Option String} {spec : NodeSpec}
    (hremote : isLocal hostname spec = false) {p : NodePool}
    (hssh : p.topology.sshSessions spec.label = none) (gpu : GpuInfo) (lock : GpuFileLock) :
    p.executorKind hostname (Pool.newSlot p.topology spec gpu lock) = none := by
  unfold NodePool.executorKind slotMakeExecutor Pool.newSlot
  simp [hremote, hssh]

/-- The pool built from the JSON's GPU lists. -/
def prefilledPool (p : NodePool) : NodePool :=
  initFromPrefilled p.topology.nodeSpecs p.rockDir p.topology.headroomGb (gpuTopology p)

theorem prefilledPool_gpuList (p : NodePool) {spec : NodeSpec}
    (h : spec ∈ p.topology.nodeSpecs) :
    (prefilledPool p).gpuList spec.label = p.gpuList spec.label := by
  have hmem : spec.label ∈ p.topology.nodeSpecs.map NodeSpec.label := List.mem_map_of_mem h
  unfold prefilledPool NodePool.gpuList
  rw [initFromPrefilled_topology]
  simp only [if_pos hmem, valueIn_gpuTopology p h, Option.getD_some]

/-- A pool built from the lists copies everything but the sessions, so it is
faithful exactly when no slot of a remote node can be acquired from it. -/
theorem prefilledPool_faithful (hostname : Option String) (p : NodePool) :
    Faithful hostname p (prefilledPool p) ↔
      ∀ spec ∈ p.topology.nodeSpecs, isLocal hostname spec = false → p.gpuList spec.label = [] := by
  have hspecs : (prefilledPool p).topology.nodeSpecs = p.topology.nodeSpecs := by
    rw [prefilledPool, initFromPrefilled_topology]
  have hheadroom : (prefilledPool p).topology.headroomGb = p.topology.headroomGb := by
    rw [prefilledPool, initFromPrefilled_topology]
  have hssh : ∀ label, (prefilledPool p).topology.sshSessions label = none := by
    intro label
    rw [prefilledPool, initFromPrefilled_topology]
  constructor
  · intro h spec hspec hremote
    cases hgpus : p.gpuList spec.label with
    | nil => rfl
    | cons gpu gpus =>
      have hgpu : gpu ∈ (prefilledPool p).gpuList spec.label := by
        rw [prefilledPool_gpuList p hspec, hgpus]
        exact List.mem_cons_self
      obtain ⟨kind, hkind, _⟩ := h.executors spec (hspecs ▸ hspec) gpu hgpu
        ⟨spec.label, gpu.index, 0⟩
      rw [executorKind_noSession hremote (hssh spec.label)] at hkind
      cases hkind
  · intro h
    refine ⟨hspecs, fun spec hspec => prefilledPool_gpuList p hspec, hheadroom,
      fun spec hspec gpu hgpu lock => ?_⟩
    rw [hspecs] at hspec
    rw [prefilledPool_gpuList p hspec] at hgpu
    cases hlocal : isLocal hostname spec with
    | true => exact ⟨.local, executorKind_local hlocal _ gpu lock,
      executorKind_local hlocal _ gpu lock⟩
    | false =>
      rw [h spec hspec hlocal] at hgpu
      cases hgpu

/-- A pool whose lists were detected again is faithful to one without allocators
exactly when nothing was found. -/
theorem detectAll_faithful (hostname : Option String) (p : NodePool)
    (hnone : ∀ spec ∈ p.topology.nodeSpecs, p.topology.gpus spec.label = none)
    (completed : List (NodeSpec × Option (List GpuInfo))) :
    Faithful hostname p (detectAll hostname p.topology.nodeSpecs p.rockDir p.topology.headroomGb
        completed) ↔
      ∀ spec ∈ p.topology.nodeSpecs, NothingFound completed spec.label := by
  have hkeep := detect_foldl hostname completed.zipIdx
    (emptyPool p.topology.nodeSpecs p.rockDir p.topology.headroomGb)
  have hempty : ∀ spec ∈ p.topology.nodeSpecs, p.gpuList spec.label = [] := by
    intro spec hspec
    unfold NodePool.gpuList
    rw [hnone spec hspec]
    rfl
  constructor
  · intro h spec hspec
    rw [← detectAll_gpuList hostname p.topology.nodeSpecs p.rockDir p.topology.headroomGb,
      h.gpus spec hspec]
    exact hempty spec hspec
  · intro h
    have hlists : ∀ spec ∈ p.topology.nodeSpecs, (detectAll hostname p.topology.nodeSpecs p.rockDir
        p.topology.headroomGb completed).gpuList spec.label = [] :=
      fun spec hspec => (detectAll_gpuList hostname _ _ _ completed spec.label).mpr (h spec hspec)
    refine ⟨hkeep.1, fun spec hspec => ?_, hkeep.2.1, fun spec hspec gpu hgpu lock => ?_⟩
    · rw [hlists spec hspec, hempty spec hspec]
    · rw [hlists spec (hkeep.1 ▸ hspec)] at hgpu
      cases hgpu

/-- The worker gets a faithful copy of the master's pool if and only if the pool
has nodes and, when some node has an allocator, no remote node has a GPU; when
none has, the worker detects again and must find nothing. -/
theorem workerPool_faithful_iff (hostname : Option String)
    (redetected : Option (List (NodeSpec × Option (List GpuInfo)))) (master : NodePool) :
    (∃ worker, configureWorkerPool hostname redetected (some (encodeTopology master)) =
        some worker ∧ Faithful hostname master worker) ↔
      master.topology.nodeSpecs ≠ [] ∧
        (((∃ spec ∈ master.topology.nodeSpecs, master.topology.gpus spec.label ≠ none) ∧
            ∀ spec ∈ master.topology.nodeSpecs, isLocal hostname spec = false →
              master.gpuList spec.label = []) ∨
          ((∀ spec ∈ master.topology.nodeSpecs, master.topology.gpus spec.label = none) ∧
            ∃ completed, redetected = some completed ∧
              ∀ spec ∈ master.topology.nodeSpecs, NothingFound completed spec.label)) := by
  rw [configureWorkerPool_encode]
  by_cases hnil : master.topology.nodeSpecs = []
  · simp [hnil]
  · rw [if_neg hnil]
    by_cases hempty : gpuTopology master = []
    · rw [if_pos hempty]
      have hnone := (gpuTopology_eq_nil master).mp hempty
      have hno : ¬ ∃ spec ∈ master.topology.nodeSpecs, master.topology.gpus spec.label ≠ none := by
        intro h
        obtain ⟨spec, hspec, hsome⟩ := h
        exact hsome (hnone spec hspec)
      constructor
      · intro h
        obtain ⟨worker, hworker, hfaithful⟩ := h
        obtain ⟨completed, hcompleted, hdetect⟩ := Option.map_eq_some_iff.mp hworker
        rw [← hdetect] at hfaithful
        exact ⟨hnil, Or.inr ⟨hnone, completed, hcompleted,
          (detectAll_faithful hostname master hnone completed).mp hfaithful⟩⟩
      · intro h
        rcases h.2 with h | h
        · exact absurd h.1 hno
        · obtain ⟨_, completed, hcompleted, hfound⟩ := h
          refine ⟨_, by rw [hcompleted]; rfl, ?_⟩
          exact (detectAll_faithful hostname master hnone completed).mpr hfound
    · rw [if_neg hempty]
      have hsome : ∃ spec ∈ master.topology.nodeSpecs, master.topology.gpus spec.label ≠ none := by
        by_contra hno
        apply hempty
        rw [gpuTopology_eq_nil]
        intro spec hspec
        by_contra hne
        exact hno ⟨spec, hspec, hne⟩
      constructor
      · intro h
        obtain ⟨worker, hworker, hfaithful⟩ := h
        cases hworker
        exact ⟨hnil, Or.inl ⟨hsome, (prefilledPool_faithful hostname master).mp hfaithful⟩⟩
      · intro h
        rcases h.2 with h | h
        · exact ⟨_, rfl, (prefilledPool_faithful hostname master).mpr h.2⟩
        · obtain ⟨spec, hspec, hne⟩ := hsome
          exact absurd (h.1 spec hspec) hne

/-- One remote node with one GPU and an open session. -/
def remoteMaster : NodePool :=
  detectAll (some "runner") [{ hostname := "gpu-node-01", label := "HOST_IDX_1" }] none 2
    [({ hostname := "gpu-node-01", label := "HOST_IDX_1" }, some [⟨0, "gfx942", 65536, 0⟩])]

/-- The worker's slot has no session, where the master's runs on the node. -/
theorem worker_cannot_make_executor :
    ∃ worker, configureWorkerPool (some "runner") none (some (encodeTopology remoteMaster)) =
        some worker ∧
      ¬ Faithful (some "runner") remoteMaster worker := by
  refine ⟨prefilledPool remoteMaster, ?_, ?_⟩
  · rw [configureWorkerPool_encode]
    rfl
  · rw [prefilledPool_faithful]
    intro h
    have hnone := h { hostname := "gpu-node-01", label := "HOST_IDX_1" } List.mem_cons_self
      (by decide)
    exact absurd hnone (by decide)

end WorkerPool
end Plugins
end RocmTests

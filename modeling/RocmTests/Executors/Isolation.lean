import RocmTests.Executors.Executor

/-!
# Which devices does a held slot's executor run on?

One process, one node, and any sequence of acquisitions, `make_executor` calls,
commands and releases.  All executors of a remote node are the same object, so a
command run through the executor of one slot sees the devices of the slots that
`make_executor` was called for last.  `Undisturbed` says when these are the
right ones.

A call that raises changes nothing and is left out of the sequence.
-/

namespace RocmTests
namespace Executors

open Gpu Nodes

/-- A node as its process sees it, and the machine the process runs on. -/
structure Node where
  spec : NodeSpec
  gpus : List GpuInfo
  ssh : Option Nat
  hostname : Option String
  ambient : Option String

/-- What an acquisition returns. -/
inductive Held where
  | slot (slot : NodeSlot)
  | multi (multi : MultiGpuSlots) (logPath sessionLogPath : Option String)
deriving DecidableEq

namespace Held

def slots : Held → List NodeSlot
  | .slot s => [s]
  | .multi m _ _ => m.slots

def nodeSpec : Held → NodeSpec
  | .slot s => s.nodeSpec
  | .multi m _ _ => m.nodeSpec

def gpuIndices (s : Held) : List Int := s.slots.map (·.gpuInfo.index)

def makeExecutor (hostname : Option String) (testId : String)
    (logPath sessionLogPath : Option String) (objs : SshTable) :
    Held → Except MakeError (Executor × SshTable)
  | .slot s => slotMakeExecutor hostname s testId logPath sessionLogPath objs
  | .multi m ownLog ownSessionLog =>
    multiMakeExecutor hostname m ownLog ownSessionLog testId logPath sessionLogPath objs

end Held

/-- Handles number the acquisitions from zero. -/
inductive Event where
  | acquire (s : Held)
  | makeExecutor (handle : Nat) (testId : String) (logPath sessionLogPath : Option String)
  | run (handle : Nat) (command : String) (envOverrides : List (String × String))
  | release (handle : Nat)

/-- A command that ran, the devices of the slots it was run for, and the devices
it saw. -/
structure Ran where
  command : String
  gpuIndices : List Int
  visible : Option String
deriving DecidableEq, Repr

structure Client where
  available : Finset Int
  acquired : List Held
  held : List Nat
  made : Nat → Option Executor
  objs : SshTable
  log : List Ran

/-- Free GPUs of the node, each in a slot with the node's session. -/
def Node.Grants (N : Node) (available : Finset Int) (s : Held) : Prop :=
  s.nodeSpec = N.spec ∧ s.gpuIndices.Nodup ∧
    ∀ x ∈ s.slots, x.nodeSpec = N.spec ∧ x.gpuInfo ∈ N.gpus ∧ x.gpuInfo.index ∈ available ∧
      x.ssh = N.ssh

instance (N : Node) (available : Finset Int) (s : Held) : Decidable (N.Grants available s) :=
  inferInstanceAs (Decidable (_ ∧ _))

namespace Client

/-- Nothing is acquired; the session objects are as detection left them. -/
def start (N : Node) (objs : SshTable) : Client :=
  { available := (N.gpus.map GpuInfo.index).toFinset, acquired := [], held := [],
    made := fun _ => none, objs, log := [] }

/-- The slots of a handle that has not been released. -/
def heldSlots (c : Client) (handle : Nat) : Option Held :=
  if handle ∈ c.held then c.acquired[handle]? else none

def step (N : Node) (c : Client) : Event → Option Client
  | .acquire s =>
    if N.Grants c.available s then
      some { c with
        available := c.available \ s.gpuIndices.toFinset
        acquired := c.acquired ++ [s]
        held := c.acquired.length :: c.held }
    else none
  | .makeExecutor handle testId logPath sessionLogPath => do
    let s ← c.heldSlots handle
    match s.makeExecutor N.hostname testId logPath sessionLogPath c.objs with
    | .error _ => none
    | .ok x => some { c with
        made := Function.update c.made handle (some x.1)
        objs := x.2 }
  | .run handle command envOverrides => do
    let s ← c.heldSlots handle
    let ex ← c.made handle
    some { c with
      log := c.log ++ [⟨command, s.gpuIndices, ex.runsWith N.ambient envOverrides c.objs⟩] }
  | .release handle => do
    let s ← c.heldSlots handle
    some { c with
      available := c.available ∪ s.gpuIndices.toFinset
      held := c.held.erase handle }

def run (N : Node) (c : Client) : List Event → Option Client
  | [] => some c
  | e :: es => (c.step N e).bind fun c' => run N c' es

end Client

/-- Every command so far saw exactly the devices of its slots. -/
def Isolated (c : Client) : Prop := ∀ r ∈ c.log, r.visible = some (visibleDevices r.gpuIndices)

/-! ## The condition on the calls -/

def acquiredIn (es : List Event) : List Held :=
  es.filterMap fun
    | .acquire s => some s
    | _ => none

/-- The handle of the last `make_executor` call. -/
def lastMade (es : List Event) : Option Nat :=
  (es.filterMap fun
    | .makeExecutor handle _ _ _ => some handle
    | _ => none).getLast?

def indicesOf (es : List Event) (handle : Nat) : Option (List Int) :=
  ((acquiredIn es)[handle]?).map Held.gpuIndices

/-- The call `e` after the calls `pre`: a command whose caller leaves
`ROCR_VISIBLE_DEVICES` alone comes after a last `make_executor` for the same
devices, and a caller that sets it sets it to the devices of the slots. -/
def Clear (pre : List Event) : Event → Prop
  | .run handle _ envOverrides =>
    match envOverrides.lookup "ROCR_VISIBLE_DEVICES" with
    | some v => (indicesOf pre handle).map visibleDevices = some v
    | none => (lastMade pre).bind (indicesOf pre) = indicesOf pre handle
  | _ => True

/-- Every call is clear after the ones before it. -/
def Undisturbed (pre : List Event) : List Event → Prop
  | [] => True
  | e :: es => Clear pre e ∧ Undisturbed (pre ++ [e]) es

/-! ## The invariant -/

/-- The session `ref` is pointed at the devices of handle `k`. -/
def PointsAt (c : Client) (ref k : Nat) : Prop :=
  ∃ s, c.acquired[k]? = some s ∧ s.gpuIndices ≠ [] ∧ (c.objs ref).gpuIndices = s.gpuIndices

/-- The state after the calls `pre` on a remote node. -/
structure Follows (N : Node) (pre : List Event) (c : Client) : Prop where
  acquired : c.acquired = acquiredIn pre
  onNode : ∀ s ∈ c.acquired, s.nodeSpec = N.spec ∧ ∀ x ∈ s.slots, x.nodeSpec = N.spec ∧
    x.ssh = N.ssh
  made : ∀ h ex, c.made h = some ex → ∃ ref k, N.ssh = some ref ∧ ex = .ssh ref ∧
    lastMade pre = some k ∧ PointsAt c ref k ∧ ∃ s, c.acquired[h]? = some s ∧ s.gpuIndices ≠ []

theorem acquiredIn_append (pre : List Event) (e : Event) :
    acquiredIn (pre ++ [e]) = acquiredIn pre ++ acquiredIn [e] := by
  unfold acquiredIn
  rw [List.filterMap_append]

theorem lastMade_keep (pre : List Event) {e : Event}
    (he : ∀ h t l s, e ≠ .makeExecutor h t l s) : lastMade (pre ++ [e]) = lastMade pre := by
  unfold lastMade
  rw [List.filterMap_append]
  cases e with
  | makeExecutor h t l s => exact absurd rfl (he h t l s)
  | _ => simp

theorem lastMade_make (pre : List Event) (h : Nat) (t : String) (l s : Option String) :
    lastMade (pre ++ [.makeExecutor h t l s]) = some h := by
  unfold lastMade
  rw [List.filterMap_append]
  simp

theorem heldSlots_eq {c : Client} {handle : Nat} {s : Held} (h : c.heldSlots handle = some s) :
    c.acquired[handle]? = some s := by
  unfold Client.heldSlots at h
  split at h
  · exact h
  · cases h

/-- On a remote node `make_executor` returns the node's session, pointed at the
devices of the slots. -/
theorem makeExecutor_remote {N : Node} (hremote : isLocal N.hostname N.spec = false) {s : Held}
    (hspec : s.nodeSpec = N.spec) (hssh : ∀ x ∈ s.slots, x.nodeSpec = N.spec ∧ x.ssh = N.ssh)
    {testId : String} {logPath sessionLogPath : Option String} {objs : SshTable}
    {x : Executor × SshTable}
    (h : s.makeExecutor N.hostname testId logPath sessionLogPath objs = .ok x) :
    ∃ ref, N.ssh = some ref ∧ x.1 = .ssh ref ∧ s.gpuIndices ≠ [] ∧
      (x.2 ref).gpuIndices = s.gpuIndices := by
  cases s with
  | slot slot =>
    have hself : slot.nodeSpec = N.spec ∧ slot.ssh = N.ssh := hssh slot List.mem_cons_self
    simp only [Held.makeExecutor, slotMakeExecutor, hself.1, hself.2, hremote] at h
    cases hn : N.ssh with
    | none =>
      rw [hn] at h
      cases h
    | some ref =>
      rw [hn] at h
      cases h
      refine ⟨ref, rfl, rfl, List.cons_ne_nil _ _, ?_⟩
      simp [retarget, Held.gpuIndices, Held.slots]
  | multi multi ownLog ownSessionLog =>
    have hmulti : multi.nodeSpec = N.spec := hspec
    simp only [Held.makeExecutor, multiMakeExecutor, hmulti, hremote] at h
    cases hslots : multi.slots with
    | nil =>
      rw [hslots] at h
      cases h
    | cons slot rest =>
      have hself : slot.nodeSpec = N.spec ∧ slot.ssh = N.ssh := by
        apply hssh slot
        show slot ∈ multi.slots
        rw [hslots]
        exact List.mem_cons_self
      rw [hslots] at h
      simp only [hself.2] at h
      cases hn : N.ssh with
      | none =>
        rw [hn] at h
        cases h
      | some ref =>
        rw [hn] at h
        cases h
        refine ⟨ref, rfl, rfl, ?_, ?_⟩
        · simp [Held.gpuIndices, Held.slots, hslots]
        · simp [retarget, Held.gpuIndices, Held.slots, MultiGpuSlots.gpuIndices]

namespace Follows

variable {N : Node} {pre : List Event} {c c' : Client}

theorem start (N : Node) (objs : SshTable) : Follows N [] (Client.start N objs) where
  acquired := rfl
  onNode s hs := by simp [Client.start] at hs
  made h ex hmade := by cases hmade

theorem acquire (h : Follows N pre c) {s : Held} (he : c.step N (.acquire s) = some c') :
    Follows N (pre ++ [.acquire s]) c' := by
  simp only [Client.step] at he
  split at he
  · rename_i hgrants
    cases he
    have hkeep : ∀ {k : Nat} {x : Held}, c.acquired[k]? = some x →
        (c.acquired ++ [s])[k]? = some x := by
      intro k x hk
      rw [List.getElem?_append_left (List.getElem?_eq_some_iff.mp hk).1]
      exact hk
    constructor
    · show c.acquired ++ [s] = acquiredIn (pre ++ [.acquire s])
      rw [acquiredIn_append, h.acquired]
      rfl
    · intro x hx
      rcases List.mem_append.mp hx with hx | hx
      · exact h.onNode x hx
      · have heq := List.mem_singleton.mp hx
        subst heq
        exact ⟨hgrants.1, fun y hy => ⟨(hgrants.2.2 y hy).1, (hgrants.2.2 y hy).2.2.2⟩⟩
    · intro handle ex hmade
      obtain ⟨ref, k, hssh, hex, hlast, ⟨sk, hk, hne, hobj⟩, sh, hh, hnh⟩ := h.made handle ex hmade
      refine ⟨ref, k, hssh, hex, ?_, ⟨sk, hkeep hk, hne, hobj⟩, sh, hkeep hh, hnh⟩
      rw [lastMade_keep pre (by simp), hlast]
  · cases he

theorem makeExecutor (h : Follows N pre c) (hremote : isLocal N.hostname N.spec = false)
    {handle : Nat} {testId : String} {logPath sessionLogPath : Option String}
    (he : c.step N (.makeExecutor handle testId logPath sessionLogPath) = some c') :
    Follows N (pre ++ [.makeExecutor handle testId logPath sessionLogPath]) c' := by
  obtain ⟨s, hs, he⟩ := Option.bind_eq_some_iff.mp he
  have hacq := heldSlots_eq hs
  have hnode := h.onNode s (List.mem_of_getElem? hacq)
  split at he
  · cases he
  · rename_i x hx
    cases he
    obtain ⟨ref, hssh, hex, hne, hobj⟩ := makeExecutor_remote hremote hnode.1 hnode.2 hx
    constructor
    · rw [acquiredIn_append, ← h.acquired]
      exact (List.append_nil _).symm
    · exact h.onNode
    · intro other ex hmade
      have hmade' : Function.update c.made handle (some x.1) other = some ex := hmade
      have hpoints : PointsAt { c with
          made := Function.update c.made handle (some x.1)
          objs := x.2 } ref handle := ⟨s, hacq, hne, hobj⟩
      rw [lastMade_make]
      by_cases ho : other = handle
      · subst ho
        rw [Function.update_self] at hmade'
        cases hmade'
        exact ⟨ref, other, hssh, hex, rfl, hpoints, s, hacq, hne⟩
      · rw [Function.update_of_ne ho] at hmade'
        obtain ⟨ref', k, hssh', hex', _, _, hslots⟩ := h.made other ex hmade'
        have href : ref' = ref := Option.some.inj (hssh'.symm.trans hssh)
        exact ⟨ref, handle, hssh, href ▸ hex', rfl, hpoints, hslots⟩

/-- A call that makes and acquires nothing. -/
theorem other (h : Follows N pre c) {e : Event} (hacq : acquiredIn [e] = [])
    (hmake : ∀ h t l s, e ≠ .makeExecutor h t l s) (hsame : c'.acquired = c.acquired)
    (hmade : c'.made = c.made) (hobjs : c'.objs = c.objs) : Follows N (pre ++ [e]) c' := by
  constructor
  · rw [hsame, h.acquired, acquiredIn_append, hacq, List.append_nil]
  · rw [hsame]
    exact h.onNode
  · unfold PointsAt
    rw [hsame, hmade, hobjs, lastMade_keep pre hmake]
    exact h.made

theorem step (h : Follows N pre c) (hremote : isLocal N.hostname N.spec = false) {e : Event}
    (he : c.step N e = some c') : Follows N (pre ++ [e]) c' := by
  cases e with
  | acquire s => exact h.acquire he
  | makeExecutor handle testId logPath sessionLogPath => exact h.makeExecutor hremote he
  | run handle command env =>
    obtain ⟨s, _, he⟩ := Option.bind_eq_some_iff.mp he
    obtain ⟨ex, _, he⟩ := Option.bind_eq_some_iff.mp he
    cases he
    exact h.other rfl (by simp) rfl rfl rfl
  | release handle =>
    obtain ⟨s, _, he⟩ := Option.bind_eq_some_iff.mp he
    cases he
    exact h.other rfl (by simp) rfl rfl rfl

/-- A command sees its own devices exactly when it is clear. -/
theorem run_iff (h : Follows N pre c) {handle : Nat} {s : Held} {ex : Executor}
    (hs : c.heldSlots handle = some s) (hex : c.made handle = some ex) (command : String)
    (env : List (String × String)) :
    ex.runsWith N.ambient env c.objs = some (visibleDevices s.gpuIndices) ↔
      Clear pre (.run handle command env) := by
  obtain ⟨ref, k, _, rfl, hlast, ⟨sk, hk, hne, hobj⟩, sh, hh, hnh⟩ := h.made handle ex hex
  have hsame : sh = s := Option.some.inj (hh.symm.trans (heldSlots_eq hs))
  subst hsame
  have hself : indicesOf pre handle = some sh.gpuIndices := by
    unfold indicesOf
    rw [← h.acquired, hh]
    rfl
  have hlastIndices : (lastMade pre).bind (indicesOf pre) = some sk.gpuIndices := by
    rw [hlast, Option.bind_some]
    unfold indicesOf
    rw [← h.acquired, hk]
    rfl
  simp only [Executor.runsWith, Clear]
  rw [hobj, lookup_effectiveEnv hne]
  cases henv : env.lookup "ROCR_VISIBLE_DEVICES" with
  | some v =>
    rw [hself]
    simp only [Option.or_some, Option.map_some, Option.some.injEq]
    exact eq_comm
  | none =>
    simp only [hself, hlastIndices, Option.none_or, Option.some.injEq]
    constructor
    · exact visibleDevices_injective hne hnh
    · intro heq
      rw [heq]

theorem isolated_step (h : Follows N pre c) {e : Event} (he : c.step N e = some c') :
    Isolated c' ↔ Isolated c ∧ Clear pre e := by
  cases e with
  | acquire s =>
    simp only [Client.step] at he
    split at he
    · cases he
      exact (iff_of_eq (and_true _)).symm
    · cases he
  | makeExecutor handle testId logPath sessionLogPath =>
    obtain ⟨s, _, he⟩ := Option.bind_eq_some_iff.mp he
    split at he
    · cases he
    · cases he
      exact (iff_of_eq (and_true _)).symm
  | run handle command env =>
    obtain ⟨s, hs, he⟩ := Option.bind_eq_some_iff.mp he
    obtain ⟨ex, hex, he⟩ := Option.bind_eq_some_iff.mp he
    cases he
    rw [← h.run_iff hs hex command env]
    unfold Isolated
    simp only [List.forall_mem_append, List.forall_mem_singleton]
  | release handle =>
    obtain ⟨s, _, he⟩ := Option.bind_eq_some_iff.mp he
    cases he
    exact (iff_of_eq (and_true _)).symm

/-- From any state that follows `pre`, the rest of the calls keep every command
isolated exactly when they are undisturbed. -/
theorem run_isolated_iff (h : Follows N pre c) (hremote : isLocal N.hostname N.spec = false)
    {es : List Event} (hrun : c.run N es = some c') :
    Isolated c' ↔ Isolated c ∧ Undisturbed pre es := by
  induction es generalizing pre c with
  | nil =>
    cases hrun
    simp [Undisturbed]
  | cons e es ih =>
    obtain ⟨d, hd, hrest⟩ := Option.bind_eq_some_iff.mp hrun
    rw [ih (h.step hremote hd) hrest, h.isolated_step hd, and_assoc]
    rfl

end Follows

/-- On a remote node, every command sees exactly the devices of the slots it is
run for if and only if the calls are undisturbed. -/
theorem remote_isolated_iff (N : Node) (objs : SshTable) (es : List Event) (c : Client)
    (hremote : isLocal N.hostname N.spec = false)
    (hrun : (Client.start N objs).run N es = some c) : Isolated c ↔ Undisturbed [] es := by
  rw [(Follows.start N objs).run_isolated_iff hremote hrun]
  have hstart : Isolated (Client.start N objs) := by
    intro r hr
    simp [Client.start] at hr
  exact and_iff_right hstart

/-- A remote node with two GPUs and one session. -/
def twoGpuNode : Node :=
  { spec := { hostname := "gpu-node-01", label := "HOST_IDX_1" }
    gpus := [⟨0, "gfx942", 65536, 0⟩, ⟨1, "gfx942", 65536, 0⟩]
    ssh := some 0
    hostname := some "runner"
    ambient := none }

def twoGpuSlot (gpuIndex : Int) : Held :=
  .slot
    { nodeSpec := twoGpuNode.spec
      gpuInfo := ⟨gpuIndex, "gfx942", 65536, 0⟩
      fileLock := ⟨"HOST_IDX_1", gpuIndex, 0⟩
      ssh := some 0 }

def twoGpuObjs : SshTable := fun _ => { host := "gpu-node-01" }

/-- Each executor is used before the next one is made. -/
def inOrder : List Event :=
  [.acquire (twoGpuSlot 0), .makeExecutor 0 "test" none none, .run 0 "rocm-smi" [],
   .acquire (twoGpuSlot 1), .makeExecutor 1 "test" none none, .run 1 "rocm-smi" []]

theorem inOrder_run :
    (((Client.start twoGpuNode twoGpuObjs).run twoGpuNode inOrder).map Client.log) =
      some [⟨"rocm-smi", [0], some "0"⟩, ⟨"rocm-smi", [1], some "1"⟩] := by
  decide

theorem remote_isolated_iff_inOrder :
    ∃ c, (Client.start twoGpuNode twoGpuObjs).run twoGpuNode inOrder = some c ∧ c.log ≠ [] ∧
      (Isolated c ↔ Undisturbed [] inOrder) := by
  obtain ⟨c, hc, hlog⟩ := Option.map_eq_some_iff.mp inOrder_run
  refine ⟨c, hc, ?_, remote_isolated_iff twoGpuNode twoGpuObjs inOrder c (by decide) hc⟩
  rw [hlog]
  exact List.cons_ne_nil _ _

/-- The first slot's executor is used after the second slot's was made. -/
def crossed : List Event :=
  [.acquire (twoGpuSlot 0), .makeExecutor 0 "test" none none,
   .acquire (twoGpuSlot 1), .makeExecutor 1 "test" none none, .run 0 "rocm-smi" []]

theorem crossed_run :
    (((Client.start twoGpuNode twoGpuObjs).run twoGpuNode crossed).map Client.log) =
      some [⟨"rocm-smi", [0], some "1"⟩] := by
  decide

theorem second_executor_redirects_first :
    isLocal twoGpuNode.hostname twoGpuNode.spec = false ∧
      ∃ c, (Client.start twoGpuNode twoGpuObjs).run twoGpuNode crossed = some c ∧
        ¬ Isolated c := by
  obtain ⟨c, hc, hlog⟩ := Option.map_eq_some_iff.mp crossed_run
  refine ⟨by decide, c, hc, fun hisolated => ?_⟩
  have hran := hisolated ⟨"rocm-smi", [0], some "1"⟩ (by rw [hlog]; exact List.mem_cons_self)
  exact absurd hran (by decide)

end Executors
end RocmTests

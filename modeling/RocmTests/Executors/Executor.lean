import Mathlib
import RocmTests.Nodes.NodePool

/-!
# Executors and the devices their commands see

A slot becomes something that runs commands through `make_executor`.  On a local
node that is a new `LocalExecutor`.  On a remote node it is the node's one
`SshExecutor`, whose `gpu_indices` and `test_logger` are overwritten.  Objects
that the source shares are kept in a table from references to values, so
`make_executor` takes the table and returns the new one.
-/

namespace RocmTests
namespace Executors

open Gpu Nodes

structure TestLogger where
  testId : String
  nodeLabel : String
  gpuLabel : String
  logPath : Option String
  sessionLogPath : Option String
deriving DecidableEq, Repr

structure SshExecutor where
  host : String
  user : Option String := none
  keyPath : Option String := none
  password : Option String := none
  gpuIndices : List Int := []
  testLogger : Option TestLogger := none
deriving DecidableEq, Repr

/-- `gpu_index` of a local executor is one index or a list of them. -/
inductive GpuIndexArg where
  | one (gpuIndex : Int)
  | many (gpuIndices : List Int)
deriving DecidableEq, Repr

/-- What `make_executor` returns: an object of its own, or a reference to the
shared one. -/
inductive Executor where
  | local (gpuIndex : GpuIndexArg) (testLogger : TestLogger)
  | ssh (ref : Nat)
deriving DecidableEq, Repr

abbrev SshTable := Nat → SshExecutor

/-- `AttributeError` on a slot without a session, `IndexError` on an empty
group. -/
inductive MakeError where
  | noSession
  | noSlots
deriving DecidableEq, Repr

/-- `",".join(str(i) for i in gpu_indices)`. -/
def visibleDevices (gpuIndices : List Int) : String := ",".intercalate (gpuIndices.map Int.repr)

/-- `is_local`, on a machine whose `gethostname` answers `hostname`. -/
def isLocal (hostname : Option String) (spec : NodeSpec) : Bool :=
  decide (spec.hostname ∈ "localhost" :: "127.0.0.1" :: hostname.toList)

/-! ## make_executor -/

/-- Hand out the shared executor of `ref`, pointed at the given devices. -/
def retarget (ref : Nat) (gpuIndices : List Int) (tl : TestLogger) (objs : SshTable) :
    Executor × SshTable :=
  (.ssh ref, Function.update objs ref
    { objs ref with
      gpuIndices := gpuIndices
      testLogger := some tl })

def slotMakeExecutor (hostname : Option String) (slot : NodeSlot) (testId : String)
    (logPath sessionLogPath : Option String) (objs : SshTable) :
    Except MakeError (Executor × SshTable) :=
  let tl : TestLogger :=
    ⟨testId, slot.nodeSpec.label, "GPU-" ++ Int.repr slot.gpuInfo.index, logPath, sessionLogPath⟩
  if isLocal hostname slot.nodeSpec then
    .ok (.local (.one slot.gpuInfo.index) tl, objs)
  else
    match slot.ssh with
    | none => .error .noSession
    | some ref => .ok (retarget ref [slot.gpuInfo.index] tl objs)

/-- An empty path counts as no path.  `ownLog` and `ownSessionLog` are the paths
the fixture may have set on the group. -/
def orElsePath (path own : Option String) : Option String :=
  match path with
  | some "" => own
  | some p => some p
  | none => own

def multiMakeExecutor (hostname : Option String) (multi : MultiGpuSlots)
    (ownLog ownSessionLog : Option String) (testId : String)
    (logPath sessionLogPath : Option String) (objs : SshTable) :
    Except MakeError (Executor × SshTable) :=
  let tl : TestLogger :=
    ⟨testId, multi.nodeSpec.label, "GPU-" ++ visibleDevices multi.gpuIndices,
      orElsePath logPath ownLog, orElsePath sessionLogPath ownSessionLog⟩
  if isLocal hostname multi.nodeSpec then
    .ok (.local (.many multi.gpuIndices) tl, objs)
  else
    match multi.slots with
    | [] => .error .noSlots
    | slot :: _ =>
      match slot.ssh with
      | none => .error .noSession
      | some ref => .ok (retarget ref multi.gpuIndices tl objs)

/-! ## The environment of a command -/

/-- `d.update(o)`: present keys keep their place, new ones follow. -/
def dictUpdate (d o : List (String × String)) : List (String × String) :=
  d.map (fun e => (e.1, (o.lookup e.1).getD e.2)) ++ o.filter fun e => (d.lookup e.1).isNone

/-- What `SshExecutor.run` exports before the command. -/
def effectiveEnv (gpuIndices : List Int) (envOverrides : List (String × String)) :
    List (String × String) :=
  dictUpdate (if gpuIndices = [] then [] else [("ROCR_VISIBLE_DEVICES", visibleDevices gpuIndices)])
    envOverrides

/-- The `ROCR_VISIBLE_DEVICES` a command runs with.  A local executor keeps the
value `ambient` of its own process environment and takes no overrides.  `none` on
a remote node is whatever the login shell there has. -/
def Executor.runsWith (ambient : Option String) (envOverrides : List (String × String))
    (objs : SshTable) : Executor → Option String
  | .local (.one i) _ => some (ambient.getD (Int.repr i))
  | .local (.many is) _ => some (ambient.getD (visibleDevices is))
  | .ssh ref => (effectiveEnv (objs ref).gpuIndices envOverrides).lookup "ROCR_VISIBLE_DEVICES"

theorem lookup_map_getD (d o : List (String × String)) (k : String) :
    (d.map fun e => (e.1, (o.lookup e.1).getD e.2)).lookup k =
      (d.lookup k).map fun v => (o.lookup k).getD v := by
  induction d with
  | nil => rfl
  | cons e d ih =>
    by_cases hk : k = e.1
    · have hbeq : (k == e.1) = true := beq_iff_eq.mpr hk
      rw [List.map_cons, List.lookup_cons, List.lookup_cons, hbeq, hk]
      rfl
    · have hbeq : (k == e.1) = false := beq_false_of_ne hk
      rw [List.map_cons, List.lookup_cons, List.lookup_cons, hbeq, ih]

theorem lookup_filter_isNone (d o : List (String × String)) {k : String} (hk : d.lookup k = none) :
    (o.filter fun e => (d.lookup e.1).isNone).lookup k = o.lookup k := by
  induction o with
  | nil => rfl
  | cons e o ih =>
    cases he : d.lookup e.1 with
    | none =>
      rw [List.filter_cons_of_pos (by simp [he]), List.lookup_cons, List.lookup_cons, ih]
    | some v =>
      have hne : (k == e.1) = false := by
        apply beq_false_of_ne
        intro heq
        rw [← heq, hk] at he
        cases he
      rw [List.filter_cons_of_neg (by simp [he]), ih, List.lookup_cons, hne]

theorem lookup_dictUpdate (d o : List (String × String)) (k : String) :
    (dictUpdate d o).lookup k = (o.lookup k).or (d.lookup k) := by
  unfold dictUpdate
  rw [List.lookup_append, lookup_map_getD]
  cases hd : d.lookup k with
  | none =>
    rw [lookup_filter_isNone d o hd]
    simp
  | some v => cases o.lookup k <;> simp

/-- An override wins; otherwise the executor's own devices are visible. -/
theorem lookup_effectiveEnv {gpuIndices : List Int} (hne : gpuIndices ≠ [])
    (envOverrides : List (String × String)) :
    (effectiveEnv gpuIndices envOverrides).lookup "ROCR_VISIBLE_DEVICES" =
      (envOverrides.lookup "ROCR_VISIBLE_DEVICES").or (some (visibleDevices gpuIndices)) := by
  unfold effectiveEnv
  rw [if_neg hne, lookup_dictUpdate, List.lookup_cons_self]

/-! ## Device lists are readable back -/

theorem comma_notMem_natRepr (n : Nat) : ',' ∉ n.repr.toList := by
  intro hmem
  rw [Nat.toList_repr] at hmem
  have hdigit := Nat.isDigit_of_mem_toDigits (by decide) (by decide) hmem
  exact absurd hdigit (by decide)

theorem comma_notMem_repr (i : Int) : ',' ∉ (Int.repr i).toList := by
  rw [Int.repr_eq_if]
  by_cases hi : 0 ≤ i
  · rw [if_pos hi]
    exact comma_notMem_natRepr _
  · rw [if_neg hi, String.toList_append]
    intro hmem
    rcases List.mem_append.mp hmem with h | h
    · exact absurd h (by decide)
    · exact comma_notMem_natRepr _ h

/-- The text determines the list: no index contains a comma. -/
theorem visibleDevices_injective {is js : List Int} (hi : is ≠ []) (hj : js ≠ [])
    (h : visibleDevices is = visibleDevices js) : is = js := by
  have hsplit : ∀ ks : List Int, ks ≠ [] →
      (visibleDevices ks).toList.splitOn ',' = ks.map fun k => (Int.repr k).toList := by
    intro ks hks
    have hchars : (visibleDevices ks).toList =
        [','].intercalate (ks.map fun k => (Int.repr k).toList) := by
      unfold visibleDevices
      rw [String.toList_intercalate, List.map_map]
      rfl
    rw [hchars]
    apply List.splitOn_intercalate
    · intro l hl
      obtain ⟨k, -, rfl⟩ := List.mem_map.mp hl
      exact comma_notMem_repr k
    · simpa using hks
  have hmaps := (hsplit is hi).symm.trans ((congrArg (fun t => t.toList.splitOn ',') h).trans
    (hsplit js hj))
  apply List.map_injective_iff.mpr ?_ hmaps
  intro a b hab
  exact Int.repr_injective (String.toList_inj.mp hab)

end Executors
end RocmTests

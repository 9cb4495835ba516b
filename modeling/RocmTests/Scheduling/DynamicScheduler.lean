import RocmTests.Conc.Fallible
import RocmTests.Markers.GpuCount

/-!
# Resource-aware ordering of the collected tests

`schedule` first annotates the items with an `xdist_group` and then sorts them by
the policy's key.  Both read the same four markers, in different orders of
precedence: the groups look at `gpu_indices` first, the keys at `e2e.multinode`.
-/

namespace RocmTests
namespace Scheduling

open Conc Markers

/-- First positional argument of `gpu_indices`. -/
inductive IndexArg where
  | int (i : Int)
  | list (indices : List Int)
deriving DecidableEq

inductive Marker where
  | gpuIndices (args : List IndexArg)
  | gpuCount (args : List RawGpuCount)
  | hwMultiGpu
  | multiGpu
  | e2eMultinode
  | other (name : String)
deriving DecidableEq

/-- A collected test with its markers, closest first. -/
structure Item where
  nodeid : String
  markers : List Marker
deriving DecidableEq

namespace Item

/-- `get_closest_marker("gpu_indices")`, as its arguments. -/
def gpuIndicesMarker (item : Item) : Option (List IndexArg) :=
  item.markers.findSome? fun
    | .gpuIndices args => some args
    | _ => none

def gpuCountMarker (item : Item) : Option (List RawGpuCount) :=
  item.markers.findSome? fun
    | .gpuCount args => some args
    | _ => none

/-- The argument of a `gpu_indices` marker that has one. -/
def indexArg (item : Item) : Option IndexArg := item.gpuIndicesMarker.bind List.head?

/-- The parsed argument of a `gpu_count` marker that has one. -/
def askedCount (item : Item) : Except GpuCountError (Option GpuCount) :=
  match item.gpuCountMarker with
  | some (raw :: _) => (parseGpuCount raw).map some
  | _ => .ok none

def isMultiGpu (item : Item) : Bool := decide (.hwMultiGpu ∈ item.markers)

end Item

def allSortWeight : Int := 1000000

def isMultinode (item : Item) : Bool := decide (.e2eMultinode ∈ item.markers)

def multiGpuCount (item : Item) : Except GpuCountError Int :=
  match item.askedCount with
  | .error e => .error e
  | .ok (some .all) => .ok allSortWeight
  | .ok (some (.count n)) =>
    if 1 < n then .ok n else if item.isMultiGpu then .ok 2 else .ok 0
  | .ok none => if item.isMultiGpu then .ok 2 else .ok 0

def gpuIndicesCount (item : Item) : Int :=
  match item.indexArg with
  | none => 0
  | some (.int _) => 1
  | some (.list raw) => raw.length

inductive SchedulePolicy where
  | resourceMost
  | resourceLeast
deriving DecidableEq, Repr

def resourceSortKeyMost (item : Item) : Except GpuCountError (Int × Int) :=
  if isMultinode item then .ok (0, 0)
  else if 0 < gpuIndicesCount item then .ok (1, -gpuIndicesCount item)
  else (multiGpuCount item).map fun n => if 0 < n then (1, -n) else (2, 0)

def resourceSortKeyLeast (item : Item) : Except GpuCountError (Int × Int) :=
  if isMultinode item then .ok (2, 0)
  else if 0 < gpuIndicesCount item then .ok (1, gpuIndicesCount item)
  else (multiGpuCount item).map fun n => if 0 < n then (1, n) else (0, 0)

def SchedulePolicy.key : SchedulePolicy → Item → Except GpuCountError (Int × Int)
  | .resourceMost => resourceSortKeyMost
  | .resourceLeast => resourceSortKeyLeast

/-! ## xdist groups -/

/-- A group with its running number. -/
inductive Group where
  | gpuIndices (sorted : List Int) (n : Nat)
  | multinode (n : Nat)
  | multiGpu (count : Int) (n : Nat)
deriving DecidableEq, Repr

def Group.name : Group → String
  | .gpuIndices sorted n => "gpu_indices_" ++ "_".intercalate (sorted.map Int.repr) ++ "_" ++
    Nat.repr n
  | .multinode n => "multinode_" ++ Nat.repr n
  | .multiGpu count n => "multi_gpu_" ++ Int.repr count ++ "_" ++ Nat.repr n

/-- Why `schedule` stops: the four calls of `pytest.fail`, each naming the item,
and the `ValueError` of `parse_gpu_count`. -/
inductive ScheduleError where
  | indicesWithCount (nodeid : String)
  | indicesWithMultiGpu (nodeid : String)
  | bareIndex (nodeid : String) (i : Int)
  | noIndices (nodeid : String)
  | badCount (e : GpuCountError)
deriving DecidableEq

/-- The three counters of the loop. -/
structure GroupCounters where
  gpuIndicesIdx : Nat := 0
  multiGpuIdx : Nat := 0
  multiNodeIdx : Nat := 0
deriving DecidableEq, Repr

def sortedIndices (raw : List Int) : List Int := raw.mergeSort fun a b => decide (a ≤ b)

/-- One turn of the loop.  The mark looked for under `multi_gpu` is not the one
that tests carry, which is `hw.multi_gpu`. -/
def assignGroup (c : GroupCounters) (item : Item) :
    Except ScheduleError (Option Group × GroupCounters) :=
  match item.indexArg with
  | some arg =>
    if item.gpuCountMarker.isSome then .error (.indicesWithCount item.nodeid)
    else if .multiGpu ∈ item.markers then .error (.indicesWithMultiGpu item.nodeid)
    else
      match arg with
      | .int i => .error (.bareIndex item.nodeid i)
      | .list [] => .error (.noIndices item.nodeid)
      | .list raw =>
        .ok (some (.gpuIndices (sortedIndices raw) c.gpuIndicesIdx),
          { c with gpuIndicesIdx := c.gpuIndicesIdx + 1 })
  | none =>
    if isMultinode item then
      .ok (some (.multinode c.multiNodeIdx), { c with multiNodeIdx := c.multiNodeIdx + 1 })
    else
      match multiGpuCount item with
      | .error e => .error (.badCount e)
      | .ok n =>
        if 0 < n then
          .ok (some (.multiGpu n c.multiGpuIdx), { c with multiGpuIdx := c.multiGpuIdx + 1 })
        else .ok (none, c)

/-- An item with the group it was given. -/
structure Scheduled where
  item : Item
  group : Option Group
deriving DecidableEq

def assignXdistGroups : GroupCounters → List Item → Except ScheduleError (List Scheduled)
  | _, [] => .ok []
  | c, item :: items => do
    let x ← assignGroup c item
    let rest ← assignXdistGroups x.2 items
    pure (⟨item, x.1⟩ :: rest)

/-! ## schedule -/

def keyLe (a b : Int × Int) : Bool :=
  decide (a.1 < b.1) || (decide (a.1 = b.1) && decide (a.2 ≤ b.2))

def withKey (policy : SchedulePolicy) (x : Scheduled) :
    Except ScheduleError ((Int × Int) × Scheduled) :=
  match policy.key x.item with
  | .error e => .error (.badCount e)
  | .ok key => .ok (key, x)

/-- Is the item counted as multi-resource in the closing log line? -/
def isMultiResource (x : Scheduled) : Except ScheduleError Bool :=
  if isMultinode x.item then .ok true
  else
    match multiGpuCount x.item with
    | .error e => .error (.badCount e)
    | .ok n => .ok (decide (0 < n))

/-- The sorted items with the keys they were sorted by.  `list.sort` is stable. -/
def schedule (policy : SchedulePolicy) (items : List Item) :
    Except ScheduleError (List ((Int × Int) × Scheduled)) := do
  let grouped ← assignXdistGroups {} items
  let keyed ← grouped.mapM (withKey policy)
  let sorted := keyed.mergeSort fun a b => keyLe a.1 b.1
  let _ ← sorted.mapM fun x => isMultiResource x.2
  pure sorted

/-! ## The group of one item -/

theorem assignGroup_pinned {c c' : GroupCounters} {item : Item} {g : Option Group} {arg : IndexArg}
    (hidx : item.indexArg = some arg) (h : assignGroup c item = .ok (g, c')) :
    ∃ i indices, arg = .list (i :: indices) ∧
      g = some (.gpuIndices (sortedIndices (i :: indices)) c.gpuIndicesIdx) := by
  simp only [assignGroup, hidx] at h
  split at h
  · cases h
  · split at h
    · cases h
    · split at h
      · cases h
      · cases h
      · rename_i raw hraw
        cases h
        cases raw with
        | nil => exact absurd rfl hraw
        | cons i indices => exact ⟨i, indices, rfl, rfl⟩

theorem assignGroup_multinode {c c' : GroupCounters} {item : Item} {g : Option Group}
    (hidx : item.indexArg = none) (hmulti : isMultinode item = true)
    (h : assignGroup c item = .ok (g, c')) : g = some (.multinode c.multiNodeIdx) := by
  simp only [assignGroup, hidx, hmulti, if_true] at h
  cases h
  rfl

theorem assignGroup_counted {c c' : GroupCounters} {item : Item} {g : Option Group}
    (hidx : item.indexArg = none) (hmulti : isMultinode item = false)
    (h : assignGroup c item = .ok (g, c')) :
    ∃ n, multiGpuCount item = .ok n ∧
      g = if 0 < n then some (.multiGpu n c.multiGpuIdx) else none := by
  simp only [assignGroup, hidx, hmulti, Bool.false_eq_true, if_false] at h
  cases hn : multiGpuCount item with
  | error e =>
    rw [hn] at h
    cases h
  | ok n =>
    simp only [hn] at h
    refine ⟨n, rfl, ?_⟩
    split at h
    · rename_i hpos
      cases h
      rw [if_pos hpos]
    · rename_i hpos
      cases h
      rw [if_neg hpos]

/-! ## What an accepted list looks like -/

/-- Every annotated item got its group from some turn of the loop. -/
theorem assignXdistGroups_mem {c : GroupCounters} {items : List Item} {xs : List Scheduled}
    (h : assignXdistGroups c items = .ok xs) {x : Scheduled} (hx : x ∈ xs) :
    x.item ∈ items ∧ ∃ c c', assignGroup c x.item = .ok (x.group, c') := by
  induction items generalizing c xs with
  | nil =>
    cases h
    cases hx
  | cons item items ih =>
    obtain ⟨y, hy, h⟩ := Fallible.bind_eq_ok.mp h
    obtain ⟨rest, hrest, h⟩ := Fallible.bind_eq_ok.mp h
    cases h
    rcases List.mem_cons.mp hx with rfl | hx
    · exact ⟨List.mem_cons_self, c, y.2, hy⟩
    · obtain ⟨hmem, hgroup⟩ := ih hrest hx
      exact ⟨List.mem_cons_of_mem _ hmem, hgroup⟩

theorem withKey_eq {policy : SchedulePolicy} {x : Scheduled} {y : (Int × Int) × Scheduled}
    (h : withKey policy x = .ok y) : policy.key x.item = .ok y.1 ∧ y.2 = x := by
  unfold withKey at h
  cases hk : policy.key x.item with
  | error e =>
    rw [hk] at h
    cases h
  | ok key =>
    rw [hk] at h
    cases h
    exact ⟨rfl, rfl⟩

/-- An entry of the sorted list is an item of the input, with the key of the
policy and the group of its turn. -/
theorem schedule_mem {policy : SchedulePolicy} {items : List Item}
    {result : List ((Int × Int) × Scheduled)} (h : schedule policy items = .ok result)
    {x : (Int × Int) × Scheduled} (hx : x ∈ result) :
    x.2.item ∈ items ∧ policy.key x.2.item = .ok x.1 ∧
      ∃ c c', assignGroup c x.2.item = .ok (x.2.group, c') := by
  obtain ⟨grouped, hgrouped, h⟩ := Fallible.bind_eq_ok.mp h
  obtain ⟨keyed, hkeyed, h⟩ := Fallible.bind_eq_ok.mp h
  obtain ⟨_, _, h⟩ := Fallible.bind_eq_ok.mp h
  cases h
  rw [List.mem_mergeSort] at hx
  obtain ⟨y, hy, hxy⟩ := Fallible.exists_of_mem_mapM hkeyed hx
  obtain ⟨hkey, heq⟩ := withKey_eq hxy
  rw [heq]
  obtain ⟨hmem, hgroup⟩ := assignXdistGroups_mem hgrouped hy
  exact ⟨hmem, hkey, hgroup⟩

end Scheduling
end RocmTests

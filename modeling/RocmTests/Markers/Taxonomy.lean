import Mathlib.Data.List.Sort
import RocmTests.Text.Find
import RocmTests.Text.PosixPath

/-!
# The marker taxonomy

The dimensions and their values, and the markers that a directory gives to the tests below
it.
-/

namespace RocmTests
namespace Markers

open Text

/-- `MARKER_SCHEMA`. -/
def markerSchema : List (Txt × List Txt) :=
  [("hw".toList, ["gpu".toList, "multi_gpu".toList, "cpu_only".toList]),
    ("ci".toList, ["pr".toList, "nightly".toList, "weekly".toList]),
    ("layer".toList, ["driver".toList, "runtime".toList, "math_lib".toList]),
    ("runtime".toList, ["fast".toList, "medium".toList, "soak".toList]),
    ("os".toList, ["linux".toList]),
    ("e2e".toList, ["stack".toList, "multinode".toList])]

/-- `REQUIRED_DIMENSIONS`. -/
def requiredDimensions : List Txt := ["hw".toList, "ci".toList, "layer".toList]

/-- A profile in the order of `taxonomy.py`. -/
def profile (hw layer ci : String) : List Txt :=
  [("hw." ++ hw).toList, ("layer." ++ layer).toList, ("ci." ++ ci).toList, "e2e.stack".toList,
    "os.linux".toList]

/-- `CATEGORY_PROFILES`. -/
def categoryProfiles : List (Txt × List Txt) :=
  [("tests/e2e/compiler".toList, profile "gpu" "runtime" "nightly"),
    ("tests/e2e/hwq_heuristic".toList, profile "gpu" "runtime" "nightly"),
    ("tests/e2e/hipblaslt".toList, profile "gpu" "math_lib" "nightly"),
    ("tests/e2e/hip_runtime".toList, profile "gpu" "runtime" "nightly"),
    ("tests/e2e/kfd".toList, profile "gpu" "driver" "nightly"),
    ("tests/e2e/rccl".toList, profile "multi_gpu" "math_lib" "nightly"),
    ("tests/e2e/rocm_libs".toList, profile "gpu" "math_lib" "nightly"),
    ("tests/e2e/hpc/quda".toList, profile "multi_gpu" "math_lib" "nightly"),
    ("tests/e2e/hpc/kokkos".toList, profile "gpu" "runtime" "weekly"),
    ("tests/e2e/hpc/rochpl".toList, profile "multi_gpu" "math_lib" "weekly"),
    ("tests/e2e/rocprim".toList, profile "gpu" "math_lib" "nightly"),
    ("tests/e2e/rocsolver".toList, profile "gpu" "math_lib" "nightly"),
    ("tests/e2e/rocwmma".toList, profile "gpu" "math_lib" "nightly"),
    ("tests/e2e/recovery/criu".toList, profile "gpu" "runtime" "weekly"),
    ("tests/e2e/ml_frameworks/torchvision".toList, profile "multi_gpu" "math_lib" "weekly"),
    ("tests/e2e/miopen".toList, profile "gpu" "math_lib" "nightly"),
    ("tests/e2e/rocm_examples".toList, profile "gpu" "runtime" "nightly"),
    ("tests/e2e/system_tools/amd_smi".toList, profile "gpu" "runtime" "nightly"),
    ("tests/e2e/system_tools/amd_smi/events".toList, profile "gpu" "runtime" "weekly"),
    ("tests/e2e/hip_directed".toList, profile "gpu" "runtime" "nightly"),
    ("tests/e2e/ml_frameworks/apex".toList, profile "multi_gpu" "math_lib" "weekly"),
    ("tests/e2e/hpc/ucx".toList, profile "gpu" "math_lib" "nightly"),
    ("tests/e2e/system_tools/cmake_path_verifier".toList, profile "cpu_only" "runtime" "nightly"),
    ("tests/e2e/ck".toList, profile "gpu" "math_lib" "nightly"),
    ("tests/e2e/system_tools/rocm_agent_enumerator".toList, profile "gpu" "runtime" "nightly"),
    ("tests/e2e/system_tools/rvs".toList, profile "multi_gpu" "runtime" "nightly"),
    ("tests/e2e/system_tools".toList, profile "gpu" "runtime" "nightly"),
    ("tests/e2e/ucc".toList, profile "multi_gpu" "math_lib" "nightly"),
    ("tests/e2e/gpu_monitored".toList, profile "multi_gpu" "runtime" "nightly")]

/-- The longest key of `CATEGORY_PROFILES` that the path begins with, or the empty text. -/
def longestPrefix (rel : Txt) : Txt :=
  categoryProfiles.foldl (fun found p =>
    if p.1.isPrefixOf rel && decide (found.length < p.1.length) then p.1 else found) []

/-- `CATEGORY_PROFILES.get(match, [])`. -/
def profileOf (rel : Txt) : List Txt := (categoryProfiles.lookup (longestPrefix rel)).getD []

/-- `marker.split(".", 1)`, when that gives two parts. -/
def dimVal (marker : Txt) : Option (Txt × Txt) :=
  if '.' ∈ marker then some (partition marker '.') else none

def dims (markers : List Txt) : List Txt := (markers.filterMap dimVal).map Prod.fst

/-- A marker with no dot in it has no dimension and nothing to be checked. -/
def InSchema (marker : Txt) : Prop :=
  ∀ dv, dimVal marker = some dv →
    ∃ allowed, markerSchema.lookup dv.1 = some allowed ∧ dv.2 ∈ allowed

/-- Every required dimension is there, and no dotted marker is outside the schema. -/
structure WellMarked (markers : List Txt) : Prop where
  required : ∀ dim ∈ requiredDimensions, dim ∈ dims markers
  inSchema : ∀ marker ∈ markers, InSchema marker

theorem mem_dims {markers : List Txt} {dim : Txt} :
    dim ∈ dims markers ↔ ∃ marker ∈ markers, ∃ val, dimVal marker = some (dim, val) := by
  constructor
  · intro h
    obtain ⟨⟨d, val⟩, hdv, rfl⟩ := List.mem_map.mp h
    obtain ⟨marker, hmem, heq⟩ := List.mem_filterMap.mp hdv
    exact ⟨marker, hmem, val, heq⟩
  · rintro ⟨marker, hmem, val, heq⟩
    exact List.mem_map.mpr ⟨(dim, val), List.mem_filterMap.mpr ⟨marker, hmem, heq⟩, rfl⟩

theorem dims_append (xs ys : List Txt) : dims (xs ++ ys) = dims xs ++ dims ys := by
  rw [dims, dims, dims, List.filterMap_append, List.map_append]

theorem dims_mono {xs ys : List Txt} (h : xs ⊆ ys) : dims xs ⊆ dims ys := by
  intro dim hdim
  obtain ⟨marker, hmem, hval⟩ := mem_dims.mp hdim
  exact mem_dims.mpr ⟨marker, h hmem, hval⟩

instance (marker : Txt) : Decidable (InSchema marker) :=
  match h : dimVal marker with
  | none => .isTrue fun dv heq => by rw [h] at heq; cases heq
  | some (dim, val) =>
    decidable_of_iff (val ∈ (markerSchema.lookup dim).getD []) <| by
      constructor
      · intro hmem dv heq
        obtain rfl : (dim, val) = dv := Option.some.inj (h.symm.trans heq)
        cases hl : markerSchema.lookup dim with
        | none => rw [hl] at hmem; cases hmem
        | some allowed => rw [hl] at hmem; exact ⟨allowed, rfl, hmem⟩
      · intro hin
        obtain ⟨allowed, hl, hmem⟩ := hin (dim, val) h
        rw [hl]
        exact hmem

/-- Every profile passes the check it is there for. -/
theorem wellMarked_of_mem_categoryProfiles {p : Txt × List Txt} (h : p ∈ categoryProfiles) :
    WellMarked p.2 := by
  have hall : ∀ p ∈ categoryProfiles, (∀ dim ∈ requiredDimensions, dim ∈ dims p.2) ∧
      ∀ marker ∈ p.2, InSchema marker := by
    decide
  exact ⟨(hall p h).1, (hall p h).2⟩

theorem mem_categoryProfiles_of_lookup {k : Txt} {markers : List Txt}
    (h : categoryProfiles.lookup k = some markers) : (k, markers) ∈ categoryProfiles := by
  obtain ⟨before, after, heq, -⟩ := List.lookup_eq_some_iff.mp h
  rw [heq]
  exact List.mem_append_right _ List.mem_cons_self

theorem inSchema_of_mem_profileOf {rel marker : Txt} (h : marker ∈ profileOf rel) :
    InSchema marker := by
  cases hl : categoryProfiles.lookup (longestPrefix rel) with
  | none => rw [profileOf, hl] at h; cases h
  | some markers =>
    rw [profileOf, hl] at h
    exact (wellMarked_of_mem_categoryProfiles (mem_categoryProfiles_of_lookup hl)).inSchema _ h

end Markers
end RocmTests

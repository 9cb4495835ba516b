import Mathlib.Data.List.Lex
import Mathlib.Data.List.Sort
import RocmTests.Text.PosixPath
import RocmTests.Text.Regex

/-!
# The tests that a change has an impact on

`detect_impacted_paths` maps the changed files of a pull request to the paths that are
given to pytest.  Sets are lists here, of which order and repetition are lost when they
are sorted.
-/

namespace RocmTests
namespace GithubActions

open Text Text.Re
open Markers (isSpace strip)

/-! ## Directories -/

/-- The keys of `CATEGORY_PROFILES`. -/
def categoryProfiles : List Txt :=
  ["tests/e2e/compiler".toList, "tests/e2e/hwq_heuristic".toList, "tests/e2e/hipblaslt".toList,
    "tests/e2e/hip_runtime".toList, "tests/e2e/kfd".toList, "tests/e2e/rccl".toList,
    "tests/e2e/rocm_libs".toList, "tests/e2e/hpc/quda".toList, "tests/e2e/hpc/kokkos".toList,
    "tests/e2e/hpc/rochpl".toList, "tests/e2e/rocprim".toList, "tests/e2e/rocsolver".toList,
    "tests/e2e/rocwmma".toList, "tests/e2e/recovery/criu".toList,
    "tests/e2e/ml_frameworks/torchvision".toList, "tests/e2e/miopen".toList,
    "tests/e2e/rocm_examples".toList, "tests/e2e/system_tools/amd_smi".toList,
    "tests/e2e/system_tools/amd_smi/events".toList, "tests/e2e/hip_directed".toList,
    "tests/e2e/ml_frameworks/apex".toList, "tests/e2e/hpc/ucx".toList,
    "tests/e2e/system_tools/cmake_path_verifier".toList, "tests/e2e/ck".toList,
    "tests/e2e/system_tools/rocm_agent_enumerator".toList, "tests/e2e/system_tools/rvs".toList,
    "tests/e2e/system_tools".toList, "tests/e2e/ucc".toList, "tests/e2e/gpu_monitored".toList]

/-- `sorted(set)`. -/
def sortSet (s : List Txt) : List Txt := s.dedup.insertionSort (· ≤ ·)

def allE2eDirs : List Txt := sortSet (categoryProfiles.map (· ++ ['/']))

def cmakeDirs : List Txt :=
  ["tests/e2e/compiler/".toList, "tests/e2e/hipblaslt/".toList, "tests/e2e/hwq_heuristic/".toList,
    "tests/e2e/rocprim/".toList, "tests/e2e/rocm_libs/".toList, "tests/e2e/hpc/quda/".toList,
    "tests/e2e/recovery/criu/".toList]

def criticalFwDirs : List Txt :=
  ["framework/executors".toList, "framework/builder".toList, "framework/common".toList,
    "framework/plugins".toList, "framework/nodes".toList]

/-- `^\+\s{4}"(tests/e2e/[^"]+)"\s*:\s*\[`. -/
def categoryProfileKey : Re :=
  cat [lit "+", cls isSpace, cls isSpace, cls isSpace, cls isSpace, lit "\"",
    group 1 (cat [lit "tests/e2e/", plus fun c => c ≠ '"']), lit "\"", star isSpace, lit ":",
    star isSpace, lit "["]

/-! ## One file -/

/-- `_parse_taxonomy_diff`. -/
def parseTaxonomyDiff (diffText : Txt) : List Txt :=
  (splitlines diffText).filterMap fun line =>
    (matchAt (fun _ => false) categoryProfileKey ⟨[], line⟩).map fun m => m.group 1 ++ ['/']

def startsWith (t s : Txt) : Bool := s.isPrefixOf t

def endsWith (t s : Txt) : Bool := s.isSuffixOf t

/-- `_e2e_area`. -/
def e2eArea (path : PurePath) : Option Txt :=
  let parts := path.parts
  if parts.length < 3 ∨ parts[0]? ≠ some "tests".toList ∨ parts[1]? ≠ some "e2e".toList then none
  else
    let depth := parts.length - 1
    let areaParts := (parts.take depth).drop 2
    if areaParts = [] then none else some ("tests/e2e/".toList ++ joinSlash areaParts)

def isTestFile (path : PurePath) : Bool :=
  startsWith path.name "test_".toList && path.suffix = ".py".toList

def isConftest (path : PurePath) : Bool := path.name = "conftest.py".toList

def isWorkloadOrSrc (path : PurePath) : Bool :=
  startsWith path.name "_".toList || path.parts.contains "src".toList

/-- The condition of rule 2 in `_classify_e2e_path`. -/
def affectsArea (path : PurePath) : Bool :=
  isConftest path || isWorkloadOrSrc path || path.suffix = ".py".toList ||
    [".cpp".toList, ".hip".toList, ".h".toList, ".hpp".toList, ".cu".toList,
      ".cmake".toList].contains path.suffix ||
    path.name = "CMakeLists.txt".toList

/-- `_classify_e2e_path`. -/
def classifyE2ePath (path : PurePath) (raw : Txt) : Option Txt :=
  match e2eArea path with
  | none => none
  | some area =>
    if isTestFile path then some (strip raw)
    else if affectsArea path then some (area ++ ['/'])
    else none

/-- `_is_global_conftest`. -/
def isGlobalConftest (path : PurePath) : Bool :=
  let parts := path.parts
  path.name = "conftest.py".toList &&
    (parts.length = 1 || (parts.length = 2 && parts[0]? = some "tests".toList) ||
      (parts.length = 3 && parts[0]? = some "tests".toList && parts[1]? = some "e2e".toList))

/-- The variables of the loop. -/
structure State where
  impacted : List Txt
  criticalFwHit : Bool
  otherFwFiles : List Txt

/-- `_classify_single_file`: whether the full suite is triggered, and what the
variables are after the file. -/
def classifySingleFile (raw : Txt) (s : State) : Bool × State :=
  let path := PurePath.of (strip raw)
  match path.parts with
  | [] => (false, s)
  | first :: rest =>
    if first = "framework".toList then
      let fwSubdir :=
        match rest with
        | [] => "framework".toList
        | second :: _ => "framework/".toList ++ second
      if fwSubdir ∈ criticalFwDirs then (false, { s with criticalFwHit := true })
      else (false, { s with otherFwFiles := strip raw :: s.otherFwFiles })
    else if isGlobalConftest path then (true, s)
    else if first = "tests".toList ∧ rest.head? = some "common".toList then
      if path.name = "_cmake_build.py".toList then
        (false, { s with impacted := cmakeDirs ++ s.impacted })
      else (true, s)
    else if first ≠ "tests".toList ∨ (rest ≠ [] ∧ rest.head? ≠ some "e2e".toList) then (false, s)
    else
      match classifyE2ePath path raw with
      | some result => (false, { s with impacted := result :: s.impacted })
      | none => (false, s)

/-! ## All files -/

/-- The files of the repository, as paths below its root. -/
abbrev Tree := List Txt

/-- The name of a file right below a directory that matches `test_*.py`. -/
def globTest (areaKey file : Txt) : Option Txt :=
  if startsWith file (areaKey ++ ['/']) then
    let name := file.drop (areaKey.length + 1)
    if '/' ∉ name ∧ startsWith name "test_".toList ∧ endsWith name ".py".toList then some name
    else none
  else none

/-- `_smoke_paths`. -/
def smokePaths (tree : Tree) : List Txt :=
  (sortSet categoryProfiles).filterMap fun areaKey =>
    (sortSet (tree.filterMap (globTest areaKey))).head?.map fun name => areaKey ++ '/' :: name

def taxonomyPath : Txt := "framework/markers/taxonomy.py".toList

/-- `_resolve_framework_impacted`. -/
def resolveFrameworkImpacted (otherFwFiles : List Txt) (taxonomyDiff : Option Txt) (tree : Tree) :
    List Txt :=
  let newDirs :=
    match taxonomyDiff with
    | some diff => if taxonomyPath ∈ otherFwFiles then parseTaxonomyDiff diff else []
    | none => []
  let remaining :=
    if newDirs = [] then otherFwFiles else otherFwFiles.filter fun f => f ≠ taxonomyPath
  newDirs ++ if remaining = [] then [] else smokePaths tree

/-- `_deduplicate`. -/
def deduplicate (impacted : List Txt) : List Txt :=
  let dirs := impacted.filter fun p => endsWith p ['/']
  let files := impacted.filter fun p => !endsWith p ['/']
  let filtered := files.filter fun f => !dirs.any fun d => startsWith f d
  sortSet (dirs ++ filtered)

/-- The loop: whether it stopped at a trigger of the full suite, and the variables. -/
def loop (s : State) : List Txt → Bool × State
  | [] => (false, s)
  | raw :: rest =>
    match classifySingleFile raw s with
    | (true, s) => (true, s)
    | (false, s) => loop s rest

def start : State := { impacted := [], criticalFwHit := false, otherFwFiles := [] }

/-- The set that `detect_impacted_paths` collects, unless the full suite is to run. -/
def collected (changedFiles : List Txt) (taxonomyDiff : Option Txt) (tree : Tree) :
    Option (List Txt) :=
  let (triggered, s) := loop start changedFiles
  if triggered || s.criticalFwHit then none
  else if s.otherFwFiles = [] then some s.impacted
  else some (resolveFrameworkImpacted s.otherFwFiles taxonomyDiff tree ++ s.impacted)

/-- `detect_impacted_paths`. -/
def detectImpactedPaths (changedFiles : List Txt) (taxonomyDiff : Option Txt) (tree : Tree) :
    List Txt :=
  match collected changedFiles taxonomyDiff tree with
  | none => sortSet allE2eDirs
  | some impacted => deduplicate impacted

end GithubActions
end RocmTests

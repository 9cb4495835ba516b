import Mathlib.Data.List.Dedup
import RocmTests.Collections.Grouping
import RocmTests.Markers.SyntaxTree
import RocmTests.Markers.Taxonomy

/-!
# The marker linter

`MarkerLinter` reads the tree of a test module.  It takes a test function to carry its own
decorators, every assignment to `pytestmark` that the tree holds and the profile of the path,
and reports what is missing of the required dimensions or outside the schema.
-/

namespace RocmTests
namespace Markers

open Text Collections

structure MarkerViolation where
  file : Txt
  function : Txt
  line : Nat
  message : Txt
deriving DecidableEq

/-- What the linter asks the file system.  `resolve path` is `str(Path(path).resolve())`. -/
structure Filesystem where
  cwd : Txt
  resolve : Txt → Txt

namespace MarkerLinter

/-- `_dotted_name`. -/
def dottedName : Expr → Option Txt
  | .attribute value attr =>
    match dottedName value with
    | some parent => some (if parent = [] then attr else parent ++ '.' :: attr)
    | none => some attr
  | .name id => some id
  | .call func _ => dottedName func
  | .list _ | .other _ => none

def markPrefix : Txt := "pytest.mark.".toList

/-- The marker that an expression spells. -/
def spelled (e : Expr) : Option Txt :=
  match dottedName e with
  | some name => if markPrefix.isPrefixOf name then some (name.drop markPrefix.length) else none
  | none => none

/-- `_inherited_markers`. -/
def inheritedMarkers (fs : Filesystem) (path : Txt) : List Txt :=
  let rel := ((PurePath.of (fs.resolve path)).relativeTo (PurePath.of (fs.resolve fs.cwd))).getD
    (PurePath.of path)
  profileOf rel.asPosix

def pytestmark : Txt := "pytestmark".toList

def isPytestmark : Expr → Bool
  | .name id => id = pytestmark
  | _ => false

/-- What the linter takes for the elements of the value of `pytestmark`. -/
def elements : Expr → List Expr
  | .list elts => elts
  | .attribute value attr => [.attribute value attr]
  | _ => []

/-- `_module_pytestmark`. -/
def modulePytestmark (tree : List Stmt) : List Txt :=
  (walk tree).flatMap fun
    | .assign targets value =>
      (targets.filter isPytestmark).flatMap fun _ => (elements value).filterMap spelled
    | _ => []

/-- `_extract_markers`. -/
def extractMarkers (f : FunctionDef) : List Txt := f.decorators.filterMap spelled

def missing (dim : Txt) : Txt := "Missing required marker dimension '".toList ++ dim ++ ".*'".toList

def unknown (dim : Txt) : Txt :=
  "Unknown marker dimension '".toList ++ dim ++ "' — not in MARKER_SCHEMA".toList

/-- `sorted(allowed)` as it is printed. -/
def printed (allowed : List Txt) : Txt :=
  ['['] ++ ", ".toList.intercalate ((allowed.insertionSort (· ≤ ·)).map fun val =>
    "'".toList ++ val ++ "'".toList) ++ [']']

def invalid (dim val : Txt) (allowed : List Txt) : Txt :=
  "Invalid marker '".toList ++ dim ++ ['.'] ++ val ++ "' — allowed: ".toList ++ printed allowed

/-- What is reported of the values of one dimension. -/
def checkValues (file func : Txt) (line : Nat) (entry : Txt × List Txt) : List MarkerViolation :=
  match markerSchema.lookup entry.1 with
  | none => [⟨file, func, line, unknown entry.1⟩]
  | some allowed => (entry.2.filter (· ∉ allowed)).map fun val =>
      ⟨file, func, line, invalid entry.1 val allowed⟩

/-- `_check_markers`. -/
def checkMarkers (file func : Txt) (line : Nat) (markers : List Txt) : List MarkerViolation :=
  let dimValues := Grouping.group (markers.filterMap dimVal)
  (requiredDimensions.filter (· ∉ dimValues.map Prod.fst)).map
      (fun dim => ⟨file, func, line, missing dim⟩) ++
    dimValues.flatMap (checkValues file func line)

def testPrefix : Txt := "test_".toList

/-- The functions that the linter looks at. -/
def isChecked (f : FunctionDef) : Bool := !f.isAsync && testPrefix.isPrefixOf f.name

/-- The markers that the linter takes a function to carry. -/
def effective (fs : Filesystem) (path : Txt) (tree : List Stmt) (f : FunctionDef) : List Txt :=
  (inheritedMarkers fs path ++ modulePytestmark tree ++ extractMarkers f).dedup

/-- `lint_file`, of the file that `ast.parse` made this of. -/
def lintFile (fs : Filesystem) (path : Txt) (parsed : Except Txt (List Stmt)) :
    List MarkerViolation :=
  match parsed with
  | .error exc => [⟨path, "<module>".toList, 0, "SyntaxError: ".toList ++ exc⟩]
  | .ok tree => (walk tree).flatMap fun
    | .functionDef f _ =>
      if isChecked f then checkMarkers path f.name f.lineno (effective fs path tree f) else []
    | _ => []

/-! ## What a silent linter says -/

theorem checkValues_eq_nil_iff {file func : Txt} {line : Nat} {entry : Txt × List Txt} :
    checkValues file func line entry = [] ↔
      ∃ allowed, markerSchema.lookup entry.1 = some allowed ∧ ∀ val ∈ entry.2, val ∈ allowed := by
  rw [checkValues]
  cases markerSchema.lookup entry.1 with
  | none => simp
  | some allowed => simp [List.filter_eq_nil_iff]

/-- The groups pass when every marker they were made of does. -/
theorem forall_group_iff {markers : List Txt} :
    (∀ entry ∈ Grouping.group (markers.filterMap dimVal), ∃ allowed,
        markerSchema.lookup entry.1 = some allowed ∧ ∀ val ∈ entry.2, val ∈ allowed) ↔
      ∀ marker ∈ markers, InSchema marker := by
  constructor
  · intro h marker hmem dv hdv
    obtain ⟨vals, hentry, hval⟩ :=
      Grouping.has_group.mpr (List.mem_filterMap.mpr ⟨marker, hmem, hdv⟩)
    obtain ⟨allowed, hl, hall⟩ := h _ hentry
    exact ⟨allowed, hl, hall _ hval⟩
  · intro h entry hentry
    have hvals : ∀ val, (entry.1, val) ∈ markers.filterMap dimVal →
        ∃ allowed, markerSchema.lookup entry.1 = some allowed ∧ val ∈ allowed := by
      intro val hpair
      obtain ⟨marker, hmem, hdv⟩ := List.mem_filterMap.mp hpair
      exact h marker hmem _ hdv
    -- a group has a value, which tells that its dimension is in the schema
    obtain ⟨⟨dim, val⟩, hpair, hdim⟩ := List.mem_map.mp
      (Grouping.mem_keys_group.mp (List.mem_map_of_mem hentry))
    obtain ⟨allowed, hl, -⟩ := hvals val (hdim ▸ hpair)
    refine ⟨allowed, hl, fun w hw => ?_⟩
    obtain ⟨allowed', hl', hmem⟩ := hvals w (Grouping.has_group.mp ⟨entry.2, hentry, hw⟩)
    obtain rfl : allowed = allowed' := Option.some.inj (hl.symm.trans hl')
    exact hmem

/-- The check reports nothing of well marked markers, and of no others. -/
theorem checkMarkers_eq_nil_iff {file func : Txt} {line : Nat} {markers : List Txt} :
    checkMarkers file func line markers = [] ↔ WellMarked markers := by
  have hkeys (dim : Txt) : dim ∈ (Grouping.group (markers.filterMap dimVal)).map Prod.fst ↔
      dim ∈ dims markers := Grouping.mem_keys_group
  have hrequired : (requiredDimensions.filter
      (· ∉ (Grouping.group (markers.filterMap dimVal)).map Prod.fst)) = [] ↔
        ∀ dim ∈ requiredDimensions, dim ∈ dims markers := by
    simp only [List.filter_eq_nil_iff, decide_eq_true_eq, not_not, hkeys]
  rw [checkMarkers, List.append_eq_nil_iff, List.map_eq_nil_iff, hrequired,
    List.flatMap_eq_nil_iff]
  simp only [checkValues_eq_nil_iff]
  rw [forall_group_iff]
  exact ⟨fun h => ⟨h.1, h.2⟩, fun h => ⟨h.required, h.inSchema⟩⟩

/-- The linter is silent when every function it looks at is well marked by what it reads. -/
theorem lintFile_eq_nil_iff {fs : Filesystem} {path : Txt} {tree : List Stmt} :
    lintFile fs path (.ok tree) = [] ↔ ∀ f body, .functionDef f body ∈ walk tree →
      isChecked f = true → WellMarked (effective fs path tree f) := by
  rw [lintFile, List.flatMap_eq_nil_iff]
  constructor
  · intro h f body hmem hf
    exact checkMarkers_eq_nil_iff.mp ((if_pos hf).symm.trans (h _ hmem))
  · intro h s hmem
    cases s with
    | functionDef f body =>
      by_cases hf : isChecked f = true
      · exact (if_pos hf).trans (checkMarkers_eq_nil_iff.mpr (h f body hmem hf))
      · exact if_neg hf
    | classDef c body => rfl
    | assign targets value => rfl
    | bind id value => rfl
    | compound body => rfl

end MarkerLinter
end Markers
end RocmTests

import RocmTests.Markers.Linter

/-!
# What the linter promises of a run

pytest imports a test module and collects the test functions that the names of the module and
of its test classes are bound to in the end.  A collected function carries the marks of its
decorators, of its classes and of the module, and `_apply_profiles` adds the markers of the
profile whose dimension it does not have.

The linter reads the same tree without running it.  It looks at the functions that are plain
and called `test_…`, and takes every `pytestmark` of the tree and the profile of the resolved
path for theirs.
-/

namespace RocmTests
namespace Markers

open Text Stmt MarkerLinter

/-! ## The profiles at run time -/

/-- `_matching_profile`. -/
def matchingProfile (cwd fspath : Txt) : List Txt :=
  match (PurePath.of fspath).relativeTo (PurePath.of cwd) with
  | some rel => profileOf rel.asPosix
  | none => []

/-- One turn of the loop of `_apply_profiles`: what an item carries afterwards. -/
def applyProfile (cwd fspath : Txt) (carried : List Txt) : List Txt :=
  carried ++ (matchingProfile cwd fspath).filter fun marker =>
    (partition marker '.').1 ∉ dims carried

theorem inSchema_of_mem_matchingProfile {cwd fspath marker : Txt}
    (h : marker ∈ matchingProfile cwd fspath) : InSchema marker := by
  cases hrel : (PurePath.of fspath).relativeTo (PurePath.of cwd) with
  | none => rw [matchingProfile, hrel] at h; cases h
  | some rel =>
    rw [matchingProfile, hrel] at h
    exact inSchema_of_mem_profileOf h

theorem eq_of_dimVal {marker dim val : Txt} (h : dimVal marker = some (dim, val)) :
    (partition marker '.').1 = dim := by
  by_cases hdot : '.' ∈ marker
  · rw [dimVal, if_pos hdot] at h
    rw [Option.some.inj h]
  · rw [dimVal, if_neg hdot] at h
    cases h

/-- An item has the dimensions it carried and all those of its profile. -/
theorem mem_dims_applyProfile {cwd fspath dim : Txt} {carried : List Txt} :
    dim ∈ dims (applyProfile cwd fspath carried) ↔
      dim ∈ dims carried ∨ dim ∈ dims (matchingProfile cwd fspath) := by
  rw [applyProfile, dims_append, List.mem_append]
  constructor
  · rintro (h | h)
    · exact .inl h
    · exact .inr (dims_mono (fun _ => List.mem_of_mem_filter) h)
  · intro h
    by_cases hcarried : dim ∈ dims carried
    · exact .inl hcarried
    · obtain ⟨marker, hmem, val, hval⟩ := mem_dims.mp (h.resolve_left hcarried)
      refine .inr (mem_dims.mpr ⟨marker, List.mem_filter.mpr ⟨hmem, ?_⟩, val, hval⟩)
      rw [eq_of_dimVal hval]
      exact decide_eq_true hcarried

/-- A profile does not break the schema. -/
theorem inSchema_applyProfile {cwd fspath : Txt} {carried : List Txt} :
    (∀ marker ∈ applyProfile cwd fspath carried, InSchema marker) ↔
      ∀ marker ∈ carried, InSchema marker := by
  constructor
  · intro h marker hmem
    exact h marker (List.mem_append_left _ hmem)
  · intro h marker hmem
    rcases List.mem_append.mp hmem with hmem | hmem
    · exact h marker hmem
    · exact inSchema_of_mem_matchingProfile (List.mem_of_mem_filter hmem)

/-! ## Imports -/

/-- One import of a test module, as far as its test functions and their marks go. -/
structure Import (tree : List Stmt) where
  /-- The statements that running a body executes in its scope, in the order of the run. -/
  executed : List Stmt → List Stmt
  executed_scope : ∀ body, ∀ s ∈ executed body, s ∈ scope body
  /-- The classes of the module that a class inherits from, the nearest first. -/
  mro : ClassDef → List (ClassDef × List Stmt)
  mro_mem : ∀ c, ∀ d ∈ mro c, .classDef d.1 d.2 ∈ walk tree
  /-- The marks that the bases of other modules give to a class. -/
  otherMarks : ClassDef → List Txt
  /-- The marks in the value of an expression that does not spell one. -/
  value : Expr → List Txt
  /-- The function is still one when its decorators have run, and no fixture. -/
  isTestFunction : FunctionDef → Bool
  /-- The class has no constructor and does not opt out. -/
  isTestClass : ClassDef → Bool
  isUnittest : ClassDef → Bool

namespace Import

variable {tree : List Stmt} (imp : Import tree)

def marksOf (e : Expr) : List Txt :=
  match spelled e with
  | some marker => [marker]
  | none => imp.value e

/-- The marks in a value that `pytestmark` is bound to. -/
def listed : Expr → List Txt
  | .list elts => elts.flatMap imp.marksOf
  | e => imp.marksOf e

def boundMarks : Stmt → List Txt
  | .assign _ value | .bind _ value => imp.listed value
  | _ => []

/-- The marks of the `pytestmark` that running a body leaves in its scope. -/
def ownMarks (body : List Stmt) : List Txt :=
  match (imp.executed body).reverse.find? (binds pytestmark) with
  | some s => imp.boundMarks s
  | none => []

def decoratorMarks (decorators : List Expr) : List Txt := decorators.flatMap imp.marksOf

/-- A class hands on the marks of every class behind it. -/
def classMarks (c : ClassDef) (body : List Stmt) : List Txt :=
  imp.otherMarks c ++ ((imp.mro c).reverse ++ [(c, body)]).flatMap fun d =>
    imp.ownMarks d.2 ++ imp.decoratorMarks d.1.decorators

/-- The statements that bound the attributes of a class, those of its bases first. -/
def members (c : ClassDef) (body : List Stmt) : List Stmt :=
  (imp.mro c).reverse.flatMap (fun d => imp.executed d.2) ++ imp.executed body

/-- The definitions whose name no later statement binds again. -/
def live : List Stmt → List Stmt
  | [] => []
  | .functionDef f body :: rest =>
    if rest.any (binds f.name) then live rest else .functionDef f body :: live rest
  | .classDef c body :: rest =>
    if rest.any (binds c.name) then live rest else .classDef c body :: live rest
  | _ :: rest => live rest

/-- `python_functions` is not configured: its default is `test`. -/
def collectsFunction (f : FunctionDef) : Bool :=
  "test".toList.isPrefixOf f.name && imp.isTestFunction f

/-- `python_classes` is not configured: its default is `Test`. -/
def collectsClass (c : ClassDef) : Bool :=
  ("Test".toList.isPrefixOf c.name || imp.isUnittest c) && imp.isTestClass c

/-- pytest collects a function from a namespace whose own marks are given, and the function
carries these marks. -/
inductive CollectedFrom : List Stmt → List Txt → FunctionDef → List Txt → Prop
  | function {ns : List Stmt} {marks : List Txt} {f : FunctionDef} {body : List Stmt}
      (hlive : .functionDef f body ∈ live ns) (hf : imp.collectsFunction f = true) :
      CollectedFrom ns marks f (imp.decoratorMarks f.decorators ++ marks)
  | inClass {ns : List Stmt} {marks : List Txt} {c : ClassDef} {body : List Stmt}
      {f : FunctionDef} {carried : List Txt}
      (hlive : .classDef c body ∈ live ns) (hc : imp.collectsClass c = true)
      (h : CollectedFrom (imp.members c body) (imp.classMarks c body ++ marks) f carried) :
      CollectedFrom ns marks f carried

def Collected : FunctionDef → List Txt → Prop :=
  imp.CollectedFrom (imp.executed tree) (imp.ownMarks tree)

variable {imp}

theorem mem_of_mem_live {ns : List Stmt} {s : Stmt} (h : s ∈ live ns) : s ∈ ns := by
  induction ns with
  | nil => exact h
  | cons t rest ih =>
    have hskip (h : s ∈ live rest) : s ∈ t :: rest := List.mem_cons_of_mem t (ih h)
    cases t with
    | functionDef f body =>
      rw [live] at h
      split at h
      · exact hskip h
      · exact (List.mem_cons.mp h).elim (fun e => e ▸ List.mem_cons_self) hskip
    | classDef c body =>
      rw [live] at h
      split at h
      · exact hskip h
      · exact (List.mem_cons.mp h).elim (fun e => e ▸ List.mem_cons_self) hskip
    | assign targets value => exact hskip h
    | bind id value => exact hskip h
    | compound body => exact hskip h

theorem executed_subset_walk {body : List Stmt} {s : Stmt} (h : s ∈ imp.executed body) :
    s ∈ walk body :=
  mem_walk_of_mem_scope (imp.executed_scope body s h)

theorem members_subset_walk {c : ClassDef} {body : List Stmt}
    (hc : .classDef c body ∈ walk tree) {s : Stmt} (h : s ∈ imp.members c body) :
    s ∈ walk tree := by
  rcases List.mem_append.mp h with h | h
  · obtain ⟨d, hd, hs⟩ := List.mem_flatMap.mp h
    exact mem_walk_of_walk_children (imp.mro_mem c d (List.mem_reverse.mp hd))
      (executed_subset_walk hs)
  · exact mem_walk_of_walk_children hc (executed_subset_walk h)

/-- What pytest collects is a function of the tree. -/
theorem CollectedFrom.exists_mem_walk {ns : List Stmt} {marks carried : List Txt}
    {f : FunctionDef} (h : imp.CollectedFrom ns marks f carried)
    (hns : ∀ s ∈ ns, s ∈ walk tree) : ∃ body, .functionDef f body ∈ walk tree := by
  induction h with
  | function hlive _ => exact ⟨_, hns _ (mem_of_mem_live hlive)⟩
  | inClass hlive _ _ ih =>
    exact ih fun s hs => members_subset_walk (hns _ (mem_of_mem_live hlive)) hs

theorem mem_marksOf_of_spelled {e : Expr} {marker : Txt} (h : spelled e = some marker) :
    marker ∈ imp.marksOf e := by
  rw [marksOf, h]
  exact List.mem_singleton_self marker

/-- A collected function carries what its decorators spell. -/
theorem CollectedFrom.extractMarkers_subset {ns : List Stmt} {marks carried : List Txt}
    {f : FunctionDef} (h : imp.CollectedFrom ns marks f carried) :
    extractMarkers f ⊆ carried := by
  induction h with
  | function _ _ =>
    intro marker hmem
    obtain ⟨e, he, hspelled⟩ := List.mem_filterMap.mp hmem
    exact List.mem_append_left _
      (List.mem_flatMap.mpr ⟨e, he, mem_marksOf_of_spelled hspelled⟩)
  | inClass _ _ _ ih => exact ih

end Import

/-! ## What the linter promises -/

section Promise

variable (fs : Filesystem) (path fspath : Txt) (tree : List Stmt)

/-- What the linter reads for every function of a file. -/
def shared : List Txt := inheritedMarkers fs path ++ modulePytestmark tree

/-- What the linter reads for a function. -/
def sources (f : FunctionDef) : List Txt := shared fs path tree ++ extractMarkers f

/-- A test that the linter looks at is given what it was read to have. -/
structure ReadRight (f : FunctionDef) (carried : List Txt) : Prop where
  /-- A required dimension that is read for every function comes to this one, from whatever
  it carries or from its profile. -/
  lent : ∀ dim ∈ requiredDimensions, dim ∈ dims (shared fs path tree) →
    dim ∈ dims carried ∨ dim ∈ dims (matchingProfile fs.cwd fspath)
  /-- What it carries and was not read is in the schema. -/
  unread : ∀ marker ∈ carried, marker ∉ sources fs path tree f → InSchema marker

/-- A test that the linter does not look at needs nothing of it. -/
structure SelfMarked (carried : List Txt) : Prop where
  required : ∀ dim ∈ requiredDimensions,
    dim ∈ dims carried ∨ dim ∈ dims (matchingProfile fs.cwd fspath)
  inSchema : ∀ marker ∈ carried, InSchema marker

structure Covered (f : FunctionDef) (carried : List Txt) : Prop where
  checked : isChecked f = true → ReadRight fs path fspath tree f carried
  unchecked : isChecked f = false → SelfMarked fs fspath carried

variable {fs path fspath tree}

theorem wellMarked_congr {xs ys : List Txt} (h : ∀ marker, marker ∈ xs ↔ marker ∈ ys) :
    WellMarked xs ↔ WellMarked ys := by
  have half {xs ys : List Txt} (h : ∀ marker, marker ∈ xs ↔ marker ∈ ys) (hx : WellMarked xs) :
      WellMarked ys :=
    ⟨fun dim hdim => dims_mono (fun _ hmem => (h _).mp hmem) (hx.required dim hdim),
      fun marker hmem => hx.inSchema marker ((h marker).mpr hmem)⟩
  exact ⟨half h, half fun marker => (h marker).symm⟩

theorem wellMarked_effective_iff {f : FunctionDef} :
    WellMarked (effective fs path tree f) ↔ WellMarked (sources fs path tree f) :=
  wellMarked_congr fun _ => List.mem_dedup

theorem wellMarked_applyProfile_iff {carried : List Txt} :
    WellMarked (applyProfile fs.cwd fspath carried) ↔ SelfMarked fs fspath carried := by
  constructor
  · intro h
    exact ⟨fun dim hdim => mem_dims_applyProfile.mp (h.required dim hdim),
      inSchema_applyProfile.mp h.inSchema⟩
  · intro h
    exact ⟨fun dim hdim => mem_dims_applyProfile.mpr (h.required dim hdim),
      inSchema_applyProfile.mpr h.inSchema⟩

/-- A test that passes the linter is well marked when it is given what it was read to have:
its own decorators are read and carried alike. -/
theorem readRight_iff {f : FunctionDef} {carried : List Txt}
    (hown : extractMarkers f ⊆ carried) (hpass : WellMarked (sources fs path tree f)) :
    ReadRight fs path fspath tree f carried ↔ SelfMarked fs fspath carried := by
  constructor
  · intro h
    refine ⟨fun dim hdim => ?_, fun marker hmem => ?_⟩
    · have hread := hpass.required dim hdim
      rw [sources, dims_append, List.mem_append] at hread
      rcases hread with hshared | hspelled
      · exact h.lent dim hdim hshared
      · exact .inl (dims_mono hown hspelled)
    · by_cases hread : marker ∈ sources fs path tree f
      · exact hpass.inSchema marker hread
      · exact h.unread marker hmem hread
  · intro h
    exact ⟨fun dim hdim _ => h.required dim hdim, fun marker hmem _ => h.inSchema marker hmem⟩

theorem covered_iff {f : FunctionDef} {carried : List Txt} (hown : extractMarkers f ⊆ carried)
    (hpass : isChecked f = true → WellMarked (sources fs path tree f)) :
    Covered fs path fspath tree f carried ↔ SelfMarked fs fspath carried := by
  constructor
  · intro h
    cases hf : isChecked f with
    | true => exact (readRight_iff hown (hpass hf)).mp (h.checked hf)
    | false => exact h.unchecked hf
  · intro h
    exact ⟨fun hf => (readRight_iff hown (hpass hf)).mpr h, fun _ => h⟩

end Promise

/-- A silent linter means well marked tests when every collected test that it looks at is given
what it was read to have and the others have it of themselves.  Otherwise the linter has to
speak for another reason: what it reads for some function is not well marked. -/
theorem lintSound_iff (fs : Filesystem) (path fspath : Txt) (tree : List Stmt)
    (imp : Import tree) :
    (lintFile fs path (.ok tree) = [] → ∀ f carried, imp.Collected f carried →
        WellMarked (applyProfile fs.cwd fspath carried)) ↔
      (∃ f body, .functionDef f body ∈ walk tree ∧ isChecked f = true ∧
        ¬WellMarked (sources fs path tree f)) ∨
      ∀ f carried, imp.Collected f carried → Covered fs path fspath tree f carried := by
  by_cases hspeaks : ∃ f body, .functionDef f body ∈ walk tree ∧ isChecked f = true ∧
      ¬WellMarked (sources fs path tree f)
  · obtain ⟨f, body, hmem, hf, hbad⟩ := hspeaks
    refine iff_of_true (fun hnil => absurd ?_ hbad) (.inl ⟨f, body, hmem, hf, hbad⟩)
    exact wellMarked_effective_iff.mp (lintFile_eq_nil_iff.mp hnil f body hmem hf)
  · have hpass : ∀ f body, .functionDef f body ∈ walk tree → isChecked f = true →
        WellMarked (sources fs path tree f) := fun f body hmem hf =>
      Classical.byContradiction fun hbad => hspeaks ⟨f, body, hmem, hf, hbad⟩
    have hnil : lintFile fs path (.ok tree) = [] :=
      lintFile_eq_nil_iff.mpr fun f body hmem hf =>
        wellMarked_effective_iff.mpr (hpass f body hmem hf)
    have hitem : ∀ f carried, imp.Collected f carried →
        (Covered fs path fspath tree f carried ↔
          WellMarked (applyProfile fs.cwd fspath carried)) := by
      intro f carried h
      obtain ⟨body, hmem⟩ := h.exists_mem_walk fun s hs => Import.executed_subset_walk hs
      exact (covered_iff h.extractMarkers_subset (hpass f body hmem)).trans
        wellMarked_applyProfile_iff.symm
    rw [or_iff_right hspeaks]
    constructor
    · intro h f carried hcol
      exact (hitem f carried hcol).mpr (h hnil f carried hcol)
    · intro h _ f carried hcol
      exact (hitem f carried hcol).mp (h f carried hcol)

/-! ## A class that speaks for its module -/

/-- The import of a module that runs every statement once and inherits from nothing. -/
def straight (tree : List Stmt) : Import tree where
  executed := scope
  executed_scope _ _ h := h
  mro _ := []
  mro_mem _ _ h := absurd h List.not_mem_nil
  otherMarks _ := []
  value _ := []
  isTestFunction _ := true
  isTestClass _ := true
  isUnittest _ := false

def checkout : Filesystem where
  cwd := "/repo".toList
  resolve path := normpath (join "/repo".toList path)

def markExpr (dim val : String) : Expr :=
  .attribute (.attribute (.attribute (.name "pytest".toList) "mark".toList) dim.toList) val.toList

def testTuned : FunctionDef := ⟨false, "test_tuned".toList, 6, []⟩

def testPlain : FunctionDef := ⟨false, "test_plain".toList, 9, []⟩

/-- A class with its own `pytestmark` beside a function without marks. -/
def tunedModule : List Stmt :=
  [.bind "pytest".toList (.other "import pytest".toList),
    .classDef ⟨"TestTuned".toList, 3, [], []⟩
      [.assign [.name "pytestmark".toList]
        (.list [markExpr "hw" "gpu", markExpr "ci" "pr", markExpr "layer" "runtime"]),
        .functionDef testTuned []],
    .functionDef testPlain []]

theorem classPytestmark_silences :
    ¬(lintFile checkout "tests/dry_run/test_tuned.py".toList (.ok tunedModule) = [] →
      ∀ f carried, (straight tunedModule).Collected f carried →
        WellMarked (applyProfile checkout.cwd "/repo/tests/dry_run/test_tuned.py".toList
          carried)) := by
  intro h
  have hsilent : lintFile checkout "tests/dry_run/test_tuned.py".toList (.ok tunedModule) = [] := by
    decide
  have hplain : (straight tunedModule).Collected testPlain [] :=
    .function (List.mem_cons_of_mem _ List.mem_cons_self) rfl
  have hbare : "hw".toList ∉ dims (applyProfile checkout.cwd
      "/repo/tests/dry_run/test_tuned.py".toList []) := by
    decide
  exact hbare ((h hsilent testPlain [] hplain).required _ List.mem_cons_self)

end Markers
end RocmTests

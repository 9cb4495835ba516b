import RocmTests.Text.Find
import RocmTests.Text.PathPrefix
import RocmTests.Text.RegexRuns

/-!
# The log of a test

A test writes to a file of its own, named after the test in a directory named after the one its
module is in.  What cannot stand in a file name becomes an underscore.
-/

namespace RocmTests
namespace Common
namespace ExecutorLog

open Text

/-- `[A-Za-z0-9._=-]`. -/
def isSafe (c : Char) : Bool := c.isAlphanum || c = '.' || c = '_' || c = '=' || c = '-'

def isStripped (c : Char) : Bool := c = '.' || c = '_'

/-- `_safe_artifact_name`. -/
def safeArtifactName (name : Txt) : Txt :=
  let safe := Re.subst (fun _ => false) (Re.plus fun c => !isSafe c) ['_'] name
  let safe := Re.subst (fun _ => false) (Re.plus fun c => c = '_') ['_'] safe
  let safe := (safe.dropWhile isStripped).rdropWhile isStripped
  if safe = [] then "test".toList else safe

/-- `name.replace("::", "__")`. -/
def replaceColons : Txt → Txt
  | ':' :: ':' :: t => '_' :: '_' :: replaceColons t
  | c :: t => c :: replaceColons t
  | [] => []

/-- `path.parent.name`. -/
def parentName (p : PurePath) : Txt := p.tail.dropLast.getLast?.getD []

/-- `path / t`. -/
def child (p : PurePath) (t : Txt) : PurePath :=
  if (PurePath.of t).root ≠ [] then PurePath.of t else ⟨p.root, p.tail ++ components t⟩

/-- The directory that the log is in. -/
def testSubdir (nodeid : Option Txt) : Txt :=
  match nodeid.bind (indexOf "::".toList) with
  | some i => parentName (PurePath.of ((nodeid.getD []).take i))
  | none => "executor-logs".toList

/-- `executor_log_file`. -/
def executorLogFile (artifactDir testName : Txt) (nodeid : Option Txt) : PurePath :=
  let safeFunc := safeArtifactName (replaceColons testName)
  child (child (PurePath.of artifactDir) (testSubdir nodeid)) (safeFunc ++ ".log".toList)

/-- What is in the files. -/
abbrev Files := PurePath → Option Txt

/-- `executor_log_path`: the file is there and empty afterwards. -/
def executorLogPath (files : Files) (artifactDir testName : Txt) (nodeid : Option Txt) : Files :=
  Function.update files (executorLogFile artifactDir testName nodeid) (some [])

/-- A collected test. -/
structure Item where
  file : Txt
  cls : Option Txt
  func : Txt
  params : Option Txt

namespace Item

/-- `request.node.name`. -/
def name (item : Item) : Txt :=
  match item.params with
  | some params => item.func ++ '[' :: params ++ [']']
  | none => item.func

/-- `request.node.nodeid`. -/
def nodeid (item : Item) : Txt :=
  match item.cls with
  | some cls => item.file ++ "::".toList ++ cls ++ "::".toList ++ item.name
  | none => item.file ++ "::".toList ++ item.name

/-- The path of the module, as far as it has no pair of colons. -/
def module (item : Item) : Txt :=
  item.file.take ((indexOf "::".toList (item.file ++ "::".toList)).getD 0)

/-- The directory that the module is in, by its name. -/
def area (item : Item) : Txt := parentName (PurePath.of item.module)

def logFile (artifactDir : Txt) (item : Item) : PurePath :=
  executorLogFile artifactDir item.name (some item.nodeid)

end Item

/-- Two tests have different logs, and neither empties the log of the other. -/
structure Apart (artifactDir : Txt) (a b : Item) : Prop where
  differ : a.logFile artifactDir ≠ b.logFile artifactDir
  kept : ∀ files, executorLogPath files artifactDir a.name (some a.nodeid) (b.logFile artifactDir) =
    files (b.logFile artifactDir)

/-! ## What is left of a name -/

/-- A character that does not stand in a word. -/
def isGap (c : Char) : Bool := !isSafe c || c = '_'

def isEdge (c : Char) : Bool := isGap c || c = '.'

/-- The name without the gaps and dots at its ends. -/
def core (name : Txt) : Txt := (name.dropWhile isEdge).rdropWhile isEdge

/-- The words of a name.  One without a word is called `test`. -/
def words (name : Txt) : List Txt :=
  if core name = [] then ["test".toList] else wordsOf isGap (core name)

theorem squeeze_replaceColons (t : Txt) : ∀ inside,
    squeeze isGap ['_'] inside (replaceColons t) = squeeze isGap ['_'] inside t := by
  have hcolon : isGap ':' = true := by decide
  have hunderscore : isGap '_' = true := by decide
  fun_induction replaceColons t with
  | case1 t ih =>
    intro inside
    cases inside with
    | true =>
      rw [squeeze_cons_inside hunderscore, squeeze_cons_inside hunderscore,
        squeeze_cons_inside hcolon, squeeze_cons_inside hcolon, ih]
    | false =>
      rw [squeeze_cons_outside hunderscore, squeeze_cons_inside hunderscore,
        squeeze_cons_outside hcolon, squeeze_cons_inside hcolon, ih]
  | case2 c t _ ih =>
    intro inside
    by_cases hc : isGap c = true
    · cases inside with
      | true => rw [squeeze_cons_inside hc, squeeze_cons_inside hc, ih]
      | false => rw [squeeze_cons_outside hc, squeeze_cons_outside hc, ih]
    · have hc := Bool.eq_false_iff.mpr hc
      rw [squeeze_cons_neg hc, squeeze_cons_neg hc, ih]
  | case3 => exact fun _ => rfl

/-- The two replacements are one. -/
theorem subst_subst (t : Txt) :
    Re.subst (fun _ => false) (Re.plus fun c => c = '_') ['_']
      (Re.subst (fun _ => false) (Re.plus fun c => !isSafe c) ['_'] t) =
        squeeze isGap ['_'] false t := by
  rw [Re.subst_plus, Re.subst_plus]
  exact squeeze_squeeze (by decide) t id

theorem isGap_of_isEdge {c : Char} (h : isEdge c = false) : isGap c = false := by
  unfold isEdge at h
  exact (Bool.or_eq_false_iff.mp h).1

/-- What the ends of a name leave is stripped. -/
theorem isStripped_of_mem_squeeze {t : Txt} (ht : ∀ c ∈ t, isEdge c = true) {inside : Bool} :
    ∀ c ∈ squeeze isGap ['_'] inside t, isStripped c = true := by
  intro c hc
  rcases mem_squeeze t hc with h | ⟨h, hgap⟩
  · rw [List.mem_singleton.mp h]
    rfl
  · have hdot := ht c h
    rw [isEdge, hgap, Bool.false_or] at hdot
    rw [isStripped, hdot]
    rfl

theorem isStripped_of_isEdge {c : Char} (h : isEdge c = false) : isStripped c = false := by
  unfold isEdge isGap at h
  obtain ⟨hgap, hdot⟩ := Bool.or_eq_false_iff.mp h
  obtain ⟨-, hunderscore⟩ := Bool.or_eq_false_iff.mp hgap
  rw [isStripped, hdot, hunderscore]
  rfl

/-- Stripped of dots and underscores, the squeezed name is the squeezed core. -/
theorem strip_squeeze (name : Txt) :
    ((squeeze isGap ['_'] false name).dropWhile isStripped).rdropWhile isStripped =
      squeeze isGap ['_'] false (core name) := by
  obtain ⟨l, r, hname, hl, hr, hhead, hlast⟩ := trim_split isEdge name
  rw [show (name.dropWhile isEdge).rdropWhile isEdge = core name from rfl] at hname hhead hlast
  generalize core name = m at hname hhead hlast
  rw [hname]
  cases m with
  | nil =>
    have hall : ∀ c ∈ l ++ ([] ++ r), isEdge c = true := by
      intro c hc
      rcases List.mem_append.mp hc with hc | hc
      · exact hl c hc
      · exact hr c hc
    rw [List.dropWhile_eq_nil_iff.mpr (isStripped_of_mem_squeeze hall)]
    rfl
  | cons c m =>
    have hc := isGap_of_isEdge (hhead c rfl)
    obtain ⟨v, z, hz⟩ : ∃ v z, c :: m = v ++ [z] :=
      ⟨_, _, (List.dropLast_append_getLast (List.cons_ne_nil c m)).symm⟩
    have hzlast : (c :: m).getLast? = some z := by rw [hz, List.getLast?_concat]
    have hzgap := isGap_of_isEdge (hlast z hzlast)
    have hleft : squeeze isGap ['_'] false (l ++ (c :: m ++ r)) =
        squeeze isGap ['_'] false l ++ squeeze isGap ['_'] false (c :: m ++ r) := by
      rw [List.cons_append, squeeze_append_cons hc, squeeze_cons_neg hc]
    have hright : squeeze isGap ['_'] false (c :: m ++ r) =
        squeeze isGap ['_'] false (c :: m) ++ squeeze isGap ['_'] false r := by
      rw [hz, List.append_assoc, List.singleton_append, squeeze_append_cons hzgap,
        squeeze_append_cons hzgap, List.append_assoc, List.cons_append]
      rfl
    rw [hleft, hright]
    refine trim_pad (isStripped_of_mem_squeeze hl) (isStripped_of_mem_squeeze hr) ?_ ?_
    · intro d hd
      rw [squeeze_cons_neg hc, List.head?_cons, Option.some.injEq] at hd
      exact hd ▸ isStripped_of_isEdge (hhead c rfl)
    · intro d hd
      rw [hz, squeeze_append_cons hzgap] at hd
      rw [show squeeze isGap ['_'] false [] = [] from rfl, List.getLast?_concat,
        Option.some.injEq] at hd
      exact hd ▸ isStripped_of_isEdge (hlast z hzlast)

/-- The file is called after the words of the name. -/
theorem safeArtifactName_eq (name : Txt) :
    safeArtifactName (replaceColons name) = ['_'].intercalate (words name) := by
  unfold safeArtifactName words
  simp only [subst_subst, squeeze_replaceColons, strip_squeeze]
  obtain ⟨l, r, -, -, -, hhead, hlast⟩ := trim_split isEdge name
  rw [show (name.dropWhile isEdge).rdropWhile isEdge = core name from rfl] at hhead hlast
  generalize core name = m at hhead hlast
  cases m with
  | nil => rfl
  | cons c m =>
    have hc := isGap_of_isEdge (hhead c rfl)
    have hwords := (squeeze_eq_intercalate '_' (c :: m) fun d hd =>
      isGap_of_isEdge (hlast d hd)).1
    rw [squeeze_true_eq fun d hd => Option.some.inj hd ▸ hc] at hwords
    rw [if_neg (List.cons_ne_nil c m), ← hwords, squeeze_cons_neg hc,
      if_neg (List.cons_ne_nil _ _)]

theorem words_spec (name : Txt) : words name ≠ [] ∧ ∀ w ∈ words name, '_' ∉ w := by
  unfold words
  by_cases hnil : core name = []
  · rw [if_pos hnil]
    exact ⟨List.cons_ne_nil _ _, by decide⟩
  · rw [if_neg hnil]
    have hlast := (trim_split isEdge name).choose_spec.choose_spec.2.2.2.2
    refine ⟨?_, fun w hw hmem => ?_⟩
    · exact (squeeze_eq_intercalate '_' (core name) fun d hd => isGap_of_isEdge (hlast d hd)).2 hnil
    · exact absurd (mem_wordsOf hw '_' hmem) (by decide)

/-- Two names give one file name exactly when they have the same words. -/
theorem safeArtifactName_inj {name name' : Txt} :
    safeArtifactName (replaceColons name) = safeArtifactName (replaceColons name') ↔
      words name = words name' := by
  rw [safeArtifactName_eq, safeArtifactName_eq]
  constructor
  · intro h
    have hsplit := congrArg (List.splitOn '_') h
    rwa [List.splitOn_intercalate '_' (words_spec name).2 (words_spec name).1,
      List.splitOn_intercalate '_' (words_spec name').2 (words_spec name').1] at hsplit
  · exact fun h => by rw [h]

theorem slash_not_mem_safeArtifactName (name : Txt) :
    '/' ∉ safeArtifactName (replaceColons name) := by
  unfold safeArtifactName
  simp only [subst_subst, squeeze_replaceColons, strip_squeeze]
  split
  · decide
  · intro hmem
    rcases mem_squeeze _ hmem with h | ⟨-, h⟩
    · exact absurd h (by decide)
    · exact absurd h (by decide)

/-! ## Directories -/

theorem testSubdir_nodeid (item : Item) : testSubdir (some item.nodeid) = item.area := by
  obtain ⟨i, hi, hle⟩ := indexOf_append_self "::".toList item.file
  have hmodule : item.module = item.file.take i := by rw [Item.module, hi, Option.getD_some]
  obtain ⟨rest, hrest⟩ : ∃ rest, item.nodeid = item.file ++ "::".toList ++ rest := by
    unfold Item.nodeid
    cases item.cls with
    | none => exact ⟨_, rfl⟩
    | some cls => exact ⟨cls ++ "::".toList ++ item.name, by simp only [List.append_assoc]⟩
  have hindex : indexOf "::".toList item.nodeid = some i := by rw [hrest, indexOf_append hi]
  have htake : item.nodeid.take i = item.file.take i := by
    rw [hrest, List.append_assoc, List.take_append_of_le_length hle]
  unfold testSubdir
  rw [Option.bind_some, hindex]
  simp only [Option.getD_some]
  rw [htake, Item.area, hmodule]

/-- The directory is a single component, or none. -/
theorem area_spec (item : Item) : item.area.head? ≠ some '/' ∧
    components item.area = if item.area = [] then [] else [item.area] := by
  unfold Item.area parentName
  cases hlast : (PurePath.of item.module).tail.dropLast.getLast? with
  | none => exact ⟨by decide, rfl⟩
  | some c =>
    have hmem : c ∈ components item.module :=
      List.mem_of_mem_dropLast (List.mem_of_getLast? hlast)
    obtain ⟨hcomp, hslash⟩ := components_proper _ c hmem
    have hne : c ≠ [] := fun h => by rw [h] at hcomp; cases hcomp
    rw [Option.getD_some, if_neg hne, components_of_no_slash hslash, if_pos hcomp]
    exact ⟨fun h => hslash (List.mem_of_mem_head? h), rfl⟩

theorem child_eq {p : PurePath} {t : Txt} (h : t.head? ≠ some '/') :
    child p t = ⟨p.root, p.tail ++ components t⟩ := by
  unfold child
  rw [if_neg (not_not.mpr (PurePath.root_of_head h))]

theorem logFile_eq (artifactDir : Txt) (item : Item) : item.logFile artifactDir =
    ⟨(PurePath.of artifactDir).root, (PurePath.of artifactDir).tail ++
      ((if item.area = [] then [] else [item.area]) ++
        [safeArtifactName (replaceColons item.name) ++ ".log".toList])⟩ := by
  obtain ⟨harea, hcomps⟩ := area_spec item
  have hslash : '/' ∉ safeArtifactName (replaceColons item.name) ++ ".log".toList := fun h =>
    (List.mem_append.mp h).elim (slash_not_mem_safeArtifactName _) (by decide)
  have hcomp : PurePath.isComponent
      (safeArtifactName (replaceColons item.name) ++ ".log".toList) = true := by
    have hlen : 1 < (safeArtifactName (replaceColons item.name) ++ ".log".toList).length := by
      rw [List.length_append]
      exact Nat.lt_add_left _ (by decide)
    unfold PurePath.isComponent
    rw [Bool.and_eq_true, decide_eq_true_eq, decide_eq_true_eq]
    constructor
    · exact fun h => by rw [h] at hlen; cases hlen
    · exact fun h => by rw [h] at hlen; exact absurd hlen (Nat.lt_irrefl 1)
  unfold Item.logFile executorLogFile
  simp only [testSubdir_nodeid]
  rw [child_eq fun h => hslash (List.mem_of_mem_head? h), child_eq harea, hcomps,
    components_of_no_slash hslash, if_pos hcomp, List.append_assoc]

theorem logFile_inj {artifactDir : Txt} {a b : Item} :
    a.logFile artifactDir = b.logFile artifactDir ↔
      a.area = b.area ∧ words a.name = words b.name := by
  rw [logFile_eq, logFile_eq, PurePath.mk.injEq, List.append_cancel_left_eq,
    ← safeArtifactName_inj, and_iff_right rfl]
  constructor
  · intro h
    obtain ⟨harea, hname⟩ := List.append_inj' h rfl
    refine ⟨?_, List.append_cancel_right (List.cons.inj hname).1⟩
    by_cases ha : a.area = []
    · rw [if_pos ha] at harea
      by_cases hb : b.area = []
      · rw [ha, hb]
      · rw [if_neg hb] at harea
        cases harea
    · rw [if_neg ha] at harea
      by_cases hb : b.area = []
      · rw [if_pos hb] at harea
        cases harea
      · rw [if_neg hb] at harea
        exact (List.cons.inj harea).1
  · exact fun ⟨harea, hname⟩ => by rw [harea, hname]

/-- Two tests are apart exactly when their directories or the words of their names differ. -/
theorem logFiles_apart_iff (artifactDir : Txt) (a b : Item) :
    Apart artifactDir a b ↔ a.area ≠ b.area ∨ words a.name ≠ words b.name := by
  rw [← not_and_or, ← logFile_inj]
  constructor
  · exact fun h => h.differ
  · intro hne
    exact ⟨hne, fun files => Function.update_of_ne (Ne.symm hne) _ files⟩

/-- Tests of one area with one name, and parameters that differ in what is replaced. -/
theorem not_apart_params :
    let a : Item := ⟨"tests/e2e/ck/test_a.py".toList, none, "test_x".toList, some "1/2".toList⟩
    let b : Item := ⟨"tests/e2e/ck/test_a.py".toList, none, "test_x".toList, some "1:2".toList⟩
    let c : Item := ⟨"tests/e2e/ck/test_b.py".toList, some "TestB".toList, "test_x".toList,
      some "1/2".toList⟩
    a.nodeid ≠ b.nodeid ∧ ¬ Apart "output".toList a b ∧
      a.nodeid ≠ c.nodeid ∧ ¬ Apart "output".toList a c := by
  intro a b c
  exact ⟨by decide, fun h => h.differ (logFile_inj.mpr ⟨by decide, by decide⟩),
    by decide, fun h => h.differ (logFile_inj.mpr ⟨by decide, by decide⟩)⟩

end ExecutorLog
end Common
end RocmTests

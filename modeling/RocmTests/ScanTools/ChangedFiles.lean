import RocmTests.ScanTools.Reports
import RocmTests.Text.Numeral
import RocmTests.Text.PosixPath

/-!
# The files that a change scan looks at

In their mode for changes, bandit and trivy ask `git diff --name-only` for the changed
files and keep those they have to do with.  git puts a name in quotes when it has other than
printable ASCII characters, and the tools take the quotes for a part of the name.
-/

namespace RocmTests
namespace ScanTools

open Text GithubActions
open Markers (isSpace strip)

/-! ## The range of the diff -/

/-- The SHAs in an event; one that is absent is `none`. -/
structure Event where
  baseSha : Option Txt
  headSha : Option Txt
  before : Option Txt
  after : Option Txt

/-- `_diff_range`, the same in both tools. -/
def diffRange (eventName : Txt) (event : Event) : Option (Txt × Txt) :=
  if eventName = "pull_request".toList ∨ eventName = "pull_request_target".toList then
    let base := event.baseSha.getD []
    let head := event.headSha.getD []
    if base = [] ∨ head = [] then none else some (base, head)
  else if eventName = "push".toList then
    let before := event.before.getD []
    let after := event.after.getD []
    if before = [] ∨ after = [] then none
    -- a new ref has nothing to be compared with
    else if before.all fun c => c = '0' then none
    else some (before, after)
  else none

/-! ## What git prints -/

/-- A file name of the repository, byte for byte: the components of a path with a slash
between each two. -/
structure Name where
  text : Txt
  bytes : ∀ c ∈ text, 0 < c.toNat ∧ c.toNat < 256
  normal : (PurePath.of text).asPosix = text

def isPlain (c : Char) : Bool :=
  decide (0x20 ≤ c.toNat) && decide (c.toNat < 0x7F) && decide (c ≠ '"') && decide (c ≠ '\\')

def octal (n : Nat) : Txt :=
  [Nat.digitChar (n / 64 % 8), Nat.digitChar (n / 8 % 8), Nat.digitChar (n % 8)]

def escape (c : Char) : Txt :=
  '\\' ::
    match c.toNat with
    | 7 => ['a']
    | 8 => ['b']
    | 9 => ['t']
    | 10 => ['n']
    | 11 => ['v']
    | 12 => ['f']
    | 13 => ['r']
    | 34 => ['"']
    | 92 => ['\\']
    | n => octal n

def showByte (c : Char) : Txt := if isPlain c then [c] else escape c

/-- A name as `--name-only` prints it. -/
def gitShow (t : Txt) : Txt :=
  if t.all isPlain then t else '"' :: (t.flatMap showByte ++ ['"'])

/-- The working tree, and the names of the files that a diff has as added, copied, modified
or renamed; `none` is a diff that fails. -/
structure Checkout where
  isFile : PurePath → Bool
  resolve : PurePath → PurePath
  gitDiff : Txt → Txt → Option (List Name)

def stdout (names : List Name) : Txt := unlines (names.map fun n => gitShow n.text)

/-! ## The files that are kept -/

section
variable (keep : Txt → Bool) (co : Checkout)

/-- The loop over the output of git. -/
def candidates (scanRoot : PurePath) (out : Txt) : List PurePath :=
  (splitlines out).filterMap fun raw =>
    let relpath := strip raw
    if keep relpath = false then none
    else
      let candidate := PurePath.of relpath
      if (co.resolve candidate).relativeTo scanRoot = none then none
      else if co.isFile candidate = false then none
      else some candidate

/-- `none` is a full scan. -/
def determineChangedFiles (eventName : Txt) (event : Event) (scanPath : PurePath) :
    Option (List PurePath) := do
  let (baseSha, headSha) ← diffRange eventName event
  let names ← co.gitDiff baseSha headSha
  return candidates keep co (co.resolve scanPath) (stdout names)

end

def pythonExtensions : List Txt := [".py".toList, ".pyw".toList]

def isPython (relpath : Txt) : Bool := pythonExtensions.any (endsWith relpath)

/-- `fnmatch.fnmatchcase`, for patterns whose only wildcard is `*`. -/
def fnmatchcase (t : Txt) : Txt → Bool
  | [] => t.isEmpty
  | c :: pattern =>
    if c = '*' then t.tails.any fun u => fnmatchcase u pattern
    else
      match t with
      | [] => false
      | d :: t => decide (d = c) && fnmatchcase t pattern

def auditedPatterns : List Txt :=
  ["**/pyproject.toml", "pyproject.toml", "**/requirements*.txt", "requirements*.txt",
    "**/Pipfile", "**/Pipfile.lock", "**/poetry.lock", "**/setup.py", "**/setup.cfg",
    "**/package.json", "**/package-lock.json", "**/yarn.lock", "**/pnpm-lock.yaml",
    "**/npm-shrinkwrap.json", "**/Cargo.toml", "**/Cargo.lock", "**/go.mod", "**/go.sum",
    "**/pom.xml", "**/build.gradle", "**/build.gradle.kts", "**/gradle.lockfile",
    "**/*.csproj", "**/packages.config", "**/packages.lock.json", "**/Gemfile",
    "**/Gemfile.lock", "**/*.gemspec", "**/composer.json", "**/composer.lock",
    "**/Dockerfile", "**/Dockerfile.*", "**/*.dockerfile", "**/Containerfile",
    "**/Containerfile.*", "**/*.tf", "**/*.tfvars", "**/*.tf.json", "trivy.yaml",
    "trivy.yml"].map String.toList

/-- `_is_audited_path`. -/
def isAuditedPath (relpath : Txt) : Bool :=
  auditedPatterns.any fun pattern =>
    fnmatchcase relpath pattern ||
      startsWith pattern "**/".toList && fnmatchcase relpath (pattern.drop 3)

example : isAuditedPath "docker/Dockerfile.rocm".toList = true := by decide +kernel

/-- `_determine_changed_py_files`. -/
def determineChangedPyFiles (co : Checkout) (eventName : Txt) (event : Event)
    (scanPath : PurePath) : Option (List PurePath) :=
  determineChangedFiles isPython co eventName event scanPath

def isAudited (relpath : Txt) : Bool := decide (relpath ≠ []) && isAuditedPath relpath

/-- `_determine_changed_audited_files`. -/
def determineChangedAuditedFiles (co : Checkout) (eventName : Txt) (event : Event)
    (scanPath : PurePath) : Option (List PurePath) :=
  determineChangedFiles isAudited co eventName event scanPath

/-! ## No changed file escapes -/

section
variable (co : Checkout) (scanPath : PurePath)

/-- The name is of a kind, and there is a file of that name inside the scan path. -/
def Found (kind : Txt → Bool) (t : Txt) : Prop :=
  kind t = true ∧ (co.resolve (PurePath.of t)).relativeTo (co.resolve scanPath) ≠ none ∧
    co.isFile (PurePath.of t) = true

instance (kind : Txt → Bool) (t : Txt) : Decidable (Found co scanPath kind t) := by
  unfold Found
  infer_instance

def changedNames (eventName : Txt) (event : Event) : Option (List Name) :=
  (diffRange eventName event).bind fun r => co.gitDiff r.1 r.2

/-- Where there is a diff, bandit gets the changed Python files inside the scan path and no
others, and trivy gets some file if an audited one inside the scan path has changed. -/
def NoEscape (eventName : Txt) (event : Event) : Prop :=
  ∀ names ∈ changedNames co eventName event,
    (∃ files, determineChangedPyFiles co eventName event scanPath = some files ∧
      ∀ p, p ∈ files ↔ ∃ n ∈ names, Found co scanPath isPython n.text ∧ PurePath.of n.text = p) ∧
    ((∃ n ∈ names, Found co scanPath isAudited n.text) →
      ∃ files, determineChangedAuditedFiles co eventName event scanPath = some files ∧ files ≠ [])

end

/-- git prints the name as it is, and there is nothing to strip from it. -/
def Verbatim (t : Txt) : Prop := t.all isPlain = true ∧ strip t = t

/-- git prints the name as it is, but it begins or ends with blanks. -/
def Padded (t : Txt) : Prop := t.all isPlain = true ∧ strip t ≠ t

/-- What comes of a name. -/
def printed (t : Txt) : Txt := strip (gitShow t)

section
variable (co : Checkout) (scanPath : PurePath)

/-- Every changed Python file has a name that comes through, or a padded name comes out as
its name; and what padded names come out as has changed too. -/
def PythonComesThrough (names : List Name) : Prop :=
  (∀ n ∈ names, Found co scanPath isPython n.text → Verbatim n.text ∨
    ∃ m ∈ names, Padded m.text ∧ isPython (strip m.text) = true ∧
      PurePath.of (strip m.text) = PurePath.of n.text) ∧
  ∀ m ∈ names, Padded m.text → Found co scanPath isPython (strip m.text) →
    ∃ n ∈ names, Found co scanPath isPython n.text ∧
      PurePath.of n.text = PurePath.of (strip m.text)

/-- If an audited file has changed, one that has changed has a name that comes through, or a
name that does not comes out as one of an audited file. -/
def AuditedComesThrough (names : List Name) : Prop :=
  (∃ n ∈ names, Found co scanPath isAudited n.text) →
    (∃ n ∈ names, Found co scanPath isAudited n.text ∧ Verbatim n.text) ∨
      ∃ m ∈ names, ¬ Verbatim m.text ∧ Found co scanPath isAudited (printed m.text)

end

/-! ## Lines of the output -/

/-- A printable character of ASCII. -/
def Printable (c : Char) : Prop := 0x20 ≤ c.toNat ∧ c.toNat < 0x7F

theorem printable_of_isPlain {c : Char} (h : isPlain c = true) : Printable c := by
  simp only [isPlain, Bool.and_eq_true, decide_eq_true_eq] at h
  exact ⟨h.1.1.1, h.1.1.2⟩

theorem printable_octal {n : Nat} {c : Char} (h : c ∈ octal n) : Printable c := by
  have hdigit (k : Nat) : Printable (Nat.digitChar (k % 8)) := by
    have hlt : k % 8 < 8 := Nat.mod_lt k (by decide)
    rw [Printable, Nat.toNat_digitChar_of_lt_ten (by omega)]
    omega
  simp only [octal, List.mem_cons, List.not_mem_nil, or_false] at h
  rcases h with rfl | rfl | rfl
  · exact hdigit _
  · exact hdigit _
  · exact hdigit _

theorem printable_escape {x c : Char} (h : c ∈ escape x) : Printable c := by
  have hall {cs : Txt}
    (hcs : (cs.all fun d => decide (0x20 ≤ d.toNat) && decide (d.toNat < 0x7F)) = true)
      (hc : c ∈ cs) : Printable c := by
    have hboth := List.all_eq_true.mp hcs c hc
    rw [Bool.and_eq_true, decide_eq_true_eq, decide_eq_true_eq] at hboth
    exact hboth
  rcases List.mem_cons.mp h with rfl | h
  · exact ⟨by decide, by decide⟩
  · split at h
    · exact hall (by decide) h
    · exact hall (by decide) h
    · exact hall (by decide) h
    · exact hall (by decide) h
    · exact hall (by decide) h
    · exact hall (by decide) h
    · exact hall (by decide) h
    · exact hall (by decide) h
    · exact hall (by decide) h
    · exact printable_octal h

theorem printable_gitShow (t : Txt) : ∀ c ∈ gitShow t, Printable c := by
  have hquote : Printable '"' := ⟨by decide, by decide⟩
  intro c hc
  unfold gitShow at hc
  split at hc
  · next hall => exact printable_of_isPlain (List.all_eq_true.mp hall c hc)
  · rcases List.mem_cons.mp hc with rfl | hc
    · exact hquote
    rcases List.mem_append.mp hc with hc | hc
    · obtain ⟨x, -, hx⟩ := List.mem_flatMap.mp hc
      unfold showByte at hx
      split at hx
      · next hplain =>
        rw [List.mem_singleton.mp hx]
        exact printable_of_isPlain hplain
      · exact printable_escape hx
    · rw [List.mem_singleton.mp hc]
      exact hquote

theorem isLine_gitShow (t : Txt) : IsLine (gitShow t) := by
  intro c hc
  have hprintable := printable_gitShow t c hc
  unfold Printable at hprintable
  refine Bool.eq_false_iff.mpr fun hboundary => ?_
  unfold isBoundary at hboundary
  simp only [List.mem_cons, List.not_mem_nil, or_false, decide_eq_true_eq] at hboundary
  omega

theorem printed_verbatim {t : Txt} (h : Verbatim t) : printed t = t := by
  rw [printed, gitShow, if_pos h.1, h.2]

theorem printed_padded {t : Txt} (h : Padded t) : printed t = strip t := by
  rw [printed, gitShow, if_pos h.1]

/-- A name in quotes is not that of a Python file. -/
theorem isPython_quoted {t : Txt} (h : ¬ t.all isPlain = true) : isPython (printed t) = false := by
  have hshow : gitShow t = '"' :: (t.flatMap showByte ++ ['"']) := if_neg h
  have hlast : (gitShow t).getLast? = some '"' := by
    rw [hshow, ← List.cons_append, List.getLast?_concat]
  have hstrip : strip (gitShow t) = gitShow t :=
    strip_of_ends (c := '"') (by rw [hshow]; rfl) (by decide) hlast (by decide)
  have hends {u : Txt} {d : Char} (hu : u.getLast? = some d) (hd : d ≠ '"') :
      endsWith (gitShow t) u = false := by
    refine Bool.eq_false_iff.mpr fun hsuffix => hd ?_
    obtain ⟨v, hv⟩ := List.isSuffixOf_iff_suffix.mp hsuffix
    rw [← hv, List.getLast?_append, hu] at hlast
    exact Option.some.inj hlast
  rw [printed, hstrip, isPython, pythonExtensions, List.any_cons, List.any_cons, List.any_nil,
    hends (d := 'y') (by decide) (by decide), hends (d := 'w') (by decide) (by decide)]
  rfl

/-! ## The files that are found -/

section
variable {co : Checkout} {scanPath : PurePath} {keep : Txt → Bool}

theorem mem_candidates {names : List Name} {p : PurePath} :
    p ∈ candidates keep co (co.resolve scanPath) (stdout names) ↔
      ∃ n ∈ names, Found co scanPath keep (printed n.text) ∧ PurePath.of (printed n.text) = p := by
  have hlines : splitlines (stdout names) = names.map fun n => gitShow n.text := by
    refine splitlines_unlines fun l hl => ?_
    obtain ⟨n, -, rfl⟩ := List.mem_map.mp hl
    exact isLine_gitShow n.text
  rw [candidates, hlines, List.filterMap_map, List.mem_filterMap]
  refine exists_congr fun n => and_congr_right fun _ => ?_
  show (if keep (printed n.text) = false then none
    else if (co.resolve (PurePath.of (printed n.text))).relativeTo (co.resolve scanPath) = none
      then none
    else if co.isFile (PurePath.of (printed n.text)) = false then none
    else some (PurePath.of (printed n.text))) = some p ↔ _
  unfold Found
  split_ifs with hkeep hinside hfile
  · simp [hkeep]
  · simp [hinside]
  · simp [hfile]
  · simp [hkeep, hinside, hfile]

theorem determineChangedFiles_eq {eventName : Txt} {event : Event} {names : List Name}
    (h : names ∈ changedNames co eventName event) :
    determineChangedFiles keep co eventName event scanPath =
      some (candidates keep co (co.resolve scanPath) (stdout names)) := by
  obtain ⟨⟨base, head⟩, hrange, hdiff⟩ := Option.bind_eq_some_iff.mp h
  unfold determineChangedFiles
  rw [hrange]
  show (co.gitDiff base head).bind _ = _
  rw [hdiff]
  rfl

theorem found_congr {t u : Txt} (hkind : keep u = true) (hpath : PurePath.of u = PurePath.of t)
    (h : Found co scanPath keep t) : Found co scanPath keep u := by
  unfold Found at h ⊢
  rw [hpath]
  exact ⟨hkind, h.2⟩

theorem pythonComesThrough_iff {names : List Name} :
    (∀ p, p ∈ candidates isPython co (co.resolve scanPath) (stdout names) ↔
      ∃ n ∈ names, Found co scanPath isPython n.text ∧ PurePath.of n.text = p) ↔
      PythonComesThrough co scanPath names := by
  have hcases {t : Txt} (h : isPython (printed t) = true) : Verbatim t ∨ Padded t := by
    by_cases hplain : t.all isPlain = true
    · by_cases hstrip : strip t = t
      · exact Or.inl ⟨hplain, hstrip⟩
      · exact Or.inr ⟨hplain, hstrip⟩
    · rw [isPython_quoted hplain] at h
      cases h
  simp only [mem_candidates]
  constructor
  · intro hall
    constructor
    · intro n hn hfound
      obtain ⟨m, hm, hfoundM, hpath⟩ := (hall _).mpr ⟨n, hn, hfound, rfl⟩
      rcases hcases hfoundM.1 with hverbatim | hpadded
      · rw [printed_verbatim hverbatim] at hpath
        rw [← m.normal, hpath, n.normal] at hverbatim
        exact Or.inl hverbatim
      · rw [printed_padded hpadded] at hfoundM hpath
        exact Or.inr ⟨m, hm, hpadded, hfoundM.1, hpath⟩
    · intro m hm hpadded hfound
      rw [← printed_padded hpadded] at hfound
      obtain ⟨n, hn, hfoundN, hpath⟩ := (hall _).mp ⟨m, hm, hfound, rfl⟩
      rw [printed_padded hpadded] at hpath
      exact ⟨n, hn, hfoundN, hpath⟩
  · rintro ⟨hmissed, hadded⟩ p
    constructor
    · rintro ⟨m, hm, hfound, rfl⟩
      rcases hcases hfound.1 with hverbatim | hpadded
      · rw [printed_verbatim hverbatim] at hfound ⊢
        exact ⟨m, hm, hfound, rfl⟩
      · rw [printed_padded hpadded] at hfound ⊢
        exact hadded m hm hpadded hfound
    · rintro ⟨n, hn, hfound, rfl⟩
      rcases hmissed n hn hfound with hverbatim | ⟨m, hm, hpadded, hkind, hpath⟩
      · refine ⟨n, hn, ?_⟩
        rw [printed_verbatim hverbatim]
        exact ⟨hfound, rfl⟩
      · refine ⟨m, hm, ?_⟩
        rw [printed_padded hpadded]
        exact ⟨found_congr hkind hpath hfound, hpath⟩

theorem auditedComesThrough_iff {names : List Name} :
    ((∃ n ∈ names, Found co scanPath isAudited n.text) →
      candidates isAudited co (co.resolve scanPath) (stdout names) ≠ []) ↔
      AuditedComesThrough co scanPath names := by
  have hsome : candidates isAudited co (co.resolve scanPath) (stdout names) ≠ [] ↔
      ∃ m ∈ names, Found co scanPath isAudited (printed m.text) := by
    constructor
    · intro hne
      obtain ⟨p, hp⟩ := List.exists_mem_of_ne_nil _ hne
      obtain ⟨m, hm, hfound, -⟩ := mem_candidates.mp hp
      exact ⟨m, hm, hfound⟩
    · rintro ⟨m, hm, hfound⟩
      exact List.ne_nil_of_mem (mem_candidates.mpr ⟨m, hm, hfound, rfl⟩)
  rw [hsome, AuditedComesThrough]
  refine imp_congr_right fun _ => ⟨?_, ?_⟩
  · rintro ⟨m, hm, hfound⟩
    by_cases hverbatim : Verbatim m.text
    · rw [printed_verbatim hverbatim] at hfound
      exact Or.inl ⟨m, hm, hfound, hverbatim⟩
    · exact Or.inr ⟨m, hm, hverbatim, hfound⟩
  · rintro (⟨n, hn, hfound, hverbatim⟩ | ⟨m, hm, -, hfound⟩)
    · rw [← printed_verbatim hverbatim] at hfound
      exact ⟨n, hn, hfound⟩
    · exact ⟨m, hm, hfound⟩

end

/-- No changed file escapes exactly if the names of those that count come through. -/
theorem noEscape_iff (co : Checkout) (scanPath : PurePath) (eventName : Txt) (event : Event) :
    NoEscape co scanPath eventName event ↔
      ∀ names ∈ changedNames co eventName event,
        PythonComesThrough co scanPath names ∧ AuditedComesThrough co scanPath names := by
  refine forall₂_congr fun names hnames => ?_
  rw [determineChangedPyFiles, determineChangedAuditedFiles, determineChangedFiles_eq hnames,
    determineChangedFiles_eq hnames, ← pythonComesThrough_iff, ← auditedComesThrough_iff]
  simp only [Option.some_inj, exists_eq_left']

/-- The two bytes of a letter with an accent, and `.py`. -/
def accentedName : Name where
  text := [Char.ofNat 0xC3, Char.ofNat 0xA9, '.', 'p', 'y']
  bytes := forall_of_all (p := fun c => 0 < c.toNat ∧ c.toNat < 256) (by decide)
  normal := by decide

/-- A working tree in `/repo` in which that file has changed. -/
def accentedCheckout : Checkout where
  isFile := fun p => p = PurePath.of accentedName.text
  resolve := fun p => ⟨['/'], "repo".toList :: p.tail⟩
  gitDiff := fun _ _ => some [accentedName]

/-- git puts the name in quotes, and then it does not end as that of a Python file. -/
theorem accentedName_escapes : ¬ NoEscape accentedCheckout (PurePath.of ['.']) "push".toList
    ⟨none, none, some ['a'], some ['b']⟩ := by
  intro h
  have hrange : diffRange "push".toList ⟨none, none, some ['a'], some ['b']⟩ =
      some (['a'], ['b']) := by decide
  have hnames : [accentedName] ∈ changedNames accentedCheckout "push".toList
      ⟨none, none, some ['a'], some ['b']⟩ := by
    rw [changedNames, hrange]
    rfl
  obtain ⟨⟨files, hfiles, hmem⟩, -⟩ := h [accentedName] hnames
  have hnone : determineChangedPyFiles accentedCheckout "push".toList
      ⟨none, none, some ['a'], some ['b']⟩ (PurePath.of ['.']) = some [] := by decide +kernel
  rw [hnone, Option.some_inj] at hfiles
  have hfound : Found accentedCheckout (PurePath.of ['.']) isPython accentedName.text := by
    decide +kernel
  have hfile := (hmem _).mpr ⟨accentedName, List.mem_singleton_self _, hfound, rfl⟩
  rw [← hfiles] at hfile
  exact List.not_mem_nil hfile

end ScanTools
end RocmTests

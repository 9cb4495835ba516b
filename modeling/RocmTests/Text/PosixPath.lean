import RocmTests.Markers.GpuCount
import RocmTests.Text.Lines

/-!
# POSIX paths in text

A `PurePosixPath` is the root and the components of a path, without empty components and single
dots.

`normpath` drops empty and single-dot components and lets `..` cancel the component
before it.  Of an absolute path no `..` is left; of a relative one those at the front
are.  The number of slashes at the beginning is one or two and says nothing about
where a path leads, so that a path is under a directory when the components of the
directory begin its own.
-/

namespace RocmTests
namespace Text

/-- `PurePosixPath(t)`. -/
@[ext]
structure PurePath where
  root : Txt
  tail : List Txt
deriving DecidableEq

namespace PurePath

def isComponent (c : Txt) : Bool := c ≠ [] && c ≠ ['.']

def of (t : Txt) : PurePath where
  root :=
    match t with
    | '/' :: '/' :: '/' :: _ => ['/']
    | '/' :: '/' :: _ => ['/', '/']
    | '/' :: _ => ['/']
    | _ => []
  tail := (t.splitOn '/').filter isComponent

variable (p : PurePath)

def parts : List Txt := (if p.root = [] then [] else [p.root]) ++ p.tail

def name : Txt := p.tail.getLast?.getD []

/-- `path.suffix`. -/
def suffix : Txt :=
  let ext := (p.name.reverse.takeWhile (· ≠ '.')).reverse
  -- the last dot is neither the first nor the last character of the name
  if '.' ∈ p.name ∧ ext.length + 1 < p.name.length ∧ ext ≠ [] then '.' :: ext else []

theorem tail_append_slash (t u : Txt) :
    (of (t ++ '/' :: u)).tail = (of t).tail ++ (u.splitOn '/').filter isComponent := by
  simp only [of, List.splitOn_append_cons_self, List.filter_append]

theorem root_of_head {t : Txt} (h : t.head? ≠ some '/') : (of t).root = [] := by
  cases t with
  | nil => rfl
  | cons c t =>
    have hc : c ≠ '/' := fun e => h (by rw [List.head?_cons, e])
    simp only [of]
    split <;> simp_all

theorem root_append {t : Txt} (hne : t ≠ []) (h : t.head? ≠ some '/') (u : Txt) :
    (of (t ++ u)).root = [] :=
  root_of_head (by rwa [List.head?_append_of_ne_nil _ hne])

/-- A single component below a directory is the name. -/
theorem name_append_slash (t : Txt) {c : Txt} (hslash : '/' ∉ c) (hc : isComponent c = true) :
    (of (t ++ '/' :: c)).name = c := by
  rw [name, tail_append_slash, List.splitOn_eq_singleton hslash, List.filter_cons_of_pos hc,
    List.filter_nil, List.getLast?_concat, Option.getD_some]

end PurePath

example : (PurePath.of "tests//e2e/./ck/test_a.b.py".toList).parts =
    ["tests".toList, "e2e".toList, "ck".toList, "test_a.b.py".toList] := by decide

example : (PurePath.of "/.py".toList).suffix = [] := by decide

/-- `"/".join(parts)`. -/
def joinSlash : List Txt → Txt
  | [] => []
  | [c] => c
  | c :: cs => c ++ '/' :: joinSlash cs

/-! ## `posixpath` -/

def dots : Txt := ['.', '.']

/-- The slashes that `normpath` writes at the beginning. -/
def leadingSlashes : Txt → Nat
  | '/' :: '/' :: '/' :: _ => 1
  | '/' :: '/' :: _ => 2
  | '/' :: _ => 1
  | _ => 0

/-- One component of the loop of `normpath`.  The components kept so far stand in
reverse. -/
def normStep (absolute : Bool) (kept : List Txt) (c : Txt) : List Txt :=
  if PurePath.isComponent c = false then kept
  else if c ≠ dots ∨ (absolute = false ∧ kept = []) ∨ kept.head? = some dots then c :: kept
  else kept.tail

def normComps (t : Txt) : List Txt :=
  ((t.splitOn '/').foldl (normStep (decide (leadingSlashes t ≠ 0))) []).reverse

/-- `posixpath.normpath(t)`. -/
def normpath (t : Txt) : Txt :=
  let path := List.replicate (leadingSlashes t) '/' ++ joinSlash (normComps t)
  if path = [] then ['.'] else path

/-- `posixpath.join(a, b)`. -/
def join (a b : Txt) : Txt :=
  if b.head? = some '/' then b
  else if a = [] ∨ a.getLast? = some '/' then a ++ b
  else a ++ '/' :: b

/-- `path.as_posix()`. -/
def PurePath.asPosix (p : PurePath) : Txt :=
  if p.root ++ joinSlash p.tail = [] then ['.'] else p.root ++ joinSlash p.tail

/-- `path.relative_to(base)`. -/
def PurePath.relativeTo (p base : PurePath) : Option PurePath :=
  if p.root = base.root ∧ base.tail <+: p.tail then some ⟨[], p.tail.drop base.tail.length⟩
  else none

def components (t : Txt) : List Txt := (PurePath.of t).tail

/-- A component as it stands in a normal path. -/
def Proper (c : Txt) : Prop := PurePath.isComponent c = true ∧ '/' ∉ c

/-- The directory itself counts as under it. -/
def Under (dir p : Txt) : Prop :=
  (normpath p).head? = some '/' ∧ components dir <+: components (normpath p)

/-! ## Components -/

theorem components_eq (t : Txt) : components t = (t.splitOn '/').filter PurePath.isComponent := rfl

theorem components_append_slash (a b : Txt) :
    components (a ++ '/' :: b) = components a ++ components b :=
  PurePath.tail_append_slash a b

theorem components_slash (t : Txt) : components ('/' :: t) = components t :=
  components_append_slash [] t

theorem components_slashes (n : Nat) (t : Txt) :
    components (List.replicate n '/' ++ t) = components t := by
  induction n with
  | zero => rfl
  | succ n ih => rw [List.replicate_succ, List.cons_append, components_slash, ih]

theorem components_append_slashes (t : Txt) (n : Nat) :
    components (t ++ List.replicate n '/') = components t := by
  cases n with
  | zero => rw [List.replicate_zero, List.append_nil]
  | succ n =>
    have hnil : components (List.replicate n '/') = [] := by
      have h := components_slashes n []
      rwa [List.append_nil] at h
    rw [List.replicate_succ, components_append_slash, hnil, List.append_nil]

theorem joinSlash_eq_intercalate (cs : List Txt) : joinSlash cs = ['/'].intercalate cs := by
  induction cs with
  | nil => rfl
  | cons c cs ih =>
    cases cs with
    | nil => simp [joinSlash]
    | cons d cs =>
      rw [joinSlash, ih]
      · simp [List.intercalate, List.intersperse]
      · simp

theorem splitOn_joinSlash {cs : List Txt} (h : ∀ c ∈ cs, Proper c) (hne : cs ≠ []) :
    (joinSlash cs).splitOn '/' = cs := by
  rw [joinSlash_eq_intercalate]
  exact List.splitOn_intercalate '/' (fun c hc => (h c hc).2) hne

theorem components_joinSlash {cs : List Txt} (h : ∀ c ∈ cs, Proper c) :
    components (joinSlash cs) = cs := by
  cases cs with
  | nil => rfl
  | cons c cs =>
    rw [components_eq, splitOn_joinSlash h (List.cons_ne_nil c cs)]
    exact List.filter_eq_self.mpr fun x hx => (h x hx).1

theorem components_proper (t : Txt) : ∀ c ∈ components t, Proper c := by
  intro c hc
  obtain ⟨hmem, hcomp⟩ := List.mem_filter.mp hc
  exact ⟨hcomp, Collections.not_mem_of_mem_splitOn t c hmem⟩

theorem head_joinSlash {cs : List Txt} (h : ∀ c ∈ cs, Proper c) :
    (joinSlash cs).head? ≠ some '/' := by
  cases cs with
  | nil => exact fun h => nomatch h
  | cons c cs =>
    obtain ⟨hcomp, hslash⟩ := h c List.mem_cons_self
    cases c with
    | nil => cases hcomp
    | cons x xs =>
      have hx : x ≠ '/' := fun e => hslash (e ▸ List.mem_cons_self)
      have hhead : (joinSlash ((x :: xs) :: cs)).head? = some x := by
        cases cs with
        | nil => rfl
        | cons d cs => rfl
      rw [hhead]
      exact fun e => hx (Option.some.inj e)

/-! ## What `normpath` leaves -/

/-- The components kept, in reverse: those that are not `..` behind those that are. -/
def NormForm (absolute : Bool) (kept : List Txt) : Prop :=
  ∃ n rest, kept = rest ++ List.replicate n dots ∧ (absolute = true → n = 0) ∧
    ∀ c ∈ rest, Proper c ∧ c ≠ dots

theorem normStep_form {absolute : Bool} {kept : List Txt} {c : Txt} (h : NormForm absolute kept)
    (hc : '/' ∉ c) : NormForm absolute (normStep absolute kept c) := by
  obtain ⟨n, rest, rfl, habs, hrest⟩ := h
  unfold normStep
  by_cases hcomp : PurePath.isComponent c = false
  · rw [if_pos hcomp]
    exact ⟨n, rest, rfl, habs, hrest⟩
  · rw [if_neg hcomp]
    have hproper : Proper c := ⟨Bool.eq_true_of_not_eq_false hcomp, hc⟩
    by_cases hdots : c = dots
    · subst hdots
      cases rest with
      | cons r rest =>
        -- `..` cancels the component before it
        have hr := (hrest r List.mem_cons_self).2
        rw [if_neg]
        · exact ⟨n, rest, rfl, habs, fun x hx => hrest x (List.mem_cons_of_mem r hx)⟩
        · intro h
          rcases h with h | h | h
          · exact h rfl
          · cases h.2
          · exact hr (Option.some.inj h)
      | nil =>
        cases n with
        | zero =>
          cases absolute with
          | true => exact ⟨0, [], rfl, fun _ => rfl, hrest⟩
          | false => exact ⟨1, [], rfl, fun h => (Bool.noConfusion h), hrest⟩
        | succ n =>
          have hhead : (List.replicate (n + 1) dots).head? = some dots := rfl
          rw [List.nil_append, if_pos (Or.inr (Or.inr hhead))]
          exact ⟨n + 2, [], rfl, fun h => absurd (habs h) (Nat.succ_ne_zero n), hrest⟩
    · rw [if_pos (Or.inl hdots)]
      refine ⟨n, c :: rest, rfl, habs, fun x hx => ?_⟩
      rcases List.mem_cons.mp hx with rfl | hx
      · exact ⟨hproper, hdots⟩
      · exact hrest x hx

theorem foldl_normStep_form {absolute : Bool} {ps : List Txt} (hps : ∀ c ∈ ps, '/' ∉ c) :
    ∀ {kept : List Txt}, NormForm absolute kept →
      NormForm absolute (ps.foldl (normStep absolute) kept) := by
  induction ps with
  | nil => exact fun h => h
  | cons c ps ih =>
    intro kept h
    exact ih (fun x hx => hps x (List.mem_cons_of_mem c hx))
      (normStep_form h (hps c List.mem_cons_self))

theorem normComps_form (t : Txt) : ∃ n rest,
    normComps t = List.replicate n dots ++ rest ∧ (leadingSlashes t ≠ 0 → n = 0) ∧
      ∀ c ∈ rest, Proper c ∧ c ≠ dots := by
  have hform : NormForm (decide (leadingSlashes t ≠ 0)) [] :=
    ⟨0, [], rfl, fun _ => rfl, fun _ h => nomatch h⟩
  obtain ⟨n, rest, hkept, habs, hrest⟩ :=
    foldl_normStep_form (fun c hc => Collections.not_mem_of_mem_splitOn t c hc) hform
  refine ⟨n, rest.reverse, ?_, fun h => habs (decide_eq_true h), fun c hc =>
    hrest c (List.mem_reverse.mp hc)⟩
  rw [normComps, hkept, List.reverse_append, List.reverse_replicate]

theorem dots_proper : Proper dots := ⟨rfl, by decide⟩

theorem normComps_proper (t : Txt) : ∀ c ∈ normComps t, Proper c := by
  obtain ⟨n, rest, heq, _, hrest⟩ := normComps_form t
  rw [heq]
  intro c hc
  rcases List.mem_append.mp hc with hc | hc
  · rw [List.eq_of_mem_replicate hc]
    exact dots_proper
  · exact (hrest c hc).1

theorem normComps_no_dots {t : Txt} (h : leadingSlashes t ≠ 0) :
    ∀ c ∈ normComps t, c ≠ dots := by
  obtain ⟨n, rest, heq, habs, hrest⟩ := normComps_form t
  rw [heq, habs h]
  exact fun c hc => (hrest c hc).2

theorem components_normpath (t : Txt) : components (normpath t) = normComps t := by
  have hproper := normComps_proper t
  unfold normpath
  by_cases hnil : List.replicate (leadingSlashes t) '/' ++ joinSlash (normComps t) = []
  · have hjoin := (List.append_eq_nil_iff.mp hnil).2
    have hcomps : normComps t = [] := by
      rw [← components_joinSlash hproper, hjoin]
      rfl
    simp only [hnil, if_true]
    rw [hcomps]
    rfl
  · simp only [hnil, if_false]
    rw [components_slashes, components_joinSlash hproper]

theorem normpath_ne_nil (t : Txt) : normpath t ≠ [] := by
  unfold normpath
  by_cases hnil : List.replicate (leadingSlashes t) '/' ++ joinSlash (normComps t) = []
  · simp only [hnil, if_true]
    exact List.cons_ne_nil _ _
  · simp only [hnil, if_false]
    exact hnil

theorem leadingSlashes_ne_zero {t : Txt} : leadingSlashes t ≠ 0 ↔ t.head? = some '/' := by
  unfold leadingSlashes
  split
  · simp
  · simp
  · simp
  · rename_i hno
    cases t with
    | nil => simp
    | cons c t =>
      have hc : c ≠ '/' := fun e => hno t (by rw [e])
      simp [hc]

/-- `normpath` keeps a path absolute, or relative. -/
theorem head_normpath {t : Txt} : (normpath t).head? = some '/' ↔ t.head? = some '/' := by
  rw [← leadingSlashes_ne_zero (t := t)]
  unfold normpath
  cases hn : leadingSlashes t with
  | zero =>
    have hhead : (joinSlash (normComps t)).head? ≠ some '/' := head_joinSlash (normComps_proper t)
    rw [List.replicate_zero, List.nil_append]
    refine iff_of_false ?_ (fun h => h rfl)
    by_cases hnil : joinSlash (normComps t) = []
    · simp only [hnil, if_true]
      exact by decide
    · simp only [hnil, if_false]
      exact hhead
  | succ n => simp [List.replicate_succ]

/-! ## Paths without `..` -/

theorem foldl_normStep_skip (absolute : Bool) (ps : List Txt) :
    ∀ kept, ps.foldl (normStep absolute) kept =
      (ps.filter PurePath.isComponent).foldl (normStep absolute) kept := by
  induction ps with
  | nil => exact fun _ => rfl
  | cons c ps ih =>
    intro kept
    by_cases hc : PurePath.isComponent c = true
    · rw [List.filter_cons_of_pos hc, List.foldl_cons, List.foldl_cons, ih]
    · have hskip : normStep absolute kept c = kept := if_pos (Bool.eq_false_of_not_eq_true hc)
      rw [List.filter_cons_of_neg hc, List.foldl_cons, hskip, ih]

theorem foldl_normStep_plain (absolute : Bool) {ps : List Txt}
    (hps : ∀ c ∈ ps, PurePath.isComponent c = true ∧ c ≠ dots) :
    ∀ kept, ps.foldl (normStep absolute) kept = ps.reverse ++ kept := by
  induction ps with
  | nil => exact fun _ => rfl
  | cons c ps ih =>
    intro kept
    obtain ⟨hcomp, hdots⟩ := hps c List.mem_cons_self
    have hstep : normStep absolute kept c = c :: kept := by
      unfold normStep
      rw [hcomp, if_neg (fun h => nomatch h), if_pos (Or.inl hdots)]
    rw [List.foldl_cons, hstep, ih fun x hx => hps x (List.mem_cons_of_mem c hx)]
    simp

theorem normComps_plain {t : Txt} (h : ∀ c ∈ components t, c ≠ dots) :
    normComps t = components t := by
  rw [normComps, foldl_normStep_skip, foldl_normStep_plain, List.append_nil, List.reverse_reverse]
  · rfl
  · intro c hc
    exact ⟨(List.mem_filter.mp hc).2, h c hc⟩

/-- An absolute path that mentions no `..` is under every directory it begins with. -/
theorem under_of_plain {dir p : Txt} (habs : p.head? = some '/')
    (hplain : ∀ c ∈ components p, c ≠ dots) (hdir : components dir <+: components p) :
    Under dir p := by
  refine ⟨head_normpath.mpr habs, ?_⟩
  rw [components_normpath, normComps_plain hplain]
  exact hdir

theorem components_no_dots_of_normal {t : Txt} (habs : t.head? = some '/')
    (h : normpath t = t) : ∀ c ∈ components t, c ≠ dots := by
  rw [← h, components_normpath]
  exact normComps_no_dots (leadingSlashes_ne_zero.mpr habs)

/-! ## Joining -/

theorem components_join {a b : Txt} (hb : b.head? ≠ some '/') :
    components (join a b) = components a ++ components b := by
  unfold join
  rw [if_neg hb]
  by_cases ha : a = [] ∨ a.getLast? = some '/'
  · rw [if_pos ha]
    rcases ha with rfl | hlast
    · rfl
    · obtain ⟨a', rfl⟩ := List.getLast?_eq_some_iff.mp hlast
      rw [List.append_assoc, List.singleton_append, components_append_slash,
        components_append_slash]
      have hnil : components [] = [] := rfl
      rw [hnil, List.append_nil]
  · rw [if_neg ha, components_append_slash]

theorem head_join {a b : Txt} (ha : a.head? = some '/') : (join a b).head? = some '/' := by
  unfold join
  have hne : a ≠ [] := fun h => by rw [h] at ha; cases ha
  split
  · assumption
  · split
    · rw [List.head?_append_of_ne_nil _ hne, ha]
    · rw [List.head?_append_of_ne_nil _ hne, ha]

/-! ## `as_posix` -/

theorem leadingSlashes_le (t : Txt) : leadingSlashes t ≤ 2 := by
  unfold leadingSlashes
  split <;> omega

theorem leadingSlashes_replicate {n : Nat} (hn : n ≤ 2) {u : Txt} (hu : u.head? ≠ some '/') :
    leadingSlashes (List.replicate n '/' ++ u) = n := by
  have hzero : leadingSlashes u = 0 := by
    by_contra hne
    exact hu (leadingSlashes_ne_zero.mp hne)
  cases u with
  | nil =>
    interval_cases n
    · rfl
    · rfl
    · rfl
  | cons c u =>
    have hc : c ≠ '/' := fun e => hu (by rw [e]; rfl)
    interval_cases n
    · exact hzero
    · simp [leadingSlashes, hc]
    · simp [leadingSlashes, hc]

theorem root_eq (t : Txt) :
    (PurePath.of t).root = List.replicate (leadingSlashes t) '/' := by
  unfold PurePath.of leadingSlashes
  split <;> simp_all

/-- The text of a path has the normal form of what it was made from. -/
theorem normpath_asPosix (t : Txt) : normpath (PurePath.of t).asPosix = normpath t := by
  have hproper := components_proper t
  have htail : (PurePath.of t).tail = components t := rfl
  have hparts : leadingSlashes (PurePath.of t).asPosix = leadingSlashes t ∧
      components (PurePath.of t).asPosix = components t := by
    unfold PurePath.asPosix
    rw [root_eq, htail]
    by_cases hnil : List.replicate (leadingSlashes t) '/' ++ joinSlash (components t) = []
    · obtain ⟨hslashes, hjoin⟩ := List.append_eq_nil_iff.mp hnil
      have hzero : leadingSlashes t = 0 := by
        have hlen := congrArg List.length hslashes
        rwa [List.length_replicate] at hlen
      have hcomps : components t = [] := by
        rw [← components_joinSlash hproper, hjoin]
        rfl
      rw [if_pos hnil, hzero, hcomps]
      exact ⟨rfl, rfl⟩
    · rw [if_neg hnil, components_slashes, components_joinSlash hproper]
      exact ⟨leadingSlashes_replicate (leadingSlashes_le t) (head_joinSlash hproper), rfl⟩
  obtain ⟨hslashes, hcomps⟩ := hparts
  have hnorm : normComps (PurePath.of t).asPosix = normComps t := by
    unfold normComps
    rw [foldl_normStep_skip, foldl_normStep_skip _ (t.splitOn '/'), hslashes, ← components_eq,
      hcomps, components_eq]
  unfold normpath
  rw [hslashes, hnorm]

end Text
end RocmTests

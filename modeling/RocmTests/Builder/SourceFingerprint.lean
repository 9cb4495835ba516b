import RocmTests.Collections.Terminated
import RocmTests.Text.PosixPath
import RocmTests.Text.Utf8

/-!
# What `source_tree_fingerprint` hashes

The digest is fed, root after root and file after file, the relative name, a NUL,
the content and a NUL.  It learns neither where a content ends nor which root a
file is under.  A name has no NUL, so the stream determines the names and the
pieces of the contents between their NULs, and nothing else.

Symbolic links are followed where the file list is read, so a tree is its regular
files with their absolute paths.
-/

namespace RocmTests
namespace Builder
namespace SourceFingerprint

open Text Collections

def nul : Char := Char.ofNat 0

/-- An absolute path as `resolve` returns it. -/
def Resolved (p : PurePath) : Prop := p.root = ['/'] ∧ ∀ c ∈ p.tail, Proper c ∧ nul ∉ c

instance (p : PurePath) : Decidable (Resolved p) := by
  unfold Resolved Proper
  infer_instance

/-- The regular files on disk. -/
structure Disk where
  files : List (PurePath × Bytes)
  resolved : ∀ f ∈ files, Resolved f.1
  distinct : (files.map Prod.fst).Nodup

/-- The arguments of one call, resolved, and what they find. -/
structure Sources where
  disk : Disk
  roots : List PurePath

/-- The order of `sorted` on paths. -/
def pathLe (p q : PurePath) : Bool := decide (p.parts ≤ q.parts)

def parent (p : PurePath) : PurePath := ⟨p.root, p.tail.dropLast⟩

namespace Disk

variable (d : Disk)

def paths : List PurePath := d.files.map Prod.fst

def isFile (p : PurePath) : Bool := decide (p ∈ d.paths)

def readBytes (p : PurePath) : Bytes :=
  ((d.files.find? fun f => decide (f.1 = p)).map Prod.snd).getD []

/-- The files of `root.rglob("*")`. -/
def rglob (root : PurePath) : List PurePath :=
  d.paths.filter fun p => (p.relativeTo root).isSome

/-- The files of a root in order, and the directory their names are relative to. -/
def filesOf (root : PurePath) : List PurePath × PurePath :=
  if d.isFile root then ([root], parent root) else ((d.rglob root).mergeSort pathLe, root)

def relName (p base : PurePath) : Txt := ((p.relativeTo base).map PurePath.asPosix).getD []

/-- The files of a root by name. -/
def entries (root : PurePath) : List (Txt × Bytes) :=
  (d.filesOf root).1.map fun p => (relName p (d.filesOf root).2, d.readBytes p)

end Disk

namespace Sources

variable (a : Sources)

/-- The files in the order in which they are fed. -/
def fed : List (Txt × Bytes) := (a.roots.mergeSort pathLe).flatMap a.disk.entries

/-- The calls of `digest.update`. -/
def updates : List Bytes := a.fed.flatMap fun e => [Utf8.encode e.1, [0], e.2, [0]]

def stream : Bytes := a.updates.flatten

/-- The content of each file by its root and its name. -/
def contents (root : PurePath) (name : Txt) : Option Bytes :=
  if root ∈ a.roots then
    ((a.disk.entries root).find? fun e => decide (e.1 = name)).map Prod.snd
  else none

/-- The names and the pieces of the contents between their NULs. -/
def pieces : List Bytes := a.fed.flatMap fun e => Utf8.encode e.1 :: e.2.splitOn 0

/-- No content has a NUL byte. -/
def NulFree : Prop := ∀ e ∈ a.fed, 0 ∉ e.2

end Sources

/-- Trees with different contents are fed differently. -/
def Distinguishes (a b : Sources) : Prop := a.contents ≠ b.contents → a.stream ≠ b.stream

theorem nul_not_mem_joinSlash {cs : List Txt} (h : ∀ c ∈ cs, nul ∉ c) : nul ∉ joinSlash cs := by
  induction cs with
  | nil => exact List.not_mem_nil
  | cons c cs ih =>
    have hc : nul ∉ c := h c List.mem_cons_self
    cases cs with
    | nil => exact hc
    | cons d cs =>
      rw [joinSlash, List.mem_append, List.mem_cons, not_or, not_or]
      · exact ⟨hc, by decide, ih fun x hx => h x (List.mem_cons_of_mem c hx)⟩
      · exact List.cons_ne_nil d cs

theorem nul_not_mem_asPosix {p : PurePath} (hroot : p.root = []) (h : ∀ c ∈ p.tail, nul ∉ c) :
    nul ∉ p.asPosix := by
  rw [PurePath.asPosix, hroot, List.nil_append]
  split
  · decide
  · exact nul_not_mem_joinSlash h

namespace Disk

variable (d : Disk)

theorem resolved_of_mem {p : PurePath} (hp : p ∈ d.paths) : Resolved p := by
  obtain ⟨f, hf, rfl⟩ := List.mem_map.mp hp
  exact d.resolved f hf

theorem filesOf_paths {root p : PurePath} (hp : p ∈ (d.filesOf root).1) : p ∈ d.paths := by
  rw [filesOf] at hp
  split at hp
  · rename_i hroot
    rw [List.mem_singleton.mp hp]
    exact of_decide_eq_true hroot
  · exact (List.mem_filter.mp (List.mem_mergeSort.mp hp)).1

theorem nul_not_mem_relName {p : PurePath} (hp : p ∈ d.paths) (base : PurePath) :
    nul ∉ relName p base := by
  rw [relName, PurePath.relativeTo]
  split
  · exact nul_not_mem_asPosix rfl fun c hc =>
      ((d.resolved_of_mem hp).2 c (List.mem_of_mem_drop hc)).2
  · exact List.not_mem_nil

theorem entries_of_sorted {root : PurePath} (hdir : d.isFile root = false)
    (hsorted : (d.rglob root).Pairwise (pathLe · ·)) :
    d.entries root = (d.rglob root).map fun p => (relName p root, d.readBytes p) := by
  rw [entries, filesOf, hdir, List.mergeSort_of_pairwise hsorted]
  rfl

/-- The name of a file is fed without a NUL. -/
theorem zero_not_mem_name {root : PurePath} {e : Txt × Bytes} (he : e ∈ d.entries root) :
    0 ∉ Utf8.encode e.1 := by
  obtain ⟨p, hp, rfl⟩ := List.mem_map.mp he
  exact Utf8.zero_not_mem_encode (d.nul_not_mem_relName (d.filesOf_paths hp) _)

end Disk

namespace Sources

variable (a b : Sources)

theorem zero_not_mem_name {e : Txt × Bytes} (he : e ∈ a.fed) : 0 ∉ Utf8.encode e.1 := by
  obtain ⟨root, -, hroot⟩ := List.mem_flatMap.mp he
  exact a.disk.zero_not_mem_name hroot

theorem zero_not_mem_pieces : ∀ piece ∈ a.pieces, 0 ∉ piece := by
  intro piece hpiece
  obtain ⟨e, he, hin⟩ := List.mem_flatMap.mp hpiece
  rcases List.mem_cons.mp hin with rfl | hsplit
  · exact a.zero_not_mem_name he
  · exact not_mem_of_mem_splitOn e.2 piece hsplit

/-- The stream is the pieces with a NUL behind each. -/
theorem stream_eq : a.stream = terminated 0 a.pieces := by
  rw [stream, updates, pieces]
  generalize a.fed = fed
  induction fed with
  | nil => rfl
  | cons e fed ih =>
    rw [List.flatMap_cons, List.flatMap_cons, List.flatten_append, terminated_append,
      terminated_cons, terminated_splitOn, ih]
    simp

theorem stream_eq_iff : a.stream = b.stream ↔ a.pieces = b.pieces := by
  rw [stream_eq, stream_eq]
  refine ⟨fun h => ?_, congrArg _⟩
  exact terminated_inj a.zero_not_mem_pieces b.zero_not_mem_pieces h

end Sources

/-- Without a NUL in a content, the pieces are the names and the contents in turn. -/
theorem pieces_inj : ∀ {es fs : List (Txt × Bytes)}, (∀ e ∈ es, 0 ∉ e.2) → (∀ f ∈ fs, 0 ∉ f.2) →
    (es.flatMap fun e => Utf8.encode e.1 :: e.2.splitOn 0) =
      (fs.flatMap fun e => Utf8.encode e.1 :: e.2.splitOn 0) → es = fs := by
  intro es
  induction es with
  | nil =>
    intro fs _ _ h
    cases fs with
    | nil => rfl
    | cons f fs => exact absurd h.symm (by simp)
  | cons e es ih =>
    intro fs hes hfs h
    cases fs with
    | nil => exact absurd h (by simp)
    | cons f fs =>
      rw [List.flatMap_cons, List.flatMap_cons,
        List.splitOn_eq_singleton (hes e List.mem_cons_self),
        List.splitOn_eq_singleton (hfs f List.mem_cons_self)] at h
      obtain ⟨hname, hrest⟩ := List.cons.inj h
      obtain ⟨hcontent, htail⟩ := List.cons.inj hrest
      have hef : e = f := Prod.ext (Utf8.encode_injective hname) hcontent
      rw [hef, ih (fun x hx => hes x (List.mem_cons_of_mem e hx))
        (fun x hx => hfs x (List.mem_cons_of_mem f hx)) htail]

theorem Sources.pieces_eq_iff {a b : Sources} (ha : a.NulFree) (hb : b.NulFree) :
    a.pieces = b.pieces ↔ a.fed = b.fed := by
  refine ⟨pieces_inj ha hb, fun h => ?_⟩
  rw [Sources.pieces, Sources.pieces, h]

/-- Exactly the names and the pieces of the contents count, in the order in which
they are fed; when no content has a NUL, the pieces are the contents. -/
theorem distinguishes_iff (a b : Sources) :
    (Distinguishes a b ↔ a.contents = b.contents ∨ a.pieces ≠ b.pieces) ∧
      (a.NulFree → b.NulFree → (a.pieces = b.pieces ↔ a.fed = b.fed)) := by
  refine ⟨?_, Sources.pieces_eq_iff⟩
  rw [Distinguishes, ne_eq a.stream, a.stream_eq_iff b, or_iff_not_imp_left]

/-- The path of `cs` from the root. -/
def path (cs : List Txt) : PurePath := ⟨['/'], cs⟩

def inFirstRoot : Disk := ⟨[(path [['a'], ['k']], [1])], by decide, by decide⟩

def inSecondRoot : Disk := ⟨[(path [['b'], ['k']], [1])], by decide, by decide⟩

def withNuls : Disk := ⟨[(path [['a'], ['k']], [1, 0, 109, 0, 2])], by decide, by decide⟩

def cutAtNuls : Disk :=
  ⟨[(path [['a'], ['k']], [1]), (path [['a'], ['m']], [2])], by decide, by decide⟩

def bothRoots : List PurePath := [path [['a']], path [['b']]]

/-- A file that moves to another root goes unnoticed, and so does one cut in two at its
NUL bytes. -/
theorem moved_and_cut_unnoticed :
    ¬ Distinguishes ⟨inFirstRoot, bothRoots⟩ ⟨inSecondRoot, bothRoots⟩ ∧
      ¬ Distinguishes ⟨withNuls, [path [['a']]]⟩ ⟨cutAtNuls, [path [['a']]]⟩ := by
  constructor
  · have hfirst : inFirstRoot.entries (path [['a']]) = [(['k'], [1])] ∧
        inFirstRoot.entries (path [['b']]) = [] := by
      rw [Disk.entries_of_sorted _ (by decide) (by decide),
        Disk.entries_of_sorted _ (by decide) (by decide)]
      decide
    have hsecond : inSecondRoot.entries (path [['a']]) = [] ∧
        inSecondRoot.entries (path [['b']]) = [(['k'], [1])] := by
      rw [Disk.entries_of_sorted _ (by decide) (by decide),
        Disk.entries_of_sorted _ (by decide) (by decide)]
      decide
    have hne : Sources.contents ⟨inFirstRoot, bothRoots⟩ (path [['a']]) ['k'] ≠
        Sources.contents ⟨inSecondRoot, bothRoots⟩ (path [['a']]) ['k'] := by
      rw [Sources.contents, Sources.contents, hfirst.1, hsecond.1]
      decide
    have hsort : bothRoots.mergeSort pathLe = bothRoots :=
      List.mergeSort_of_pairwise (by decide)
    have hfed : Sources.fed ⟨inFirstRoot, bothRoots⟩ =
        Sources.fed ⟨inSecondRoot, bothRoots⟩ := by
      rw [Sources.fed, Sources.fed, hsort, bothRoots, List.flatMap_cons, List.flatMap_singleton,
        List.flatMap_cons, List.flatMap_singleton, hfirst.1, hfirst.2, hsecond.1, hsecond.2]
      rfl
    intro h
    refine h (fun heq => hne (by rw [heq])) ?_
    rw [Sources.stream, Sources.updates, hfed]
    rfl
  · have hwith : withNuls.entries (path [['a']]) = [(['k'], [1, 0, 109, 0, 2])] := by
      rw [Disk.entries_of_sorted _ (by decide) (by decide)]
      decide
    have hcut : cutAtNuls.entries (path [['a']]) = [(['k'], [1]), (['m'], [2])] := by
      rw [Disk.entries_of_sorted _ (by decide) (by decide)]
      decide
    have hne : Sources.contents ⟨withNuls, [path [['a']]]⟩ (path [['a']]) ['k'] ≠
        Sources.contents ⟨cutAtNuls, [path [['a']]]⟩ (path [['a']]) ['k'] := by
      rw [Sources.contents, Sources.contents, hwith, hcut]
      decide
    intro h
    refine h (fun heq => hne (by rw [heq])) ?_
    simp only [Sources.stream, Sources.updates, Sources.fed, List.mergeSort_singleton,
      List.flatMap_singleton, hwith, hcut]
    decide

end SourceFingerprint
end Builder
end RocmTests

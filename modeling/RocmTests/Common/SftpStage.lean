import RocmTests.Common.WorkspaceLayout
import RocmTests.Text.PathPrefix

/-!
# Where a local path is staged

A local path is staged below `sftp`: one in the working directory by its path from there, any
other by its path from the root, with the colons replaced.  Both go into the same directory.
-/

namespace RocmTests
namespace Common
namespace SftpStage

open Text
open WorkspaceLayout (categoryRoot isManagedRemotePath)

/-- An absolute path without links, by its components. -/
@[ext]
structure Resolved where
  comps : List Txt
  plain : ∀ c ∈ comps, Proper c ∧ c ≠ dots

namespace Resolved

def path (p : Resolved) : PurePath := ⟨['/'], p.comps⟩

def text (p : Resolved) : Txt := p.path.asPosix

end Resolved

/-- The working directory, and what `Path.resolve` makes of a path. -/
structure LocalFs where
  cwd : Resolved
  resolve : Txt → Resolved
  resolve_text : ∀ t, resolve (resolve t).text = resolve t

def noColons (t : Txt) : Txt := t.map fun c => if c = ':' then '_' else c

section

variable (fs : LocalFs) (workspaceRoot : Txt)

/-- The path below `sftp`. -/
def stagedAs (cwd p : Resolved) : Txt :=
  match p.path.relativeTo cwd.path with
  | some rel => rel.asPosix
  | none => noColons (p.text.dropWhile (· = '/'))

/-- `sftp_stage_path`. -/
def sftpStagePath (localPath : Txt) : Txt :=
  join (join workspaceRoot (categoryRoot "sftp")) (stagedAs fs.cwd (fs.resolve localPath))

/-- `remote_path_for`. -/
def remotePathFor (localPath : Txt) : Txt :=
  let raw := (PurePath.of localPath).asPosix
  if isManagedRemotePath raw workspaceRoot then normpath raw
  else sftpStagePath fs workspaceRoot localPath

/-- A file that `rglob` finds, by its path from the directory. -/
structure RelFile where
  comps : List Txt
  ne_nil : comps ≠ []
  plain : ∀ c ∈ comps, Proper c ∧ c ≠ dots

/-- `sftp.put`. -/
structure Put where
  source : List Txt
  remote : Txt

/-- The files that `upload_tree` copies. -/
def uploadTree (localDir : Txt) (files : List RelFile) : List Put :=
  let localRoot := fs.resolve localDir
  let remoteRoot := remotePathFor fs workspaceRoot localRoot.text
  files.map fun f => ⟨localRoot.comps ++ f.comps, join remoteRoot (joinSlash f.comps)⟩

/-- Different paths are staged at different places, and no upload of the one directory replaces
a file from the other. -/
structure Apart (s t : Txt) : Prop where
  stage : fs.resolve s ≠ fs.resolve t →
    PurePath.of (sftpStagePath fs workspaceRoot s) ≠ PurePath.of (sftpStagePath fs workspaceRoot t)
  upload : ∀ files files', ∀ put ∈ uploadTree fs workspaceRoot s files,
    ∀ put' ∈ uploadTree fs workspaceRoot t files', put.source ≠ put'.source →
      PurePath.of put.remote ≠ PurePath.of put'.remote

/-- Two paths outside the working directory: where one begins with the other once the colons are
gone, it did so with them, and has none below it. -/
def KeepsColons (a b : Resolved) : Prop :=
  ∀ d, b.comps.map noColons = a.comps.map noColons ++ d → b.comps = a.comps ++ d

/-- A path in the working directory, by its components there, and one outside: neither begins
with the other. -/
def Unlike (rel : List Txt) (b : Resolved) : Prop :=
  ¬ rel <+: b.comps.map noColons ∧ ¬ b.comps.map noColons <+: rel

/-- What has to hold of two local paths. -/
structure Distinct (cwd a b : Resolved) : Prop where
  outside : ¬ cwd.comps <+: a.comps → ¬ cwd.comps <+: b.comps → KeepsColons a b ∧ KeepsColons b a
  left : ∀ rel, a.comps = cwd.comps ++ rel → ¬ cwd.comps <+: b.comps → Unlike rel b
  right : ∀ rel, b.comps = cwd.comps ++ rel → ¬ cwd.comps <+: a.comps → Unlike rel a

end

/-! ## By components -/

theorem of_join {a b : Txt} (ha : ∃ c ∈ a, c ≠ '/') (hb : b.head? ≠ some '/') :
    PurePath.of (join a b) = ⟨(PurePath.of a).root, components a ++ components b⟩ := by
  have hroot : leadingSlashes (join a b) = leadingSlashes a := by
    unfold join
    rw [if_neg hb]
    split
    · exact leadingSlashes_append ha b
    · exact leadingSlashes_append ha _
  have htail : (PurePath.of (join a b)).tail = components (join a b) := rfl
  ext1
  · rw [root_eq, root_eq, hroot]
  · rw [htail, components_join hb]

theorem noColons_joinSlash (cs : List Txt) :
    noColons (joinSlash cs) = joinSlash (cs.map noColons) := by
  induction cs with
  | nil => rfl
  | cons c cs ih =>
    by_cases hnil : cs = []
    · rw [hnil]
      rfl
    · have hmap : cs.map noColons ≠ [] := mt List.map_eq_nil_iff.mp hnil
      rw [List.map_cons, joinSlash_cons c hnil, joinSlash_cons _ hmap, ← ih]
      exact List.map_append

theorem eq_of_noColons {c : Txt} (h : '_' ∉ noColons c) : noColons c = c := by
  refine (List.map_congr_left fun x hx => ?_).trans (List.map_id c)
  have hx' := List.mem_map_of_mem (f := fun c => if c = ':' then '_' else c) hx
  by_cases hcolon : x = ':'
  · rw [if_pos hcolon] at hx'
    exact absurd hx' h
  · exact if_neg hcolon

theorem noColons_plain {c : Txt} (h : Proper c ∧ c ≠ dots) :
    Proper (noColons c) ∧ noColons c ≠ dots := by
  obtain ⟨⟨hcomp, hslash⟩, hdots⟩ := h
  have hsame (w : Txt) (hw : '_' ∉ w) (heq : noColons c = w) : c = w :=
    (eq_of_noColons (heq ▸ hw)).symm.trans heq
  refine ⟨⟨?_, ?_⟩, fun heq => hdots (hsame dots (by decide) heq)⟩
  · unfold PurePath.isComponent at hcomp ⊢
    rw [Bool.and_eq_true, decide_eq_true_eq, decide_eq_true_eq] at hcomp ⊢
    exact ⟨fun heq => hcomp.1 (hsame [] (by decide) heq),
      fun heq => hcomp.2 (hsame ['.'] (by decide) heq)⟩
  · intro hmem
    obtain ⟨x, hx, heq⟩ := List.mem_map.mp hmem
    split at heq
    · cases heq
    · exact hslash (heq ▸ hx)

section

variable {cwd a b : Resolved}

/-- The components below `sftp`. -/
def stagedComps (cwd p : Resolved) : List Txt :=
  if cwd.comps <+: p.comps then p.comps.drop cwd.comps.length else p.comps.map noColons

theorem stagedComps_plain (cwd p : Resolved) : ∀ c ∈ stagedComps cwd p, Proper c ∧ c ≠ dots := by
  unfold stagedComps
  split
  · exact fun c hc => p.plain c (List.mem_of_mem_drop hc)
  · intro c hc
    obtain ⟨x, hx, rfl⟩ := List.mem_map.mp hc
    exact noColons_plain (p.plain x hx)

theorem stagedComps_inside {rel : List Txt} (h : a.comps = cwd.comps ++ rel) :
    stagedComps cwd a = rel := by
  unfold stagedComps
  rw [if_pos (h ▸ List.prefix_append _ _), h, List.drop_left]

theorem stagedComps_outside (h : ¬ cwd.comps <+: a.comps) :
    stagedComps cwd a = a.comps.map noColons := if_neg h

theorem text_eq (p : Resolved) : p.text = '/' :: joinSlash p.comps := by
  unfold Resolved.text PurePath.asPosix Resolved.path
  exact if_neg (List.cons_ne_nil _ _)

theorem asPosix_relative {cs : List Txt} (h : ∀ c ∈ cs, Proper c) :
    (PurePath.mk [] cs).asPosix.head? ≠ some '/' ∧ components (PurePath.mk [] cs).asPosix = cs := by
  unfold PurePath.asPosix
  split
  · rename_i hnil
    rw [(joinSlash_eq_nil_iff h).mp hnil]
    exact ⟨by decide, rfl⟩
  · exact ⟨head_joinSlash h, components_joinSlash h⟩

/-- What is staged is a relative path with these components. -/
theorem stagedAs_spec (cwd p : Resolved) : (stagedAs cwd p).head? ≠ some '/' ∧
    components (stagedAs cwd p) = stagedComps cwd p := by
  have hproper : ∀ c ∈ stagedComps cwd p, Proper c := fun c hc => (stagedComps_plain cwd p c hc).1
  unfold stagedAs PurePath.relativeTo
  by_cases hin : cwd.comps <+: p.comps
  · have hrel : stagedComps cwd p = p.comps.drop cwd.comps.length := if_pos hin
    rw [if_pos ⟨rfl, hin⟩]
    rw [hrel] at hproper ⊢
    exact asPosix_relative hproper
  · rw [stagedComps_outside hin] at hproper ⊢
    rw [if_neg fun h => hin h.2]
    have hstrip : (p.text.dropWhile (· = '/')) = joinSlash p.comps := by
      have hhead := head_joinSlash fun c hc => (p.plain c hc).1
      rw [text_eq, List.dropWhile_cons_of_pos (by rfl)]
      cases hj : joinSlash p.comps with
      | nil => rfl
      | cons x xs =>
        rw [hj] at hhead
        have hx : x ≠ '/' := fun e => hhead (by rw [e]; rfl)
        exact List.dropWhile_cons_of_neg (by simpa using hx)
    simp only [hstrip, noColons_joinSlash]
    exact ⟨head_joinSlash hproper, components_joinSlash hproper⟩

/-! ## Collisions -/

/-- If neither path begins with the other below `sftp`, no file is staged in both. -/
theorem unlike_of_apart {rel : List Txt} (ha : a.comps = cwd.comps ++ rel)
    (hb : ¬ cwd.comps <+: b.comps)
    (h : ∀ f g : List Txt, (∀ c ∈ f, Proper c ∧ c ≠ dots) → (∀ c ∈ g, Proper c ∧ c ≠ dots) →
      rel ++ f = b.comps.map noColons ++ g → a.comps ++ f = b.comps ++ g) : Unlike rel b := by
  have hplain : ∀ c ∈ b.comps.map noColons, Proper c ∧ c ≠ dots :=
    stagedComps_outside hb ▸ stagedComps_plain cwd b
  have hrel : ∀ c ∈ rel, Proper c ∧ c ≠ dots :=
    fun c hc => a.plain c (ha ▸ List.mem_append_right _ hc)
  constructor
  · intro ⟨d, hd⟩
    have hd_plain : ∀ c ∈ d, Proper c ∧ c ≠ dots :=
      fun c hc => hplain c (hd ▸ List.mem_append_right _ hc)
    have heq := h d [] hd_plain (fun c hc => nomatch hc) (by rw [hd, List.append_nil])
    rw [List.append_nil, ha, List.append_assoc] at heq
    exact hb ⟨_, heq⟩
  · intro ⟨d, hd⟩
    have hd_plain : ∀ c ∈ d, Proper c ∧ c ≠ dots :=
      fun c hc => hrel c (hd ▸ List.mem_append_right _ hc)
    have heq := h [] d (fun c hc => nomatch hc) hd_plain (by rw [hd, List.append_nil])
    rw [List.append_nil, ha, ← hd, ← List.append_assoc] at heq
    exact hb ⟨_, List.append_cancel_right heq⟩

theorem keepsColons_of_apart (ha : ¬ cwd.comps <+: a.comps) (hb : ¬ cwd.comps <+: b.comps)
    (h : ∀ f g : List Txt, (∀ c ∈ f, Proper c ∧ c ≠ dots) → (∀ c ∈ g, Proper c ∧ c ≠ dots) →
      stagedComps cwd a ++ f = stagedComps cwd b ++ g → a.comps ++ f = b.comps ++ g) :
    KeepsColons a b := by
  intro d hd
  have hplain := stagedComps_plain cwd b
  rw [stagedComps_outside ha, stagedComps_outside hb] at h
  rw [stagedComps_outside hb] at hplain
  have hd_plain : ∀ c ∈ d, Proper c ∧ c ≠ dots :=
    fun c hc => hplain c (hd ▸ List.mem_append_right _ hc)
  have heq := h d [] hd_plain (fun c hc => nomatch hc) (by rw [hd, List.append_nil])
  rw [heq, List.append_nil]

/-- What is staged apart stays apart with the paths of files behind it. -/
theorem distinct_iff : Distinct cwd a b ↔
    ∀ f g : List Txt, (∀ c ∈ f, Proper c ∧ c ≠ dots) → (∀ c ∈ g, Proper c ∧ c ≠ dots) →
      stagedComps cwd a ++ f = stagedComps cwd b ++ g → a.comps ++ f = b.comps ++ g := by
  constructor
  · intro ⟨houtside, hleft, hright⟩ f g _ _ heq
    by_cases ha : cwd.comps <+: a.comps
    · obtain ⟨r, hr⟩ := ha
      rw [stagedComps_inside hr.symm] at heq
      by_cases hb : cwd.comps <+: b.comps
      · obtain ⟨r', hr'⟩ := hb
        rw [stagedComps_inside hr'.symm] at heq
        rw [← hr, ← hr', List.append_assoc, List.append_assoc, heq]
      · rw [stagedComps_outside hb] at heq
        obtain ⟨hnot, hnot'⟩ := hleft r hr.symm hb
        rcases List.append_eq_append_iff.mp heq with ⟨d, hd, -⟩ | ⟨d, hd, -⟩
        · exact absurd ⟨d, hd.symm⟩ hnot
        · exact absurd ⟨d, hd.symm⟩ hnot'
    · rw [stagedComps_outside ha] at heq
      by_cases hb : cwd.comps <+: b.comps
      · obtain ⟨r, hr⟩ := hb
        rw [stagedComps_inside hr.symm] at heq
        obtain ⟨hnot, hnot'⟩ := hright r hr.symm ha
        rcases List.append_eq_append_iff.mp heq with ⟨d, hd, -⟩ | ⟨d, hd, -⟩
        · exact absurd ⟨d, hd.symm⟩ hnot'
        · exact absurd ⟨d, hd.symm⟩ hnot
      · rw [stagedComps_outside hb] at heq
        obtain ⟨hab, hba⟩ := houtside ha hb
        rcases List.append_eq_append_iff.mp heq with ⟨d, hd, rfl⟩ | ⟨d, hd, rfl⟩
        · rw [hab d hd, List.append_assoc]
        · rw [hba d hd, List.append_assoc]
  · intro h
    refine ⟨fun ha hb => ⟨keepsColons_of_apart ha hb h, keepsColons_of_apart hb ha
      fun f g hf hg heq => (h g f hg hf heq.symm).symm⟩, ?_, ?_⟩
    · intro rel ha hb
      rw [stagedComps_inside ha, stagedComps_outside hb] at h
      exact unlike_of_apart ha hb h
    · intro rel hb ha
      rw [stagedComps_inside hb, stagedComps_outside ha] at h
      exact unlike_of_apart hb ha fun f g hf hg heq => (h g f hg hf heq.symm).symm

end

/-! ## Staging and uploading -/

section

variable {fs : LocalFs} {root : Txt}

theorem mem_join_left {a b : Txt} {c : Char} (hb : b.head? ≠ some '/') (hc : c ∈ a) :
    c ∈ join a b := by
  unfold join
  rw [if_neg hb]
  split
  · exact List.mem_append_left _ hc
  · exact List.mem_append_left _ hc

theorem mem_join_right {a b : Txt} {c : Char} (hc : c ∈ b) : c ∈ join a b := by
  unfold join
  split
  · exact hc
  · split
    · exact List.mem_append_right _ hc
    · exact List.mem_append_right _ (List.mem_cons_of_mem _ hc)

theorem mem_stage_root (root : Txt) : 's' ∈ join root (categoryRoot "sftp") :=
  mem_join_right (by decide)

theorem of_sftpStagePath (fs : LocalFs) (root t : Txt) :
    PurePath.of (sftpStagePath fs root t) =
      ⟨(PurePath.of (join root (categoryRoot "sftp"))).root,
        components (join root (categoryRoot "sftp")) ++ stagedComps fs.cwd (fs.resolve t)⟩ := by
  obtain ⟨hhead, hcomps⟩ := stagedAs_spec fs.cwd (fs.resolve t)
  rw [sftpStagePath, of_join ⟨'s', mem_stage_root root, by decide⟩ hhead, hcomps]

/-- Two places below `sftp` are the same when their components there are. -/
theorem mk_append_inj {r : Txt} {s x y : List Txt} :
    PurePath.mk r (s ++ x) = PurePath.mk r (s ++ y) ↔ x = y := by
  rw [PurePath.mk.injEq, List.append_cancel_left_eq]
  exact and_iff_right rfl

theorem of_put {t : Txt} (hmanaged : isManagedRemotePath (fs.resolve t).text root = false)
    (f : RelFile) :
    PurePath.of (join (remotePathFor fs root (fs.resolve t).text) (joinSlash f.comps)) =
      ⟨(PurePath.of (join root (categoryRoot "sftp"))).root,
        components (join root (categoryRoot "sftp")) ++
          (stagedComps fs.cwd (fs.resolve t) ++ f.comps)⟩ := by
  have hproper : ∀ c ∈ f.comps, Proper c := fun c hc => (f.plain c hc).1
  have hremote : remotePathFor fs root (fs.resolve t).text =
      sftpStagePath fs root (fs.resolve t).text := by
    unfold remotePathFor
    simp only [WorkspaceLayout.isManagedRemotePath_asPosix, hmanaged, Bool.false_eq_true, if_false]
  have hof := of_sftpStagePath fs root (fs.resolve t).text
  rw [fs.resolve_text] at hof
  have hmem : 's' ∈ sftpStagePath fs root (fs.resolve t).text :=
    mem_join_left (stagedAs_spec _ _).1 (mem_stage_root root)
  have htail : components (sftpStagePath fs root (fs.resolve t).text) =
      components (join root (categoryRoot "sftp")) ++ stagedComps fs.cwd (fs.resolve t) :=
    congrArg PurePath.tail hof
  rw [hremote, of_join ⟨'s', hmem, by decide⟩ (head_joinSlash hproper), hof, htail,
    components_joinSlash hproper, List.append_assoc]

/-- Two paths are staged apart, and their trees too, exactly when they are distinct so. -/
theorem apart_iff {s t : Txt} (hs : isManagedRemotePath (fs.resolve s).text root = false)
    (ht : isManagedRemotePath (fs.resolve t).text root = false) :
    Apart fs root s t ↔ Distinct fs.cwd (fs.resolve s) (fs.resolve t) := by
  rw [distinct_iff]
  constructor
  · intro ⟨_, hupload⟩ f g hf hg heq
    by_contra hne
    have hx : Proper ['f'] ∧ ['f'] ≠ dots := ⟨⟨rfl, by decide⟩, by decide⟩
    have hplain (l : List Txt) (hl : ∀ c ∈ l, Proper c ∧ c ≠ dots) :
        ∀ c ∈ l ++ [['f']], Proper c ∧ c ≠ dots := by
      intro c hc
      rcases List.mem_append.mp hc with hc | hc
      · exact hl c hc
      · exact List.mem_singleton.mp hc ▸ hx
    let file : RelFile := ⟨f ++ [['f']], by simp, hplain f hf⟩
    let file' : RelFile := ⟨g ++ [['f']], by simp, hplain g hg⟩
    have hsource : (fs.resolve s).comps ++ file.comps ≠ (fs.resolve t).comps ++ file'.comps := by
      intro hsource
      rw [← List.append_assoc, ← List.append_assoc] at hsource
      exact hne (List.append_cancel_right hsource)
    have hremote : PurePath.of
        (join (remotePathFor fs root (fs.resolve s).text) (joinSlash file.comps)) =
          PurePath.of (join (remotePathFor fs root (fs.resolve t).text)
            (joinSlash file'.comps)) := by
      rw [of_put hs, of_put ht, mk_append_inj, ← List.append_assoc, ← List.append_assoc, heq]
    exact hupload [file] [file'] _ List.mem_cons_self _ List.mem_cons_self hsource hremote
  · intro h
    constructor
    · intro hne hsame
      rw [of_sftpStagePath, of_sftpStagePath, mk_append_inj] at hsame
      have heq := h [] [] (fun c hc => nomatch hc) (fun c hc => nomatch hc)
        (by rw [List.append_nil, List.append_nil, hsame])
      rw [List.append_nil, List.append_nil] at heq
      exact hne (Resolved.ext heq)
    · intro files files' put hput put' hput' hne hsame
      obtain ⟨f, -, rfl⟩ := List.mem_map.mp hput
      obtain ⟨f', -, rfl⟩ := List.mem_map.mp hput'
      rw [of_put hs, of_put ht, mk_append_inj] at hsame
      exact hne (h f.comps f'.comps f.plain f'.plain hsame)

end

/-! ## A coordinator without links -/

theorem normComps_text (a : Txt) (p : Resolved) : normComps (join a p.text) = p.comps := by
  have hjoin : join a p.text = p.text := if_pos (by rw [text_eq]; rfl)
  have hcomps : components p.text = p.comps := by
    rw [text_eq, components_slash, components_joinSlash fun c hc => (p.plain c hc).1]
  rw [hjoin, normComps_plain, hcomps]
  rw [hcomps]
  exact fun c hc => (p.plain c hc).2

def withoutLinks (cwd : Resolved) : LocalFs where
  cwd := cwd
  resolve t := ⟨normComps (join cwd.text t), fun c hc =>
    ⟨normComps_proper _ c hc, normComps_no_dots
      (leadingSlashes_ne_zero.mpr (head_join (by rw [text_eq]; rfl))) c hc⟩⟩
  resolve_text t := by
    ext1
    exact normComps_text cwd.text _

def repo : Resolved := ⟨["repo".toList], by
  intro c hc
  rw [List.mem_singleton.mp hc]
  exact ⟨⟨by decide, by decide⟩, by decide⟩⟩

/-- A directory of the checkout and one of the system. -/
theorem apart_repo :
    Apart (withoutLinks repo) "/home/u/run-rocm-tests".toList "src".toList "/opt/x".toList := by
  refine (apart_iff (by decide) (by decide)).mpr ⟨fun h => absurd (by decide) h, ?_, ?_⟩
  · intro rel hrel _
    have hsrc : ((withoutLinks repo).resolve "src".toList).comps =
        repo.comps ++ ["src".toList] := by decide
    obtain rfl : ["src".toList] = rel := List.append_cancel_left (hsrc.symm.trans hrel)
    exact ⟨by decide, by decide⟩
  · exact fun rel hrel _ => absurd (List.cons.inj hrel).1 (by decide)

/-- A directory of the checkout that is called like one of the system, and two of the system
that differ in a colon. -/
theorem not_apart_opt :
    let fs := withoutLinks repo
    let root := "/home/u/run-rocm-tests".toList
    (isManagedRemotePath (fs.resolve "opt/x".toList).text root = false ∧
        isManagedRemotePath (fs.resolve "/opt/x".toList).text root = false ∧
        fs.resolve "opt/x".toList ≠ fs.resolve "/opt/x".toList ∧
        sftpStagePath fs root "opt/x".toList = sftpStagePath fs root "/opt/x".toList ∧
        ¬ Apart fs root "opt/x".toList "/opt/x".toList) ∧
      fs.resolve "/opt/a:b".toList ≠ fs.resolve "/opt/a_b".toList ∧
        sftpStagePath fs root "/opt/a:b".toList = sftpStagePath fs root "/opt/a_b".toList ∧
        ¬ Apart fs root "/opt/a:b".toList "/opt/a_b".toList := by
  intro fs root
  have hne : fs.resolve "opt/x".toList ≠ fs.resolve "/opt/x".toList :=
    fun h => absurd (congrArg Resolved.comps h) (by decide)
  have hne' : fs.resolve "/opt/a:b".toList ≠ fs.resolve "/opt/a_b".toList :=
    fun h => absurd (congrArg Resolved.comps h) (by decide)
  have hsame : sftpStagePath fs root "opt/x".toList = sftpStagePath fs root "/opt/x".toList := by
    decide
  have hsame' : sftpStagePath fs root "/opt/a:b".toList =
      sftpStagePath fs root "/opt/a_b".toList := by
    decide
  exact ⟨⟨by decide, by decide, hne, hsame, fun h => h.stage hne (congrArg PurePath.of hsame)⟩,
    hne', hsame', fun h => h.stage hne' (congrArg PurePath.of hsame')⟩

end SftpStage
end Common
end RocmTests

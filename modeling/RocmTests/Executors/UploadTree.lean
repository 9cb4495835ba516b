import RocmTests.Collections.Batches
import RocmTests.Common.SftpStage
import RocmTests.Shell.Strict
import RocmTests.Shell.Words

/-!
# A directory is copied to a node

`upload_tree` makes the directories first, with as few commands as a limit on their length allows,
and copies the files then.  The commands are texts for the shell of the node.  The first request
that fails is the last.
-/

namespace RocmTests
namespace Executors
namespace UploadTree

open Text Shell
open Common.SftpStage (LocalFs RelFile Put remotePathFor)

/-- What is at a local path: `rglob` finds files. -/
inductive Found where
  | missing
  | other
  | directory (files : List RelFile)

inductive Request where
  | mkdir (dirs : List Txt)
  | openSftp
  | put (p : Put)

inductive Ending where
  | returned (remoteRoot : Txt)
  | noPath
  | notDirectory
  | failed (r : Request)

/-- The directories that a request makes. -/
def Request.dirs : Request → List Txt
  | .mkdir dirs => dirs
  | .openSftp => []
  | .put _ => []

/-- The remote paths of a request. -/
def Request.paths : Request → List Txt
  | .mkdir dirs => dirs
  | .openSftp => []
  | .put p => [p.remote]

def mkdirText (dirs : List Txt) : Txt := "mkdir -p ".toList ++ [' '].intercalate (dirs.map quote)

/-- What a directory adds to the length of a command. -/
def added (dir : Txt) : Nat := (quote dir).length + 1

/-- The commands of `_mkdir_remote_dirs`, by their directories. -/
def mkdirRemoteDirs (dirs : List Txt) : List (List Txt) :=
  Batches.batches added "mkdir -p".length 24000 dirs

/-- The requests up to the first that fails, each with whether it succeeded.  `answers n` is the
answer to the request after `n` others; an exception is a failure. -/
def perform (answers : Nat → Bool) : List Request → List (Request × Bool)
  | [] => []
  | r :: rest => (r, answers 0) :: if answers 0 then perform (fun n => answers (n + 1)) rest else []

/-- `posixpath.join(remote_root, f.relative_to(local_root).parent.as_posix())` -/
def parentDir (remoteRoot : Txt) (f : RelFile) : Txt :=
  join remoteRoot (⟨[], f.comps.dropLast⟩ : PurePath).asPosix

def remoteDirs (remoteRoot : Txt) (files : List RelFile) : List Txt :=
  (files.map (parentDir remoteRoot)).dedup.mergeSort fun a b => a ≤ b

section

variable (fs : LocalFs) (workspaceRoot localDir : Txt)

def remoteRoot : Txt := remotePathFor fs workspaceRoot (fs.resolve localDir).text

def puts (files : List RelFile) : List Put :=
  Common.SftpStage.uploadTree fs workspaceRoot localDir files

def mkdirs (files : List RelFile) : List Request :=
  (mkdirRemoteDirs (if files = [] then [remoteRoot fs workspaceRoot localDir]
    else remoteDirs (remoteRoot fs workspaceRoot localDir) files)).map Request.mkdir

/-- The requests of `upload_tree` in their order.  Without files there is no SFTP session. -/
def plan (files : List RelFile) : List Request :=
  mkdirs fs workspaceRoot localDir files ++
    if files = [] then []
    else .openSftp :: (puts fs workspaceRoot localDir files).map Request.put

/-- How it ends after these requests. -/
def ending (sent : List (Request × Bool)) : Ending :=
  match sent.getLast? with
  | some (r, false) => .failed r
  | _ => .returned (remoteRoot fs workspaceRoot localDir)

/-- `upload_tree`, with what the node answers to each request. -/
def uploadTree (answers : Nat → Bool) : Found → List (Request × Bool) × Ending
  | .missing => ([], .noPath)
  | .other => ([], .notDirectory)
  | .directory files =>
    let sent := perform answers (plan fs workspaceRoot localDir files)
    (sent, ending fs workspaceRoot localDir sent)

end

/-! ## The commands -/

def mkdirName : Txt := "mkdir".toList

/-- What a shell makes of a command for these directories, and how long it is. -/
structure Makes (kept : Txt → Prop) (dirs : List Txt) : Prop where
  runs : ∀ (M : Machine) (W : World) (s : State), Bash kept M W → Program M mkdirName →
    (M.run W s (mkdirText dirs)).ran.map Executed.command =
      [launched s (mkdirName :: "-p".toList :: dirs)]
  short : dirs.length = 1 ∨ (mkdirText dirs).length ≤ 24000

theorem mkdirText_eq {dirs : List Txt} (hne : dirs ≠ []) :
    mkdirText dirs = [' '].intercalate ([mkdirName, "-p".toList] ++ dirs.map quote) := by
  have hfront : "mkdir -p ".toList = mkdirName ++ ' ' :: ("-p".toList ++ [' ']) := rfl
  have hback : dirs.map quote ≠ [] := mt List.map_eq_nil_iff.mp hne
  show "mkdir -p ".toList ++ [' '].intercalate (dirs.map quote) = _
  rw [hfront]
  generalize mkdirName = a, "-p".toList = b
  rw [joined_append (List.cons_ne_nil a [b]) hback, List.intercalate_cons_cons,
    List.intercalate_singleton]
  simp only [List.cons_append, List.nil_append, List.append_assoc]

theorem length_mkdirText {dirs : List Txt} (hne : dirs ≠ []) :
    (mkdirText dirs).length = Batches.weigh added "mkdir -p".length dirs := by
  have hjoined : ∀ dirs : List Txt, dirs ≠ [] →
      ([' '].intercalate (dirs.map quote)).length + 1 = (dirs.map added).sum := by
    intro dirs
    induction dirs with
    | nil => exact fun h => absurd rfl h
    | cons d dirs ih =>
      intro _
      by_cases hnil : dirs = []
      · rw [hnil]
        simp [added]
      · rw [List.map_cons, List.intercalate_cons_of_ne_nil (mt List.map_eq_nil_iff.mp hnil),
          List.map_cons, List.sum_cons, ← ih hnil]
        simp only [List.length_append, List.length_singleton, added]
        omega
  have hlength := hjoined dirs hne
  have hfront : "mkdir -p ".toList.length = "mkdir -p".length + 1 := rfl
  show ("mkdir -p ".toList ++ [' '].intercalate (dirs.map quote)).length = _
  rw [List.length_append, hfront, Batches.weigh, ← hlength]
  exact Nat.add_right_comm _ 1 _

theorem mkdir_runs {kept : Txt → Prop} {M : Machine} {W : World} (hbash : Bash kept M W)
    (hmkdir : Program M mkdirName) {dirs : List Txt} (hne : dirs ≠ []) (s : State) :
    (M.run W s (mkdirText dirs)).ran.map Executed.command =
      [launched s (mkdirName :: "-p".toList :: dirs)] := by
  obtain ⟨ps, hline, hargs⟩ := exists_line (Unspecial.all (by decide) :
    ∀ t ∈ [mkdirName, "-p".toList], Unspecial t) dirs
  obtain ⟨p, ps', rfl, hp, hps⟩ := List.map_eq_cons_iff.mp hargs
  have hplain : Plainly mkdirName := by decide
  rw [mkdirText_eq hne, ← hline, hbash.run_line ps' (hp ▸ hmkdir) (hp ▸ hplain), hps, hp]
  rfl

/-- The directories are made in their order, with commands that a shell reads as they are meant, and
no two neighbours of which could have been one. -/
theorem mkdirRemoteDirs_makes (kept : Txt → Prop) (dirs : List Txt) :
    (mkdirRemoteDirs dirs).flatten = dirs ∧ (∀ b ∈ mkdirRemoteDirs dirs, Makes kept b) ∧
      (mkdirRemoteDirs dirs).IsChain fun b next =>
        24000 < (mkdirText (b ++ next.take 1)).length := by
  have hlight : ∀ b ∈ mkdirRemoteDirs dirs, b ≠ [] ∧ _ := Batches.light_batches
  refine ⟨Batches.flatten_batches dirs, fun b hb => ?_, ?_⟩
  · obtain ⟨hne, hlight⟩ := hlight b hb
    refine ⟨fun M W s hbash hmkdir => mkdir_runs hbash hmkdir hne s, ?_⟩
    rw [length_mkdirText hne]
    exact hlight
  · refine (Batches.full_batches dirs).imp_of_mem_imp fun b next _ hnext hfull => ?_
    obtain ⟨d, rest, rfl⟩ := List.exists_cons_of_ne_nil (hlight next hnext).1
    have hne : b ++ [d] ≠ [] := List.append_ne_nil_of_right_ne_nil b (List.cons_ne_nil d [])
    rw [List.take_succ_cons, List.take_zero, length_mkdirText hne, Batches.weigh_append_singleton]
    exact hfull d rfl

/-! ## The whole copy -/

theorem perform_begins (rs : List Request) :
    ∀ answers, (perform answers rs).map Prod.fst <+: rs := by
  induction rs with
  | nil => exact fun _ => List.prefix_rfl
  | cons r rs ih =>
    intro answers
    rw [perform, List.map_cons]
    refine (List.prefix_append_right_inj [r]).mpr ?_
    split_ifs
    · exact ih _
    · exact List.nil_prefix

theorem perform_answers (rs : List Request) : ∀ (answers : Nat → Bool) (i : Nat)
    (x : Request × Bool), (perform answers rs)[i]? = some x → x.2 = answers i := by
  induction rs with
  | nil => intro answers i x h; cases h
  | cons r rs ih =>
    intro answers i x h
    rw [perform] at h
    cases i with
    | zero =>
      cases h
      rfl
    | succ i =>
      rw [List.getElem?_cons_succ] at h
      split_ifs at h
      · exact ih _ i x h
      · cases h

/-- All but the last succeeded. -/
theorem perform_dropLast (rs : List Request) : ∀ (answers : Nat → Bool),
    ∀ x ∈ (perform answers rs).dropLast, x.2 = true := by
  induction rs with
  | nil => intro answers x hx; cases hx
  | cons r rs ih =>
    intro answers x hx
    rw [perform] at hx
    cases hanswer : answers 0 with
    | false =>
      rw [hanswer, if_neg Bool.false_ne_true] at hx
      cases hx
    | true =>
      rw [hanswer, if_pos rfl] at hx
      cases hrest : perform (fun n => answers (n + 1)) rs with
      | nil =>
        rw [hrest] at hx
        cases hx
      | cons y ys =>
        rw [hrest, List.dropLast_cons_of_ne_nil (List.cons_ne_nil y ys), ← hrest] at hx
        rcases List.mem_cons.mp hx with rfl | hx
        · rfl
        · exact ih _ x hx

/-- Where the last one succeeded too, there is no request left. -/
theorem perform_done (rs : List Request) : ∀ answers : Nat → Bool,
    (∀ x ∈ (perform answers rs).getLast?, x.2 = true) →
      perform answers rs = rs.map fun r => (r, true) := by
  induction rs with
  | nil => exact fun _ _ => rfl
  | cons r rs ih =>
    intro answers h
    rw [perform] at h ⊢
    cases hanswer : answers 0 with
    | false =>
      rw [hanswer, if_neg Bool.false_ne_true] at h
      cases h (r, false) rfl
    | true =>
      rw [hanswer, if_pos rfl] at h
      rw [if_pos rfl, List.map_cons, ih]
      intro x hx
      refine h x ?_
      rw [List.getLast?_cons]
      exact congrArg some (Option.getD_eq_iff.mpr (Or.inl hx))

theorem components_parentDir (remoteRoot : Txt) (f : RelFile) :
    components (parentDir remoteRoot f) = components remoteRoot ++ f.comps.dropLast := by
  have hproper : ∀ c ∈ f.comps.dropLast, Proper c :=
    fun c hc => (f.plain c (List.dropLast_subset _ hc)).1
  obtain ⟨hhead, hcomps⟩ := Common.SftpStage.asPosix_relative hproper
  rw [parentDir, components_join hhead, hcomps]

theorem components_remote (remoteRoot : Txt) (f : RelFile) :
    components (join remoteRoot (joinSlash f.comps)) = components remoteRoot ++ f.comps := by
  have hproper : ∀ c ∈ f.comps, Proper c := fun c hc => (f.plain c hc).1
  rw [components_join (head_joinSlash hproper), components_joinSlash hproper]

section

variable {fs : LocalFs} {workspaceRoot localDir : Txt} {files : List RelFile}

/-- What holds of the requests, wherever they end.  No file comes before its directory, no directory
is made twice or in vain, and nothing is outside. -/
structure Ordered (root : Txt) (files : List RelFile) (sent : List Request) : Prop where
  prepared : ∀ before p, before ++ [.put p] <+: sent → ∃ dirs, .mkdir dirs ∈ before ∧
    ∃ d ∈ dirs, components d = (components p.remote).dropLast
  once : (sent.flatMap Request.dirs).Nodup
  needed : files ≠ [] → ∀ d ∈ sent.flatMap Request.dirs, ∃ f ∈ files, d = parentDir root f
  within : ∀ r ∈ sent, ∀ t ∈ r.paths, components root <+: components t

theorem mem_mkdirs {r : Request} (h : r ∈ mkdirs fs workspaceRoot localDir files) :
    ∃ dirs, r = .mkdir dirs ∧ ∀ d ∈ dirs, files = [] ∧ d = remoteRoot fs workspaceRoot localDir ∨
      ∃ f ∈ files, d = parentDir (remoteRoot fs workspaceRoot localDir) f := by
  obtain ⟨dirs, hdirs, rfl⟩ := List.mem_map.mp h
  refine ⟨dirs, rfl, fun d hd => ?_⟩
  have hall : d ∈ (mkdirRemoteDirs (if files = [] then [remoteRoot fs workspaceRoot localDir]
      else remoteDirs (remoteRoot fs workspaceRoot localDir) files)).flatten :=
    List.mem_flatten.mpr ⟨dirs, hdirs, hd⟩
  rw [mkdirRemoteDirs, Batches.flatten_batches] at hall
  split_ifs at hall with hnil
  · exact .inl ⟨hnil, List.mem_singleton.mp hall⟩
  · obtain ⟨f, hf, rfl⟩ := List.mem_map.mp (List.mem_dedup.mp (List.mem_mergeSort.mp hall))
    exact .inr ⟨f, hf, rfl⟩

theorem flatMap_mkdirs : (mkdirs fs workspaceRoot localDir files).flatMap Request.dirs =
    if files = [] then [remoteRoot fs workspaceRoot localDir]
    else remoteDirs (remoteRoot fs workspaceRoot localDir) files := by
  rw [mkdirs, List.flatMap_map]
  have hid : (fun dirs => (Request.mkdir dirs).dirs) = id := rfl
  rw [hid, List.flatMap_id, mkdirRemoteDirs, Batches.flatten_batches]

/-- What comes after the directories. -/
theorem mem_after {r : Request} (h : r ∈ (if files = [] then [] else
    .openSftp :: (puts fs workspaceRoot localDir files).map Request.put)) :
    r = .openSftp ∨ ∃ f ∈ files, ∃ source, r = .put ⟨source,
      join (remoteRoot fs workspaceRoot localDir) (joinSlash f.comps)⟩ := by
  split_ifs at h
  · cases h
  · rcases List.mem_cons.mp h with rfl | h
    · exact Or.inl rfl
    · obtain ⟨p, hp, rfl⟩ := List.mem_map.mp h
      obtain ⟨f, hf, rfl⟩ := List.mem_map.mp hp
      exact Or.inr ⟨f, hf, _, rfl⟩

theorem flatMap_plan : (plan fs workspaceRoot localDir files).flatMap Request.dirs =
    (mkdirs fs workspaceRoot localDir files).flatMap Request.dirs := by
  have hafter : List.flatMap Request.dirs (if files = [] then [] else
      .openSftp :: (puts fs workspaceRoot localDir files).map Request.put) = [] := by
    refine List.flatMap_eq_nil_iff.mpr fun r hr => ?_
    rcases mem_after hr with rfl | ⟨f, -, source, rfl⟩
    · rfl
    · rfl
  rw [plan, List.flatMap_append, hafter, List.append_nil]

theorem exists_mkdir {f : RelFile} (hf : f ∈ files) : ∃ dirs,
    .mkdir dirs ∈ mkdirs fs workspaceRoot localDir files ∧
      parentDir (remoteRoot fs workspaceRoot localDir) f ∈ dirs := by
  have hmem : parentDir (remoteRoot fs workspaceRoot localDir) f ∈
      (mkdirs fs workspaceRoot localDir files).flatMap Request.dirs := by
    rw [flatMap_mkdirs, if_neg (List.ne_nil_of_mem hf)]
    exact List.mem_mergeSort.mpr (List.mem_dedup.mpr (List.mem_map_of_mem hf))
  obtain ⟨r, hr, hd⟩ := List.mem_flatMap.mp hmem
  obtain ⟨dirs, rfl, -⟩ := mem_mkdirs hr
  exact ⟨dirs, hr, hd⟩

theorem put_not_mem {p : Put} : .put p ∉ mkdirs fs workspaceRoot localDir files := by
  intro h
  obtain ⟨dirs, heq, -⟩ := mem_mkdirs h
  cases heq

/-- The requests begin as planned. -/
theorem ordered_of_prefix {sent : List Request}
    (h : sent <+: plan fs workspaceRoot localDir files) :
    Ordered (remoteRoot fs workspaceRoot localDir) files sent := by
  have hdirs : sent.flatMap Request.dirs <+: (mkdirs fs workspaceRoot localDir files).flatMap
      Request.dirs := by
    obtain ⟨rest, hrest⟩ := h
    refine ⟨rest.flatMap Request.dirs, ?_⟩
    rw [← List.flatMap_append, hrest, flatMap_plan]
  constructor
  · intro before p hbefore
    have hplan := hbefore.trans h
    have hall : mkdirs fs workspaceRoot localDir files <+: before := by
      rcases List.prefix_or_prefix_of_prefix hplan (List.prefix_append _ _) with hshort | hlong
      · exact absurd (hshort.subset (List.mem_append_right before List.mem_cons_self)) put_not_mem
      · rcases List.prefix_concat_iff.mp hlong with heq | hlong
        · have hmem : Request.put p ∈ mkdirs fs workspaceRoot localDir files :=
            heq ▸ List.mem_append_right before List.mem_cons_self
          exact absurd hmem put_not_mem
        · exact hlong
    have hmem := hplan.subset (List.mem_append_right before List.mem_cons_self)
    rcases mem_after ((List.mem_append.mp hmem).resolve_left put_not_mem) with
      heq | ⟨f, hf, source, heq⟩
    · cases heq
    obtain ⟨dirs, hmkdir, hd⟩ := exists_mkdir hf
    refine ⟨dirs, hall.subset hmkdir, _, hd, ?_⟩
    rw [Request.put.inj heq, components_parentDir, components_remote,
      List.dropLast_append_of_ne_nil f.ne_nil]
  · refine hdirs.sublist.nodup ?_
    rw [flatMap_mkdirs]
    split_ifs
    · exact List.nodup_singleton _
    · exact (List.mergeSort_perm _ _).nodup_iff.mpr (List.nodup_dedup _)
  · intro hne d hd
    obtain ⟨r, hr, hd⟩ := List.mem_flatMap.mp (hdirs.subset hd)
    obtain ⟨dirs, rfl, hparents⟩ := mem_mkdirs hr
    rcases hparents d hd with ⟨hnil, -⟩ | hparent
    · exact absurd hnil hne
    · exact hparent
  · intro r hr t ht
    rcases List.mem_append.mp (h.subset hr) with hmkdir | hr
    · obtain ⟨dirs, rfl, hparents⟩ := mem_mkdirs hmkdir
      rcases hparents t ht with ⟨-, rfl⟩ | ⟨f, -, rfl⟩
      · exact List.prefix_rfl
      · rw [components_parentDir]
        exact List.prefix_append _ _
    · rcases mem_after hr with rfl | ⟨f, -, source, rfl⟩
      · cases ht
      · rw [List.mem_singleton.mp ht, components_remote]
        exact List.prefix_append _ _

/-- What holds of the requests and their answers, wherever they end.  Each request but the last
succeeded, so a file comes after the making of its directory. -/
structure Uploaded (root : Txt) (files : List RelFile) (answers : Nat → Bool)
    (sent : List (Request × Bool)) : Prop where
  answered : ∀ i x, sent[i]? = some x → x.2 = answers i
  succeeded : ∀ x ∈ sent.dropLast, x.2 = true
  prepared : ∀ before p ok, before ++ [(.put p, ok)] <+: sent →
    ∃ dirs, (.mkdir dirs, true) ∈ before ∧
      ∃ d ∈ dirs, components d = (components p.remote).dropLast
  once : ((sent.map Prod.fst).flatMap Request.dirs).Nodup
  needed : files ≠ [] → ∀ d ∈ (sent.map Prod.fst).flatMap Request.dirs,
    ∃ f ∈ files, d = parentDir root f
  within : ∀ x ∈ sent, ∀ t ∈ x.1.paths, components root <+: components t

theorem uploaded_perform (answers : Nat → Bool) :
    Uploaded (remoteRoot fs workspaceRoot localDir) files answers
      (perform answers (plan fs workspaceRoot localDir files)) := by
  have hordered := ordered_of_prefix
    (perform_begins (plan fs workspaceRoot localDir files) answers)
  have hsucceeded := perform_dropLast (plan fs workspaceRoot localDir files) answers
  refine ⟨perform_answers _ _, hsucceeded, fun before p ok h => ?_, hordered.once,
    hordered.needed, fun x hx => hordered.within x.1 (List.mem_map_of_mem hx)⟩
  have hmap := h.map Prod.fst
  rw [List.map_append] at hmap
  obtain ⟨dirs, hdirs, hd⟩ := hordered.prepared _ p hmap
  obtain ⟨x, hx, hfst⟩ := List.mem_map.mp hdirs
  refine ⟨dirs, ?_, hd⟩
  have hlast : x.2 = true := by
    obtain ⟨rest, hrest⟩ := h
    refine hsucceeded x ?_
    rw [← hrest, List.append_assoc,
      List.dropLast_append_of_ne_nil (List.append_ne_nil_of_left_ne_nil (List.cons_ne_nil _ _) _)]
    exact List.mem_append_left _ hx
  rw [← hfst, ← hlast]
  exact hx

/-- Whatever the node answers.  When `upload_tree` returns, everything was asked for and
succeeded; otherwise the last request failed. -/
theorem uploadTree_prepared (fs : LocalFs) (workspaceRoot localDir : Txt) (files : List RelFile)
    (answers : Nat → Bool) :
    Uploaded (remoteRoot fs workspaceRoot localDir) files answers
        (uploadTree fs workspaceRoot localDir answers (.directory files)).1 ∧
      (((uploadTree fs workspaceRoot localDir answers (.directory files)).2 =
          .returned (remoteRoot fs workspaceRoot localDir) ∧
        (uploadTree fs workspaceRoot localDir answers (.directory files)).1 =
          (plan fs workspaceRoot localDir files).map fun r => (r, true)) ∨
      ∃ r, (uploadTree fs workspaceRoot localDir answers (.directory files)).2 = .failed r ∧
        (uploadTree fs workspaceRoot localDir answers (.directory files)).1.getLast? =
          some (r, false)) := by
  refine ⟨uploaded_perform answers, ?_⟩
  have hdone := perform_done (plan fs workspaceRoot localDir files) answers
  rw [uploadTree]
  dsimp only
  generalize perform answers (plan fs workspaceRoot localDir files) = sent at hdone ⊢
  unfold ending
  cases hlast : sent.getLast? with
  | none => exact Or.inl ⟨rfl, hdone fun x hx => by rw [hlast] at hx; cases hx⟩
  | some x =>
    obtain ⟨r, ok⟩ := x
    cases ok with
    | false => exact Or.inr ⟨r, rfl, rfl⟩
    | true =>
      refine Or.inl ⟨rfl, hdone fun x hx => ?_⟩
      rw [hlast] at hx
      cases hx
      rfl

end

end UploadTree
end Executors
end RocmTests

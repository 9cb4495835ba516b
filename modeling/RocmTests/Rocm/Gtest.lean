import RocmTests.Collections.Dict
import RocmTests.Shell.Strict
import RocmTests.Shell.Words
import RocmTests.Text.Numeral

/-!
# Runs of GoogleTest binaries

`build_gtest_command` puts a run together as one text: the directory, the variables, the binary, the
filter and what else is passed on.  A shell that reads the text starts the binary with the filter as
it was given, in the directory and with those variables.
-/

namespace RocmTests
namespace Rocm
namespace Gtest

open Text Shell

/-- `omp_num_threads`, a number or a text. -/
inductive Threads where
  | number (n : Int)
  | text (t : Txt)

def Threads.str : Threads → Txt
  | .number n => showInt n
  | .text t => t

/-- The keyword arguments of `build_gtest_command`. -/
structure Args where
  gtestFilter : Option Txt := none
  shardIndex : Option Int := none
  totalShards : Option Int := none
  env : Dict Txt Txt := Dict.empty
  extraArgs : Txt := []
  cwd : Option Txt := none
  ompNumThreads : Option Threads := none

def totalName : Txt := "GTEST_TOTAL_SHARDS".toList

def indexName : Txt := "GTEST_SHARD_INDEX".toList

def ompName : Txt := "OMP_NUM_THREADS".toList

/-- `gtest_shard_env`; the text is that of the `ValueError`. -/
def gtestShardEnv (shardIndex totalShards : Int) : Except Txt (List (Txt × Txt)) :=
  if totalShards ≤ 1 then .ok []
  else if 0 ≤ shardIndex ∧ shardIndex < totalShards then
    .ok [(totalName, showInt totalShards), (indexName, showInt shardIndex)]
  else
    .error ("shard_index ".toList ++ (showInt shardIndex ++
      (" out of range for total_shards ".toList ++ showInt totalShards)))

namespace Args

def shardEnv (a : Args) : Except Txt (List (Txt × Txt)) :=
  match a.shardIndex, a.totalShards with
  | some shardIndex, some totalShards => gtestShardEnv shardIndex totalShards
  | _, _ => .ok []

/-- `merged`: what was given, then the shard, then the threads. -/
def merged (a : Args) : Except Txt (Dict Txt Txt) := do
  let shards ← a.shardEnv
  let merged := shards.foldl (fun d p => d.assign p.1 p.2) a.env
  return a.ompNumThreads.elim merged fun n => merged.assign ompName n.str

end Args

def sortedItems (d : Dict Txt Txt) : List (Txt × Txt) := d.items.mergeSort fun p q => p.1 ≤ q.1

/-- The binary, the filter and the other arguments. -/
def coreCommand (binary : Txt) (a : Args) : Txt :=
  let gtestFilter := a.gtestFilter.getD []
  let core := binary
  let core :=
    if gtestFilter = [] then core else core ++ (" --gtest_filter=".toList ++ quote gtestFilter)
  if a.extraArgs = [] then core else core ++ ' ' :: a.extraArgs

def buildGtestCommand (binary : Txt) (a : Args) : Except Txt Txt := do
  let merged ← a.merged
  let core := withEnv (sortedItems merged) (coreCommand binary a)
  let cwd := a.cwd.getD []
  return if cwd = [] then core else "cd ".toList ++ (quote cwd ++ (" && ".toList ++ core))

/-! ## What a run is given -/

namespace Args

/-- The shard that is run, and how many there are.  A single one is none. -/
def shard (a : Args) : Option (Int × Int) :=
  a.shardIndex.bind fun i => a.totalShards.bind fun n => if 1 < n then some (i, n) else none

/-- The shard is one of those that there are. -/
def InRange (a : Args) : Prop := ∀ x ∈ a.shard, 0 ≤ x.1 ∧ x.1 < x.2

/-- The value of a variable, if it is given one. -/
def value (a : Args) (k : Txt) : Option Txt :=
  if k = ompName ∧ a.ompNumThreads.isSome then a.ompNumThreads.map Threads.str
  else if k = totalName ∧ a.shard.isSome then a.shard.map fun x => showInt x.2
  else if k = indexName ∧ a.shard.isSome then a.shard.map fun x => showInt x.1
  else a.env.get k

theorem shardEnv_eq (a : Args) : a.shardEnv = a.shard.elim (.ok []) fun x =>
    if 0 ≤ x.1 ∧ x.1 < x.2 then .ok [(totalName, showInt x.2), (indexName, showInt x.1)]
    else gtestShardEnv x.1 x.2 := by
  rw [shardEnv, shard]
  cases a.shardIndex with
  | none => rfl
  | some i =>
    cases a.totalShards with
    | none => rfl
    | some n =>
      show gtestShardEnv i n = (if 1 < n then some (i, n) else none).elim _ _
      by_cases hn : 1 < n
      · rw [if_pos hn, Option.elim_some]
        by_cases hrange : 0 ≤ i ∧ i < n
        · rw [if_pos hrange, gtestShardEnv, if_neg (by omega), if_pos hrange]
        · rw [if_neg hrange]
      · rw [if_neg hn, gtestShardEnv, if_pos (by omega)]
        rfl

theorem shard_lt {a : Args} {x : Int × Int} (h : a.shard = some x) : 1 < x.2 := by
  rw [shard, Option.bind_eq_some_iff] at h
  obtain ⟨i, -, hn⟩ := h
  obtain ⟨n, -, hx⟩ := Option.bind_eq_some_iff.mp hn
  by_cases hone : 1 < n
  · rw [if_pos hone] at hx
    rw [← Option.some.inj hx]
    exact hone
  · rw [if_neg hone] at hx
    cases hx

theorem shardEnv_of_inRange {a : Args} (h : a.InRange) : a.shardEnv =
    .ok (a.shard.elim [] fun x => [(totalName, showInt x.2), (indexName, showInt x.1)]) := by
  rw [shardEnv_eq]
  cases hx : a.shard with
  | none => rfl
  | some x =>
    rw [Option.elim_some, if_pos (h x hx)]
    rfl

theorem exists_shardEnv_iff (a : Args) : (∃ items, a.shardEnv = .ok items) ↔ a.InRange := by
  constructor
  · intro hok x hx
    obtain ⟨items, hitems⟩ := hok
    by_contra hno
    have hone := shard_lt hx
    rw [shardEnv_eq, hx, Option.elim_some, if_neg hno, gtestShardEnv, if_neg (by omega),
      if_neg hno] at hitems
    cases hitems
  · intro h
    exact ⟨_, shardEnv_of_inRange h⟩

theorem merged_ok_iff (a : Args) : (∃ d, a.merged = .ok d) ↔ a.InRange := by
  rw [← exists_shardEnv_iff]
  constructor
  · intro hok
    obtain ⟨d, hd⟩ := hok
    cases hitems : a.shardEnv with
    | ok items => exact ⟨items, rfl⟩
    | error e =>
      rw [merged, hitems] at hd
      cases hd
  · intro hok
    obtain ⟨items, hitems⟩ := hok
    rw [merged, hitems]
    exact ⟨_, rfl⟩

theorem get_withThreads (a : Args) (d : Dict Txt Txt) (k : Txt) :
    (a.ompNumThreads.elim d fun n => d.assign ompName n.str).get k =
      if k = ompName ∧ a.ompNumThreads.isSome then a.ompNumThreads.map Threads.str
      else d.get k := by
  cases a.ompNumThreads with
  | none => exact (if_neg fun hk => Bool.false_ne_true hk.2).symm
  | some n =>
    rw [Option.elim_some, Dict.get_assign]
    by_cases hk : ompName = k
    · rw [if_pos hk, if_pos ⟨hk.symm, rfl⟩]
      rfl
    · rw [if_neg hk, if_neg fun hk' => hk hk'.1.symm]

/-- Each variable has the value that was assigned to it last. -/
theorem get_merged {a : Args} {d : Dict Txt Txt} (h : a.merged = .ok d) (k : Txt) :
    d.get k = a.value k := by
  rw [merged, shardEnv_of_inRange ((merged_ok_iff a).mp ⟨d, h⟩)] at h
  rw [← Except.ok.inj h, get_withThreads, value]
  congr 1
  cases a.shard with
  | none =>
    rw [if_neg fun hk => Bool.false_ne_true hk.2, if_neg fun hk => Bool.false_ne_true hk.2]
    rfl
  | some x =>
    have hget : ((a.env.assign totalName (showInt x.2)).assign indexName (showInt x.1)).get k =
        if indexName = k then some (showInt x.1)
        else if totalName = k then some (showInt x.2) else a.env.get k := by
      rw [Dict.get_assign, Dict.get_assign]
    have hne : indexName ≠ totalName := by decide
    refine hget.trans ?_
    by_cases htotal : totalName = k
    · rw [if_neg fun hk => hne (hk.trans htotal.symm), if_pos htotal, if_pos ⟨htotal.symm, rfl⟩]
      rfl
    · have hno : ¬ (k = totalName ∧ (some x).isSome) := fun hk => htotal hk.1.symm
      rw [if_neg htotal, if_neg hno]
      by_cases hindex : indexName = k
      · rw [if_pos hindex, if_pos ⟨hindex.symm, rfl⟩]
        rfl
      · rw [if_neg hindex, if_neg fun hk => hindex hk.1.symm]

theorem mem_keys_merged {a : Args} {d : Dict Txt Txt} (h : a.merged = .ok d)
    (hnames : ∀ k ∈ a.env.keys, isName k = true) : ∀ k ∈ d.keys, isName k = true := by
  intro k hk
  obtain ⟨v, hv⟩ := Dict.exists_get hk
  rw [get_merged h, value] at hv
  by_cases homp : k = ompName
  · rw [homp]
    decide
  by_cases htotal : k = totalName
  · rw [htotal]
    decide
  by_cases hindex : k = indexName
  · rw [hindex]
    decide
  rw [if_neg fun h => homp h.1, if_neg fun h => htotal h.1, if_neg fun h => hindex h.1] at hv
  refine hnames k ?_
  by_contra hno
  rw [Dict.get_eq_none_iff.mpr hno] at hv
  cases hv

end Args

/-! ## The text -/

/-- The binary, and what it is given: the filter, and the arguments that `extra_args` has. -/
def argv (binary : Txt) (a : Args) (extra : List Txt) : List Txt :=
  binary :: ((if a.gtestFilter.getD [] = [] then []
    else ["--gtest_filter=".toList ++ a.gtestFilter.getD []]) ++ extra)

/-- An option and its value, which is quoted. -/
def filterPiece (f : Txt) : Piece :=
  .glued (.bare "--gtest_filter=".toList (unspecial_of_all (List.cons_ne_nil _ _) (by decide)))
    (.quoted f)
    (inert_of_plain (Word.plain_append (Word.plain_of (by decide) _) (plain_quotedWord f)))

theorem arg_filterPiece (f : Txt) : (filterPiece f).arg = "--gtest_filter=".toList ++ f := by
  rw [filterPiece, Piece.arg, Piece.glued, Word.text_append]
  exact congrArg₂ (· ++ ·) (Word.text_of _ _) (text_quotedWord f)

theorem exists_core {binary : Txt} (hbinary : Unspecial binary) {a : Args} {extra : List Piece}
    (hextra : a.extraArgs = line extra) : ∃ ps : List Piece, ps ≠ [] ∧
      coreCommand binary a = line ps ∧ ps.map Piece.arg = argv binary a (extra.map Piece.arg) := by
  have hbare : line [Piece.bare binary hbinary] = binary := List.intercalate_singleton ..
  have hfront : ∃ qs : List Piece, qs ≠ [] ∧ line qs = (if a.gtestFilter.getD [] = [] then binary
        else binary ++ (" --gtest_filter=".toList ++ quote (a.gtestFilter.getD []))) ∧
      qs.map Piece.arg = binary :: (if a.gtestFilter.getD [] = [] then []
        else ["--gtest_filter=".toList ++ a.gtestFilter.getD []]) := by
    by_cases hfilter : a.gtestFilter.getD [] = []
    · refine ⟨[.bare binary hbinary], List.cons_ne_nil _ _, ?_, ?_⟩
      · rw [if_pos hfilter, hbare]
      · rw [if_pos hfilter, List.map_singleton, Piece.arg_bare]
    · refine ⟨[.bare binary hbinary] ++ [filterPiece (a.gtestFilter.getD [])],
        List.cons_ne_nil _ _, ?_, ?_⟩
      · have hone : line [filterPiece (a.gtestFilter.getD [])] =
            "--gtest_filter=".toList ++ quote (a.gtestFilter.getD []) :=
              List.intercalate_singleton ..
        rw [if_neg hfilter, line_append (List.cons_ne_nil _ _) (List.cons_ne_nil _ _), hbare, hone]
        rfl
      · rw [if_neg hfilter, List.map_append, List.map_singleton, List.map_singleton,
          Piece.arg_bare, arg_filterPiece]
        rfl
  obtain ⟨qs, hqs, htext, hargs⟩ := hfront
  rw [argv, ← List.cons_append, ← hargs, ← List.map_append]
  refine ⟨qs ++ extra, List.append_ne_nil_of_left_ne_nil hqs extra, ?_, rfl⟩
  rw [coreCommand, ← htext, hextra]
  by_cases hnil : extra = []
  · rw [hnil, List.append_nil, if_pos (show line [] = [] from rfl)]
  · rw [if_neg (line_ne_nil hnil), line_append hqs hnil]

/-! ## The run -/

theorem apply_overlay (sets : List (Txt × Txt)) (hnodup : (sets.map Prod.fst).Nodup) (e : Env)
    (k : Txt) : e.apply (overlay sets) k = (Dict.valueIn sets k).or (e k) := by
  induction sets generalizing e with
  | nil => rfl
  | cons p sets ih =>
    obtain ⟨k', v⟩ := p
    rw [List.map_cons, List.nodup_cons] at hnodup
    rw [overlay, List.map_cons, Env.apply_cons, Dict.valueIn]
    refine (ih hnodup.2 _).trans ?_
    by_cases hk : k' = k
    · rw [if_pos hk, ← hk, Dict.valueIn_eq_none_iff.mpr hnodup.1, Function.update_self]
      rfl
    · rw [if_neg hk, Function.update_of_ne (Ne.symm hk)]

theorem apply_sortedItems {a : Args} {d : Dict Txt Txt} (h : a.merged = .ok d) (e : Env) :
    e.apply (overlay (sortedItems d)) = fun k => (a.value k).or (e k) := by
  have hperm : (sortedItems d).Perm d.items := List.mergeSort_perm ..
  have hnodup : ((sortedItems d).map Prod.fst).Nodup :=
    (hperm.map Prod.fst).nodup_iff.mpr d.nodup
  funext k
  rw [apply_overlay _ hnodup, Dict.valueIn_perm hperm hnodup, ← Args.get_merged h]
  rfl

/-- Where a run takes place, if the directory can be entered. -/
def place (M : Machine) (dir : Txt) (a : Args) : Option Txt :=
  if a.cwd.getD [] = [] then some dir else M.enter dir (a.cwd.getD [])

/-- A text is built exactly for a shard that there is.  Read by a shell it starts the binary, in the
directory and with the variables that were asked for, and hands it the filter as it was given.  No
other program is started, and none where the directory cannot be entered. -/
theorem buildGtestCommand_starts {kept : Txt → Prop} {M : Machine} {W : World}
    (hbash : Bash kept M W) (s : State) {binary : Txt} (hbinary : Unspecial binary)
    (hstart : Startable M binary) (a : Args) {extra : List Piece}
    (hextra : a.extraArgs = line extra)
    (hnames : ∀ k ∈ a.env.keys, isName k = true) (hcwd : isOption (a.cwd.getD []) = false) :
    ((∃ cmd, buildGtestCommand binary a = .ok cmd) ↔ a.InRange) ∧
      ∀ cmd, buildGtestCommand binary a = .ok cmd →
        (M.run W s cmd).programs = (place M s.dir a).toList.map fun dir =>
          ⟨false, argv binary a (extra.map Piece.arg), [], fun k => (a.value k).or (s.env k), dir,
            Machine.piped false false⟩ := by
  constructor
  · rw [← Args.merged_ok_iff, buildGtestCommand]
    cases a.merged with
    | error e =>
      constructor
      · intro h
        obtain ⟨cmd, hcmd⟩ := h
        cases hcmd
      · intro h
        obtain ⟨d, hd⟩ := h
        cases hd
    | ok d => exact ⟨fun _ => ⟨d, rfl⟩, fun _ => ⟨_, rfl⟩⟩
  intro cmd hcmd
  obtain ⟨d, hd⟩ : ∃ d, a.merged = .ok d := by
    cases hd : a.merged with
    | ok d => exact ⟨d, rfl⟩
    | error e =>
      rw [buildGtestCommand, hd] at hcmd
      cases hcmd
  have hsets : ∀ p ∈ sortedItems d, isName p.1 = true := by
    intro p hp
    have hmem : p ∈ d.items := (List.mergeSort_perm ..).mem_iff.mp hp
    exact Args.mem_keys_merged hd hnames p.1 (List.mem_map_of_mem hmem)
  obtain ⟨core, hcore, hcoreText, hcoreArgs⟩ := exists_core hbinary hextra
  obtain ⟨ps, hps, htext, hargs⟩ := exists_withEnv hsets hcore
  rw [hcoreArgs] at hargs
  have hstarted (dir : Txt) : started { s with dir := dir } (sortedItems d)
      (argv binary a (extra.map Piece.arg)) = ⟨false, argv binary a (extra.map Piece.arg), [],
        fun k => (a.value k).or (s.env k), dir, Machine.piped false false⟩ := by
    rw [started, apply_sortedItems hd]
  have hbuilt : (if a.cwd.getD [] = [] then line ps else
      "cd ".toList ++ (quote (a.cwd.getD []) ++ (" && ".toList ++ line ps))) = cmd := by
    rw [← htext, ← hcoreText]
    rw [buildGtestCommand, hd] at hcmd
    exact Except.ok.inj hcmd
  rw [← hbuilt, place]
  by_cases hnil : a.cwd.getD [] = []
  · rw [if_pos hnil, if_pos hnil, hbash.run_prefixed hsets hstart hargs s]
    exact congrArg (fun c => [c]) (hstarted s.dir)
  · have hcd : Unspecial cdName := unspecial_of_all (by decide) (by decide)
    have hinside := hbash.run_inside hsets hstart hargs (p := .bare cdName hcd)
      (q := .quoted (a.cwd.getD [])) (Piece.arg_bare hcd) (by rw [Piece.arg_quoted]; exact hcwd) s
    have hline : line [.bare cdName hcd, .quoted (a.cwd.getD [])] =
        cdName ++ ' ' :: quote (a.cwd.getD []) :=
      (line_append (List.cons_ne_nil (Piece.bare cdName hcd) [])
        (List.cons_ne_nil (Piece.quoted (a.cwd.getD [])) [])).trans
        (congrArg₂ (fun t u => t ++ ' ' :: u) List.intercalate_singleton List.intercalate_singleton)
    have hcommand : "cd ".toList ++ (quote (a.cwd.getD []) ++ (" && ".toList ++ line ps)) =
        andThen (cdName ++ ' ' :: quote (a.cwd.getD [])) (line ps) := rfl
    rw [if_neg hnil, if_neg hnil, hcommand, ← hline, hinside, Piece.arg_quoted]
    exact congrArg (fun f => List.map f _) (funext hstarted)

/-- The second of three shards, in a directory with a blank in its name. -/
theorem buildGtestCommand_starts_shard :
    let a : Args :=
      { gtestFilter := some "*rocm*:-*Slow*".toList, shardIndex := some 1, totalShards := some 3,
        env := Dict.ofItems [("LD_LIBRARY_PATH".toList, "/opt/ucx/lib:/opt/rocm/lib".toList)],
        extraArgs := "--gtest_color=no".toList, cwd := some "/work/ucx build".toList,
        ompNumThreads := some (.number 4) }
    let s := fresh (fun _ => none) []
    ((∃ cmd, buildGtestCommand "./test/gtest/gtest".toList a = .ok cmd) ↔ a.InRange) ∧
      ∀ cmd, buildGtestCommand "./test/gtest/gtest".toList a = .ok cmd →
        (posix.run .strict s cmd).programs = (place posix s.dir a).toList.map fun dir =>
          ⟨false, ["./test/gtest/gtest".toList, "--gtest_filter=*rocm*:-*Slow*".toList,
            "--gtest_color=no".toList], [], fun k => (a.value k).or (s.env k), dir,
            Machine.piped false false⟩ := by
  intro a s
  have hbinary : Unspecial "./test/gtest/gtest".toList :=
    unspecial_of_all (List.cons_ne_nil _ _) (by decide)
  have hcolor : Unspecial "--gtest_color=no".toList :=
    unspecial_of_all (List.cons_ne_nil _ _) (by decide)
  have hextra : a.extraArgs = line [.bare "--gtest_color=no".toList hcolor] := rfl
  have hstart : Startable posix "./test/gtest/gtest".toList :=
    ⟨⟨by decide, by decide⟩, by decide, by decide⟩
  exact buildGtestCommand_starts (bash_strict fun _ => False) s hbinary hstart a hextra (by decide)
    (by decide)

end Gtest
end Rocm
end RocmTests

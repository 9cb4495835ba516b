import RocmTests.Gpu.Detector

/-!
# The order of the KFD nodes

The nodes of the topology are numbered, and their directories are read in the order of the
numbers as text.  Every GPU is to be described by the node at its place in the order of
the numbers.
-/

namespace RocmTests
namespace Gpu
namespace Detection

open Conc Text
open Markers (isSpace strip intOfText)

/-! ## The tree of a machine -/

def gpuIdKey : Txt := "gpu_id".toList

/-- A node by the lines of its `properties`.  The numbers are of 64 bits, which the detector
does not need of `gpu_id`. -/
structure Node where
  items : List (Txt × Int)
  named : ∀ x ∈ items, x.1 ≠ [] ∧ ∀ c ∈ x.1, isSpace c = false
  bounded : ∀ x ∈ items, x.1 ≠ gpuIdKey → x.2.natAbs < 2 ^ 64

namespace Node

def line (x : Txt × Int) : Txt := x.1 ++ ' ' :: showInt x.2

def text (n : Node) : Txt := unlines (n.items.map line)

/-- The last line with a key counts. -/
def value? (n : Node) (key : Txt) : Option Int := n.items.reverse.lookup key

def gpuId (n : Node) : Int := (n.value? gpuIdKey).getD 0

def arch (n : Node) : JsonValue :=
  .str (kfdGfxVersion (((n.value? "gfx_target_version".toList).map showInt).getD unknownArch))

def vramMb (n : Node) : Int := (n.value? "local_mem_size".toList).getD 0 / (1024 * 1024)

def numaNode (n : Node) : Int := (n.value? "numa_node".toList).getD (-1)

def describe (n : Node) (index : Nat) : GpuInfo :=
  { index, arch := n.arch, vramMb := n.vramMb, numaNode := n.numaNode }

end Node

/-- The nodes that are GPUs, in the order given. -/
def described (nodes : List Node) : List GpuInfo :=
  (nodes.filter fun n => n.gpuId ≠ 0).mapIdx fun k n => n.describe k

/-- `env` shows the machine with these nodes, numbered from 0 on.  A directory is listed in
any order. -/
structure Shows (env : Env) (nodes : List Node) : Prop where
  base : env.pathExists .detection kfdBase = .ok true
  listed : ∃ names, names.Perm ((List.range nodes.length).map showNat) ∧
    env.iterdir .detection kfdBase = .ok names
  there : ∀ i < nodes.length, env.pathExists .detection (propFile (showNat i)) = .ok true
  read : ∀ i n, nodes[i]? = some n →
    env.readText .detection (propFile (showNat i)) = .ok n.text
  remote_listed : ∃ names, names.Perm ((List.range nodes.length).map showNat) ∧
    env.command .detection ("ls ".toList ++ kfdBase) = .ok (0, unlines names)
  remote_read : ∀ i n, nodes[i]? = some n →
    env.command .detection
      ("cat ".toList ++ propFile (showNat i) ++ " 2>/dev/null".toList) = .ok (0, n.text)

/-- One GPU of `lspci` with what KFD says of it. -/
def withKfd (g k : GpuInfo) : GpuInfo :=
  { index := g.index
    arch := if isUnknown k.arch then g.arch else k.arch
    vramMb := k.vramMb
    numaNode := if k.numaNode ≠ -1 then k.numaNode else g.numaNode }

/-- On every machine whose nodes have these ids the GPUs are described in the order of the
node numbers, and each is merged with its own description. -/
def FollowsHardware (ids : List Int) : Prop :=
  ∀ nodes env, nodes.map Node.gpuId = ids → Shows env nodes → ∀ d : Detector,
    (detectViaKfd env d).value = .ok (described nodes) ∧
      ∀ gpus, gpus.length = (described nodes).length →
        (enrichViaKfd env d gpus).value = gpus.zipWith withKfd (described nodes)

/-! ## Reading a node -/

theorem isSpace_of_all {t : Txt} (h : (t.all fun c => !isSpace c) = true) :
    ∀ c ∈ t, isSpace c = false := by
  intro c hc
  simpa using List.all_eq_true.mp h c hc

theorem showInt_injective : Function.Injective showInt := by
  intro m n h
  have hread := intOfText_showInt m
  rw [h, intOfText_showInt n] at hread
  exact (Option.some.inj hread).symm

theorem splitOnce_line {x : Txt × Int} (hne : x.1 ≠ []) (hword : ∀ c ∈ x.1, isSpace c = false) :
    splitOnce (Node.line x) = some (x.1, showInt x.2) := by
  have hdrop {t u : Txt} (hne : t ≠ []) (h : ∀ c ∈ t, isSpace c = false) :
      (t ++ u).dropWhile isSpace = t ++ u := by
    cases t with
    | nil => exact absurd rfl hne
    | cons c t =>
      rw [List.cons_append, List.dropWhile_cons_of_neg]
      rw [h c List.mem_cons_self]
      exact Bool.false_ne_true
  have hall : ∀ c ∈ x.1, (!isSpace c) = true := fun c hc => by rw [hword c hc]; rfl
  have hshow : ∀ c ∈ showInt x.2, isSpace c = false := fun c hc => isSpace_of_mem_showInt hc
  have hshow_ne : showInt x.2 ≠ [] := by
    cases x.2 with
    | ofNat n => exact showNat_ne_nil n
    | negSucc n => exact List.cons_ne_nil _ _
  have hblank : isSpace ' ' = true := by decide
  have hrest : (' ' :: showInt x.2).dropWhile isSpace = showInt x.2 := by
    rw [List.dropWhile_cons_of_pos hblank]
    simpa using hdrop (u := []) hshow_ne hshow
  have htake : (x.1 ++ ' ' :: showInt x.2).takeWhile (!isSpace ·) = x.1 := by
    rw [List.takeWhile_append_of_pos hall, List.takeWhile_cons_of_neg, List.append_nil]
    rw [hblank]
    exact Bool.false_ne_true
  have hskip : (x.1 ++ ' ' :: showInt x.2).dropWhile (!isSpace ·) = ' ' :: showInt x.2 := by
    rw [List.dropWhile_append_of_pos hall, List.dropWhile_cons_of_neg]
    rw [hblank]
    exact Bool.false_ne_true
  unfold splitOnce Node.line
  simp only
  rw [hdrop hne hword, htake, hskip, hrest, if_neg (not_or.mpr ⟨hne, hshow_ne⟩)]

theorem isLine_line {x : Txt × Int} (hword : ∀ c ∈ x.1, isSpace c = false) :
    IsLine (Node.line x) := by
  intro c hc
  rcases List.mem_append.mp hc with hc | hc
  · exact isLine_of_isSpace hword c hc
  · rcases List.mem_cons.mp hc with rfl | hc
    · decide
    · exact isLine_of_isSpace (fun c hc => isSpace_of_mem_showInt hc) c hc

/-- The lines of a node are read back. -/
theorem parseProps_text (n : Node) :
    parseProps n.text = .ok (n.items.map fun x => (x.1, showInt x.2)) := by
  have hlines : splitlines n.text = n.items.map Node.line := by
    apply splitlines_unlines
    intro l hl
    obtain ⟨x, hx, rfl⟩ := List.mem_map.mp hl
    exact isLine_line (n.named x hx).2
  have hfilter : ((n.items.map Node.line).filter fun line => ' ' ∈ line) =
      n.items.map Node.line := by
    apply List.filter_eq_self.mpr
    intro l hl
    obtain ⟨x, _, rfl⟩ := List.mem_map.mp hl
    exact decide_eq_true (List.mem_append_right _ List.mem_cons_self)
  unfold parseProps
  rw [hlines, hfilter]
  apply Fallible.mapM_map_ok
  intro x hx
  rw [splitOnce_line (n.named x hx).1 (n.named x hx).2]

theorem lookup_map_snd {α β : Type} (f : α → β) (key : Txt) (xs : List (Txt × α)) :
    (xs.map fun x => (x.1, f x.2)).lookup key = (xs.lookup key).map f := by
  induction xs with
  | nil => rfl
  | cons x xs ih =>
    rw [List.map_cons, List.lookup_cons, List.lookup_cons, ih]
    cases key == x.1 <;> rfl

/-- A property, or the default. -/
theorem getProp_text (n : Node) (key default : Txt) (hdefault : ∀ c ∈ default, isSpace c = false) :
    getProp (n.items.map fun x => (x.1, showInt x.2)) key default =
      ((n.value? key).map showInt).getD default := by
  unfold getProp Node.value?
  rw [← List.map_reverse, lookup_map_snd]
  cases n.items.reverse.lookup key with
  | none => exact strip_eq_self hdefault
  | some v => exact strip_eq_self fun c hc => isSpace_of_mem_showInt hc

theorem intOf_text (n : Node) {key : Txt} (hkey : key ≠ gpuIdKey) {v : Int}
    (hv : v.natAbs < 2 ^ 64) :
    intOf (((n.value? key).map showInt).getD (showInt v)) = .ok ((n.value? key).getD v) := by
  unfold intOf
  cases hvalue : n.value? key with
  | none => rw [Option.map_none, Option.getD_none, parseInt_of_lt hv]; rfl
  | some w =>
    obtain ⟨before, after, hitems, -⟩ := List.lookup_eq_some_iff.mp hvalue
    have hmem : (key, w) ∈ n.items := by
      rw [← List.mem_reverse, hitems]
      exact List.mem_append_right _ List.mem_cons_self
    rw [Option.map_some, Option.getD_some, parseInt_of_lt (n.bounded _ hmem hkey)]
    rfl

/-- What a node adds. -/
theorem addNode_text (gpus : List GpuInfo) (n : Node) :
    addNode gpus n.text =
      .ok (if n.gpuId = 0 then gpus else gpus ++ [n.describe gpus.length]) := by
  have hcpu : getProp (n.items.map fun x => (x.1, showInt x.2)) "gpu_id".toList "0".toList =
      "0".toList ↔ n.gpuId = 0 := by
    rw [getProp_text n _ _ (isSpace_of_all (by decide))]
    show (((n.value? gpuIdKey).map showInt).getD (showInt 0)) = showInt 0 ↔ _
    unfold Node.gpuId
    cases n.value? gpuIdKey with
    | none => simp
    | some v => exact showInt_injective.eq_iff
  unfold addNode
  rw [parseProps_text, Except.bind]
  by_cases hgpu : n.gpuId = 0
  · rw [if_pos (hcpu.mpr hgpu), if_pos hgpu]
  · rw [if_neg (fun h => hgpu (hcpu.mp h)), if_neg hgpu,
      getProp_text n _ _ (isSpace_of_all (by decide)),
      getProp_text n _ _ (isSpace_of_all (by decide)),
      getProp_text n _ _ (isSpace_of_all (by decide))]
    have hmem := @intOf_text n "local_mem_size".toList (by decide) 0 (by decide)
    have hnuma := @intOf_text n "numa_node".toList (by decide) (-1) (by decide)
    have hzero : "0".toList = showInt 0 := rfl
    have hone : "-1".toList = showInt (-1) := rfl
    rw [hzero, hone, hmem, hnuma]
    rfl

/-! ## The nodes one after the other -/

/-- The nodes at some numbers. -/
def nodesAt (nodes : List Node) (order : List Nat) : List Node := order.filterMap (nodes[·]?)

theorem nodesAt_cons {nodes : List Node} {i : Nat} (hi : i < nodes.length) (order : List Nat) :
    nodesAt nodes (i :: order) = nodes[i] :: nodesAt nodes order := by
  unfold nodesAt
  rw [List.filterMap_cons, List.getElem?_eq_getElem hi]

theorem described_concat (nodes : List Node) (n : Node) :
    described (nodes ++ [n]) =
      if n.gpuId = 0 then described nodes
      else described nodes ++ [n.describe (described nodes).length] := by
  unfold described
  rw [List.filter_append, List.length_mapIdx]
  by_cases hgpu : n.gpuId = 0
  · rw [if_pos hgpu, List.filter_cons_of_neg (by simpa using hgpu), List.filter_nil,
      List.append_nil]
  · rw [if_neg hgpu, List.filter_cons_of_pos (by simpa using hgpu), List.filter_nil,
      List.mapIdx_concat]

/-- The order in which the directories of `n` nodes are read. -/
def readOrder (n : Nat) : List Nat := (List.range n).insertionSort fun i j => showNat i ≤ showNat j

theorem showNat_injective : Function.Injective showNat := by
  intro m n h
  exact Int.ofNat.inj (showInt_injective h)

theorem sorted_names {n : Nat} {names : List Txt}
    (h : names.Perm ((List.range n).map showNat)) : sorted names = (readOrder n).map showNat := by
  have hsame : sorted names = sorted ((List.range n).map showNat) := by
    have hperm : (sorted names).Perm (sorted ((List.range n).map showNat)) :=
      (List.perm_insertionSort _ _).trans (h.trans (List.perm_insertionSort _ _).symm)
    exact hperm.eq_of_pairwise' (List.pairwise_insertionSort _ _) (List.pairwise_insertionSort _ _)
  rw [hsame]
  exact (List.map_insertionSort _ _ showNat _ fun _ _ _ _ => Iff.rfl).symm

section

variable {env : Env} {nodes : List Node}

theorem kfdLocalNodes_shows (h : Shows env nodes) {order : List Nat}
    (horder : ∀ i ∈ order, i < nodes.length) : ∀ seen : List Node,
      kfdLocalNodes env (described seen) (order.map showNat) =
        .ok (described (seen ++ nodesAt nodes order)) := by
  induction order with
  | nil =>
    intro seen
    rw [show nodesAt nodes [] = [] from rfl, List.append_nil]
    rfl
  | cons i order ih =>
    intro seen
    have hi := horder i List.mem_cons_self
    have hnode := List.getElem?_eq_getElem hi
    have hrest := ih (fun j hj => horder j (List.mem_cons_of_mem _ hj)) (seen ++ [nodes[i]])
    rw [described_concat, List.append_assoc, List.singleton_append, ← nodesAt_cons hi order]
      at hrest
    rw [List.map_cons, kfdLocalNodes, h.there i hi, Except.bind]
    simp only [if_true]
    rw [h.read i _ hnode, Except.bind, addNode_text, Except.bind]
    exact hrest

theorem kfdRemoteNodes_shows (h : Shows env nodes) {order : List Nat}
    (horder : ∀ i ∈ order, i < nodes.length) : ∀ seen : List Node,
      (kfdRemoteNodes env (described seen) (order.map showNat)).value =
        .ok (described (seen ++ nodesAt nodes order)) := by
  induction order with
  | nil =>
    intro seen
    rw [show nodesAt nodes [] = [] from rfl, List.append_nil]
    rfl
  | cons i order ih =>
    intro seen
    have hi := horder i List.mem_cons_self
    have hnode := List.getElem?_eq_getElem hi
    have hrest := ih (fun j hj => horder j (List.mem_cons_of_mem _ hj)) (seen ++ [nodes[i]])
    rw [described_concat, List.append_assoc, List.singleton_append, ← nodesAt_cons hi order]
      at hrest
    have hcontent : (runCommand env .detection
        ("cat ".toList ++ propFile (showNat i) ++ " 2>/dev/null".toList)).value =
          .ok nodes[i].text := by
      show (env.command _ _).bind _ = _
      rw [h.remote_read i _ hnode]
      rfl
    rw [List.map_cons, kfdRemoteNodes, Traced.value_bind, hcontent]
    by_cases hempty : nodes[i].text = []
    · -- nothing is read of a node without lines, which is none of a GPU
      have hadd := addNode_text (described seen) nodes[i]
      rw [hempty] at hadd
      have hsame : described seen = _ := Except.ok.inj hadd
      rw [← hsame] at hrest
      simp only [hempty, if_true]
      exact hrest
    · simp only [hempty, if_false]
      rw [addNode_text]
      exact hrest

theorem mem_readOrder {n i : Nat} : i ∈ readOrder n ↔ i < n := by
  unfold readOrder
  rw [List.mem_insertionSort, List.mem_range]

/-- Both ways to read the tree end with the nodes in the order of their names. -/
theorem detectViaKfd_shows (h : Shows env nodes) (d : Detector) :
    (detectViaKfd env d).value = .ok (described (nodesAt nodes (readOrder nodes.length))) := by
  have horder : ∀ i ∈ readOrder nodes.length, i < nodes.length := fun i hi => mem_readOrder.mp hi
  unfold detectViaKfd
  cases d.remote with
  | false =>
    obtain ⟨names, hperm, hlisted⟩ := h.listed
    show kfdLocal env = _
    unfold kfdLocal
    rw [h.base, Except.bind]
    simp only [if_true]
    rw [hlisted, Except.bind, sorted_names hperm]
    exact kfdLocalNodes_shows h horder []
  | true =>
    obtain ⟨names, hperm, hlisted⟩ := h.remote_listed
    have hdirs : (runCommand env .detection ("ls ".toList ++ kfdBase)).value =
        .ok (unlines names) := by
      show (env.command _ _).bind _ = _
      rw [hlisted]
      rfl
    have hword : ∀ name ∈ names, name ≠ [] ∧ ∀ c ∈ name, isSpace c = false := by
      intro name hname
      obtain ⟨i, _, rfl⟩ := List.mem_map.mp (hperm.mem_iff.mp hname)
      exact ⟨showNat_ne_nil i, fun c hc => isSpace_of_isDigit (isDigit_of_mem_showNat hc)⟩
    have hnames : ((splitlines (unlines names)).map strip).filter (· ≠ []) = names := by
      rw [splitlines_unlines fun name hname => isLine_of_isSpace (hword name hname).2,
        List.map_congr_left fun name hname => strip_eq_self (hword name hname).2, List.map_id']
      exact List.filter_eq_self.mpr fun name hname => decide_eq_true (hword name hname).1
    rw [if_pos rfl, kfdRemote, Traced.value_bind, hdirs]
    simp only
    rw [hnames, sorted_names hperm]
    exact kfdRemoteNodes_shows h horder []

/-- Where the counts agree the merge is by position. -/
theorem enrichViaKfd_ok {d : Detector} {kfdGpus gpus : List GpuInfo}
    (hkfd : (detectViaKfd env d).value = .ok kfdGpus) (hlength : gpus.length = kfdGpus.length) :
    (enrichViaKfd env d gpus).value = gpus.zipWith withKfd kfdGpus := by
  rw [enrichViaKfd, Traced.value_bind, hkfd]
  by_cases hnone : kfdGpus = []
  · have hgpus : gpus = [] := List.length_eq_zero_iff.mp (by rw [hlength, hnone]; rfl)
    simp only [hnone, true_or, if_true]
    rw [hgpus]
    rfl
  · have huse : ¬ (kfdGpus = [] ∨ kfdGpus.length ≠ gpus.length) :=
      not_or.mpr ⟨hnone, not_not.mpr hlength.symm⟩
    simp only [huse, if_false]
    rfl

end

/-! ## When the order is that of the numbers -/

/-- The numbers of the GPUs, read as text, are in order. -/
def TextOrder (ids : List Int) : Prop :=
  ∀ (i j : Nat) (a b : Int), i < j → ids[i]? = some a → ids[j]? = some b → a ≠ 0 → b ≠ 0 →
    showNat i ≤ showNat j

def IsGpuAt (ids : List Int) (i : Nat) : Prop := ids[i]?.getD 0 ≠ 0

instance instDecidableIsGpuAt {ids : List Int} {i : Nat} : Decidable (IsGpuAt ids i) :=
  inferInstanceAs (Decidable (_ ≠ _))

theorem getElem?_of_isGpuAt {ids : List Int} {i : Nat} (h : IsGpuAt ids i) :
    ∃ a, ids[i]? = some a ∧ a ≠ 0 := by
  unfold IsGpuAt at h
  cases hid : ids[i]? with
  | none => rw [hid] at h; exact absurd rfl h
  | some a => rw [hid] at h; exact ⟨a, rfl, h⟩

/-- The numbers of the GPUs in the order in which they are read. -/
def gpuOrder (ids : List Int) : List Nat := (readOrder ids.length).filter (IsGpuAt ids ·)

theorem pairwise_gpuOrder (ids : List Int) :
    (gpuOrder ids).Pairwise fun i j => showNat i ≤ showNat j :=
  (List.pairwise_insertionSort (fun i j => showNat i ≤ showNat j) _).filter _

theorem filter_nodesAt (nodes : List Node) (order : List Nat) :
    (nodesAt nodes order).filter (fun n => n.gpuId ≠ 0) =
      nodesAt nodes (order.filter (IsGpuAt (nodes.map Node.gpuId) ·)) := by
  unfold nodesAt
  rw [List.filter_filterMap, List.filterMap_filter]
  refine List.filterMap_congr fun i _ => ?_
  have hid : IsGpuAt (nodes.map Node.gpuId) i ↔ (nodes[i]?.map Node.gpuId).getD 0 ≠ 0 := by
    unfold IsGpuAt
    rw [List.getElem?_map]
  cases hnode : nodes[i]? with
  | none => simp
  | some n =>
    rw [hnode] at hid
    simp only [hid, Option.map_some, Option.getD_some]
    by_cases hgpu : n.gpuId = 0
    · simp [hgpu]
    · simp [hgpu]

theorem nodesAt_range (nodes : List Node) : nodesAt nodes (List.range nodes.length) = nodes := by
  unfold nodesAt
  induction nodes using List.reverseRecOn with
  | nil => rfl
  | append_singleton nodes n ih =>
    rw [List.length_append, List.length_singleton, List.range_succ, List.filterMap_append]
    have hbefore : (List.range nodes.length).filterMap ((nodes ++ [n])[·]?) =
        (List.range nodes.length).filterMap (nodes[·]?) :=
      List.filterMap_congr fun i hi => List.getElem?_append_left (List.mem_range.mp hi)
    rw [hbefore, ih]
    simp

/-- Where the numbers are in order as text, the nodes are read in their order. -/
theorem followsHardware_of_textOrder {ids : List Int} (h : TextOrder ids) :
    FollowsHardware ids := by
  intro nodes env hids hshows d
  have hrange : (List.range ids.length).filter (IsGpuAt ids ·) = gpuOrder ids := by
    refine @List.Perm.eq_of_pairwise _ (fun i j => showNat i ≤ showNat j) _ _ ?_ ?_
      (pairwise_gpuOrder ids) ((List.perm_insertionSort _ _).symm.filter _)
    · exact fun i j _ _ hij hji => showNat_injective (le_antisymm hij hji)
    · refine (List.pairwise_lt_range.filter _).imp_of_mem ?_
      intro i j hi hj hlt
      obtain ⟨a, ha, hane⟩ := getElem?_of_isGpuAt (of_decide_eq_true (List.mem_filter.mp hi).2)
      obtain ⟨b, hb, hbne⟩ := getElem?_of_isGpuAt (of_decide_eq_true (List.mem_filter.mp hj).2)
      exact h i j a b hlt ha hb hane hbne
  have hsame : described (nodesAt nodes (readOrder nodes.length)) = described nodes := by
    have hlength : nodes.length = ids.length := by rw [← hids, List.length_map]
    have hread := filter_nodesAt nodes (readOrder nodes.length)
    have hnumbers := filter_nodesAt nodes (List.range nodes.length)
    rw [nodesAt_range] at hnumbers
    unfold described
    rw [hread, hnumbers, hids, hlength, hrange]
    rfl
  have hkfd := detectViaKfd_shows hshows d
  rw [hsame] at hkfd
  exact ⟨hkfd, fun gpus hlength => enrichViaKfd_ok hkfd hlength⟩

/-! ## A machine that shows the order -/

/-- The tree of a machine. -/
def treeOf (nodes : List Node) : Env :=
  let names := (List.range nodes.length).map showNat
  let content := fun (file : Txt → Txt) (asked : Txt) =>
    (((List.range nodes.length).find? fun i => file (showNat i) = asked).bind (nodes[·]?)).map
      Node.text
  { command := fun _ cmd =>
      if cmd = "ls ".toList ++ kfdBase then .ok (0, unlines names)
      else
        ((content (fun name => "cat ".toList ++ propFile name ++ " 2>/dev/null".toList) cmd).map
          fun text => .ok (0, text)).getD (.error .runtimeError)
    pathExists := fun _ _ => .ok true
    iterdir := fun _ _ => .ok names
    readText := fun _ path => ((content propFile path).map .ok).getD (.error .osError) }

theorem find?_number {file : Txt → Txt} (hfile : Function.Injective file) {n i : Nat} (hi : i < n) :
    ((List.range n).find? fun j => file (showNat j) = file (showNat i)) = some i := by
  rw [List.find?_range_eq_some]
  refine ⟨decide_eq_true rfl, List.mem_range.mpr hi, fun j hj => ?_⟩
  have hne : file (showNat j) ≠ file (showNat i) :=
    fun h => Nat.ne_of_lt hj (showNat_injective (hfile h))
  simpa using hne

theorem shows_treeOf (nodes : List Node) : Shows (treeOf nodes) nodes := by
  have hprop : Function.Injective propFile := by
    intro a b h
    unfold propFile at h
    rw [List.append_assoc, List.append_assoc] at h
    exact List.append_cancel_right (List.cons.inj (List.append_cancel_left h)).2
  have hcat : Function.Injective fun name =>
      "cat ".toList ++ propFile name ++ " 2>/dev/null".toList := by
    intro a b h
    exact hprop (List.append_cancel_left (List.append_cancel_right h))
  refine ⟨rfl, ⟨_, List.Perm.refl _, rfl⟩, fun _ _ => rfl, ?_, ?_, ?_⟩
  · intro i n hn
    have hi := (List.getElem?_eq_some_iff.mp hn).1
    simp only [treeOf]
    rw [find?_number hprop hi, Option.bind_some, hn]
    rfl
  · refine ⟨_, List.Perm.refl _, ?_⟩
    simp only [treeOf]
    rw [if_pos trivial]
  · intro i n hn
    have hi := (List.getElem?_eq_some_iff.mp hn).1
    have hls : "cat ".toList ++ propFile (showNat i) ++ " 2>/dev/null".toList ≠
        "ls ".toList ++ kfdBase := by
      intro h
      have hhead : some 'c' = some 'l' := congrArg List.head? h
      exact absurd hhead (by decide)
    simp only [treeOf]
    rw [if_neg hls, find?_number hcat hi, Option.bind_some, hn]
    rfl

/-- A node with an id, and memory from number `j` on. -/
def markedNode (j i : Nat) (id : Int) : Node where
  items := [(gpuIdKey, id), ("local_mem_size".toList, if i < j then 0 else 1048576)]
  named := by
    intro x hx
    rcases List.mem_cons.mp hx with rfl | hx
    · exact ⟨List.cons_ne_nil _ _, isSpace_of_all rfl⟩
    · rw [List.mem_singleton.mp hx]
      exact ⟨List.cons_ne_nil _ _, isSpace_of_all rfl⟩
  bounded := by
    intro x hx hkey
    rcases List.mem_cons.mp hx with rfl | hx
    · exact absurd rfl hkey
    · rw [List.mem_singleton.mp hx]
      simp only
      split_ifs <;> decide

theorem vramMb_markedNode (j i : Nat) (id : Int) :
    (markedNode j i id).vramMb = if i < j then 0 else 1 := by
  show (if i < j then (0 : Int) else 1048576) / (1024 * 1024) = _
  split_ifs <;> rfl

theorem map_vramMb_described (nodes : List Node) :
    (described nodes).map GpuInfo.vramMb =
      (nodes.filter fun n => n.gpuId ≠ 0).map Node.vramMb := by
  unfold described
  generalize nodes.filter (fun n => n.gpuId ≠ 0) = gpus
  induction gpus using List.reverseRecOn with
  | nil => rfl
  | append_singleton gpus n ih =>
    rw [List.mapIdx_concat, List.map_append, List.map_append, ih]
    rfl

/-- In a sorted list one of two elements comes first. -/
theorem rel_or_rel {α : Type} {r : α → α → Prop} {xs : List α} (h : xs.Pairwise r) {x y : α}
    (hx : x ∈ xs) (hy : y ∈ xs) (hne : x ≠ y) : r x y ∨ r y x := by
  have hsymm : Std.Symm fun x y => r x y ∨ r y x := ⟨fun _ _ => Or.symm⟩
  exact (h.imp (S := fun x y => r x y ∨ r y x) Or.inl).forall hx hy hne

theorem textOrder_of_followsHardware {ids : List Int} (h : FollowsHardware ids) :
    TextOrder ids := by
  intro i j a b hlt ha hb hane hbne
  let nodes := ids.mapIdx (markedNode j)
  have hids : nodes.map Node.gpuId = ids := by
    apply List.ext_getElem?
    intro k
    rw [List.getElem?_map, List.getElem?_mapIdx, Option.map_map]
    exact Option.map_id'
  have hmark : ∀ order : List Nat, (∀ k ∈ order, k < ids.length) →
      (nodesAt nodes order).map Node.vramMb = order.map fun k => if k < j then 0 else 1 := by
    intro order horder
    unfold nodesAt
    rw [List.map_filterMap, ← List.filterMap_eq_map']
    refine List.filterMap_congr fun k hk => ?_
    have hk' := List.getElem?_eq_getElem (horder k hk)
    rw [List.getElem?_mapIdx, hk', Option.map_some, Option.map_some, vramMb_markedNode]
  have hlength : nodes.length = ids.length := List.length_mapIdx
  have hvram : (gpuOrder ids).map (fun k => if k < j then (0 : Int) else 1) =
      ((List.range ids.length).filter (IsGpuAt ids ·)).map fun k =>
        if k < j then (0 : Int) else 1 := by
    have hshows := shows_treeOf nodes
    have hread := detectViaKfd_shows hshows (Detector.init [] false)
    rw [(h nodes _ hids hshows (Detector.init [] false)).1] at hread
    have hmap := congrArg (List.map GpuInfo.vramMb) (Except.ok.inj hread)
    have hrange := filter_nodesAt nodes (List.range nodes.length)
    rw [nodesAt_range] at hrange
    rw [map_vramMb_described, map_vramMb_described, filter_nodesAt, hrange, hids, hlength] at hmap
    rw [hmark, hmark] at hmap
    · exact hmap.symm
    · exact fun k hk => mem_readOrder.mp (List.mem_filter.mp hk).1
    · exact fun k hk => List.mem_range.mp (List.mem_filter.mp hk).1
  -- the marks of the nodes grow with their numbers
  have hmarks : (gpuOrder ids).Pairwise fun k l =>
      (if k < j then (0 : Int) else 1) ≤ if l < j then 0 else 1 := by
    rw [← List.pairwise_map (R := (· ≤ ·)), hvram, List.pairwise_map]
    refine (List.pairwise_lt_range.filter _).imp ?_
    intro k l hkl
    split_ifs <;> omega
  have hmem : ∀ {k : Nat} {c : Int}, ids[k]? = some c → c ≠ 0 → k ∈ gpuOrder ids := by
    intro k c hc hne
    have hgpu : IsGpuAt ids k := by
      unfold IsGpuAt
      rw [hc]
      exact hne
    exact List.mem_filter.mpr
      ⟨mem_readOrder.mpr (List.getElem?_eq_some_iff.mp hc).1, decide_eq_true hgpu⟩
  rcases rel_or_rel ((pairwise_gpuOrder ids).and hmarks) (hmem ha hane) (hmem hb hbne)
    (Nat.ne_of_lt hlt) with hfirst | hfirst
  · exact hfirst.1
  · have hle := hfirst.2
    rw [if_neg (Nat.lt_irrefl j), if_pos hlt] at hle
    exact absurd hle (by decide)

/-- The enumeration follows the hardware exactly on the machines whose GPUs have numbers
that are in order as text. -/
theorem followsHardware_iff (ids : List Int) : FollowsHardware ids ↔ TextOrder ids :=
  ⟨textOrder_of_followsHardware, followsHardware_of_textOrder⟩

/-- Of two GPUs at the numbers 2 and 10, the second is described first. -/
theorem eleventh_node_first : ¬ FollowsHardware [0, 0, 1, 0, 0, 0, 0, 0, 0, 0, 1] := by
  intro h
  have hle := textOrder_of_followsHardware h 2 10 1 1 (by decide) rfl rfl (by decide) (by decide)
  exact absurd hle (by decide)

end Detection
end Gpu
end RocmTests

import RocmTests.Collections.StableSort
import RocmTests.Scheduling.Screening
import RocmTests.Text.Find

/-!
# The order and the groups of a scheduled list

A group's name ends in the running number of its kind, after the last underscore,
and the kinds begin differently.  So two groups with one name would be of one kind
with one number, and the loop gives no number twice.
-/

namespace RocmTests
namespace Scheduling

open Conc Markers Text

/-- Pinned, multinode or with more than one GPU. -/
def MultiResource (item : Item) : Prop :=
  item.indexArg.isSome = true ∨ isMultinode item = true ∨ ∃ n, multiGpuCount item = .ok n ∧ 0 < n

/-- Which item comes first where the keys of the two differ is not the same under
the two policies. -/
def Opposite (a b : Item) : Prop :=
  ∃ ka kb la lb, resourceSortKeyMost a = .ok ka ∧ resourceSortKeyMost b = .ok kb ∧
    resourceSortKeyLeast a = .ok la ∧ resourceSortKeyLeast b = .ok lb ∧
    (ka = kb ↔ la = lb) ∧ (ka ≠ kb → (keyLe ka kb = true ↔ keyLe la lb = false))

/-- What `schedule` should leave. -/
structure Ordered (policy : SchedulePolicy) (items : List Item)
    (result : List ((Int × Int) × Scheduled)) : Prop where
  keys : ∀ x ∈ result, policy.key x.2.item = .ok x.1
  perm : (result.map fun x => x.2.item).Perm items
  sorted : result.Pairwise fun x y => keyLe x.1 y.1 = true
  stable : ∀ key, (result.filter fun x => decide (x.1 = key)).map (fun x => x.2.item) =
    items.filter fun item => decide (policy.key item = .ok key)
  grouped : ∀ x ∈ result, x.2.group.isSome = true ↔ MultiResource x.2.item
  names : ((result.filterMap fun x => x.2.group).map Group.name).Nodup
  opposite : ∀ a ∈ items, ∀ b ∈ items, Opposite a b

/-! ## The two keys -/

/-- The one policy's key from the other's. -/
def mirror (key : Int × Int) : Int × Int := (2 - key.1, -key.2)

theorem resourceSortKeyLeast_eq (item : Item) :
    resourceSortKeyLeast item = (resourceSortKeyMost item).map mirror := by
  unfold resourceSortKeyLeast resourceSortKeyMost
  cases isMultinode item with
  | true => rfl
  | false =>
    simp only [Bool.false_eq_true, if_false]
    by_cases hk : 0 < gpuIndicesCount item
    · simp [hk, Except.map, mirror]
    · rw [if_neg hk, if_neg hk]
      cases multiGpuCount item with
      | error e => rfl
      | ok n =>
        by_cases hn : 0 < n
        · simp [hn, Except.map, mirror]
        · simp [hn, Except.map, mirror]

theorem keyLe_iff {a b : Int × Int} : keyLe a b = true ↔ a.1 < b.1 ∨ a.1 = b.1 ∧ a.2 ≤ b.2 := by
  simp [keyLe]

theorem keyLe_trans (a b c : Int × Int) (hab : keyLe a b = true) (hbc : keyLe b c = true) :
    keyLe a c = true := by
  rw [keyLe_iff] at hab hbc ⊢
  omega

theorem keyLe_total (a b : Int × Int) : (keyLe a b || keyLe b a) = true := by
  rw [Bool.or_eq_true, keyLe_iff, keyLe_iff]
  omega

theorem mirror_eq_iff {a b : Int × Int} : mirror a = mirror b ↔ a = b := by
  rw [Prod.ext_iff, Prod.ext_iff]
  unfold mirror
  omega

theorem keyLe_mirror {a b : Int × Int} (h : a ≠ b) :
    keyLe a b = true ↔ keyLe (mirror a) (mirror b) = false := by
  rw [Ne, Prod.ext_iff] at h
  rw [← Bool.not_eq_true, keyLe_iff, keyLe_iff]
  unfold mirror
  omega

theorem opposite_of_not_refused {a b : Item} (ha : ¬ Refused a) (hb : ¬ Refused b) :
    Opposite a b := by
  obtain ⟨ka, hka⟩ := key_ok .resourceMost ha
  obtain ⟨kb, hkb⟩ := key_ok .resourceMost hb
  have hmost : resourceSortKeyMost a = .ok ka ∧ resourceSortKeyMost b = .ok kb := ⟨hka, hkb⟩
  refine ⟨ka, kb, mirror ka, mirror kb, hmost.1, hmost.2, ?_, ?_, mirror_eq_iff.symm, keyLe_mirror⟩
  · rw [resourceSortKeyLeast_eq, hmost.1]
    rfl
  · rw [resourceSortKeyLeast_eq, hmost.2]
    rfl

/-! ## The names -/

namespace Group

inductive Kind where
  | gpuIndices
  | multinode
  | multiGpu
deriving DecidableEq

def kind : Group → Kind
  | .gpuIndices _ _ => .gpuIndices
  | .multinode _ => .multinode
  | .multiGpu _ _ => .multiGpu

def number : Group → Nat
  | .gpuIndices _ n => n
  | .multinode n => n
  | .multiGpu _ n => n

/-- The name before its last underscore. -/
def stem : Group → Txt
  | .gpuIndices sorted _ => "gpu_indices_".toList ++ ("_".intercalate (sorted.map Int.repr)).toList
  | .multinode _ => "multinode".toList
  | .multiGpu count _ => "multi_gpu_".toList ++ (Int.repr count).toList

/-- How the names of a kind begin. -/
def Kind.mark : Kind → Txt
  | .gpuIndices => ['g', 'p', 'u', '_', 'i', 'n']
  | .multinode => ['m', 'u', 'l', 't', 'i', 'n']
  | .multiGpu => ['m', 'u', 'l', 't', 'i', '_']

theorem Kind.mark_injective {j k : Kind} (h : j.mark = k.mark) : j = k := by
  cases j <;> cases k <;> first | rfl | exact absurd h (by decide)

theorem take_stem (g : Group) : g.stem.take 6 = g.kind.mark := by
  cases g with
  | gpuIndices sorted n => rfl
  | multinode n => rfl
  | multiGpu count n => rfl

theorem repr_toList (n : Nat) : (Nat.repr n).toList = Nat.toDigits 10 n := String.toList_ofList

theorem append_underscore (s : String) (n : Nat) :
    (s ++ "_" ++ Nat.repr n).toList = s.toList ++ '_' :: Nat.toDigits 10 n := by
  have hunderscore : "_".toList = ['_'] := rfl
  rw [String.toList_append, String.toList_append, repr_toList, hunderscore, List.append_assoc,
    List.singleton_append]

theorem name_toList (g : Group) : g.name.toList = g.stem ++ '_' :: Nat.toDigits 10 g.number := by
  cases g with
  | gpuIndices sorted n =>
    show (_ ++ "_" ++ Nat.repr n).toList = _
    rw [append_underscore, String.toList_append]
    rfl
  | multinode n =>
    have hname : "multinode_" = "multinode" ++ "_" := rfl
    show ("multinode_" ++ Nat.repr n).toList = _
    rw [hname, append_underscore]
    rfl
  | multiGpu count n =>
    show (_ ++ "_" ++ Nat.repr n).toList = _
    rw [append_underscore, String.toList_append]
    rfl

theorem not_mem_toDigits (n : Nat) : '_' ∉ Nat.toDigits 10 n := by
  intro hmem
  have hdigit := Nat.isDigit_of_mem_toDigits (by decide) (by decide) hmem
  exact absurd hdigit (by decide)

theorem toDigits_injective {m n : Nat} (h : Nat.toDigits 10 m = Nat.toDigits 10 n) : m = n := by
  have hread := congrArg (fun ds => Nat.ofDigitChars 10 ds 0) h
  simpa [Nat.ofDigitChars_ten_toDigits] using hread

/-- The name tells the kind and the number. -/
theorem eq_of_name_eq {a b : Group} (h : a.name = b.name) :
    a.kind = b.kind ∧ a.number = b.number := by
  have hsplit : ∀ g : Group, partition g.name.toList.reverse '_' =
      ((Nat.toDigits 10 g.number).reverse, g.stem.reverse) := by
    intro g
    rw [name_toList, List.reverse_append, List.reverse_cons, List.append_assoc,
      List.singleton_append]
    exact partition_append_cons (fun hmem => not_mem_toDigits _ (List.mem_reverse.mp hmem)) _
  have hboth := hsplit a
  rw [h, hsplit b] at hboth
  obtain ⟨hdigits, hstem⟩ := Prod.mk.inj hboth
  constructor
  · apply Kind.mark_injective
    rw [← take_stem, ← take_stem, List.reverse_injective hstem]
  · exact toDigits_injective (List.reverse_injective hdigits.symm)

end Group

/-! ## The numbers -/

/-- The next number of a kind. -/
def GroupCounters.of (c : GroupCounters) : Group.Kind → Nat
  | .gpuIndices => c.gpuIndicesIdx
  | .multinode => c.multiNodeIdx
  | .multiGpu => c.multiGpuIdx

section

variable {c c' : GroupCounters} {item : Item} {g : Option Group}

/-- One turn of the loop gives out the next number of a kind, or none. -/
theorem assignGroup_counts (h : assignGroup c item = .ok (g, c')) :
    g = none ∧ c' = c ∨ ∃ x, g = some x ∧ x.number = c.of x.kind ∧
      ∀ k, c'.of k = if k = x.kind then c.of k + 1 else c.of k := by
  cases hidx : item.indexArg with
  | some arg =>
    obtain ⟨i, indices, rfl, rfl⟩ := assignGroup_pinned hidx h
    simp only [assignGroup, hidx] at h
    split at h
    · cases h
    · split at h
      · cases h
      · cases h
        exact Or.inr ⟨_, rfl, rfl, fun k => by cases k <;> rfl⟩
  | none =>
    cases hnode : isMultinode item with
    | true =>
      simp only [assignGroup, hidx, hnode, if_true] at h
      cases h
      exact Or.inr ⟨_, rfl, rfl, fun k => by cases k <;> rfl⟩
    | false =>
      obtain ⟨n, hn, rfl⟩ := assignGroup_counted hidx hnode h
      simp only [assignGroup, hidx, hnode, hn, Bool.false_eq_true, if_false] at h
      by_cases hpos : 0 < n
      · rw [if_pos hpos, if_pos hpos] at h
        cases h
        rw [if_pos hpos]
        exact Or.inr ⟨_, rfl, rfl, fun k => by cases k <;> rfl⟩
      · rw [if_neg hpos, if_neg hpos] at h
        cases h
        exact Or.inl ⟨if_neg hpos, rfl⟩

theorem assignGroup_isSome (h : assignGroup c item = .ok (g, c')) :
    g.isSome = true ↔ MultiResource item := by
  cases hidx : item.indexArg with
  | some arg =>
    obtain ⟨i, indices, _, rfl⟩ := assignGroup_pinned hidx h
    exact iff_of_true rfl (Or.inl (by rw [hidx]; rfl))
  | none =>
    cases hnode : isMultinode item with
    | true =>
      rw [assignGroup_multinode hidx hnode h]
      exact iff_of_true rfl (Or.inr (Or.inl hnode))
    | false =>
      obtain ⟨n, hn, rfl⟩ := assignGroup_counted hidx hnode h
      have hcounted : MultiResource item ↔ 0 < n := by
        simp [MultiResource, hidx, hnode, hn]
      rw [hcounted]
      by_cases hpos : 0 < n
      · rw [if_pos hpos]
        exact iff_of_true rfl hpos
      · rw [if_neg hpos]
        exact iff_of_false Bool.false_ne_true hpos

end

/-- The groups of a list have different kinds or different numbers, none below the
counters it began with. -/
theorem assignXdistGroups_numbers : ∀ {items : List Item} {c : GroupCounters} {xs : List Scheduled},
    assignXdistGroups c items = .ok xs →
      ((xs.filterMap Scheduled.group).Pairwise fun a b =>
        ¬ (a.kind = b.kind ∧ a.number = b.number)) ∧
      ∀ a ∈ xs.filterMap Scheduled.group, c.of a.kind ≤ a.number := by
  intro items
  induction items with
  | nil =>
    intro c xs h
    cases h
    exact ⟨.nil, fun _ ha => absurd ha List.not_mem_nil⟩
  | cons item items ih =>
    intro c xs h
    obtain ⟨⟨g, c'⟩, hx, h⟩ := Fallible.bind_eq_ok.mp h
    obtain ⟨rest, hrest, h⟩ := Fallible.bind_eq_ok.mp h
    cases h
    obtain ⟨hpair, hlow⟩ := ih hrest
    rcases assignGroup_counts hx with ⟨rfl, rfl⟩ | ⟨x, rfl, hnumber, hnext⟩
    · exact ⟨hpair, hlow⟩
    · have hcons : (⟨item, some x⟩ :: rest : List Scheduled).filterMap Scheduled.group =
          x :: rest.filterMap Scheduled.group := rfl
      have hstep : ∀ k, c.of k ≤ c'.of k ∧ c.of x.kind < c'.of x.kind := by
        intro k
        rw [hnext k, hnext x.kind, if_pos rfl]
        constructor
        · split <;> omega
        · omega
      rw [hcons, List.pairwise_cons, List.forall_mem_cons]
      refine ⟨⟨fun a ha hsame => ?_, hpair⟩, le_of_eq hnumber.symm, fun a ha => ?_⟩
      · have hle : c'.of x.kind ≤ c.of x.kind := by
          rw [← hnumber, hsame.1, hsame.2]
          exact hlow a ha
        have hlt := (hstep x.kind).2
        omega
      · exact (hstep a.kind).1.trans (hlow a ha)

/-! ## The list as a whole -/

theorem keyed_filter {policy : SchedulePolicy} {grouped : List Scheduled}
    {keyed : List ((Int × Int) × Scheduled)} (h : grouped.mapM (withKey policy) = .ok keyed)
    (key : Int × Int) :
    (keyed.filter fun x => decide (x.1 = key)).map (fun x => x.2.item) =
      (grouped.map Scheduled.item).filter fun item => decide (policy.key item = .ok key) := by
  have hall := Fallible.forall₂_of_mapM h
  clear h
  induction hall with
  | nil => rfl
  | @cons x y xs ys hxy _ ih =>
    obtain ⟨hkey, heq⟩ := withKey_eq hxy
    have hiff : decide (policy.key x.item = .ok key) = decide (y.1 = key) := by
      rw [hkey]
      exact decide_eq_decide.mpr ⟨fun h => Except.ok.inj h, fun h => congrArg _ h⟩
    rw [List.map_cons, List.filter_cons, List.filter_cons, hiff]
    by_cases hk : y.1 = key
    · rw [if_pos (decide_eq_true hk), if_pos (decide_eq_true hk), List.map_cons, ih, heq]
    · rw [if_neg (by simpa using hk), if_neg (by simpa using hk), ih]

theorem schedule_ordered {policy : SchedulePolicy} {items : List Item}
    {result : List ((Int × Int) × Scheduled)} (h : schedule policy items = .ok result) :
    Ordered policy items result := by
  obtain ⟨keyed, hgrouped, hkeyed, rfl⟩ := schedule_eq_ok h
  have hitems := assignXdistGroups_items hgrouped
  rw [List.map_map] at hitems
  refine ⟨?_, ?_, ?_, ?_, ?_, ?_, ?_⟩
  · exact fun x hx => (schedule_mem h hx).2.1
  · rw [← hitems]
    exact (List.mergeSort_perm keyed _).map _
  · exact List.pairwise_mergeSort (fun a b c => keyLe_trans a.1 b.1 c.1)
      (fun a b => keyLe_total a.1 b.1) keyed
  · intro key
    rw [Collections.filter_mergeSort (fun a b c => keyLe_trans a.1 b.1 c.1)
      (fun a b => keyLe_total a.1 b.1), keyed_filter hkeyed, assignXdistGroups_items hgrouped]
    intro a b ha hb
    rw [of_decide_eq_true ha, of_decide_eq_true hb, keyLe_iff]
    omega
  · intro x hx
    obtain ⟨_, _, c, c', hgroup⟩ := schedule_mem h hx
    exact assignGroup_isSome hgroup
  · have hpair := (assignXdistGroups_numbers hgrouped).1
    rw [List.filterMap_map] at hpair
    have hnames : ((keyed.filterMap fun x => x.2.group).map Group.name).Nodup := by
      rw [List.Nodup, List.pairwise_map]
      exact hpair.imp fun hne heq => hne (Group.eq_of_name_eq heq)
    exact (((List.mergeSort_perm keyed _).filterMap _).map _).nodup_iff.mpr hnames
  · intro a ha b hb
    have hok := (schedule_ok_iff _).mp ⟨_, h⟩
    exact opposite_of_not_refused (hok a ha) (hok b hb)

/-- A test without marks, one pinned to two GPUs and one over several nodes. -/
def plainItem : Item := ⟨"tests/test_hip.py::test_stream", []⟩

def pinnedItem : Item := ⟨"tests/test_rccl.py::test_ring", [.gpuIndices [.list [2, 0]]]⟩

def multinodeItem : Item := ⟨"tests/test_rccl.py::test_nodes", [.e2eMultinode]⟩

def mixedKeyed : List ((Int × Int) × Scheduled) :=
  [((2, 0), ⟨plainItem, none⟩), ((1, -2), ⟨pinnedItem, some (.gpuIndices [0, 2] 0)⟩),
    ((0, 0), ⟨multinodeItem, some (.multinode 0)⟩)]

theorem schedule_mixed :
    schedule .resourceMost [plainItem, pinnedItem, multinodeItem] = .ok mixedKeyed.reverse := by
  have hindices : sortedIndices [2, 0] = [0, 2] := by
    simp [sortedIndices, List.mergeSort, List.MergeSort.Internal.splitInTwo]
  have hgrouped : assignXdistGroups {} [plainItem, pinnedItem, multinodeItem] =
      .ok [⟨plainItem, none⟩, ⟨pinnedItem, some (.gpuIndices (sortedIndices [2, 0]) 0)⟩,
        ⟨multinodeItem, some (.multinode 0)⟩] := rfl
  rw [hindices] at hgrouped
  have hsorted : mixedKeyed.mergeSort (fun a b => keyLe a.1 b.1) = mixedKeyed.reverse := by
    simp [mixedKeyed, List.mergeSort, List.MergeSort.Internal.splitInTwo, keyLe]
  unfold schedule
  refine Fallible.bind_eq_ok.mpr ⟨_, hgrouped, Fallible.bind_eq_ok.mpr ⟨mixedKeyed, rfl, ?_⟩⟩
  show Except.bind (List.mapM _ (List.mergeSort _ _)) _ = _
  rw [hsorted]
  rfl

theorem schedule_ordered_mixed :
    Ordered .resourceMost [plainItem, pinnedItem, multinodeItem] mixedKeyed.reverse :=
  schedule_ordered schedule_mixed

end Scheduling
end RocmTests

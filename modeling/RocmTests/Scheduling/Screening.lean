import RocmTests.Scheduling.DynamicScheduler

/-!
# Which combinations of markers does the scheduler refuse?

An item with `gpu_indices` passes four guards.  Each looks a marker up by its
name, and the guard against `hw.multi_gpu` asks for `multi_gpu`, a name that no
test carries.  A `gpu_indices` without arguments passes no guard at all.
-/

namespace RocmTests
namespace Scheduling

open Conc Markers

/-- The combinations of markers that the guards are there for. -/
structure Excluded (item : Item) : Prop where
  pinned : item.gpuIndicesMarker.isSome = true
  conflict : item.gpuCountMarker.isSome = true ∨ item.isMultiGpu = true ∨
    (∃ i, item.indexArg = some (.int i)) ∨ item.indexArg = some (.list [])

/-- The items that make `schedule` stop. -/
inductive Refused (item : Item) : Prop where
  | withCount {arg : IndexArg} (hidx : item.indexArg = some arg)
      (hcount : item.gpuCountMarker.isSome = true)
  | withMultiGpu {arg : IndexArg} (hidx : item.indexArg = some arg)
      (hmark : .multiGpu ∈ item.markers)
  | bare {i : Int} (hidx : item.indexArg = some (.int i))
  | empty (hidx : item.indexArg = some (.list []))
  | badCount {e : GpuCountError} (hidx : item.indexArg = none)
      (hnode : isMultinode item = false) (hcount : item.askedCount = .error e)

/-- The items that should have been refused and are not among the refused:
`gpu_indices` with `hw.multi_gpu`, or without arguments and with `gpu_count`. -/
structure Missed (item : Item) : Prop where
  pinned : item.gpuIndicesMarker.isSome = true
  unseen : item.isMultiGpu = true ∨ item.indexArg = none ∧ item.gpuCountMarker.isSome = true

/-- `schedule` fails, or leaves no excluded combination in the list. -/
def Screens (policy : SchedulePolicy) (items : List Item) : Prop :=
  ∀ result, schedule policy items = .ok result → ∀ x ∈ result, ¬ Excluded x.2.item

/-! ## What is refused -/

section

variable {policy : SchedulePolicy} {item : Item} {c : GroupCounters}

theorem askedCount_of_no_marker (h : item.gpuCountMarker = none) : item.askedCount = .ok none := by
  unfold Item.askedCount
  rw [h]

theorem multiGpuCount_ok {asked : Option GpuCount} (h : item.askedCount = .ok asked) :
    ∃ n, multiGpuCount item = .ok n := by
  unfold multiGpuCount
  rw [h]
  cases asked with
  | none =>
    cases item.isMultiGpu with
    | true => exact ⟨2, rfl⟩
    | false => exact ⟨0, rfl⟩
  | some value =>
    cases value with
    | all => exact ⟨allSortWeight, rfl⟩
    | count n =>
      by_cases hn : 1 < n
      · exact ⟨n, if_pos hn⟩
      · cases item.isMultiGpu with
        | true => exact ⟨2, if_neg hn⟩
        | false => exact ⟨0, if_neg hn⟩

theorem multiGpuCount_error {e : GpuCountError} (h : item.askedCount = .error e) :
    multiGpuCount item = .error e := by
  unfold multiGpuCount
  rw [h]

/-- A refused item stops the loop whatever the counters are. -/
theorem assignGroup_refused (h : Refused item) : ∃ e, assignGroup c item = .error e := by
  have hguards : ∀ {arg : IndexArg}, item.indexArg = some arg →
      (item.gpuCountMarker.isSome = true ∨ .multiGpu ∈ item.markers ∨
        (∃ i, arg = .int i) ∨ arg = .list []) → ∃ e, assignGroup c item = .error e := by
    intro arg hidx h
    unfold assignGroup
    rw [hidx]
    by_cases hcount : item.gpuCountMarker.isSome = true
    · exact ⟨_, if_pos hcount⟩
    · by_cases hmark : .multiGpu ∈ item.markers
      · exact ⟨_, (if_neg hcount).trans (if_pos hmark)⟩
      · simp only [if_neg hcount, if_neg hmark]
        rcases h with h | h | ⟨i, rfl⟩ | rfl
        · exact absurd h hcount
        · exact absurd h hmark
        · exact ⟨_, rfl⟩
        · exact ⟨_, rfl⟩
  cases h with
  | withCount hidx hcount => exact hguards hidx (Or.inl hcount)
  | withMultiGpu hidx hmark => exact hguards hidx (Or.inr (Or.inl hmark))
  | bare hidx => exact hguards hidx (Or.inr (Or.inr (Or.inl ⟨_, rfl⟩)))
  | empty hidx => exact hguards hidx (Or.inr (Or.inr (Or.inr rfl)))
  | @badCount e hidx hnode hcount =>
    refine ⟨.badCount e, ?_⟩
    simp only [assignGroup, hidx, hnode, Bool.false_eq_true, if_false, multiGpuCount_error hcount]

/-- An item that is not refused has a readable count. -/
theorem askedCount_ok (h : ¬ Refused item) (hnode : isMultinode item = false) :
    ∃ asked, item.askedCount = .ok asked := by
  cases hidx : item.indexArg with
  | some arg =>
    cases hcount : item.gpuCountMarker with
    | none => exact ⟨none, askedCount_of_no_marker hcount⟩
    | some args => exact absurd (.withCount hidx (by rw [hcount]; rfl)) h
  | none =>
    cases hasked : item.askedCount with
    | error e => exact absurd (.badCount hidx hnode hasked) h
    | ok asked => exact ⟨asked, rfl⟩

/-- The argument of a pinned item that is not refused. -/
theorem indexArg_list (h : ¬ Refused item) {arg : IndexArg} (hidx : item.indexArg = some arg) :
    ∃ i indices, arg = .list (i :: indices) := by
  cases arg with
  | int i => exact absurd (.bare hidx) h
  | list raw =>
    cases raw with
    | nil => exact absurd (.empty hidx) h
    | cons i indices => exact ⟨i, indices, rfl⟩

theorem assignGroup_ok (h : ¬ Refused item) : ∃ x, assignGroup c item = .ok x := by
  cases hidx : item.indexArg with
  | some arg =>
    have hcount : ¬ item.gpuCountMarker.isSome = true := fun hc => h (.withCount hidx hc)
    have hmark : .multiGpu ∉ item.markers := fun hm => h (.withMultiGpu hidx hm)
    obtain ⟨i, indices, rfl⟩ := indexArg_list h hidx
    simp only [assignGroup, hidx, if_neg hcount, if_neg hmark]
    exact ⟨_, rfl⟩
  | none =>
    cases hnode : isMultinode item with
    | true =>
      simp only [assignGroup, hidx, hnode, if_true]
      exact ⟨_, rfl⟩
    | false =>
      obtain ⟨asked, hasked⟩ := askedCount_ok h hnode
      obtain ⟨n, hn⟩ := multiGpuCount_ok hasked
      simp only [assignGroup, hidx, hnode, hn, Bool.false_eq_true, if_false]
      by_cases hpos : 0 < n
      · exact ⟨_, if_pos hpos⟩
      · exact ⟨_, if_neg hpos⟩

/-- Both policies compute a key for what is not refused. -/
theorem key_ok (policy : SchedulePolicy) (h : ¬ Refused item) :
    ∃ key, policy.key item = .ok key := by
  cases hnode : isMultinode item with
  | true =>
    cases policy with
    | resourceMost => exact ⟨(0, 0), by simp [SchedulePolicy.key, resourceSortKeyMost, hnode]⟩
    | resourceLeast => exact ⟨(2, 0), by simp [SchedulePolicy.key, resourceSortKeyLeast, hnode]⟩
  | false =>
    obtain ⟨asked, hasked⟩ := askedCount_ok h hnode
    obtain ⟨n, hn⟩ := multiGpuCount_ok hasked
    cases policy with
    | resourceMost =>
      simp only [SchedulePolicy.key, resourceSortKeyMost, hnode, hn, Bool.false_eq_true, if_false]
      by_cases hk : 0 < gpuIndicesCount item
      · exact ⟨_, if_pos hk⟩
      · exact ⟨_, if_neg hk⟩
    | resourceLeast =>
      simp only [SchedulePolicy.key, resourceSortKeyLeast, hnode, hn, Bool.false_eq_true, if_false]
      by_cases hk : 0 < gpuIndicesCount item
      · exact ⟨_, if_pos hk⟩
      · exact ⟨_, if_neg hk⟩

theorem isMultiResource_ok {x : Scheduled} (h : ¬ Refused x.item) :
    ∃ b, isMultiResource x = .ok b := by
  cases hnode : isMultinode x.item with
  | true =>
    unfold isMultiResource
    rw [hnode]
    exact ⟨true, rfl⟩
  | false =>
    obtain ⟨asked, hasked⟩ := askedCount_ok h hnode
    obtain ⟨n, hn⟩ := multiGpuCount_ok hasked
    unfold isMultiResource
    rw [hnode, hn]
    exact ⟨decide (0 < n), rfl⟩

end

/-! ## The whole list -/

section

variable {policy : SchedulePolicy} {items : List Item}

theorem assignXdistGroups_ok (h : ∀ item ∈ items, ¬ Refused item) :
    ∀ c, ∃ xs, assignXdistGroups c items = .ok xs := by
  induction items with
  | nil => exact fun c => ⟨[], rfl⟩
  | cons item items ih =>
    intro c
    obtain ⟨x, hx⟩ := assignGroup_ok (c := c) (h item List.mem_cons_self)
    obtain ⟨rest, hrest⟩ := ih (fun y hy => h y (List.mem_cons_of_mem _ hy)) x.2
    exact ⟨_, Fallible.bind_eq_ok.mpr ⟨x, hx, Fallible.bind_eq_ok.mpr ⟨rest, hrest, rfl⟩⟩⟩

theorem assignXdistGroups_items : ∀ {items : List Item} {c : GroupCounters} {xs : List Scheduled},
    assignXdistGroups c items = .ok xs → xs.map Scheduled.item = items := by
  intro items
  induction items with
  | nil =>
    intro c xs h
    cases h
    rfl
  | cons item items ih =>
    intro c xs h
    obtain ⟨y, hy, h⟩ := Fallible.bind_eq_ok.mp h
    obtain ⟨rest, hrest, h⟩ := Fallible.bind_eq_ok.mp h
    cases h
    rw [List.map_cons, ih hrest]

theorem keyed_snd {grouped : List Scheduled} {keyed : List ((Int × Int) × Scheduled)}
    (h : grouped.mapM (withKey policy) = .ok keyed) : keyed.map (·.2) = grouped := by
  have hall := Fallible.forall₂_of_mapM h
  clear h
  induction hall with
  | nil => rfl
  | cons hx _ ih => rw [List.map_cons, ih, (withKey_eq hx).2]

/-- What `schedule` returns when it does not fail: the groups of the loop, sorted. -/
theorem schedule_eq_ok {result : List ((Int × Int) × Scheduled)}
    (h : schedule policy items = .ok result) :
    ∃ keyed : List ((Int × Int) × Scheduled), assignXdistGroups {} items = .ok (keyed.map (·.2)) ∧
      (keyed.map (·.2)).mapM (withKey policy) = .ok keyed ∧
      result = keyed.mergeSort fun a b => keyLe a.1 b.1 := by
  obtain ⟨grouped, hgrouped, h⟩ := Fallible.bind_eq_ok.mp h
  obtain ⟨keyed, hkeyed, h⟩ := Fallible.bind_eq_ok.mp h
  obtain ⟨_, _, h⟩ := Fallible.bind_eq_ok.mp h
  cases h
  have hsnd := keyed_snd hkeyed
  rw [← hsnd] at hgrouped hkeyed
  exact ⟨keyed, hgrouped, hkeyed, rfl⟩

theorem mem_result {result : List ((Int × Int) × Scheduled)}
    (h : schedule policy items = .ok result) {item : Item} :
    (∃ x ∈ result, x.2.item = item) ↔ item ∈ items := by
  obtain ⟨keyed, hgrouped, _, rfl⟩ := schedule_eq_ok h
  rw [← assignXdistGroups_items hgrouped]
  simp

/-- A list with a refused item stops the loop. -/
theorem assignXdistGroups_refused : ∀ {items : List Item} {c : GroupCounters},
    (∃ item ∈ items, Refused item) → ∃ e, assignXdistGroups c items = .error e := by
  intro items
  induction items with
  | nil =>
    intro c ⟨item, hitem, _⟩
    cases hitem
  | cons item items ih =>
    intro c ⟨y, hy, hrefused⟩
    rw [assignXdistGroups]
    cases hx : assignGroup c item with
    | error e => exact ⟨e, rfl⟩
    | ok x =>
      have hrest : ∃ z ∈ items, Refused z := by
        rcases List.mem_cons.mp hy with rfl | hy
        · obtain ⟨e, he⟩ := assignGroup_refused (c := c) hrefused
          rw [hx] at he
          cases he
        · exact ⟨y, hy, hrefused⟩
      obtain ⟨e, he⟩ := ih (c := x.2) hrest
      exact ⟨e, Fallible.bind_eq_error.mpr
        (Or.inr ⟨x, rfl, Fallible.bind_eq_error.mpr (Or.inl he)⟩)⟩

variable (policy) in
/-- `schedule` goes through exactly when no item is refused. -/
theorem schedule_ok_iff :
    (∃ result, schedule policy items = .ok result) ↔ ∀ item ∈ items, ¬ Refused item := by
  constructor
  · intro ⟨result, h⟩ item hitem hrefused
    obtain ⟨keyed, hgrouped, _⟩ := schedule_eq_ok h
    obtain ⟨e, he⟩ := assignXdistGroups_refused (c := {}) ⟨item, hitem, hrefused⟩
    rw [he] at hgrouped
    cases hgrouped
  · intro h
    obtain ⟨grouped, hgrouped⟩ := assignXdistGroups_ok h {}
    have hitems : ∀ x ∈ grouped, ¬ Refused x.item := by
      intro x hx
      apply h
      rw [← assignXdistGroups_items hgrouped]
      exact List.mem_map_of_mem hx
    have hkeys : ∀ x ∈ grouped, ∃ y, withKey policy x = .ok y := by
      intro x hx
      obtain ⟨key, hkey⟩ := key_ok policy (hitems x hx)
      refine ⟨(key, x), ?_⟩
      unfold withKey
      rw [hkey]
    obtain ⟨keyed, hkeyed⟩ := Fallible.mapM_ok hkeys
    have hclasses : ∀ x ∈ keyed.mergeSort fun a b => keyLe a.1 b.1,
        ∃ b, isMultiResource x.2 = .ok b := by
      intro x hx
      obtain ⟨y, hy, hxy⟩ := Fallible.exists_of_mem_mapM hkeyed (List.mem_mergeSort.mp hx)
      obtain ⟨_, heq⟩ := withKey_eq hxy
      rw [heq]
      exact isMultiResource_ok (hitems y hy)
    obtain ⟨bs, hbs⟩ := Fallible.mapM_ok hclasses
    exact ⟨_, Fallible.bind_eq_ok.mpr ⟨grouped, hgrouped, Fallible.bind_eq_ok.mpr
      ⟨keyed, hkeyed, Fallible.bind_eq_ok.mpr ⟨bs, hbs, rfl⟩⟩⟩⟩

end

/-! ## The screen -/

/-- Of what is not refused, the excluded combinations are those that the guards miss. -/
theorem excluded_iff {item : Item} (h : ¬ Refused item) : Excluded item ↔ Missed item := by
  constructor
  · intro ⟨hpinned, hconflict⟩
    refine ⟨hpinned, ?_⟩
    rcases hconflict with hcount | hmulti | ⟨i, hbare⟩ | hempty
    · cases hidx : item.indexArg with
      | none => exact Or.inr ⟨rfl, hcount⟩
      | some arg => exact absurd (.withCount hidx hcount) h
    · exact Or.inl hmulti
    · exact absurd (.bare hbare) h
    · exact absurd (.empty hempty) h
  · intro ⟨hpinned, hunseen⟩
    rcases hunseen with hmulti | ⟨_, hcount⟩
    · exact ⟨hpinned, Or.inr (Or.inl hmulti)⟩
    · exact ⟨hpinned, Or.inl hcount⟩

/-- The list is screened exactly when something in it is refused or nothing in it
escapes the guards. -/
theorem screens_iff (policy : SchedulePolicy) (items : List Item) :
    Screens policy items ↔ (∃ item ∈ items, Refused item) ∨ ∀ item ∈ items, ¬ Missed item := by
  by_cases hrefused : ∃ item ∈ items, Refused item
  · refine iff_of_true (fun result h => ?_) (Or.inl hrefused)
    obtain ⟨item, hitem, href⟩ := hrefused
    exact absurd href ((schedule_ok_iff policy).mp ⟨result, h⟩ item hitem)
  · have hnone : ∀ item ∈ items, ¬ Refused item := fun item hitem href =>
      hrefused ⟨item, hitem, href⟩
    obtain ⟨result, h⟩ := (schedule_ok_iff policy).mpr hnone
    rw [or_iff_right hrefused]
    constructor
    · intro hscreens item hitem hmissed
      obtain ⟨x, hx, rfl⟩ := (mem_result h).mpr hitem
      exact hscreens result h x hx ((excluded_iff (hnone _ hitem)).mpr hmissed)
    · intro hclear result' h' x hx hexcluded
      have hitem : x.2.item ∈ items := (mem_result h').mp ⟨x, hx, rfl⟩
      exact hclear _ hitem ((excluded_iff (hnone _ hitem)).mp hexcluded)

/-- `@pytest.mark.gpu_indices([0])` with `@pytest.mark.hw.multi_gpu`. -/
def pinnedMultiGpu : Item :=
  ⟨"tests/test_rccl.py::test_rccl", [.gpuIndices [.list [0]], .hwMultiGpu]⟩

theorem pinnedMultiGpu_scheduled :
    schedule .resourceMost [pinnedMultiGpu] =
      .ok [((1, -1), ⟨pinnedMultiGpu, some (.gpuIndices [0] 0)⟩)] := by
  decide +kernel

theorem pinnedMultiGpu_passes : ¬ Screens .resourceMost [pinnedMultiGpu] := by
  intro h
  refine h _ pinnedMultiGpu_scheduled _ List.mem_cons_self ⟨rfl, ?_⟩
  exact Or.inr (Or.inl (by decide))

end Scheduling
end RocmTests

import RocmTests.Nodes.PoolOwnership

/-!
# The allocators across all threads

`IndexInv` ties every process's allocators to what its threads own and to its
live slots: an index of a node is in `available` unless one of them has it.  Only
the thread inside `_pool_lock` has indices of its own, so what it finds out about
`available` stays true until it leaves.
-/

namespace RocmTests
namespace Nodes

open Conc Gpu

structure IndexInv (T : Topology) (s : PoolState) (res : Nat × Nat → Held) : Prop where
  pool : ∀ t, (res t).pool = true ↔ s.poolLock t.1 = some t.2
  mem : ∀ t x, x ∈ (res t).mem → (res t).pool = true ∧ x.2 ∈ T.indices x.1 ∧
    ∀ slot ∈ s.live t.1, slot.key ≠ x
  free : ∀ t x, x ∈ (res t).free → (res t).pool = true ∧ x.2 ∈ (s.alloc (t.1, x.1)).available
  allocator : ∀ p label, (s.alloc (p, label)).pool = (T.gpus label).getD []
  available : ∀ p x, x.2 ∈ (s.alloc (p, x.1)).available ↔ x.2 ∈ T.indices x.1 ∧
    (∀ th, x ∉ (res (p, th)).mem) ∧ ∀ slot ∈ s.live p, slot.key ≠ x

/-- A field that the new share of `t` keeps is unchanged for every thread. -/
theorem update_field {β : Type} (g : Held → β) {res : Nat × Nat → Held} {t : Nat × Nat} {r : Held}
    (h : g r = g (res t)) (u : Nat × Nat) : g (Function.update res t r u) = g (res u) := by
  by_cases hu : u = t
  · subst hu
    rw [Function.update_self, h]
  · rw [Function.update_of_ne hu]

/-- A set that the new share of `t` has one more element of. -/
theorem mem_update_insert {β : Type} (g : Held → Set β) {res : Nat × Nat → Held} {t : Nat × Nat}
    {r : Held} {y : β} (h : g r = insert y (g (res t))) (u : Nat × Nat) (x : β) :
    x ∈ g (Function.update res t r u) ↔ (u = t ∧ x = y) ∨ x ∈ g (res u) := by
  by_cases hu : u = t
  · subst hu
    rw [Function.update_self, h]
    simp
  · rw [Function.update_of_ne hu]
    simp [hu]

/-- A set that the new share of `t` has less of. -/
theorem mem_update_sdiff {β : Type} (g : Held → Set β) {res : Nat × Nat → Held} {t : Nat × Nat}
    {r : Held} {S : Set β} (h : g r = g (res t) \ S) (u : Nat × Nat) (x : β) :
    x ∈ g (Function.update res t r u) ↔ x ∈ g (res u) ∧ (u = t → x ∉ S) := by
  by_cases hu : u = t
  · subst hu
    rw [Function.update_self, h]
    simp
  · rw [Function.update_of_ne hu]
    simp [hu]

/-- The threads of a dead process have nothing. -/
theorem mem_dead_share {β : Type} (g : Held → Set β) (hidle : g Held.idle = ∅)
    {res : Nat × Nat → Held} {pid : Nat} {u : Nat × Nat} {x : β}
    (hx : x ∈ g (if u.1 = pid then Held.idle else res u)) : u.1 ≠ pid ∧ x ∈ g (res u) := by
  by_cases hu : u.1 = pid
  · rw [if_pos hu, hidle] at hx
    exact absurd hx (Set.notMem_empty x)
  · rw [if_neg hu] at hx
    exact ⟨hu, hx⟩

namespace IndexInv

variable {T : Topology} {s : PoolState} {res : Nat × Nat → Held} {t : Nat × Nat}

theorem frame (h : IndexInv T s res) {s' : PoolState} {r : Held} (halloc : s'.alloc = s.alloc)
    (hlock : s'.poolLock = s.poolLock) (hlive : s'.live = s.live) (hpool : r.pool = (res t).pool)
    (hmem : r.mem = (res t).mem) (hfree : r.free = (res t).free) :
    IndexInv T s' (Function.update res t r) where
  pool u := by
    rw [update_field Held.pool hpool, hlock]
    exact h.pool u
  mem u x hx := by
    rw [update_field Held.mem hmem] at hx
    rw [update_field Held.pool hpool, hlive]
    exact h.mem u x hx
  free u x hx := by
    rw [update_field Held.free hfree] at hx
    rw [update_field Held.pool hpool, halloc]
    exact h.free u x hx
  allocator p label := by rw [halloc]; exact h.allocator p label
  available p x := by
    rw [halloc, hlive]
    simp only [update_field Held.mem hmem]
    exact h.available p x

/-- Only the thread inside `_pool_lock` has indices of its own. -/
theorem unique (h : IndexInv T s res) {u : Nat × Nat} (ht : (res t).pool = true)
    (hu : (res u).pool = true) (hpid : u.1 = t.1) : u = t := by
  have h₁ := (h.pool t).mp ht
  have h₂ := (h.pool u).mp hu
  rw [hpid, h₁] at h₂
  exact Prod.ext hpid (Option.some.inj h₂).symm

theorem lockPool (h : IndexInv T s res) (hfree : s.poolLock t.1 = none) :
    IndexInv T { s with poolLock := Function.update s.poolLock t.1 (some t.2) }
      (Function.update res t { res t with pool := true }) where
  pool u := by
    by_cases hu : u = t
    · subst hu
      simp
    · rw [Function.update_of_ne hu]
      by_cases hp : u.1 = t.1
      · have hne : t.2 ≠ u.2 := fun hsame => hu (Prod.ext hp hsame.symm)
        have hold := h.pool u
        rw [hp, hfree] at hold
        simpa [hp, hne] using hold
      · simpa [hp] using h.pool u
  mem u x hx := by
    by_cases hu : u = t
    · subst hu
      rw [Function.update_self] at hx ⊢
      exact ⟨rfl, (h.mem u x hx).2⟩
    · rw [Function.update_of_ne hu] at hx ⊢
      exact h.mem u x hx
  free u x hx := by
    by_cases hu : u = t
    · subst hu
      rw [Function.update_self] at hx ⊢
      exact ⟨rfl, (h.free u x hx).2⟩
    · rw [Function.update_of_ne hu] at hx ⊢
      exact h.free u x hx
  allocator := h.allocator
  available p x := by
    have hsame : ∀ u, (Function.update res t { res t with pool := true } u).mem = (res u).mem :=
      update_field Held.mem rfl
    simp only [hsame]
    exact h.available p x

theorem unlockPool (h : IndexInv T s res) (ht : (res t).pool = true) (hmem : (res t).mem = ∅) :
    IndexInv T { s with poolLock := Function.update s.poolLock t.1 none }
      (Function.update res t { res t with pool := false, free := ∅ }) where
  pool u := by
    by_cases hu : u = t
    · subst hu
      simp
    · rw [Function.update_of_ne hu]
      by_cases hp : u.1 = t.1
      · have hout : (res u).pool ≠ true := fun hpool => hu (h.unique ht hpool hp)
        simpa [hp] using hout
      · simpa [hp] using h.pool u
  mem u x hx := by
    by_cases hu : u = t
    · subst hu
      rw [Function.update_self] at hx
      have hnone : x ∈ (res u).mem := hx
      rw [hmem] at hnone
      exact absurd hnone (Set.notMem_empty x)
    · rw [Function.update_of_ne hu] at hx ⊢
      exact h.mem u x hx
  free u x hx := by
    by_cases hu : u = t
    · subst hu
      rw [Function.update_self] at hx
      exact absurd hx (Set.notMem_empty x)
    · rw [Function.update_of_ne hu] at hx ⊢
      exact h.free u x hx
  allocator := h.allocator
  available p x := by
    have hsame : ∀ u, (Function.update res t { res t with pool := false, free := ∅ } u).mem =
        (res u).mem :=
      update_field Held.mem rfl
    simp only [hsame]
    exact h.available p x

theorem setAlloc_available {label : String} {a : GpuAllocator} (p : Nat) (y : String × Int)
    (hne : ¬ (p = t.1 ∧ y.1 = label)) :
    ((s.setAlloc t.1 label a).alloc (p, y.1)).available = (s.alloc (p, y.1)).available := by
  have hkey : (p, y.1) ≠ (t.1, label) := fun hsame =>
    hne ⟨congrArg Prod.fst hsame, congrArg Prod.snd hsame⟩
  show (Function.update s.alloc (t.1, label) a (p, y.1)).available = _
  rw [Function.update_of_ne hkey]

theorem setAlloc_pool (h : IndexInv T s res) {label : String} {a : GpuAllocator}
    (ha : a.pool = (s.alloc (t.1, label)).pool) (p : Nat) (label' : String) :
    ((s.setAlloc t.1 label a).alloc (p, label')).pool = (T.gpus label').getD [] := by
  show (Function.update s.alloc (t.1, label) a (p, label')).pool = _
  by_cases hkey : (p, label') = (t.1, label)
  · obtain ⟨rfl, rfl⟩ := Prod.mk.inj hkey
    rw [Function.update_self, ha]
    exact h.allocator _ _
  · rw [Function.update_of_ne hkey]
    exact h.allocator p label'

theorem erase_available {x : String × Int} (p : Nat) (y : String × Int) :
    y.2 ∈ ((s.setAlloc t.1 x.1 { s.alloc (t.1, x.1) with
      available := (s.alloc (t.1, x.1)).available.erase x.2 }).alloc (p, y.1)).available ↔
      y.2 ∈ (s.alloc (p, y.1)).available ∧ ¬ (p = t.1 ∧ y = x) := by
  by_cases hkey : p = t.1 ∧ y.1 = x.1
  · obtain ⟨rfl, hlabel⟩ := hkey
    rw [hlabel]
    show y.2 ∈ (Function.update s.alloc (t.1, x.1) _ (t.1, x.1)).available ↔ _
    rw [Function.update_self]
    simp [Finset.mem_erase, Prod.ext_iff, hlabel, and_comm]
  · rw [setAlloc_available p y hkey]
    have hne : ¬ (p = t.1 ∧ y = x) := fun hsame => hkey ⟨hsame.1, by rw [hsame.2]⟩
    simp [hne]

theorem insert_available {x : String × Int} (p : Nat) (y : String × Int) {gpu : GpuInfo}
    (hgpu : gpu.index = x.2) :
    y.2 ∈ ((s.setAlloc t.1 x.1 ((s.alloc (t.1, x.1)).release gpu)).alloc (p, y.1)).available ↔
      y.2 ∈ (s.alloc (p, y.1)).available ∨ (p = t.1 ∧ y = x) := by
  by_cases hkey : p = t.1 ∧ y.1 = x.1
  · obtain ⟨rfl, hlabel⟩ := hkey
    rw [hlabel]
    show y.2 ∈ (Function.update s.alloc (t.1, x.1) _ (t.1, x.1)).available ↔ _
    rw [Function.update_self]
    simp [GpuAllocator.release, Prod.ext_iff, hlabel, hgpu, or_comm]
  · rw [setAlloc_available p y hkey]
    have hne : ¬ (p = t.1 ∧ y = x) := fun hsame => hkey ⟨hsame.1, by rw [hsame.2]⟩
    simp [hne]

/-- An index of `available` is in nobody's hands. -/
theorem available_new (h : IndexInv T s res) {x : String × Int}
    (hx : x.2 ∈ (s.alloc (t.1, x.1)).available) : x.2 ∈ T.indices x.1 ∧ x ∉ (res t).mem := by
  have hfacts := (h.available t.1 x).mp hx
  exact ⟨hfacts.1, hfacts.2.1 t.2⟩

theorem take (h : IndexInv T s res) (ht : (res t).pool = true) {x : String × Int}
    (hx : x.2 ∈ (s.alloc (t.1, x.1)).available) :
    IndexInv T (s.setAlloc t.1 x.1 { s.alloc (t.1, x.1) with
        available := (s.alloc (t.1, x.1)).available.erase x.2 })
      (Function.update res t { res t with
        mem := insert x (res t).mem
        free := (res t).free \ {x} }) where
  pool u := by
    rw [update_field Held.pool (by rfl)]
    exact h.pool u
  mem u y hy := by
    rw [update_field Held.pool (by rfl)]
    rcases (mem_update_insert Held.mem rfl u y).mp hy with ⟨rfl, rfl⟩ | hold
    · have hfacts := (h.available u.1 y).mp hx
      exact ⟨ht, hfacts.1, hfacts.2.2⟩
    · exact h.mem u y hold
  free u y hy := by
    rw [update_field Held.pool (by rfl)]
    obtain ⟨hfree, hne⟩ := (mem_update_sdiff Held.free rfl u y).mp hy
    obtain ⟨hpool, havail⟩ := h.free u y hfree
    refine ⟨hpool, (erase_available u.1 y).mpr ⟨havail, fun hsame => ?_⟩⟩
    exact hne (h.unique ht hpool hsame.1) hsame.2
  allocator p label := h.setAlloc_pool (by rfl) p label
  available p y := by
    have hmem := fun th => mem_update_insert Held.mem (t := t)
      (r := { res t with mem := insert x (res t).mem, free := (res t).free \ {x} }) rfl (p, th) y
    rw [erase_available, h.available p y]
    simp only [hmem, not_or]
    constructor
    · rintro ⟨⟨hidx, hnone, hlive⟩, hne⟩
      exact ⟨hidx, fun th => ⟨fun hsame => hne ⟨by rw [← hsame.1], hsame.2⟩, hnone th⟩, hlive⟩
    · rintro ⟨hidx, hnone, hlive⟩
      refine ⟨⟨hidx, fun th => (hnone th).2, hlive⟩, fun hsame => ?_⟩
      exact (hnone t.2).1 ⟨by rw [hsame.1], hsame.2⟩

/-- An index this thread took, or already gave back, is put into `available`. -/
theorem giveBack (h : IndexInv T s res) (ht : (res t).pool = true) {x : String × Int}
    {gpu : GpuInfo} (hgpu : gpu.index = x.2) (hx : x ∈ (res t).mem ∨ x ∈ (res t).free) :
    IndexInv T (s.setAlloc t.1 x.1 ((s.alloc (t.1, x.1)).release gpu))
      (Function.update res t { res t with
        mem := (res t).mem \ {x}
        free := insert x (res t).free }) where
  pool u := by
    rw [update_field Held.pool (by rfl)]
    exact h.pool u
  mem u y hy := by
    rw [update_field Held.pool (by rfl)]
    exact h.mem u y ((mem_update_sdiff Held.mem rfl u y).mp hy).1
  free u y hy := by
    rw [update_field Held.pool (by rfl)]
    rcases (mem_update_insert Held.free rfl u y).mp hy with ⟨rfl, hyx⟩ | hold
    · exact ⟨ht, (insert_available u.1 y hgpu).mpr (Or.inr ⟨rfl, hyx⟩)⟩
    · obtain ⟨hpool, havail⟩ := h.free u y hold
      exact ⟨hpool, (insert_available u.1 y hgpu).mpr (Or.inl havail)⟩
  allocator p label := h.setAlloc_pool (by rfl) p label
  available p y := by
    have hmem := fun th => mem_update_sdiff Held.mem (t := t)
      (r := { res t with mem := (res t).mem \ {x}, free := insert x (res t).free }) rfl (p, th) y
    have hothers : ∀ th, (t.1, th) ≠ t → x ∉ (res (t.1, th)).mem := by
      intro th hne hin
      exact hne (h.unique ht (h.mem _ x hin).1 rfl)
    have hin : x.2 ∈ T.indices x.1 ∧ ∀ slot ∈ s.live t.1, slot.key ≠ x := by
      rcases hx with hm | hf
      · exact (h.mem t x hm).2
      · have hfacts := (h.available t.1 x).mp (h.free t x hf).2
        exact ⟨hfacts.1, hfacts.2.2⟩
    rw [insert_available p y hgpu, h.available p y]
    simp only [hmem]
    constructor
    · rintro (⟨hidx, hnone, hlive⟩ | ⟨rfl, rfl⟩)
      · exact ⟨hidx, fun th hold => hnone th hold.1, hlive⟩
      · refine ⟨hin.1, fun th hold => ?_, hin.2⟩
        by_cases hu : (t.1, th) = t
        · exact hold.2 hu rfl
        · exact hothers th hu hold.1
    · rintro ⟨hidx, hnone, hlive⟩
      by_cases hsame : p = t.1 ∧ y = x
      · exact Or.inr hsame
      · refine Or.inl ⟨hidx, fun th hold => hnone th ⟨hold, fun hth hyx => ?_⟩, hlive⟩
        exact hsame ⟨by rw [← hth], hyx⟩

theorem deliver (h : IndexInv T s res) (ht : (res t).pool = true) {slots : List NodeSlot}
    (hslots : ∀ slot ∈ slots, slot.key ∈ (res t).mem) (locks : Set (LockFile × Nat)) :
    IndexInv T { s with live := Function.update s.live t.1 (s.live t.1 ++ slots) }
      (Function.update res t { res t with
        mem := (res t).mem \ {x | ∃ slot ∈ slots, slot.key = x}
        locks := locks }) where
  pool u := by
    rw [update_field Held.pool (by rfl)]
    exact h.pool u
  mem u x hx := by
    rw [update_field Held.pool (by rfl)]
    obtain ⟨hmem, hnot⟩ := (mem_update_sdiff Held.mem rfl u x).mp hx
    obtain ⟨hpool, hidx, hlive⟩ := h.mem u x hmem
    refine ⟨hpool, hidx, fun slot hslot => ?_⟩
    rcases (PoolState.mem_update_append s.live t.1 slots u.1 slot).mp hslot with hold | ⟨hpid, hnew⟩
    · exact hlive slot hold
    · exact fun hkey => hnot (h.unique ht hpool hpid) ⟨slot, hnew, hkey⟩
  free u x hx := by
    rw [update_field Held.free (by rfl)] at hx
    rw [update_field Held.pool (by rfl)]
    exact h.free u x hx
  allocator := h.allocator
  available p x := by
    have hmem := fun th => mem_update_sdiff Held.mem (t := t)
      (r := { res t with
        mem := (res t).mem \ {x | ∃ slot ∈ slots, slot.key = x}
        locks := locks }) rfl (p, th) x
    refine Iff.trans (h.available p x) ?_
    simp only [hmem, PoolState.mem_update_append]
    constructor
    · rintro ⟨hidx, hnone, hlive⟩
      refine ⟨hidx, fun th hold => hnone th hold.1, fun slot hslot => ?_⟩
      rcases hslot with hold | ⟨rfl, hnew⟩
      · exact hlive slot hold
      · intro hkey
        have hin := hslots slot hnew
        rw [hkey] at hin
        exact hnone t.2 hin
    · rintro ⟨hidx, hnone, hlive⟩
      refine ⟨hidx, fun th hold => hnone th ⟨hold, ?_⟩, fun slot hslot => hlive slot (Or.inl hslot)⟩
      rintro hth ⟨slot, hnew, hkey⟩
      exact hlive slot (Or.inr ⟨congrArg Prod.fst hth, hnew⟩) hkey

theorem retire (h : IndexInv T s res) {slot : NodeSlot} (hslot : slot ∈ s.live t.1)
    (hidx : slot.key.2 ∈ T.indices slot.key.1)
    (hinj : ∀ b ∈ s.live t.1, b.key = slot.key → b = slot) {r : Held}
    (hpool : r.pool = (res t).pool) (hmem : r.mem = (res t).mem) (hfree : r.free = (res t).free) :
    IndexInv T ((s.setAlloc t.1 slot.key.1
        ((s.alloc (t.1, slot.key.1)).release slot.gpuInfo)).retire t.1 slot)
      (Function.update res t r) where
  pool u := by
    rw [update_field Held.pool hpool]
    exact h.pool u
  mem u x hx := by
    rw [update_field Held.mem hmem] at hx
    rw [update_field Held.pool hpool]
    obtain ⟨hp, hi, hlive⟩ := h.mem u x hx
    refine ⟨hp, hi, fun b hb => ?_⟩
    exact hlive b ((PoolState.mem_retire_live _ _ _ _ _).mp hb).1
  free u x hx := by
    rw [update_field Held.free hfree] at hx
    rw [update_field Held.pool hpool]
    obtain ⟨hp, havail⟩ := h.free u x hx
    exact ⟨hp, (insert_available u.1 x rfl).mpr (Or.inl havail)⟩
  allocator p label := h.setAlloc_pool (by rfl) p label
  available p x := by
    simp only [update_field Held.mem hmem]
    refine Iff.trans (insert_available (x := slot.key) p x rfl) ?_
    rw [h.available p x]
    simp only [PoolState.mem_retire_live]
    constructor
    · rintro (⟨hi, hnone, hl⟩ | ⟨rfl, rfl⟩)
      · exact ⟨hi, hnone, fun b hb => hl b hb.1⟩
      · refine ⟨hidx, fun th hin => ?_, fun b hb hkey => ?_⟩
        · exact (h.mem _ _ hin).2.2 slot hslot rfl
        · exact hb.2 ⟨rfl, hinj b hb.1 hkey⟩
    · rintro ⟨hi, hnone, hl⟩
      by_cases hsame : p = t.1 ∧ x = slot.key
      · exact Or.inr hsame
      · refine Or.inl ⟨hi, hnone, fun b hb hkey => ?_⟩
        by_cases hb' : p = t.1 ∧ b = slot
        · exact hsame ⟨hb'.1, by rw [← hkey, hb'.2]⟩
        · exact hl b ⟨hb, hb'⟩ hkey

theorem freshAlloc_available (T : Topology) (p : Nat) (x : String × Int) :
    x.2 ∈ (PoolState.freshAlloc T (p, x.1)).available ↔ x.2 ∈ T.indices x.1 := by
  simp [PoolState.freshAlloc, GpuAllocator.init, Topology.indices]

theorem start (T : Topology) (os : OsState) :
    IndexInv T (PoolState.start T os) fun _ => Held.idle where
  pool _ := by simp [Held.idle, PoolState.start]
  mem _ x hx := absurd hx (Set.notMem_empty x)
  free _ x hx := absurd hx (Set.notMem_empty x)
  allocator _ _ := rfl
  available p x := by
    refine Iff.trans (freshAlloc_available T p x) ?_
    simp [Held.idle, PoolState.start]

theorem die (h : IndexInv T s res) (pid : Nat) :
    IndexInv T (s.die T pid) fun u => if u.1 = pid then Held.idle else res u where
  pool u := by
    by_cases hu : u.1 = pid
    · simp [hu, Held.idle, PoolState.die]
    · simpa [hu, PoolState.die] using h.pool u
  mem u x hx := by
    obtain ⟨hu, hold⟩ := mem_dead_share Held.mem rfl hx
    simpa [PoolState.die, hu] using h.mem u x hold
  free u x hx := by
    obtain ⟨hu, hold⟩ := mem_dead_share Held.free rfl hx
    simpa [PoolState.die, hu] using h.free u x hold
  allocator p label := by
    by_cases hp : p = pid
    · simp [PoolState.die, hp, PoolState.freshAlloc, GpuAllocator.init]
    · simpa [PoolState.die, hp] using h.allocator p label
  available p x := by
    by_cases hp : p = pid
    · have hfresh := freshAlloc_available T p x
      simpa [PoolState.die, hp, Held.idle] using hfresh
    · simpa [PoolState.die, hp] using h.available p x

end IndexInv

end Nodes
end RocmTests

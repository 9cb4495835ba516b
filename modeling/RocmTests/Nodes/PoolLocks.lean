import RocmTests.Nodes.PoolIndices

/-!
# The lock files across all threads

`LockInv` ties the lock files to their owners.  A held file belongs to exactly
one live slot or to exactly one thread in the middle of an operation, and the
process that holds it is the owner's.
-/

namespace RocmTests
namespace Nodes

open Conc Gpu

structure LockInv (T : Topology) (s : PoolState) (res : Nat × Nat → Held) : Prop where
  live : ∀ p, ∀ slot ∈ s.live p, slot.Sound T ∧
    s.os.holder slot.file = some ⟨p, slot.fileLock.id⟩
  liveNodup : ∀ p, ((s.live p).map NodeSlot.file).Nodup
  locks : ∀ t f id, (f, id) ∈ (res t).locks → s.os.holder f = some ⟨t.1, id⟩ ∧
    ∀ slot ∈ s.live t.1, slot.file ≠ f
  locksInj : ∀ t u x, x ∈ (res t).locks → x ∈ (res u).locks → t = u
  accounted : ∀ f p id, s.os.holder f = some ⟨p, id⟩ →
    (∃ slot ∈ s.live p, slot.token = (f, id)) ∨ ∃ th, (f, id) ∈ (res (p, th)).locks

namespace LockInv

variable {T : Topology} {s : PoolState} {res : Nat × Nat → Held} {t : Nat × Nat}

/-- A live slot is known by its lock file. -/
theorem liveInj (h : LockInv T s res) (p : Nat) :
    ∀ a ∈ s.live p, ∀ b ∈ s.live p, a.file = b.file → a = b := by
  intro a ha b hb hsame
  exact List.inj_on_of_nodup_map (h.liveNodup p) ha hb hsame

theorem frame (h : LockInv T s res) {s' : PoolState} {r : Held}
    (hholder : s'.os.holder = s.os.holder) (hlive : s'.live = s.live)
    (hlocks : r.locks = (res t).locks) : LockInv T s' (Function.update res t r) where
  live p slot hs := by
    rw [hlive] at hs
    rw [hholder]
    exact h.live p slot hs
  liveNodup p := by rw [hlive]; exact h.liveNodup p
  locks u f id hf := by
    rw [update_field Held.locks hlocks] at hf
    rw [hholder, hlive]
    exact h.locks u f id hf
  locksInj u v x hu hv := by
    rw [update_field Held.locks hlocks] at hu hv
    exact h.locksInj u v x hu hv
  accounted f p id hf := by
    rw [hholder] at hf
    rw [hlive]
    simp only [update_field Held.locks hlocks]
    exact h.accounted f p id hf

/-- A file nobody holds is in no thread's hands and is no live slot's lock. -/
theorem not_held (h : LockInv T s res) {f : LockFile} (hfree : s.os.holder f = none) :
    (∀ u j, (f, j) ∉ (res u).locks) ∧ ∀ p, ∀ slot ∈ s.live p, slot.file ≠ f := by
  constructor
  · intro u j hu
    have hheld := (h.locks u f j hu).1
    rw [hfree] at hheld
    cases hheld
  · intro p slot hs hsame
    have hheld := (h.live p slot hs).2
    rw [hsame, hfree] at hheld
    cases hheld

/-- A new lock of thread `t` that no thread had keeps every lock in one thread's
hands. -/
theorem locksInj_insert (h : LockInv T s res) {r : Held} {y : LockFile × Nat}
    (hr : r.locks = insert y (res t).locks) (hnew : ∀ u, y ∉ (res u).locks) :
    ∀ u v x, x ∈ (Function.update res t r u).locks → x ∈ (Function.update res t r v).locks →
      u = v := by
  intro u v x hu hv
  rcases (mem_update_insert Held.locks hr u x).mp hu with ⟨hut, hx⟩ | hold
  · rcases (mem_update_insert Held.locks hr v x).mp hv with ⟨hvt, _⟩ | hold'
    · rw [hut, hvt]
    · rw [hx] at hold'
      exact absurd hold' (hnew v)
  · rcases (mem_update_insert Held.locks hr v x).mp hv with ⟨_, hx⟩ | hold'
    · rw [hx] at hold
      exact absurd hold (hnew u)
    · exact h.locksInj u v x hold hold'

theorem flock (h : LockInv T s res) {f : LockFile} (hfree : s.os.holder f = none) (id n : Nat) :
    LockInv T { s with os := { s.os with
        holder := Function.update s.os.holder f (some ⟨t.1, id⟩), nextId := n } }
      (Function.update res t { res t with locks := insert (f, id) (res t).locks }) where
  live p slot hs := by
    obtain ⟨hsound, hheld⟩ := h.live p slot hs
    refine ⟨hsound, ?_⟩
    show Function.update s.os.holder f _ slot.file = _
    rw [Function.update_of_ne ((h.not_held hfree).2 p slot hs)]
    exact hheld
  liveNodup := h.liveNodup
  locks u g j hg := by
    show Function.update s.os.holder f _ g = _ ∧ _
    rcases (mem_update_insert Held.locks rfl u (g, j)).mp hg with ⟨rfl, hnew⟩ | hold
    · obtain ⟨rfl, rfl⟩ := Prod.mk.inj hnew
      rw [Function.update_self]
      exact ⟨rfl, (h.not_held hfree).2 u.1⟩
    · have hgf : g ≠ f := fun hsame => (h.not_held hfree).1 u j (by rwa [hsame] at hold)
      rw [Function.update_of_ne hgf]
      exact h.locks u g j hold
  locksInj := h.locksInj_insert rfl fun u => (h.not_held hfree).1 u id
  accounted g p j hg := by
    have hg' : Function.update s.os.holder f (some ⟨t.1, id⟩) g = some ⟨p, j⟩ := hg
    by_cases hgf : g = f
    · subst hgf
      rw [Function.update_self] at hg'
      obtain ⟨hp, hj⟩ := Holder.mk.inj (Option.some.inj hg')
      refine Or.inr ⟨t.2, (mem_update_insert Held.locks rfl _ _).mpr (Or.inl ?_)⟩
      rw [← hp, ← hj]
      exact ⟨rfl, rfl⟩
    · rw [Function.update_of_ne hgf] at hg'
      rcases h.accounted g p j hg' with hlive | ⟨th, hth⟩
      · exact Or.inl hlive
      · exact Or.inr ⟨th, (mem_update_insert Held.locks rfl _ _).mpr (Or.inr hth)⟩

/-- A lock file in a thread's hands is in no other's. -/
theorem unique (h : LockInv T s res) {u : Nat × Nat} {f : LockFile} {i j : Nat}
    (ht : (f, i) ∈ (res t).locks) (hu : (f, j) ∈ (res u).locks) : t = u ∧ i = j := by
  have h₁ := (h.locks t f i ht).1
  have h₂ := (h.locks u f j hu).1
  have hsame := Holder.mk.inj (Option.some.inj (h₁.symm.trans h₂))
  have hij : i = j := hsame.2
  rw [← hij] at hu
  exact ⟨h.locksInj t u (f, i) ht hu, hij⟩

/-- Nor is it the lock of a live slot. -/
theorem not_live (h : LockInv T s res) {f : LockFile} {i p : Nat} (ht : (f, i) ∈ (res t).locks)
    {slot : NodeSlot} (hslot : slot ∈ s.live p) : slot.file ≠ f := by
  intro hsame
  have hheld := (h.live p slot hslot).2
  obtain ⟨hmine, hnot⟩ := h.locks t f i ht
  rw [hsame, hmine] at hheld
  have hpid : t.1 = p := (Holder.mk.inj (Option.some.inj hheld)).1
  rw [← hpid] at hslot
  exact hnot slot hslot hsame

theorem funlock (h : LockInv T s res) {f : LockFile} {id : Nat} (ht : (f, id) ∈ (res t).locks) :
    LockInv T { s with os := { s.os with holder := Function.update s.os.holder f none } }
      (Function.update res t { res t with locks := (res t).locks \ {(f, id)} }) where
  live p slot hs := by
    obtain ⟨hsound, hheld⟩ := h.live p slot hs
    refine ⟨hsound, ?_⟩
    show Function.update s.os.holder f _ slot.file = _
    rw [Function.update_of_ne (h.not_live ht hs)]
    exact hheld
  liveNodup := h.liveNodup
  locks u g j hg := by
    obtain ⟨hold, hnot⟩ := (mem_update_sdiff Held.locks rfl u (g, j)).mp hg
    have hgf : g ≠ f := by
      intro hsame
      subst hsame
      obtain ⟨rfl, rfl⟩ := h.unique ht hold
      exact hnot rfl rfl
    show Function.update s.os.holder f _ g = _ ∧ _
    rw [Function.update_of_ne hgf]
    exact h.locks u g j hold
  locksInj u v x hu hv := by
    have hu' := ((mem_update_sdiff Held.locks rfl u x).mp hu).1
    have hv' := ((mem_update_sdiff Held.locks rfl v x).mp hv).1
    exact h.locksInj u v x hu' hv'
  accounted g p j hg := by
    have hg' : Function.update s.os.holder f none g = some ⟨p, j⟩ := hg
    have hgf : g ≠ f := by
      intro hsame
      rw [hsame, Function.update_self] at hg'
      cases hg'
    rw [Function.update_of_ne hgf] at hg'
    rcases h.accounted g p j hg' with hlive | ⟨th, hth⟩
    · exact Or.inl hlive
    · refine Or.inr ⟨th, (mem_update_sdiff Held.locks rfl _ _).mpr ⟨hth, fun _ hsame => ?_⟩⟩
      exact hgf (Prod.mk.inj hsame).1

theorem deliver (h : LockInv T s res) {slots : List NodeSlot} (hslots : Deliverable T slots (res t))
    (mem : Set (String × Int)) :
    LockInv T { s with live := Function.update s.live t.1 (s.live t.1 ++ slots) }
      (Function.update res t { res t with
        mem := mem
        locks := (res t).locks \ {x | ∃ slot ∈ slots, slot.token = x} }) := by
  have hlive := PoolState.mem_update_append s.live t.1 slots
  have hlocks := mem_update_sdiff Held.locks (t := t) (r := { res t with
    mem := mem
    locks := (res t).locks \ {x | ∃ slot ∈ slots, slot.token = x} }) rfl
  refine ⟨?_, ?_, ?_, ?_, ?_⟩
  · intro p slot hs
    rcases (hlive p slot).mp hs with hold | ⟨rfl, hnew⟩
    · exact h.live p slot hold
    · exact ⟨hslots.sound slot hnew, (h.locks t _ _ (hslots.locks slot hnew)).1⟩
  · intro p
    show ((Function.update s.live t.1 (s.live t.1 ++ slots) p).map NodeSlot.file).Nodup
    by_cases hp : p = t.1
    · subst hp
      rw [Function.update_self, List.map_append]
      refine List.Nodup.append (h.liveNodup t.1) hslots.files fun f hf hf' => ?_
      obtain ⟨a, ha, rfl⟩ := List.mem_map.mp hf
      obtain ⟨b, hb, hsame⟩ := List.mem_map.mp hf'
      exact h.not_live (hslots.locks b hb) ha hsame.symm
    · rw [Function.update_of_ne hp]
      exact h.liveNodup p
  · intro u f id hf
    obtain ⟨hold, hnot⟩ := (hlocks u (f, id)).mp hf
    refine ⟨(h.locks u f id hold).1, fun slot hs => ?_⟩
    rcases (hlive u.1 slot).mp hs with hslive | ⟨_, hnew⟩
    · exact (h.locks u f id hold).2 slot hslive
    · intro hsame
      have htoken := hslots.locks slot hnew
      rw [NodeSlot.token, hsame] at htoken
      obtain ⟨htu, hid⟩ := h.unique htoken hold
      refine hnot htu.symm ⟨slot, hnew, ?_⟩
      rw [NodeSlot.token, hsame, hid]
  · intro u v x hu hv
    exact h.locksInj u v x ((hlocks u x).mp hu).1 ((hlocks v x).mp hv).1
  · intro f p id hf
    rcases h.accounted f p id hf with ⟨slot, hs, htoken⟩ | ⟨th, hth⟩
    · exact Or.inl ⟨slot, (hlive p slot).mpr (Or.inl hs), htoken⟩
    · by_cases hin : (p, th) = t ∧ ∃ slot ∈ slots, slot.token = (f, id)
      · obtain ⟨hu, slot, hs, htoken⟩ := hin
        exact Or.inl ⟨slot, (hlive p slot).mpr (Or.inr ⟨congrArg Prod.fst hu, hs⟩), htoken⟩
      · exact Or.inr ⟨th, (hlocks _ _).mpr ⟨hth, fun hu hs => hin ⟨hu, hs⟩⟩⟩

theorem retire (h : LockInv T s res) {slot : NodeSlot} (hslot : slot ∈ s.live t.1)
    (alloc : Nat × String → GpuAllocator) (rel : List NodeSlot) :
    LockInv T (({ s with alloc := alloc } : PoolState).retire t.1 slot)
      (Function.update res t { res t with
        rel := rel
        locks := insert slot.token (res t).locks }) := by
  have hheld := (h.live t.1 slot hslot).2
  have hlive := ({ s with alloc := alloc } : PoolState).mem_retire_live t.1 slot
  have hlocks := mem_update_insert Held.locks (t := t) (r := { res t with
    rel := rel
    locks := insert slot.token (res t).locks }) rfl
  refine ⟨?_, ?_, ?_, ?_, ?_⟩
  · intro p b hb
    exact h.live p b ((hlive p b).mp hb).1
  · intro p
    show ((Function.update s.live t.1 ((s.live t.1).filter fun x => decide (x ≠ slot)) p).map
      NodeSlot.file).Nodup
    by_cases hp : p = t.1
    · subst hp
      rw [Function.update_self]
      exact (h.liveNodup t.1).sublist (List.filter_sublist.map _)
    · rw [Function.update_of_ne hp]
      exact h.liveNodup p
  · intro u f id hf
    rcases (hlocks u (f, id)).mp hf with ⟨rfl, hx⟩ | hold
    · obtain ⟨rfl, rfl⟩ := Prod.mk.inj hx
      refine ⟨hheld, fun b hb hsame => ?_⟩
      obtain ⟨hb', hne⟩ := (hlive u.1 b).mp hb
      exact hne ⟨rfl, h.liveInj u.1 b hb' slot hslot hsame⟩
    · refine ⟨(h.locks u f id hold).1, fun b hb => ?_⟩
      exact (h.locks u f id hold).2 b ((hlive u.1 b).mp hb).1
  · exact h.locksInj_insert rfl fun u hu => h.not_live hu hslot rfl
  · intro f p id hf
    rcases h.accounted f p id hf with ⟨b, hb, htoken⟩ | ⟨th, hth⟩
    · by_cases hsame : p = t.1 ∧ b = slot
      · obtain ⟨rfl, rfl⟩ := hsame
        exact Or.inr ⟨t.2, (hlocks _ _).mpr (Or.inl ⟨rfl, htoken.symm⟩)⟩
      · exact Or.inl ⟨b, (hlive p b).mpr ⟨hb, hsame⟩, htoken⟩
    · exact Or.inr ⟨th, (hlocks _ _).mpr (Or.inr hth)⟩

theorem start (T : Topology) (os : OsState) :
    LockInv T (PoolState.start T os) fun _ => Held.idle where
  live _ _ hs := by cases hs
  liveNodup _ := List.nodup_nil
  locks _ _ _ hf := absurd hf (Set.notMem_empty _)
  locksInj _ _ _ hu := absurd hu (Set.notMem_empty _)
  accounted _ _ _ hf := by cases hf

/-- A dead process holds nothing; the others keep what they held. -/
theorem die (h : LockInv T s res) (pid : Nat) :
    LockInv T (s.die T pid) fun u => if u.1 = pid then Held.idle else res u := by
  have hholder := s.die_holder T pid
  have hlive := s.mem_die_live T pid
  refine ⟨?_, ?_, ?_, ?_, ?_⟩
  · intro p slot hs
    obtain ⟨hp, hold⟩ := (hlive p slot).mp hs
    obtain ⟨hsound, hheld⟩ := h.live p slot hold
    exact ⟨hsound, (hholder _ _ _).mpr ⟨hheld, hp⟩⟩
  · intro p
    by_cases hp : p = pid
    · simp [PoolState.die, hp]
    · simpa [PoolState.die, hp] using h.liveNodup p
  · intro u f id hf
    obtain ⟨hu, hold⟩ := mem_dead_share Held.locks rfl hf
    obtain ⟨hheld, hnot⟩ := h.locks u f id hold
    exact ⟨(hholder _ _ _).mpr ⟨hheld, hu⟩, fun slot hs => hnot slot ((hlive _ _).mp hs).2⟩
  · intro u v x hu hv
    have hu' := (mem_dead_share Held.locks rfl hu).2
    have hv' := (mem_dead_share Held.locks rfl hv).2
    exact h.locksInj u v x hu' hv'
  · intro f p id hf
    obtain ⟨hheld, hp⟩ := (hholder f p id).mp hf
    rcases h.accounted f p id hheld with ⟨slot, hs, htoken⟩ | ⟨th, hth⟩
    · exact Or.inl ⟨slot, (hlive p slot).mpr ⟨hp, hs⟩, htoken⟩
    · refine Or.inr ⟨th, ?_⟩
      rw [if_neg (show (p, th).1 ≠ pid from hp)]
      exact hth

end LockInv

end Nodes
end RocmTests

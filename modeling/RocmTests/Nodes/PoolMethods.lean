import RocmTests.Nodes.PoolOwnership

/-!
# Every method starts and ends owning nothing

The rollback paths are the places where that needs an argument, and each has its
lemma here: the skip list of `acquire_slot`, the partial batches of
`acquire_slots` and `_try_acquire_index_set`, and `release`.
-/

namespace RocmTests
namespace Nodes

open Conc Gpu

namespace Pool

/-! ## One GPU from any node -/

section

variable (T : Topology) (pid : Nat)

theorem newSlot_sound {spec : NodeSpec} {gpu : GpuInfo} {lock : GpuFileLock}
    (hspec : ∃ gpus, T.gpus spec.label = some gpus) (hidx : gpu.index ∈ T.indices spec.label)
    (hfile : lock.file = lockFile spec.label gpu.index) : (newSlot T spec gpu lock).Sound T :=
  ⟨hfile, hspec, hidx⟩

/-- What the scan owns when it leaves its `while`, before the last restore. -/
def Scanned (label : String) (x : List GpuInfo × Option NodeSlot) (r : Held) : Prop :=
  match x.2 with
  | none => ∃ F, r = { Held.holding F [] with mem := keysOf label x.1 }
  | some slot => slot.Sound T ∧ slot.key ∉ keysOf label x.1 ∧
      ∃ F, keysOf label x.1 ⊆ F ∧ r = Held.holding F [slot]

/-- A lock taken for a fresh GPU, with the skipped ones given back. -/
theorem scanned_some {spec : NodeSpec} {gpu : GpuInfo} {l : GpuFileLock} {skipped : List GpuInfo}
    {F : Set (String × Int)} (hspec : ∃ gpus, T.gpus spec.label = some gpus)
    (hidx : gpu.index ∈ T.indices spec.label) (hfile : l.file = lockFile spec.label gpu.index)
    (hnew : (spec.label, gpu.index) ∉ keysOf spec.label skipped) {r : Held}
    (hr : r = { Held.holding (F ∪ keysOf spec.label skipped) [] with
      mem := insert (spec.label, gpu.index) (keysOf spec.label skipped) \ keysOf spec.label skipped
      locks := {(l.file, l.id)} }) :
    Scanned T spec.label (skipped, some (newSlot T spec gpu l)) r := by
  refine ⟨newSlot_sound T hspec hidx hfile, hnew, F ∪ keysOf spec.label skipped,
    Set.subset_union_right, ?_⟩
  rw [hr]
  have hkey : (newSlot T spec gpu l).key = (spec.label, gpu.index) := rfl
  refine Held.ext rfl rfl ?_ rfl ?_ rfl
  · ext x
    simp only [Held.holding, Set.mem_sdiff, Set.mem_insert_iff, Set.mem_ofPred_eq,
      List.mem_singleton, exists_eq_left, hkey]
    constructor
    · rintro ⟨hx | hx, hnot⟩
      · exact hx.symm
      · exact absurd hx hnot
    · rintro rfl
      exact ⟨Or.inl rfl, hnew⟩
  · ext x
    simp [Held.holding, newSlot, eq_comm]

/-- The restore after the `while` gives back a skipped GPU a second time when a
slot was found, which changes nothing. -/
theorem scanRestore_owns {label : String} {skipped : List GpuInfo} {found : Option NodeSlot}
    {r : Held} (h : Scanned T label (skipped, found) r) :
    Safe (poolActions T) (Prog.bind (releaseAll label skipped) fun _ => pure found)
      (fun b r => (∀ slot ∈ b, slot.Sound T) ∧ ∃ F, r = Held.holding F b.toList) r := by
  cases found with
  | none =>
    obtain ⟨F, rfl⟩ := h
    refine (releaseAll_owns T label skipped rfl fun x hx => Or.inl hx).bind
      fun _ r₁ h₁ => .ret ⟨fun slot hs => (by cases hs), F ∪ keysOf label skipped, ?_⟩
    rw [h₁]
    refine Held.ext rfl rfl ?_ rfl rfl rfl
    simp [Held.holding]
  | some slot =>
    obtain ⟨hsound, hnew, F, hF, rfl⟩ := h
    refine (releaseAll_owns T label skipped rfl fun x hx => Or.inr (hF hx)).bind
      fun _ r₁ h₁ => .ret ⟨fun s hs => by cases hs; exact hsound, F ∪ keysOf label skipped, ?_⟩
    rw [h₁]
    refine Held.ext rfl rfl ?_ rfl rfl rfl
    ext x
    simp only [Held.holding, Set.mem_sdiff, Set.mem_ofPred_eq, List.mem_singleton,
      exists_eq_left, Option.toList]
    constructor
    · exact fun hx => hx.1
    · rintro rfl
      exact ⟨rfl, hnew⟩

theorem scanNode_owns {spec : NodeSpec} (hspec : ∃ gpus, T.gpus spec.label = some gpus)
    (v : ℚ) (testId : String) (F : Set (String × Int)) :
    Safe (poolActions T) (scanNode T pid spec v testId)
      (fun b r => (∀ slot ∈ b, slot.Sound T) ∧ ∃ F', r = Held.holding F' b.toList)
      (Held.holding F []) := by
  refine Safe.bind (Q := Scanned T spec.label) ?_ fun x r h => scanRestore_owns T h
  -- Between two rounds the thread owns exactly the GPUs it skipped.
  refine Safe.iter
    (fun skipped r => ∃ F, r = { Held.holding F [] with mem := keysOf spec.label skipped })
    ⟨F, by simp [keysOf, Held.holding]⟩ ?_
  rintro skipped r ⟨F, rfl⟩
  refine .act rfl fun b r₁ h₁ => ?_
  cases b with
  | error e => exact .ret ⟨F, h₁⟩
  | ok gpu =>
    obtain ⟨hidx, hnew, hr₁⟩ := h₁
    refine (inOs_owns (acquire_owns pid spec.label gpu.index testId (r := r₁)
      (by rw [hr₁]; rfl))).bind fun lock r₂ h₂ => ?_
    cases lock with
    | error e =>
      refine .ret ⟨F \ {(spec.label, gpu.index)}, ?_⟩
      rw [show r₂ = r₁ from h₂, hr₁, keysOf_append]
      rfl
    | ok l =>
      obtain ⟨hfile, hr₂⟩ := h₂
      have hpool : r₂.pool = true := by rw [hr₂, hr₁]; rfl
      refine (releaseAll_owns T spec.label skipped hpool fun x hx => Or.inl ?_).bind
        fun _ r₃ h₃ => .ret (scanned_some T (F := F \ {(spec.label, gpu.index)}) hspec hidx hfile
          hnew ?_)
      · rw [hr₂, hr₁]
        exact Set.mem_insert_of_mem _ hx
      · rw [h₃, hr₂, hr₁]
        simp [Held.holding]

theorem scanNodes_owns (v : ℚ) (testId : String) :
    ∀ (specs : List NodeSpec) (F : Set (String × Int)),
      Safe (poolActions T) (scanNodes T pid v testId specs)
        (fun b r => (∀ slot ∈ b, slot.Sound T) ∧ ∃ F', r = Held.holding F' b.toList)
        (Held.holding F []) := by
  intro specs
  induction specs with
  | nil => intro F; exact .ret ⟨fun slot hs => (by cases hs), F, rfl⟩
  | cons spec specs ih =>
    intro F
    rw [scanNodes]
    cases hg : T.gpus spec.label with
    | none => exact ih F
    | some gpus =>
      refine (scanNode_owns T pid ⟨gpus, hg⟩ v testId F).bind fun b r h => ?_
      obtain ⟨hsound, F', rfl⟩ := h
      cases b with
      | none => exact ih F'
      | some slot => exact .ret ⟨hsound, F', rfl⟩

/-- Enter `_pool_lock`. -/
theorem lockPool_owns {α : Type} {p : PoolProg α} {Q : α → Held → Prop}
    (h : Safe (poolActions T) p Q (Held.holding ∅ [])) :
    Safe (poolActions T) (Prog.bind lockPool fun _ => p) Q Held.busy := by
  refine .act ⟨rfl, rfl⟩ fun _ r₁ h₁ => ?_
  have hcrit : r₁ = Held.holding ∅ [] := by
    rw [show r₁ = _ from h₁]
    refine Held.ext rfl rfl ?_ rfl ?_ rfl
    · simp [Held.holding, Held.busy]
    · simp [Held.holding, Held.busy]
  rw [hcrit]
  exact h

/-- Leave `_pool_lock` with everything given back. -/
theorem unlockPool_owns {α : Type} {p : PoolProg α} {Q : α → Held → Prop}
    {F : Set (String × Int)} (h : Safe (poolActions T) p Q Held.busy) :
    Safe (poolActions T) (Prog.bind unlockPool fun _ => p) Q (Held.holding F []) := by
  refine .act ⟨rfl, by simp [Held.holding]⟩ fun _ r₁ h₁ => ?_
  have hbusy : r₁ = Held.busy := by
    rw [show r₁ = _ from h₁]
    refine Held.ext rfl rfl ?_ rfl ?_ rfl
    · simp [Held.holding, Held.busy]
    · simp [Held.holding, Held.busy]
  rw [hbusy]
  exact h

/-- Return slots and leave `_pool_lock`. -/
theorem deliver_owns {α : Type} {p : PoolProg α} {Q : α → Held → Prop}
    {F : Set (String × Int)} (path : AcquirePath) {slots : List NodeSlot}
    (hsound : ∀ slot ∈ slots, slot.Sound T) (hfiles : (slots.map NodeSlot.file).Nodup)
    (h : Safe (poolActions T) p Q Held.busy) :
    Safe (poolActions T) (Prog.bind (deliver path slots) fun _ => Prog.bind unlockPool fun _ => p)
      Q (Held.holding F slots) := by
  have hdeliver : Deliverable T slots (Held.holding F slots) :=
    ⟨hsound, hfiles, fun slot hs => ⟨slot, hs, rfl⟩, fun slot hs => ⟨slot, hs, rfl⟩⟩
  refine .act ⟨rfl, hdeliver⟩ fun _ r₁ h₁ => ?_
  rw [show r₁ = _ from h₁, Held.holding_deliver]
  exact unlockPool_owns T h

theorem slotRound_owns (v : ℚ) (testId : String) :
    Safe (poolActions T) (slotRound T pid v testId) (fun _ r => r = Held.busy) Held.busy := by
  refine lockPool_owns T ?_
  refine (scanNodes_owns T pid v testId T.nodeSpecs ∅).bind fun b r h => ?_
  obtain ⟨hsound, F, rfl⟩ := h
  refine deliver_owns T .slot (fun slot hs => hsound slot (Option.mem_toList.mp hs)) ?_ (.ret rfl)
  cases b with
  | none => exact List.nodup_nil
  | some slot => exact List.nodup_singleton _

/-- The end of a round that found nothing: raise at the deadline, else sleep and
go on. -/
theorem poll_owns {β : Type} (deadline : ℚ) (e : PoolError) :
    Safe (poolActions T)
      (Prog.bind (inOs Os.monotonic) fun now =>
        if deadline ≤ now then pure (.inr (.error e) : Unit ⊕ Except PoolError β)
        else Prog.bind pause fun _ => pure (.inl ()))
      (fun _ r => r = Held.busy) Held.busy := by
  refine .act trivial fun now r₁ h₁ => ?_
  have hbusy : r₁ = Held.busy := h₁
  subst hbusy
  show Safe _ (if deadline ≤ now then _ else _) _ _
  by_cases hd : deadline ≤ now
  · rw [if_pos hd]; exact .ret rfl
  · rw [if_neg hd]
    exact (pause_owns T).bind fun _ r₂ h₂ => .ret h₂

/-- A polling loop whose rounds all start and end owning nothing. -/
theorem pollLoop_owns {β : Type} {body : Unit → PoolProg (Unit ⊕ β)}
    (h : Safe (poolActions T) (body ()) (fun _ r => r = Held.busy) Held.busy) :
    Safe (poolActions T) (Prog.iter body ()) (fun _ r => r = Held.busy) Held.busy := by
  refine Safe.iter (fun _ r => r = Held.busy) rfl fun _ r hr => ?_
  subst hr
  refine h.mono fun x r hr => ?_
  cases x with
  | inl _ => exact hr
  | inr _ => exact hr

theorem acquireSlot_owns (v w : ℚ) (testId : String) :
    Safe (poolActions T) (acquireSlot T pid v w testId) (fun _ r => r = Held.busy) Held.busy := by
  unfold acquireSlot
  by_cases hcap : T.hasVramCapacity v 1 none
  · rw [if_pos hcap]
    refine .act trivial fun start r₁ h₁ => ?_
    rw [show r₁ = Held.busy from h₁]
    refine pollLoop_owns T ?_
    refine (yieldCheck_owns T rfl rfl T.nodeSpecs).bind fun yielded r h => ?_
    subst h
    refine Safe.bind (Q := fun _ r => r = Held.busy) ?_ fun found r h => ?_
    · cases yielded with
      | true => exact .ret rfl
      | false => exact slotRound_owns T pid v testId
    · subst h
      cases found with
      | some slot => exact .ret rfl
      | none => exact poll_owns T (start + w) (.noSlot w)
  · rw [if_neg hcap]; exact .ret rfl

/-! ## Several GPUs of one node -/

/-- Slots of one node taken one after the other. -/
structure Batch (label : String) (slots : List NodeSlot) : Prop where
  sound : ∀ slot ∈ slots, slot.Sound T
  label : ∀ slot ∈ slots, slot.nodeSpec.label = label
  files : (slots.map NodeSlot.file).Nodup

theorem Batch.nil (label : String) : Batch T label [] :=
  ⟨fun _ h => (by cases h), fun _ h => (by cases h), List.nodup_nil⟩

variable {T}

/-- Slots of one node with the same lock file have the same index. -/
theorem key_eq_of_file_eq {a b : NodeSlot} (ha : a.Sound T) (hb : b.Sound T)
    (hlabel : a.nodeSpec.label = b.nodeSpec.label) (h : a.file = b.file) : a.key = b.key := by
  have hfiles : lockFile a.key.1 a.key.2 = lockFile b.key.1 b.key.2 := by
    rw [← ha.file, ← hb.file, h]
  have hidx : a.key.2 = b.key.2 := congrArg LockFile.gpuIndex hfiles
  exact Prod.ext hlabel hidx

theorem Batch.append {label : String} {slots : List NodeSlot} {slot : NodeSlot}
    (h : Batch T label slots) (hsound : slot.Sound T) (hlabel : slot.nodeSpec.label = label)
    (hnew : ∀ s ∈ slots, s.key ≠ slot.key) : Batch T label (slots ++ [slot]) where
  sound s hs := by
    rcases List.mem_append.mp hs with hs | hs
    · exact h.sound s hs
    · rw [List.mem_singleton.mp hs]; exact hsound
  label s hs := by
    rcases List.mem_append.mp hs with hs | hs
    · exact h.label s hs
    · rw [List.mem_singleton.mp hs]; exact hlabel
  files := by
    rw [List.map_append]
    refine List.Nodup.append h.files (List.nodup_singleton _) fun f hf hf' => ?_
    obtain ⟨s, hs, rfl⟩ := List.mem_map.mp hf
    have hsame : s.file = slot.file := by simpa using hf'
    have hlabels : s.nodeSpec.label = slot.nodeSpec.label := by rw [h.label s hs, hlabel]
    exact hnew s hs (key_eq_of_file_eq (h.sound s hs) hsound hlabels hsame)

theorem Batch.tail {label : String} {slots : List NodeSlot} {slot : NodeSlot}
    (h : Batch T label (slot :: slots)) : Batch T label slots :=
  ⟨fun s hs => h.sound s (List.mem_cons_of_mem _ hs),
    fun s hs => h.label s (List.mem_cons_of_mem _ hs), (List.nodup_cons.mp h.files).2⟩

theorem Batch.head_file {label : String} {slots : List NodeSlot} {slot : NodeSlot}
    (h : Batch T label (slot :: slots)) : ∀ s ∈ slots, s.file ≠ slot.file := by
  intro s hs hsame
  have hnot := (List.nodup_cons.mp h.files).1
  exact hnot (List.mem_map.mpr ⟨s, hs, hsame⟩)

theorem Batch.head_key {label : String} {slots : List NodeSlot} {slot : NodeSlot}
    (h : Batch T label (slot :: slots)) : ∀ s ∈ slots, s.key ≠ slot.key := by
  intro s hs hsame
  have hs' := (h.sound s (List.mem_cons_of_mem _ hs)).file
  have hslot := (h.sound slot List.mem_cons_self).file
  exact h.head_file s hs (by rw [hs', hslot, hsame])

theorem sdiff_head {β : Type} {g : NodeSlot → β} {slots : List NodeSlot} {slot : NodeSlot}
    (hne : ∀ s ∈ slots, g s ≠ g slot) :
    {x | ∃ s ∈ slot :: slots, g s = x} \ {g slot} = {x | ∃ s ∈ slots, g s = x} := by
  ext x
  simp only [Set.mem_sdiff, Set.mem_ofPred_eq, List.mem_cons, Set.mem_singleton_iff]
  constructor
  · rintro ⟨⟨s, rfl | hs, hx⟩, hdiff⟩
    · exact absurd hx.symm hdiff
    · exact ⟨s, hs, hx⟩
  · rintro ⟨s, hs, rfl⟩
    exact ⟨⟨s, Or.inr hs, rfl⟩, hne s hs⟩

/-- Dropping the first of the held slots, lock and index. -/
theorem Batch.holding_tail {label : String} {slots : List NodeSlot} {slot : NodeSlot}
    (h : Batch T label (slot :: slots)) (F F' : Set (String × Int)) :
    { Held.holding F (slot :: slots) with
      mem := (Held.holding F (slot :: slots)).mem \ {slot.key}
      free := F'
      locks := (Held.holding F (slot :: slots)).locks \ {slot.token} } =
        Held.holding F' slots := by
  refine Held.ext rfl rfl (sdiff_head h.head_key) rfl (sdiff_head fun s hs hsame => ?_) rfl
  exact h.head_file s hs (congrArg Prod.fst hsame)

theorem rollback_owns {label : String} {slots : List NodeSlot} (h : Batch T label slots)
    (F : Set (String × Int)) :
    Safe (poolActions T) (rollback label slots) (fun _ r => ∃ F', r = Held.holding F' [])
      (Held.holding F slots) := by
  unfold rollback
  refine Safe.mono (Safe.forEach
    (fun rest r => Batch T label rest ∧ ∃ F', r = Held.holding F' rest) ⟨h, F, rfl⟩ ?_)
    fun _ r hr => hr.2
  rintro slot rest r ⟨hbatch, F', rfl⟩
  have hlabel : (label, slot.gpuInfo.index) = slot.key := by
    rw [← hbatch.label slot List.mem_cons_self]
    rfl
  have htoken : slot.token ∈ (Held.holding F' (slot :: rest)).locks :=
    ⟨slot, List.mem_cons_self, rfl⟩
  refine (inOs_owns (release_owns slot.fileLock htoken)).bind fun _ r₁ h₁ => ?_
  have hkey : (label, slot.gpuInfo.index) ∈ r₁.mem := by
    rw [h₁, hlabel]
    exact ⟨slot, List.mem_cons_self, rfl⟩
  refine Safe.perform ⟨by rw [h₁]; rfl, Or.inl hkey⟩ fun _ r₂ h₂ => ?_
  refine ⟨hbatch.tail, insert slot.key F', ?_⟩
  rw [← hbatch.holding_tail F' (insert slot.key F'), show r₂ = _ from h₂, h₁, hlabel]
  rfl

/-- What a multi-GPU attempt owns when it ends: the slots acquired so far. -/
def Acquired (T : Topology) (label : String) (b : Except (List NodeSlot) (List NodeSlot))
    (r : Held) : Prop :=
  match b with
  | .error acquired => Batch T label acquired ∧ ∃ F, r = Held.holding F acquired
  | .ok acquired => Batch T label acquired ∧ ∃ F, r = Held.holding F acquired

/-- Taking the lock of a GPU that was just allocated: either a slot is added or
the index is still out. -/
theorem lockTaken_owns {spec : NodeSpec} (hspec : ∃ gpus, T.gpus spec.label = some gpus)
    {acquired : List NodeSlot} (hbatch : Batch T spec.label acquired) {F : Set (String × Int)}
    {gpu : GpuInfo} {r : Held} (testId : String)
    (h : Took T spec.label (Held.holding F acquired) (.ok gpu) r) :
    Safe (poolActions T) (inOs (GpuFileLock.acquire pid spec.label gpu.index testId))
      (fun b r' => match b with
        | .error _ => r' = r
        | .ok lock => Batch T spec.label (acquired ++ [newSlot T spec gpu lock]) ∧
            ∃ F', r' = Held.holding F' (acquired ++ [newSlot T spec gpu lock])) r := by
  obtain ⟨hidx, hnew, hr⟩ := h
  refine Safe.mono (inOs_owns (acquire_owns pid spec.label gpu.index testId (r := r)
    (by rw [hr]; rfl))) fun b r' h' => ?_
  cases b with
  | error e => exact h'
  | ok lock =>
    obtain ⟨hfile, hr'⟩ := h'
    have hkey : ∀ s ∈ acquired, s.key ≠ (newSlot T spec gpu lock).key :=
      fun s hs hsame => hnew ⟨s, hs, hsame⟩
    refine ⟨hbatch.append (newSlot_sound T hspec hidx hfile) rfl hkey,
      F \ {(spec.label, gpu.index)}, ?_⟩
    rw [hr', hr, Held.holding_append]
    rfl

/-- Restore the in-memory slot after the lock failed. -/
theorem giveBack_owns {label : String} {acquired : List NodeSlot} {F : Set (String × Int)}
    {gpu : GpuInfo} {r : Held} (h : Took T label (Held.holding F acquired) (.ok gpu) r) :
    Safe (poolActions T) (deallocate label gpu none)
      (fun _ r' => ∃ F', r' = Held.holding F' acquired) r := by
  obtain ⟨hidx, hnew, hr⟩ := h
  have hmem : (label, gpu.index) ∈ r.mem := by
    rw [hr]
    exact Set.mem_insert _ _
  refine Safe.perform ⟨by rw [hr]; rfl, Or.inl hmem⟩ fun _ r' h' => ?_
  refine ⟨insert (label, gpu.index) (F \ {(label, gpu.index)}), ?_⟩
  rw [show r' = _ from h', hr]
  refine Held.ext rfl rfl ?_ rfl rfl rfl
  exact Set.insert_sdiff_self_of_notMem hnew

theorem takeGpus_owns {spec : NodeSpec} (hspec : ∃ gpus, T.gpus spec.label = some gpus) (v : ℚ)
    (testId : String) :
    ∀ (n : Nat) {acquired : List NodeSlot} (F : Set (String × Int)),
      Batch T spec.label acquired →
        Safe (poolActions T) (takeGpus T pid spec v testId n acquired) (Acquired T spec.label)
          (Held.holding F acquired) := by
  intro n
  induction n with
  | zero => intro acquired F hbatch; exact .ret ⟨hbatch, F, rfl⟩
  | succ n ih =>
    intro acquired F hbatch
    refine .act rfl fun b r₁ h₁ => ?_
    cases b with
    | error e =>
      rw [show r₁ = _ from h₁]
      exact .ret ⟨hbatch, F, rfl⟩
    | ok gpu =>
      refine (lockTaken_owns pid hspec hbatch testId h₁).bind fun lock r₂ h₂ => ?_
      cases lock with
      | error e =>
        rw [show r₂ = r₁ from h₂]
        exact (giveBack_owns h₁).bind fun _ r₃ h₃ => .ret ⟨hbatch, h₃⟩
      | ok lock =>
        obtain ⟨hbatch', F', rfl⟩ := h₂
        exact ih F' hbatch'

theorem tryNode_owns {spec : NodeSpec} (hspec : ∃ gpus, T.gpus spec.label = some gpus)
    (count : Int) (v : ℚ) (testId : String) (F : Set (String × Int)) :
    Safe (poolActions T) (tryNode T pid spec count v testId)
      (fun acquired r => Batch T spec.label acquired ∧ ∃ F', r = Held.holding F' acquired)
      (Held.holding F []) := by
  refine (takeGpus_owns pid hspec v testId count.toNat F (Batch.nil T _)).bind fun b r h => ?_
  cases b with
  | ok acquired => exact .ret h
  | error acquired =>
    obtain ⟨hbatch, F', rfl⟩ := h
    exact (rollback_owns hbatch F').bind fun _ r₁ h₁ => .ret ⟨Batch.nil T _, h₁⟩

theorem tryNodes_owns (count : Int) (v : ℚ) (testId : String) :
    ∀ (specs : List NodeSpec) (F : Set (String × Int)),
      Safe (poolActions T) (tryNodes T pid count v testId specs)
        (fun b r => (∃ label, Batch T label (b.toList.flatMap (·.slots))) ∧
          ∃ F', r = Held.holding F' (b.toList.flatMap (·.slots)))
        (Held.holding F []) := by
  intro specs
  induction specs with
  | nil => intro F; exact .ret ⟨⟨"", Batch.nil T _⟩, F, rfl⟩
  | cons spec specs ih =>
    intro F
    rw [tryNodes]
    cases hg : T.gpus spec.label with
    | none => exact ih F
    | some gpus =>
      refine (tryNode_owns pid ⟨gpus, hg⟩ count v testId F).bind fun acquired r h => ?_
      obtain ⟨hbatch, F', rfl⟩ := h
      cases acquired with
      | nil => exact ih F'
      | cons slot slots =>
        refine .ret ⟨⟨spec.label, ?_⟩, F', ?_⟩
        · simpa using hbatch
        · simp

variable (T)

theorem slotsRound_owns (count : Int) (nodeLabel : Option String) (v : ℚ) (testId : String) :
    Safe (poolActions T) (slotsRound T pid count nodeLabel v testId) (fun _ r => r = Held.busy)
      Held.busy := by
  refine lockPool_owns T ?_
  refine (tryNodes_owns pid count v testId (T.candidateSpecs nodeLabel) ∅).bind fun b r h => ?_
  obtain ⟨⟨label, hbatch⟩, F, rfl⟩ := h
  exact deliver_owns T .slots hbatch.sound hbatch.files (.ret rfl)

theorem registerAll_owns (count : Int) (timeoutAt : ℚ) :
    ∀ (specs : List NodeSpec) (regs : List (String × Nat)),
      Safe (poolActions T) (registerAll count timeoutAt specs regs) (fun _ r => r = Held.busy)
        Held.busy := by
  intro specs
  induction specs with
  | nil => intro regs; exact .ret rfl
  | cons spec specs ih =>
    intro regs
    refine .act trivial fun reqId r₁ h₁ => ?_
    rw [show r₁ = Held.busy from h₁]
    exact ih _

theorem deregisterAll_owns (regs : List (String × Nat)) :
    Safe (poolActions T) (deregisterAll regs) (fun _ r => r = Held.busy) Held.busy := by
  unfold deregisterAll
  refine Safe.forEach (fun _ r => r = Held.busy) rfl fun x rest r hr => ?_
  subst hr
  exact .act trivial fun _ r₁ h₁ => .ret h₁

theorem acquireSlots_owns (count : Int) (nodeLabel : Option String) (v w : ℚ) (testId : String) :
    Safe (poolActions T) (acquireSlots T pid count nodeLabel v w testId)
      (fun _ r => r = Held.busy) Held.busy := by
  unfold acquireSlots
  by_cases hcap : T.hasVramCapacity v count nodeLabel
  · rw [if_pos hcap]
    refine .act trivial fun start r₁ h₁ => ?_
    rw [show r₁ = Held.busy from h₁]
    refine (registerAll_owns T count _ _ []).bind fun regs r h => ?_
    subst h
    refine Safe.bind (pollLoop_owns T ?_) fun result r h => ?_
    · refine (slotsRound_owns T pid count nodeLabel v testId).bind fun found r h => ?_
      subst h
      cases found with
      | some multi => exact .ret rfl
      | none => exact poll_owns T (start + w) (.noSlots count w)
    · subst h
      exact (deregisterAll_owns T regs).bind fun _ r h => .ret h
  · rw [if_neg hcap]; exact .ret rfl

/-! ## Pinned GPUs -/

theorem ownerOf_gpus {indices : List Int} {spec : NodeSpec} (h : T.ownerOf indices = some spec) :
    ∃ gpus, T.gpus spec.label = some gpus := by
  have hfound := List.find?_some h
  cases hg : T.gpus spec.label with
  | none => simp [hg] at hfound
  | some gpus => exact ⟨gpus, rfl⟩

theorem specificRound_owns {spec : NodeSpec} (hspec : ∃ gpus, T.gpus spec.label = some gpus)
    (i : Int) (testId : String) :
    Safe (poolActions T) (specificRound T pid spec i testId) (fun _ r => r = Held.busy)
      Held.busy := by
  refine lockPool_owns T ?_
  refine .act rfl fun b r₁ h₁ => ?_
  obtain ⟨htook, hi⟩ := h₁
  cases b with
  | error e =>
    rw [show r₁ = _ from htook]
    exact unlockPool_owns T (.ret rfl)
  | ok gpu =>
    obtain rfl := hi gpu rfl
    refine (lockTaken_owns pid hspec (Batch.nil T _) testId htook).bind fun lock r₂ h₂ => ?_
    cases lock with
    | ok lock =>
      obtain ⟨hbatch, F, rfl⟩ := h₂
      exact deliver_owns T .specificSlot hbatch.sound hbatch.files (.ret rfl)
    | error e =>
      rw [show r₂ = r₁ from h₂]
      refine (giveBack_owns htook).bind fun _ r₃ h₃ => ?_
      obtain ⟨F, rfl⟩ := h₃
      refine (inOs_owns (holderIsAlive_owns spec.label gpu.index _)).bind fun alive r₄ h₄ => ?_
      subst h₄
      exact unlockPool_owns T (.ret rfl)

theorem acquireSpecificSlot_owns (i : Int) (w : ℚ) (testId : String) :
    Safe (poolActions T) (acquireSpecificSlot T pid i w testId) (fun _ r => r = Held.busy)
      Held.busy := by
  unfold acquireSpecificSlot
  cases howner : T.ownerOf [i] with
  | none => exact .ret rfl
  | some spec =>
    refine .act trivial fun start r₁ h₁ => ?_
    rw [show r₁ = Held.busy from h₁]
    refine .act trivial fun reqId r₂ h₂ => ?_
    rw [show r₂ = Held.busy from h₂]
    refine Safe.bind (pollLoop_owns T ?_) fun result r h => ?_
    · refine (specificRound_owns T pid (ownerOf_gpus T howner) i testId).bind fun x r h => ?_
      subst h
      cases x with
      | taken slot => exact .ret rfl
      | holderGone => exact .ret rfl
      | unavailable => exact poll_owns T (start + w) (.indexNotAcquired i w)
    · subst h
      exact .act trivial fun _ r h => .ret h

theorem takeIndices_owns {spec : NodeSpec} (hspec : ∃ gpus, T.gpus spec.label = some gpus)
    (testId : String) :
    ∀ (indices : List Int) {acquired : List NodeSlot} (F : Set (String × Int)),
      Batch T spec.label acquired →
        Safe (poolActions T) (takeIndices T pid spec testId indices acquired)
          (Acquired T spec.label) (Held.holding F acquired) := by
  intro indices
  induction indices with
  | nil => intro acquired F hbatch; exact .ret ⟨hbatch, F, rfl⟩
  | cons i indices ih =>
    intro acquired F hbatch
    refine .act rfl fun b r₁ h₁ => ?_
    obtain ⟨htook, hi⟩ := h₁
    cases b with
    | error e =>
      rw [show r₁ = _ from htook]
      exact .ret ⟨hbatch, F, rfl⟩
    | ok gpu =>
      obtain rfl := hi gpu rfl
      refine (lockTaken_owns pid hspec hbatch testId htook).bind fun lock r₂ h₂ => ?_
      cases lock with
      | error e =>
        rw [show r₂ = r₁ from h₂]
        refine (giveBack_owns htook).bind fun _ r₃ h₃ => ?_
        refine (inOs_owns (holderIsAlive_owns spec.label gpu.index r₃)).bind fun _ r₄ h₄ => ?_
        subst h₄
        exact .ret ⟨hbatch, h₃⟩
      | ok lock =>
        obtain ⟨hbatch', F', rfl⟩ := h₂
        exact ih F' hbatch'

theorem specificSlotsRound_owns {spec : NodeSpec} (hspec : ∃ gpus, T.gpus spec.label = some gpus)
    (indices : List Int) (testId : String) :
    Safe (poolActions T) (specificSlotsRound T pid spec indices testId) (fun _ r => r = Held.busy)
      Held.busy := by
  refine lockPool_owns T ?_
  refine Safe.bind (Q := fun b r => Batch T spec.label (b.getD []) ∧
    ∃ F, r = Held.holding F (b.getD [])) ?_ fun b r h => ?_
  · refine (takeIndices_owns T pid hspec testId indices ∅ (Batch.nil T _)).bind fun b r h => ?_
    cases b with
    | ok acquired => exact .ret h
    | error acquired =>
      obtain ⟨hbatch, F, rfl⟩ := h
      exact (rollback_owns hbatch F).bind fun _ r₁ h₁ => .ret ⟨Batch.nil T _, h₁⟩
  · obtain ⟨hbatch, F, rfl⟩ := h
    exact deliver_owns T .specificSlots hbatch.sound hbatch.files (.ret rfl)

theorem acquireSpecificSlots_owns (indices : List Int) (w : ℚ) (testId : String) :
    Safe (poolActions T) (acquireSpecificSlots T pid indices w testId) (fun _ r => r = Held.busy)
      Held.busy := by
  unfold acquireSpecificSlots
  cases howner : T.ownerOf indices with
  | none => exact .ret rfl
  | some spec =>
    refine .act trivial fun start r₁ h₁ => ?_
    rw [show r₁ = Held.busy from h₁]
    refine .act trivial fun reqId r₂ h₂ => ?_
    rw [show r₂ = Held.busy from h₂]
    refine Safe.bind (pollLoop_owns T ?_) fun result r h => ?_
    · refine (specificSlotsRound_owns T pid (ownerOf_gpus T howner) indices testId).bind
        fun x r h => ?_
      subst h
      cases x with
      | some slots => exact .ret rfl
      | none => exact poll_owns T (start + w) (.indicesNotAcquired indices w)
    · subst h
      exact .act trivial fun _ r h => .ret h

/-! ## All nodes, release, and the worker -/

theorem acquireEach_owns (n : Markers.Scalar) (v w : ℚ) (testId : String) :
    ∀ (specs : List NodeSpec) (result : List MultiGpuSlots),
      Safe (poolActions T) (acquireEach T pid n v w testId specs result) (fun _ r => r = Held.busy)
        Held.busy := by
  intro specs
  induction specs with
  | nil => intro result; exact .ret rfl
  | cons spec specs ih =>
    intro result
    rw [acquireEach]
    cases countOn T n spec with
    | error e => exact .ret rfl
    | ok count =>
      refine (acquireSlots_owns T pid count (some spec.label) v w testId).bind fun b r h => ?_
      subst h
      cases b with
      | error e => exact .ret rfl
      | ok slots => exact ih _

theorem releaseSlots_owns {slots : List NodeSlot}
    (hspec : ∀ slot ∈ slots, ∃ gpus, T.gpus slot.nodeSpec.label = some gpus) :
    Safe (poolActions T) (release T slots) (fun _ r => r = Held.busy)
      { Held.busy with rel := slots } := by
  unfold release
  refine Safe.mono (Safe.forEach (fun rest r =>
    (∀ slot ∈ rest, ∃ gpus, T.gpus slot.nodeSpec.label = some gpus) ∧
      r = { Held.busy with rel := rest }) ⟨hspec, rfl⟩ ?_) fun _ r hr => hr.2
  rintro slot rest r ⟨hrest, rfl⟩
  obtain ⟨gpus, hg⟩ := hrest slot List.mem_cons_self
  dsimp only
  rw [hg]
  refine .act ⟨rfl, rfl, rfl, rest, rfl⟩ fun _ r₁ h₁ => ?_
  have hr₁ : r₁ = { Held.busy with rel := rest, locks := insert slot.token ∅ } := h₁
  have htoken : slot.token ∈ r₁.locks := by
    rw [hr₁]
    exact Set.mem_insert _ _
  refine (inOs_owns (release_owns slot.fileLock htoken)).mono fun _ r₂ h₂ => ?_
  refine ⟨fun s hs => hrest s (List.mem_cons_of_mem _ hs), ?_⟩
  rw [h₂, hr₁]
  refine Held.ext rfl rfl rfl rfl ?_ rfl
  simp [Held.busy]

theorem runCall_owns (call : Call) {r : Held}
    (h : (poolActions T).post .nextCall Held.idle call r) :
    Safe (poolActions T) (runCall T pid call) (fun _ r => r = Held.busy) r := by
  cases call with
  | acquireSlot v w testId =>
    rw [show r = Held.busy from h]
    exact (acquireSlot_owns T pid v w testId).bind fun _ r h => .ret h
  | acquireSlots n label v w testId =>
    rw [show r = Held.busy from h]
    exact (acquireSlots_owns T pid n label v w testId).bind fun _ r h => .ret h
  | acquireSpecificSlot i w testId =>
    rw [show r = Held.busy from h]
    exact (acquireSpecificSlot_owns T pid i w testId).bind fun _ r h => .ret h
  | acquireSpecificSlots is w testId =>
    rw [show r = Held.busy from h]
    exact (acquireSpecificSlots_owns T pid is w testId).bind fun _ r h => .ret h
  | acquireMultiNode n v w testId =>
    rw [show r = Held.busy from h]
    exact (acquireEach_owns T pid n v w testId T.nodeSpecs []).bind fun _ r h => .ret h
  | release slots =>
    obtain ⟨hspec, rfl⟩ := h
    exact releaseSlots_owns T hspec

theorem worker_owns : Safe (poolActions T) (worker T pid) (fun _ _ => True) Held.idle := by
  refine Safe.iter (fun _ r => r = Held.idle) rfl fun _ r hr => ?_
  subst hr
  refine .act rfl fun call r₁ h₁ => ?_
  refine (runCall_owns T pid call h₁).bind fun _ r₂ h₂ => ?_
  subst h₂
  exact .act ⟨rfl, rfl⟩ fun _ r₃ h₃ => .ret h₃

end

end Pool

end Nodes
end RocmTests

import RocmTests.Gpu.Detector

/-!
# Filling the gaps of a GPU list

Enrichment asks the KFD tree and up to two `amd-smi` binaries, and merges the first list
that fits.  A merge hands each GPU an architecture and an amount of VRAM; where one device
stands for several GPUs each is handed a share of it.
-/

namespace RocmTests
namespace Gpu
namespace Detection

open Conc Text

/-! ## What is handed to each GPU -/

/-- A list that one of the two strategies merges. -/
def Fits (gpus smi : List GpuInfo) : Prop :=
  smi ≠ [] ∧ (smi.length = gpus.length ∨ smi.length = 1 ∧ 1 < gpus.length)

instance instDecidableFits {gpus smi : List GpuInfo} : Decidable (Fits gpus smi) :=
  inferInstanceAs (Decidable (_ ∧ _))

/-- `per_partition_vram_mb`. -/
def share (physical : GpuInfo) (partitions : Nat) : Int :=
  if 0 < physical.vramMb then physical.vramMb / partitions else 0

/-- The architecture and the VRAM for each GPU. -/
def handed (gpus smi : List GpuInfo) : List (JsonValue × Int) :=
  if smi.length = gpus.length then smi.map fun s => (s.arch, s.vramMb)
  else
    smi.flatMap fun physical =>
      List.replicate gpus.length (physical.arch, share physical gpus.length)

def merge (gpus smi : List GpuInfo) : List GpuInfo :=
  gpus.zipWith (fun g x => withSmi x.1 x.2 g) (handed gpus smi)

theorem length_handed {gpus smi : List GpuInfo} (h : Fits gpus smi) :
    (handed gpus smi).length = gpus.length := by
  unfold handed
  split_ifs with hlength
  · rw [List.length_map, hlength]
  · obtain ⟨physical, rfl⟩ := List.length_eq_one_iff.mp (h.2.resolve_left hlength).1
    rw [List.flatMap_singleton, List.length_replicate]

/-- The broadcast. -/
theorem merge_singleton {gpus : List GpuInfo} (physical : GpuInfo) (h : 1 < gpus.length) :
    merge gpus [physical] =
      gpus.map fun g => withSmi physical.arch (share physical gpus.length) g := by
  have hhanded : handed gpus [physical] =
      gpus.map fun _ => (physical.arch, share physical gpus.length) := by
    unfold handed
    rw [if_neg (show [physical].length ≠ gpus.length from Nat.ne_of_lt h),
      List.flatMap_singleton, List.map_const']
  unfold merge
  rw [hhanded, List.zipWith_map_right, List.zipWith_self]

section

variable (loads : Txt → Except Raised JsonValue) (env : Env)

/-- The answer of a binary, if it fits. -/
def answer (gpus : List GpuInfo) (path : Txt) : Option (List GpuInfo) :=
  match (detectViaAmdSmiAt loads env path).value with
  | .ok smi => if Fits gpus smi then some smi else none
  | .error _ => none

/-- The answer that is merged.  Nothing is asked where every GPU has VRAM. -/
def used (d : Detector) (gpus : List GpuInfo) : Option (List GpuInfo) :=
  if gpus.all fun g => 0 < g.vramMb then none
  else
    (systemAmdSmi :: if d.rockDir = [] then [] else [rockAmdSmi d]).findSome?
      (answer loads env gpus)

theorem fits_answer {gpus smi : List GpuInfo} {path : Txt}
    (h : answer loads env gpus path = some smi) : Fits gpus smi := by
  unfold answer at h
  split at h
  next smi' _ =>
    split_ifs at h with hfits
    rwa [← Option.some.inj h]
  next => cases h

theorem fits_used {d : Detector} {gpus smi : List GpuInfo}
    (h : used loads env d gpus = some smi) : Fits gpus smi := by
  unfold used at h
  by_cases hall : gpus.all fun g => 0 < g.vramMb
  · rw [if_pos hall] at h
    cases h
  · rw [if_neg hall] at h
    obtain ⟨_, _, hanswer⟩ := List.exists_of_findSome?_eq_some h
    exact fits_answer loads env hanswer

/-- One binary: its answer is merged, or the next one is asked. -/
theorem enrichFrom_cons (gpus : List GpuInfo) (path : Txt) (paths : List Txt) :
    (enrichFrom loads env gpus (path :: paths)).value =
      ((answer loads env gpus path).map (merge gpus)).getD
        (enrichFrom loads env gpus paths).value := by
  rw [enrichFrom, Traced.value_bind]
  unfold answer
  cases (detectViaAmdSmiAt loads env path).value with
  | error e => rfl
  | ok smi =>
    by_cases hempty : smi = []
    · have hfits : ¬ Fits gpus smi := fun h => h.1 hempty
      simp only [hfits, if_false]
      rw [if_pos hempty]
      rfl
    by_cases hlength : smi.length = gpus.length
    · have hfits : Fits gpus smi := ⟨hempty, Or.inl hlength⟩
      have hmerge : merge gpus smi = gpus.zipWith (fun g s => withSmi s.arch s.vramMb g) smi := by
        unfold merge handed
        rw [if_pos hlength, List.zipWith_map_right]
      simp only [hempty, hlength, hfits, if_true, if_false]
      rw [Option.map_some, Option.getD_some, hmerge]
      rfl
    simp only [hempty, hlength, if_false]
    rcases smi with _ | ⟨physical, _ | ⟨b, smi⟩⟩
    · exact absurd rfl hempty
    · by_cases hpartitions : 1 < gpus.length
      · have hfits : Fits gpus [physical] := ⟨hempty, Or.inr ⟨rfl, hpartitions⟩⟩
        simp only [hpartitions, hfits, if_true]
        rw [Option.map_some, Option.getD_some, merge_singleton physical hpartitions]
        rfl
      · have hfits : ¬ Fits gpus [physical] :=
          fun h => h.2.elim hlength fun h => hpartitions h.2
        simp only [hpartitions, hfits, if_false]
        rfl
    · have hfits : ¬ Fits gpus (physical :: b :: smi) :=
        fun h => h.2.elim hlength fun h => Nat.succ_ne_zero _ (Nat.succ.inj h.1)
      simp only [hfits, if_false]
      rfl

theorem enrichFrom_value (gpus : List GpuInfo) (paths : List Txt) :
    (enrichFrom loads env gpus paths).value =
      ((paths.findSome? (answer loads env gpus)).map (merge gpus)).getD gpus := by
  induction paths with
  | nil => rfl
  | cons path paths ih =>
    rw [enrichFrom_cons, List.findSome?_cons]
    cases answer loads env gpus path with
    | some smi => rfl
    | none => exact ih

theorem enrichViaAmdSmi_value (d : Detector) (gpus : List GpuInfo) :
    (enrichViaAmdSmi loads env d gpus).value =
      ((used loads env d gpus).map (merge gpus)).getD gpus := by
  unfold enrichViaAmdSmi used
  split_ifs with hall hrock
  · rfl
  · exact enrichFrom_value loads env gpus _
  · exact enrichFrom_value loads env gpus _

end

/-! ## Filling gaps only -/

/-- What each GPU got. -/
def given (gpus gpus' : List GpuInfo) : List Int :=
  gpus.zipWith (fun g g' => g'.vramMb - g.vramMb) gpus'

section

variable (loads : Txt → Except Raised JsonValue) (env : Env)

structure FillsGaps (d : Detector) (gpus : List GpuInfo) : Prop where
  kfd_indices : (enrichViaKfd env d gpus).value.map GpuInfo.index = gpus.map GpuInfo.index
  smi_indices :
    (enrichViaAmdSmi loads env d gpus).value.map GpuInfo.index = gpus.map GpuInfo.index
  complete : ∀ (i : Nat) (g : GpuInfo), gpus[i]? = some g → 0 < g.vramMb →
    (enrichViaAmdSmi loads env d gpus).value[i]? = some g
  broadcast : ∀ physical, used loads env d gpus = some [physical] → 1 < gpus.length →
    (given gpus (enrichViaAmdSmi loads env d gpus).value).sum ≤ physical.vramMb

end

/-- Each GPU with VRAM is handed no architecture, or its own. -/
def KeepsArch (gpus smi : List GpuInfo) : Prop :=
  ∀ (i : Nat) (g : GpuInfo) (x : JsonValue × Int), gpus[i]? = some g → 0 < g.vramMb →
    (handed gpus smi)[i]? = some x → isUnknown x.1 ∨ x.1 = g.arch

/-- A GPU with VRAM is left alone. -/
theorem withSmi_eq_self {arch : JsonValue} {vramMb : Int} {g : GpuInfo} (h : 0 < g.vramMb) :
    withSmi arch vramMb g = g ↔ isUnknown arch ∨ arch = g.arch := by
  obtain ⟨index, arch', vramMb', numaNode⟩ := g
  unfold withSmi
  simp only at h ⊢
  rw [if_neg (Int.ne_of_gt h), GpuInfo.mk.injEq]
  simp only [true_and, and_true]
  by_cases hunknown : isUnknown arch
  · simp [hunknown]
  · simp [hunknown]

theorem complete_iff {gpus smi : List GpuInfo} (hfits : Fits gpus smi) :
    (∀ (i : Nat) (g : GpuInfo), gpus[i]? = some g → 0 < g.vramMb → (merge gpus smi)[i]? = some g) ↔
      KeepsArch gpus smi := by
  have hmerge : ∀ {i : Nat} {g : GpuInfo} {x : JsonValue × Int}, gpus[i]? = some g →
    (handed gpus smi)[i]? = some x →
      (merge gpus smi)[i]? = some (withSmi x.1 x.2 g) := by
    intro i g x hg hx
    unfold merge
    rw [List.getElem?_zipWith, hg, hx]
  constructor
  · intro h i g x hg hpos hx
    have hsame := h i g hg hpos
    rw [hmerge hg hx] at hsame
    exact (withSmi_eq_self hpos).mp (Option.some.inj hsame)
  · intro h i g hg hpos
    have hlt : i < (handed gpus smi).length := by
      rw [length_handed hfits]
      exact (List.getElem?_eq_some_iff.mp hg).1
    have hx := List.getElem?_eq_getElem hlt
    rw [hmerge hg hx, (withSmi_eq_self hpos).mpr (h i g _ hg hpos hx)]

/-! ### The shares -/

theorem withSmi_vramMb_sub (arch : JsonValue) (vramMb : Int) (g : GpuInfo) :
    (withSmi arch vramMb g).vramMb - g.vramMb = if g.vramMb = 0 then vramMb else 0 := by
  show (if g.vramMb = 0 then vramMb else g.vramMb) - g.vramMb = _
  split_ifs with hzero
  · rw [hzero, Int.sub_zero]
  · exact Int.sub_self _

theorem given_broadcast {gpus : List GpuInfo} (physical : GpuInfo) (h : 1 < gpus.length) :
    given gpus (merge gpus [physical]) =
      gpus.map fun g => if g.vramMb = 0 then share physical gpus.length else 0 := by
  unfold given
  rw [merge_singleton physical h, List.zipWith_map_right, List.zipWith_self]
  exact List.map_congr_left fun g _ => withSmi_vramMb_sub _ _ g

/-- At most as many shares are given as there are GPUs. -/
theorem sum_shares_le {s : Int} (hs : 0 ≤ s) (gpus : List GpuInfo) :
    (gpus.map fun g => if g.vramMb = 0 then s else 0).sum ≤ gpus.length * s := by
  induction gpus with
  | nil => simp
  | cons g gpus ih =>
    rw [List.map_cons, List.sum_cons, List.length_cons, Nat.cast_succ, Int.add_mul, Int.one_mul,
      Int.add_comm]
    have hone : (if g.vramMb = 0 then s else 0) ≤ s := by
      split_ifs
      · exact Int.le_refl s
      · exact hs
    exact Int.add_le_add ih hone

/-- The shares add up to no more than there is, unless there is less than nothing. -/
theorem sum_given_le_iff {gpus : List GpuInfo} (physical : GpuInfo) (h : 1 < gpus.length) :
    (given gpus (merge gpus [physical])).sum ≤ physical.vramMb ↔ 0 ≤ physical.vramMb := by
  rw [given_broadcast physical h]
  unfold share
  by_cases hpos : 0 < physical.vramMb
  · rw [if_pos hpos]
    refine iff_of_true ?_ (Int.le_of_lt hpos)
    have hshare : 0 ≤ physical.vramMb / gpus.length :=
      Int.ediv_nonneg (Int.le_of_lt hpos) (Int.natCast_nonneg _)
    exact (sum_shares_le hshare gpus).trans (Int.mul_ediv_self_le (by omega))
  · rw [if_neg hpos]
    simp only [ite_self, List.map_const', List.sum_replicate, smul_zero]

section

variable (loads : Txt → Except Raised JsonValue) (env : Env)

/-- Enrichment only fills gaps where what it merges has the architectures that are known,
and no device with less than nothing is shared. -/
theorem fillsGaps_iff (d : Detector) (gpus : List GpuInfo) :
    FillsGaps loads env d gpus ↔
      ∀ smi, used loads env d gpus = some smi →
        KeepsArch gpus smi ∧
          ∀ physical, smi = [physical] → 1 < gpus.length → 0 ≤ physical.vramMb := by
  have hvalue := enrichViaAmdSmi_value loads env d gpus
  constructor
  · intro h smi hused
    rw [hused, Option.map_some, Option.getD_some] at hvalue
    refine ⟨(complete_iff (fits_used loads env hused)).mp ?_, ?_⟩
    · intro i g hg hpos
      rw [← hvalue]
      exact h.complete i g hg hpos
    · intro physical hsmi hpartitions
      have hsum := h.broadcast physical (hsmi ▸ hused) hpartitions
      rw [hvalue, hsmi] at hsum
      exact (sum_given_le_iff physical hpartitions).mp hsum
  · intro h
    refine ⟨enrichViaKfd_index env d gpus, enrichViaAmdSmi_index loads env d gpus, ?_, ?_⟩
    · cases hused : used loads env d gpus with
      | none =>
        rw [hvalue, hused]
        exact fun i g hg _ => hg
      | some smi =>
        rw [hvalue, hused]
        exact (complete_iff (fits_used loads env hused)).mpr (h smi hused).1
    · intro physical hused hpartitions
      rw [hvalue, hused]
      exact (sum_given_le_iff physical hpartitions).mpr
        ((h _ hused).2 physical rfl hpartitions)

end

/-! ### A mixed machine -/

section

/-- What `amd-smi` prints of one device. -/
def deviceText : Txt :=
  "\x7b\"asic\": \x7b\"target_graphics_version\": \"gfx942\"\x7d\x7d".toList

/-- `amd-smi` shows two devices. -/
def twoDevicesText : Txt := '[' :: deviceText ++ ", ".toList ++ deviceText ++ [']']

def twoDevices (t : Txt) : Except Raised JsonValue :=
  let device := JsonValue.obj [("asic".toList,
    .obj [("target_graphics_version".toList, .str "gfx942".toList)])]
  if t = twoDevicesText then .ok (.arr [device, device]) else .error .valueError

/-- Every command succeeds. -/
def smiOnly : Env where
  command := fun _ _ => .ok (0, twoDevicesText)
  pathExists := fun _ _ => .ok false
  iterdir := fun _ _ => .ok []
  readText := fun _ _ => .ok []

/-- The card is complete, and the APU beside it is not. -/
def cardAndApu : List GpuInfo :=
  [{ index := 0, arch := .str "gfx90010".toList, vramMb := 65536 },
    { index := 1, arch := .str unknownArch, vramMb := 0 }]

theorem cardAndApu_overwritten :
    ¬ FillsGaps twoDevices smiOnly (Detector.init [] false) cardAndApu := by
  intro h
  have hkept := h.complete 0 _ rfl (by decide)
  have hoverwritten :
      (enrichViaAmdSmi twoDevices smiOnly (Detector.init [] false) cardAndApu).value[0]? =
        some { index := 0, arch := .str "gfx942".toList, vramMb := 65536 } := rfl
  rw [hoverwritten] at hkept
  have harch := congrArg GpuInfo.arch (Option.some.inj hkept)
  exact absurd (JsonValue.str.inj harch) (by decide)

end

end Detection
end Gpu
end RocmTests

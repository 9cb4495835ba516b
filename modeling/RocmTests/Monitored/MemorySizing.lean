import RocmTests.Text.JsonValue

/-!
# Sizing the memory tests

`high_intensity_blocks_mb` takes a share of the free memory of the fullest GPU.  A
target that is backed by host memory waits until the host has room for it, or until
the deadline, and is then cut to what the last reading of the host permits.

A computed binary64 number is kept exactly, up to overflow and underflow.
-/

namespace RocmTests
namespace Monitored
namespace MemorySizing

open Text

/-! ## The reserve -/

def defaultFreeVramPct : Int := 90
def minHostReserveMb : Int := 32 * 1024
def hostReservePct : Int := 10
def hostReserveMaxPct : Int := 50

def hostReserveMb (totalMb : Int) : Int :=
  min (max minHostReserveMb (totalMb * hostReservePct / 100)) (totalMb * hostReserveMaxPct / 100)

theorem hostReserveMb_le_half (totalMb : Int) : 2 * hostReserveMb totalMb ≤ totalMb := by
  have hcap : hostReserveMb totalMb ≤ totalMb * hostReserveMaxPct / 100 := min_le_right _ _
  have hhalf : totalMb * hostReserveMaxPct / 100 * 100 ≤ totalMb * 50 :=
    Int.ediv_mul_le _ (by decide)
  omega

/-! ## The readings of the GPUs -/

/-- `float(value)`.  The outer `none` is an exception that `_value_mb` does not catch. -/
def floatOf : JsonValue → Option (Option PyFloat)
  | .bool b => some (some (.finite (if b then 1 else 0)))
  | .int n =>
    match PyFloat.ofRat n with
    | .inf _ => none
    | x => some (some x)
  | .float x => some (some x)
  | .str t => some (PyFloat.parse t)
  | _ => some none

/-- The entry of a unit in `scales`. -/
def scaleOf (unit : JsonValue) : Option ℚ :=
  match unit with
  | .str t =>
    let unit := t.map Char.toUpper
    if unit = ['B'] then some (1 / (1024 * 1024))
    else if unit = "KB".toList then some (1 / 1024)
    else if unit = "MB".toList then some 1
    else if unit = "GB".toList then some 1024
    else none
  | _ => none

/-- The value and the unit of a field. -/
def valueAndUnit (field : JsonValue) : JsonValue × JsonValue :=
  match field with
  | .obj items =>
    ((JsonValue.get? items "value".toList).getD .null,
      (JsonValue.get? items "unit".toList).getD (.str "MB".toList))
  | value => (value, .str "MB".toList)

/-- `int(x)` of a binary64 number; `none` is an exception. -/
def truncate : PyFloat → Option Int
  | .finite q => some (q.num.tdiv q.den)
  | _ => none

/-- `number * scale`. -/
def scaled (scale : ℚ) : PyFloat → PyFloat
  | .finite q => .ofRat (q * scale)
  | x => x

/-- `_value_mb`.  The outer `none` is an exception, the inner one no reading. -/
def valueMb (field : JsonValue) : Option (Option Int) := do
  let number ← floatOf (valueAndUnit field).1
  match number, scaleOf (valueAndUnit field).2 with
  | some number, some scale =>
    let result ← truncate (scaled scale number)
    return if 0 ≤ result then some result else none
  | _, _ => return none

/-- The reading of a row of `amd-smi`. -/
def rowReading (row : JsonValue) : Option (Option Int) :=
  match row with
  | .obj row =>
    let memory := (JsonValue.get? row "mem_usage".toList).getD
      ((JsonValue.get? row "memory_usage".toList).getD (.obj []))
    match memory with
    | .obj memory =>
      valueMb ((JsonValue.get? memory "free_vram".toList).getD
        ((JsonValue.get? memory "free_visible_vram".toList).getD .null))
    | _ => some none
  | _ => some none

/-- What the call of `amd-smi` gives: its exit code, and its output read as JSON. -/
structure AmdSmi where
  exitCode : Int
  output : Option JsonValue

/-- The rows of the output. -/
def AmdSmi.rows (r : AmdSmi) : Option (List JsonValue) :=
  if r.exitCode ≠ 0 then none
  else
    match r.output with
    | some (.obj items) =>
      match (JsonValue.get? items "gpu_data".toList).getD
          ((JsonValue.get? items "gpu".toList).getD (.arr [])) with
      | .arr rows => some rows
      | _ => none
    | some (.arr rows) => some rows
    | _ => none

/-- The loop over the rows: the readings there are.  `none` is an exception. -/
def collectReadings : List JsonValue → Option (List Int)
  | [] => some []
  | row :: rows => do
    let value ← rowReading row
    let values ← collectReadings rows
    return value.toList ++ values

/-- The free memory of each GPU that has a reading. -/
def AmdSmi.readings (r : AmdSmi) : Option (List Int) := collectReadings (r.rows.getD [])

/-- `query_min_free_vram_mb`. -/
def queryMinFreeVramMb (r : AmdSmi) : Option (Option Int) := r.readings.map List.min?

theorem valueMb_nonneg {field : JsonValue} {m : Int} (h : valueMb field = some (some m)) :
    0 ≤ m := by
  unfold valueMb at h
  obtain ⟨number, -, h⟩ := Option.bind_eq_some_iff.mp h
  split at h
  · obtain ⟨result, -, h⟩ := Option.bind_eq_some_iff.mp h
    have hm := Option.some.inj h
    split_ifs at hm with hpos
    · rw [← Option.some.inj hm]
      exact hpos
  · cases h

theorem rowReading_nonneg {row : JsonValue} {m : Int} (h : rowReading row = some (some m)) :
    0 ≤ m := by
  unfold rowReading at h
  split at h
  · simp only at h
    split at h
    · exact valueMb_nonneg h
    · cases h
  · cases h

theorem collectReadings_nonneg {rows : List JsonValue} : ∀ {ms : List Int},
    collectReadings rows = some ms → ∀ m ∈ ms, 0 ≤ m := by
  induction rows with
  | nil =>
    intro ms h
    cases h
    exact fun m hm => absurd hm List.not_mem_nil
  | cons row rows ih =>
    intro ms h
    rw [collectReadings] at h
    obtain ⟨value, hvalue, h⟩ := Option.bind_eq_some_iff.mp h
    obtain ⟨values, hvalues, h⟩ := Option.bind_eq_some_iff.mp h
    cases h
    intro m hm
    rcases List.mem_append.mp hm with hm | hm
    · rw [Option.mem_toList] at hm
      exact rowReading_nonneg (hvalue.trans (congrArg some hm))
    · exact ih hvalues m hm

/-! ## The wait for the host -/

/-- What a call meets.  `hostMemory` and `clock` give the successive readings of the
host's memory, total and available, and of the clock. -/
structure Env where
  amdSmi : AmdSmi
  numGpus : Int
  hostBacked : Bool
  recoveryTimeoutSec : ℚ
  requireFullTarget : Bool
  hostMemory : Nat → Option (Int × Int)
  clock : Nat → ℚ

namespace Env

variable (e : Env)

def deadline : ℚ := e.clock 0 + max 0 e.recoveryTimeoutSec

def hostTarget (totalMb availableMb : Int) : Int :=
  max 0 (availableMb - hostReserveMb totalMb) / e.numGpus

/-- How the wait ends: which reading was the last, and the best target of all. -/
structure Waited where
  last : Nat
  hostTarget : Int
  bestHostTarget : Int

/-- The loop from the reading `k` on.  The outer `none` is that the fuel ran out, the
inner one that the host's memory could not be read. -/
def wait (target : Int) : (fuel k : Nat) → (best : Int) → Option (Option Waited)
  | 0, _, _ => none
  | fuel + 1, k, best =>
    match e.hostMemory k with
    | none => some none
    | some (totalMb, availableMb) =>
      let hostTarget := e.hostTarget totalMb availableMb
      let best := max best hostTarget
      if target ≤ hostTarget then some (some ⟨k, hostTarget, best⟩)
      else if e.deadline - e.clock (k + 1) ≤ 0 then some (some ⟨k, hostTarget, best⟩)
      else wait target fuel (k + 1) best

/-- What a call prints about the wait that it gives up. -/
def refusal (w : Waited) (target : Int) : Txt :=
  "  [memory-sizing] Host memory permits ".toList ++ showInt w.hostTarget ++
    " MB/GPU (best ".toList ++ showInt w.bestHostTarget ++
    " MB/GPU during the wait); refusing to reduce the ".toList ++ showInt target ++
    " MB/GPU automatic stress target".toList

inductive Outcome where
  | raised
  | returned (blocks : Option Int) (printed : List Txt)
deriving DecidableEq

/-- `return target if target >= 1024 else None`. -/
def floorTarget (target : Int) : Option Int := if 1024 ≤ target then some target else none

/-- `high_intensity_blocks_mb`, whose line about the wait is left out.  `none` is that
the fuel ran out. -/
def highIntensityBlocksMb (fuel : Nat) : Option Outcome :=
  match queryMinFreeVramMb e.amdSmi with
  | none => some .raised
  | some none => some (.returned none [])
  | some (some freeVramMb) =>
    let target := freeVramMb * defaultFreeVramPct / 100
    if e.hostBacked then
      if e.numGpus < 1 then some (.returned none [])
      else
        (e.wait target fuel 0 0).map fun
          | none => .returned none []
          | some w =>
            if e.requireFullTarget ∧ w.hostTarget < target then
              .returned none [refusal w target]
            else .returned (floorTarget (min target w.hostTarget)) []
    else some (.returned (floorTarget target) [])

/-- The call returns `t`. -/
def Returns (t : Option Int) : Prop :=
  ∃ fuel printed, e.highIntensityBlocksMb fuel = some (.returned t printed)

/-! ## What bounds a target -/

/-- The wait ends at the reading `k`. -/
def StopsAt (target : Int) (k : Nat) : Prop :=
  ∀ totalMb availableMb, e.hostMemory k = some (totalMb, availableMb) →
    target ≤ e.hostTarget totalMb availableMb ∨ e.deadline ≤ e.clock (k + 1)

/-- The host's memory is read until the reading `k`, which is the last. -/
structure LastReading (target : Int) (k : Nat) (totalMb availableMb : Int) : Prop where
  read : e.hostMemory k = some (totalMb, availableMb)
  stops : e.StopsAt target k
  waited : ∀ j < k, ¬ e.StopsAt target j

variable {e}

theorem wait_last {target : Int} {fuel : Nat} : ∀ {k : Nat} {best : Int} {w : Waited},
    e.wait target fuel k best = some (some w) → (∀ j < k, ¬ e.StopsAt target j) →
      ∃ totalMb availableMb, e.LastReading target w.last totalMb availableMb ∧
        w.hostTarget = e.hostTarget totalMb availableMb := by
  induction fuel with
  | zero =>
    intro k best w h
    cases h
  | succ fuel ih =>
    intro k best w h hbefore
    rw [wait] at h
    split at h
    · cases h
    · rename_i totalMb availableMb hread
      simp only at h
      split_ifs at h with hroom hlate
      · cases h
        refine ⟨totalMb, availableMb, ⟨hread, ?_, hbefore⟩, rfl⟩
        intro total available h
        cases hread.symm.trans h
        exact .inl hroom
      · cases h
        refine ⟨totalMb, availableMb, ⟨hread, ?_, hbefore⟩, rfl⟩
        intro total available h
        exact .inr (sub_nonpos.mp hlate)
      · refine ih h fun j hj => ?_
        rcases Nat.lt_succ_iff_lt_or_eq.mp hj with hj | rfl
        · exact hbefore j hj
        · intro hstops
          rcases hstops totalMb availableMb hread with hroom' | hlate'
          · exact hroom hroom'
          · exact hlate (sub_nonpos.mpr hlate')

/-- A target within what a reading permits leaves the reserve. -/
theorem fits_of_le_hostTarget {t totalMb availableMb : Int} (hgpus : 1 ≤ e.numGpus) (ht : 0 < t)
    (h : t ≤ e.hostTarget totalMb availableMb) :
    t * e.numGpus + hostReserveMb totalMb ≤ availableMb := by
  unfold hostTarget at h
  have hmul := (Int.le_ediv_iff_mul_le (by omega)).mp h
  have hpos : 0 < t * e.numGpus := Int.mul_pos ht (by omega)
  omega

/-- The free memory of the fullest GPU. -/
def IsMinFree (r : AmdSmi) (m : Int) : Prop :=
  ∃ ms, r.readings = some ms ∧ m ∈ ms ∧ ∀ x ∈ ms, m ≤ x

theorem query_eq_some {r : AmdSmi} {m : Int} (h : queryMinFreeVramMb r = some (some m)) :
    IsMinFree r m := by
  obtain ⟨ms, hms, hmin⟩ := Option.map_eq_some_iff.mp h
  exact ⟨ms, hms, List.min?_eq_some_iff.mp hmin⟩

theorem floorTarget_eq_some {target t : Int} (h : floorTarget target = some t) :
    t = target ∧ 1024 ≤ t := by
  unfold floorTarget at h
  split_ifs at h with hfloor
  cases h
  exact ⟨rfl, hfloor⟩

/-- What a returned target keeps to: the share of the fullest GPU, and where it is
backed by host memory the last reading of the host. -/
structure Bounded (e : Env) (t minFree : Int) : Prop where
  floor : 1024 ≤ t
  share : t ≤ 90 * minFree / 100
  full : e.requireFullTarget = true → t = 90 * minFree / 100
  host : e.hostBacked = true → ∃ k totalMb availableMb,
    e.LastReading (90 * minFree / 100) k totalMb availableMb ∧
      t * e.numGpus + hostReserveMb totalMb ≤ availableMb ∧
      2 * hostReserveMb totalMb ≤ totalMb

theorem bounded_of_waited {t minFree : Int} {fuel : Nat} {w : Waited} (hgpus : 1 ≤ e.numGpus)
    (hwait : e.wait (90 * minFree / 100) fuel 0 0 = some (some w))
    (hfull : ¬ (e.requireFullTarget = true ∧ w.hostTarget < 90 * minFree / 100))
    (ht : t = min (90 * minFree / 100) w.hostTarget) (hfloor : 1024 ≤ t) :
    Bounded e t minFree := by
  obtain ⟨totalMb, availableMb, hlast, hhost⟩ :=
    wait_last hwait fun j hj => absurd hj (Nat.not_lt_zero j)
  have hle : t ≤ e.hostTarget totalMb availableMb := by
    rw [ht, hhost]
    exact min_le_right _ _
  refine ⟨hfloor, ht.trans_le (min_le_left _ _), ?_, fun _ => ⟨w.last, totalMb, availableMb, hlast,
    fits_of_le_hostTarget hgpus (by omega) hle, hostReserveMb_le_half totalMb⟩⟩
  intro hrequired
  rw [ht]
  exact min_eq_left (not_lt.mp fun hlt => hfull ⟨hrequired, hlt⟩)

theorem bounded_of_returns {t : Int} (h : e.Returns (some t)) :
    ∃ minFree, IsMinFree e.amdSmi minFree ∧ Bounded e t minFree := by
  obtain ⟨fuel, printed, h⟩ := h
  unfold highIntensityBlocksMb at h
  cases hquery : queryMinFreeVramMb e.amdSmi with
  | none =>
    rw [hquery] at h
    cases h
  | some reading =>
    cases reading with
    | none =>
      rw [hquery] at h
      cases h
    | some minFree =>
      rw [hquery] at h
      simp only [defaultFreeVramPct, Int.mul_comm minFree] at h
      refine ⟨minFree, query_eq_some hquery, ?_⟩
      split_ifs at h with hbacked hgpus
      · cases h
      · obtain ⟨outcome, hwait, h⟩ := Option.map_eq_some_iff.mp h
        cases outcome with
        | none => cases h
        | some w =>
          simp only at h
          split_ifs at h with hfull
          · cases h
          · obtain ⟨ht, hfloor⟩ := floorTarget_eq_some (Outcome.returned.inj h).1
            exact bounded_of_waited (by omega) hwait hfull ht hfloor
      · obtain ⟨ht, hfloor⟩ := floorTarget_eq_some (Outcome.returned.inj (Option.some.inj h)).1
        exact ⟨hfloor, ht.le, fun _ => ht, fun hbacked' => absurd hbacked' hbacked⟩

/-- With a GPU that has no memory left the target is 0, which any host permits. -/
theorem query_of_exhausted {r : AmdSmi} {ms : List Int} (hms : r.readings = some ms)
    (hzero : 0 ∈ ms) : queryMinFreeVramMb r = some (some 0) := by
  unfold queryMinFreeVramMb
  rw [hms, Option.map_some, List.min?_eq_some_iff.mpr ⟨hzero, collectReadings_nonneg hms⟩]

theorem hostTarget_nonneg (hgpus : ¬ e.numGpus < 1) (totalMb availableMb : Int) :
    0 ≤ e.hostTarget totalMb availableMb :=
  Int.ediv_nonneg (le_max_left _ _) (by omega)

theorem floorTarget_min_zero (x : Int) : floorTarget (min 0 x) = none := by
  unfold floorTarget
  rw [if_neg]
  have hle : min 0 x ≤ 0 := min_le_left _ _
  omega

theorem exhausted_of_fuel {ms : List Int} (hms : e.amdSmi.readings = some ms) (hzero : 0 ∈ ms)
    (fuel : Nat) : e.highIntensityBlocksMb (fuel + 1) = some (.returned none []) := by
  unfold highIntensityBlocksMb
  rw [query_of_exhausted hms hzero]
  simp only [Int.zero_mul, Int.zero_ediv]
  split_ifs with hbacked hgpus
  · rfl
  · rw [wait]
    cases e.hostMemory 0 with
    | none => rfl
    | some reading =>
      have hroom := hostTarget_nonneg hgpus reading.1 reading.2
      simp only [if_pos hroom, Option.map_some]
      rw [if_neg (fun h => absurd h.2 (not_lt.mpr hroom)), floorTarget_min_zero]
  · rfl

theorem not_returns_of_exhausted {ms : List Int} (hms : e.amdSmi.readings = some ms)
    (hzero : 0 ∈ ms) {result : Option Int} (h : e.Returns result) : result = none := by
  cases result with
  | none => rfl
  | some t =>
    obtain ⟨minFree, ⟨ms', hms', -, hmin⟩, hbounded⟩ := bounded_of_returns h
    rw [hms] at hms'
    cases hms'
    have hle := hmin 0 hzero
    have hshare := hbounded.share
    have hfloor := hbounded.floor
    omega

/-- A target is never above the share of the fullest GPU nor above what the host
permitted at the last reading, and with a GPU that has no memory left there is none. -/
theorem highIntensityBlocksMb_sized (e : Env) :
    (∀ t, e.Returns (some t) → ∃ minFree, IsMinFree e.amdSmi minFree ∧ Bounded e t minFree) ∧
      ∀ ms, e.amdSmi.readings = some ms → 0 ∈ ms →
        e.Returns none ∧ ∀ result, e.Returns result → result = none :=
  ⟨fun _ h => bounded_of_returns h, fun _ hms hzero =>
    ⟨⟨1, [], exhausted_of_fuel hms hzero 0⟩, fun _ h => not_returns_of_exhausted hms hzero h⟩⟩

/-- A host that has room for one GPU's target at the second reading only. -/
def recovering : Env where
  amdSmi := ⟨0, some (.arr [.obj [("mem_usage".toList, .obj [("free_vram".toList,
    .obj [("value".toList, .int 2), ("unit".toList, .str "GB".toList)])])]])⟩
  numGpus := 1
  hostBacked := true
  recoveryTimeoutSec := 300
  requireFullTarget := true
  hostMemory := fun k => some (8192, if k = 0 then 5000 else 6000)
  clock := fun k => k

theorem highIntensityBlocksMb_sized_recovering :
    ∃ minFree, IsMinFree recovering.amdSmi minFree ∧ Bounded recovering 1843 minFree :=
  (highIntensityBlocksMb_sized recovering).1 1843 ⟨2, [], by decide +kernel⟩

end Env

end MemorySizing
end Monitored
end RocmTests

import RocmTests.Rocm.AmdSmi

/-!
# The health of a GPU

Around a test the state of its GPUs is printed, and a poller writes it into a log while the test
runs.  Both run `amd-smi` once for all metrics and read one after the other from its output, up to
the first exception.  The check of a GPU against the limits of the configuration runs it once for
each metric, and passes a GPU when it cannot be read.
-/

namespace RocmTests
namespace Gpu
namespace Health

open Conc Rocm Rocm.AmdSmi Text
open JsonValue (emptyDict getOf getOf_ok intIn)

/-! ## All metrics at once -/

/-- In the order in which they are read. -/
inductive Metric where
  | temp
  | vram
  | util
  | ecc
  | clock
deriving DecidableEq

def Metric.all : List Metric := [.temp, .vram, .util, .ecc, .clock]

structure GpuMetrics where
  gpuIndex : Nat
  tempC : Option Int := none
  vramUsedMb : Option Int := none
  vramFreeMb : Option Int := none
  vramTotalMb : Option Int := none
  computePct : Option Int := none
  eccErrors : Option Int := none
  clockState : Option Txt := none
deriving DecidableEq

def parseTemp (entry : JsonValue) : Except AccessError (Option Int) :=
  (getOf entry "temperature".toList emptyDict).bind fun temp =>
  (getOf temp "hotspot_temperature".toList .null).bind toScalar

namespace GpuMetrics

def withVram (snap : GpuMetrics) : Option GpuVramInfo → GpuMetrics
  | none => snap
  | some vram =>
    { snap with
      vramUsedMb := some vram.usedMb
      vramFreeMb := some vram.freeMb
      vramTotalMb := some vram.totalMb }

end GpuMetrics

section

variable (loads : Txt → Except LoadError JsonValue) (str : JsonValue → Txt)

/-- One metric is read. -/
def read (entry : JsonValue) (snap : GpuMetrics) : Metric → Except AccessError GpuMetrics
  | .temp => (parseTemp entry).map fun t => { snap with tempC := t }
  | .vram => (parseVram entry snap.gpuIndex).map snap.withVram
  | .util => (parseUtil entry).map fun u => { snap with computePct := u }
  | .ecc => (parseEcc entry).map fun n => { snap with eccErrors := n }
  | .clock => (parseClock str entry).map fun c => { snap with clockState := c }

/-- The metrics are read up to an exception, which is not passed on. -/
def readAll (entry : JsonValue) : List Metric → GpuMetrics → GpuMetrics
  | [], snap => snap
  | m :: ms, snap =>
    match read str entry snap m with
    | .ok snap' => readAll entry ms snap'
    | .error _ => snap

/-- `GpuMonitor.snapshot`, and one sample of the poller.  The answer is `none` when the command
raises. -/
def snapshot (asked : Metric → Bool) (gpuIndex : Nat) : Option CommandResult → GpuMetrics
  | none => { gpuIndex }
  | some result =>
    match runMetricJson loads result with
    | .error _ => { gpuIndex }
    | .ok .null => { gpuIndex }
    | .ok entry => readAll str entry (Metric.all.filter asked) { gpuIndex }

/-- What the query of one metric gives for this output. -/
def alone (gpuIndex : Nat) (result : CommandResult) : Metric → Except ReadError GpuMetrics
  | .temp => (queryWith loads result parseTemp).map fun t => { gpuIndex, tempC := t }
  | .vram =>
    (queryVramUsage loads result gpuIndex).map ({ gpuIndex } : GpuMetrics).withVram
  | .util => (queryGpuUtilization loads result).map fun u => { gpuIndex, computePct := u }
  | .ecc => (queryEccErrors loads result).map fun n => { gpuIndex, eccErrors := n }
  | .clock => (queryClockState loads str result).map fun c => { gpuIndex, clockState := c }

end

/-- What a snapshot has for one metric. -/
def Metric.of (snap : GpuMetrics) : Metric → List (Option Int) × Option Txt
  | .temp => ([snap.tempC], none)
  | .vram => ([snap.vramUsedMb, snap.vramFreeMb, snap.vramTotalMb], none)
  | .util => ([snap.computePct], none)
  | .ecc => ([snap.eccErrors], none)
  | .clock => ([], snap.clockState)

section

variable {loads : Txt → Except LoadError JsonValue} {str : JsonValue → Txt} {entry : JsonValue}
  {snap s : GpuMetrics} {x : Metric}

/-- A metric is read as it is read into an empty snapshot, and the others stay. -/
theorem read_ok (h : read str entry { gpuIndex := snap.gpuIndex } x = .ok s)
    (hblank : x.of snap = x.of { gpuIndex := snap.gpuIndex }) :
    ∃ s', read str entry snap x = .ok s' ∧ x.of s' = x.of s ∧ s'.gpuIndex = snap.gpuIndex ∧
      ∀ m, m ≠ x → m.of s' = m.of snap := by
  cases x with
  | vram =>
    obtain ⟨v, hv, rfl⟩ := Fallible.map_eq_ok.mp h
    refine ⟨_, Fallible.map_eq_ok.mpr ⟨v, hv, rfl⟩, ?_⟩
    cases v with
    | none => exact ⟨hblank, rfl, fun _ _ => rfl⟩
    | some vram => exact ⟨rfl, rfl, fun m hm => by cases m <;> first | rfl | exact absurd rfl hm⟩
  | _ =>
    obtain ⟨v, hv, rfl⟩ := Fallible.map_eq_ok.mp h
    exact ⟨_, Fallible.map_eq_ok.mpr ⟨v, hv, rfl⟩, rfl, rfl, fun m hm => by
      cases m <;> first | rfl | exact absurd rfl hm⟩

theorem read_error {e : AccessError}
    (h : read str entry { gpuIndex := snap.gpuIndex } x = .error e) :
    read str entry snap x = .error e := by
  cases x <;> exact Fallible.map_eq_error.mpr (Fallible.map_eq_error.mp h)

/-- What is read are the metrics before the first that cannot be read. -/
theorem of_readAll {ms : List Metric} (hnodup : ms.Nodup)
    (hblank : ∀ m ∈ ms, m.of snap = m.of { gpuIndex := snap.gpuIndex }) (m : Metric) :
    (m ∈ ms.takeWhile (fun m => (read str entry { gpuIndex := snap.gpuIndex } m).isOk) →
      ∃ s, read str entry { gpuIndex := snap.gpuIndex } m = .ok s ∧
        m.of (readAll str entry ms snap) = m.of s) ∧
    (m ∉ ms.takeWhile (fun m => (read str entry { gpuIndex := snap.gpuIndex } m).isOk) →
      m.of (readAll str entry ms snap) = m.of snap) := by
  induction ms generalizing snap with
  | nil => exact ⟨fun h => absurd h List.not_mem_nil, fun _ => rfl⟩
  | cons x ms ih =>
    obtain ⟨hx, hnodup⟩ := List.nodup_cons.mp hnodup
    cases hread : read str entry { gpuIndex := snap.gpuIndex } x with
    | error e =>
      have hall : readAll str entry (x :: ms) snap = snap := by
        rw [readAll, read_error hread]
      have hnone : (x :: ms).takeWhile
          (fun m => (read str entry { gpuIndex := snap.gpuIndex } m).isOk) = [] :=
        List.takeWhile_cons_of_neg (by rw [hread]; exact Bool.false_ne_true)
      rw [hnone, hall]
      exact ⟨fun h => absurd h List.not_mem_nil, fun _ => rfl⟩
    | ok s =>
      obtain ⟨s', hs', hof, hindex, hframe⟩ := read_ok hread (hblank x List.mem_cons_self)
      have hall : readAll str entry (x :: ms) snap = readAll str entry ms s' := by
        rw [readAll, hs']
      have htake : (x :: ms).takeWhile
          (fun m => (read str entry { gpuIndex := snap.gpuIndex } m).isOk) =
          x :: ms.takeWhile fun m => (read str entry { gpuIndex := snap.gpuIndex } m).isOk :=
        List.takeWhile_cons_of_pos (by rw [hread]; rfl)
      have hrest := @ih s' hnodup fun m hm => by
        have hne : m ≠ x := fun heq => hx (heq ▸ hm)
        rw [hframe m hne, hindex]
        exact hblank m (List.mem_cons_of_mem _ hm)
      rw [hindex] at hrest
      rw [hall, htake]
      by_cases hm : m = x
      · subst hm
        have hnot : m ∉ ms.takeWhile fun m =>
            (read str entry { gpuIndex := snap.gpuIndex } m).isOk := fun h =>
          hx (List.takeWhile_subset _ h)
        refine ⟨fun _ => ⟨s, hread, ?_⟩, fun h => absurd List.mem_cons_self h⟩
        rw [hrest.2 hnot, hof]
      · rw [List.mem_cons, or_iff_right hm, ← hframe m hm]
        exact hrest

/-! ### The queries -/

variable {result : CommandResult} {gpuIndex : Nat}

theorem alone_null (hloads : Loads loads result) (hnull : firstEntry loads result = .null)
    (m : Metric) : ∃ s, alone loads str gpuIndex result m = .ok s ∧ m.of s = m.of { gpuIndex } := by
  cases m with
  | temp => exact ⟨_, by rw [alone, queryWith_null hloads hnull]; rfl, rfl⟩
  | vram => exact ⟨_, by rw [alone, queryVramUsage, queryWith_null hloads hnull]; rfl, rfl⟩
  | util => exact ⟨_, by rw [alone, queryGpuUtilization, queryWith_null hloads hnull]; rfl, rfl⟩
  | ecc => exact ⟨_, by rw [alone, queryEccErrors, queryWith_null hloads hnull]; rfl, rfl⟩
  | clock => exact ⟨_, by rw [alone, queryClockState, queryWith_null hloads hnull]; rfl, rfl⟩

theorem mapError_map {α β ε ε' : Type} (x : Except ε α) (f : α → β) (g : ε → ε') :
    (x.mapError g).map f = (x.map f).mapError g := by
  cases x <;> rfl

theorem alone_entry (hloads : Loads loads result) (hentry : firstEntry loads result ≠ .null)
    (m : Metric) : alone loads str gpuIndex result m =
      (read str (firstEntry loads result) { gpuIndex } m).mapError .access := by
  cases m with
  | temp => rw [alone, queryWith_entry hloads hentry, mapError_map, read]
  | vram => rw [alone, queryVramUsage, queryWith_entry hloads hentry, mapError_map, read]
  | util => rw [alone, queryGpuUtilization, queryWith_entry hloads hentry, mapError_map, read]
  | ecc => rw [alone, queryEccErrors, queryWith_entry hloads hentry, mapError_map, read]
  | clock => rw [alone, queryClockState, queryWith_entry hloads hentry, mapError_map, read]

theorem alone_error {e : ReadError} (h : runMetricJson loads result = .error e) (m : Metric) :
    alone loads str gpuIndex result m = .error e := by
  have hquery : ∀ {α : Type} (parse : JsonValue → Except AccessError (Option α)),
      queryWith loads result parse = .error e := fun parse => by
    rw [queryWith, h]
    rfl
  cases m with
  | temp => rw [alone, hquery]; rfl
  | vram => rw [alone, queryVramUsage, hquery]; rfl
  | util => rw [alone, queryGpuUtilization, hquery]; rfl
  | ecc => rw [alone, queryEccErrors, hquery]; rfl
  | clock => rw [alone, queryClockState, hquery]; rfl

/-- `query_gpu_temp` reads the fan and the edge too, before it returns what is read here. -/
theorem hotspot_of_queryGpuTemp {t : Int}
    (h : queryGpuTemp loads result gpuIndex = .ok (some t)) :
    queryWith loads result parseTemp = .ok (some t) ∧
      toScalar (nodeAt (firstEntry loads result) "temperature".toList
        "hotspot_temperature".toList) = .ok (some t) := by
  by_cases hloads : Loads loads result
  · by_cases hnull : firstEntry loads result = .null
    · unfold queryGpuTemp queryThermal at h
      rw [runMetricJson_of_loads hloads, hnull] at h
      cases h
    · rw [queryGpuTemp_entry gpuIndex hloads hnull] at h
      rw [queryWith_entry hloads hnull]
      cases hthermal : thermalOf (firstEntry loads result) gpuIndex with
      | error e =>
        rw [hthermal] at h
        cases e <;> cases h
      | ok info =>
        rw [hthermal] at h
        have hinfo : info.tempHotspot = some t := Except.ok.inj h
        obtain ⟨temp, htemp, hrest⟩ := Fallible.bind_eq_ok.mp hthermal
        obtain ⟨speed, _, hrest⟩ := Fallible.bind_eq_ok.mp hrest
        obtain ⟨fanRaw, _, hrest⟩ := Fallible.bind_eq_ok.mp hrest
        obtain ⟨fan, _, hrest⟩ := Fallible.bind_eq_ok.mp hrest
        obtain ⟨edge, _, hrest⟩ := Fallible.bind_eq_ok.mp hrest
        obtain ⟨tempEdge, _, hrest⟩ := Fallible.bind_eq_ok.mp hrest
        obtain ⟨hotspot, hhotspot, hrest⟩ := Fallible.bind_eq_ok.mp hrest
        obtain ⟨tempHotspot, hread, rfl⟩ := Fallible.map_eq_ok.mp hrest
        have hsome : tempHotspot = some t := hinfo
        rw [hsome] at hread
        have hparse : parseTemp (firstEntry loads result) = .ok (some t) :=
          Fallible.bind_eq_ok.mpr ⟨temp, htemp, Fallible.bind_eq_ok.mpr ⟨hotspot, hhotspot, hread⟩⟩
        rw [hparse]
        rw [getOf_ok htemp] at hhotspot
        rw [getOf_ok hhotspot] at hread
        exact ⟨rfl, hread⟩
  · obtain ⟨e, he⟩ := runMetricJson_of_not_loads hloads
    unfold queryGpuTemp queryThermal at h
    rw [he] at h
    cases h

/-- The metrics that were asked for, up to the first whose query raises. -/
def answered (loads : Txt → Except LoadError JsonValue) (str : JsonValue → Txt)
    (asked : Metric → Bool) (gpuIndex : Nat) (result : CommandResult) : List Metric :=
  (Metric.all.filter asked).takeWhile fun m => (alone loads str gpuIndex result m).isOk

/-- A snapshot shows of each metric what its query gives, or nothing. -/
structure Agrees (loads : Txt → Except LoadError JsonValue) (str : JsonValue → Txt)
    (asked : Metric → Bool) (gpuIndex : Nat) (result : CommandResult) (m : Metric) : Prop where
  shown : m ∈ answered loads str asked gpuIndex result →
    ∃ s, alone loads str gpuIndex result m = .ok s ∧
      m.of (snapshot loads str asked gpuIndex (some result)) = m.of s
  blank : m ∉ answered loads str asked gpuIndex result →
    m.of (snapshot loads str asked gpuIndex (some result)) = m.of { gpuIndex }

theorem isOk_mapError {α ε ε' : Type} (x : Except ε α) (g : ε → ε') :
    (x.mapError g).isOk = x.isOk := by
  cases x <;> rfl

/-- One call for all metrics agrees with one call for each, whatever the output is; and where the
temperature has a query that reads more, this gives the same number or none. -/
theorem snapshot_agrees (loads : Txt → Except LoadError JsonValue) (str : JsonValue → Txt)
    (asked : Metric → Bool) (gpuIndex : Nat) (result : CommandResult) :
    (∀ m, Agrees loads str asked gpuIndex result m) ∧
      ∀ t, queryGpuTemp loads result gpuIndex = .ok (some t) →
        alone loads str gpuIndex result .temp = .ok { gpuIndex, tempC := some t } := by
  refine ⟨fun m => ?_, fun t ht => ?_⟩
  · by_cases hloads : Loads loads result
    · have hrun := runMetricJson_of_loads hloads
      by_cases hnull : firstEntry loads result = .null
      · have hsnap : snapshot loads str asked gpuIndex (some result) = { gpuIndex } := by
          rw [snapshot, hrun, hnull]
        obtain ⟨s, hs, hof⟩ := @alone_null loads str result gpuIndex hloads hnull m
        rw [hnull] at hrun
        exact ⟨fun _ => ⟨s, hs, by rw [hsnap, hof]⟩, fun _ => by rw [hsnap]⟩
      · have hsnap : snapshot loads str asked gpuIndex (some result) =
            readAll str (firstEntry loads result) (Metric.all.filter asked) { gpuIndex } := by
          rw [snapshot, hrun]
          generalize firstEntry loads result = entry at *
          cases entry with
          | null => exact absurd rfl hnull
          | _ => rfl
        have hnodup : (Metric.all.filter asked).Nodup := List.Nodup.filter _ (by decide)
        have hread := @of_readAll str (firstEntry loads result) { gpuIndex } _ hnodup
          (fun _ _ => rfl) m
        have hanswered : answered loads str asked gpuIndex result =
            (Metric.all.filter asked).takeWhile fun m =>
              (read str (firstEntry loads result) { gpuIndex } m).isOk := by
          unfold answered
          congr 1
          funext m
          rw [alone_entry hloads hnull, isOk_mapError]
        rw [← hanswered, ← hsnap] at hread
        refine ⟨fun h => ?_, hread.2⟩
        obtain ⟨s, hs, hof⟩ := hread.1 h
        exact ⟨s, by rw [alone_entry hloads hnull, hs]; rfl, hof⟩
    · obtain ⟨e, he⟩ := runMetricJson_of_not_loads hloads
      have hsnap : snapshot loads str asked gpuIndex (some result) = { gpuIndex } := by
        rw [snapshot, he]
      have hnone : answered loads str asked gpuIndex result = [] := by
        have hfails : ∀ m, (alone loads str gpuIndex result m).isOk = false := fun m => by
          rw [alone_error he]
          rfl
        unfold answered
        cases Metric.all.filter asked with
        | nil => rfl
        | cons x ms => exact List.takeWhile_cons_of_neg (by rw [hfails]; exact Bool.false_ne_true)
      refine ⟨fun h => ?_, fun _ => by rw [hsnap]⟩
      rw [hnone] at h
      cases h
  · rw [alone, (hotspot_of_queryGpuTemp ht).1]
    rfl

end

/-! ## The check against limits -/

/-- The limits, with the defaults of the code. -/
structure Limits where
  maxTempCelsius : Int := 90
  maxEccErrors : Int := 0
  minVramFreeMb : Int := 512

structure HealthResult where
  passed : Bool
  message : Txt := []
  tempC : Option Int := none
  eccErrors : Option Int := none
  vramFreeMb : Option Int := none
deriving DecidableEq

/-- The text of a value that breaks its limit. -/
def broken (breaks : Int → Bool) (text : Int → Txt) (value : Option Int) : List Txt :=
  (value.filter breaks).toList.map text

def failures (limits : Limits) (tempC eccErrors vramFreeMb : Option Int) : List Txt :=
  broken (limits.maxTempCelsius < ·) (fun t => "temp ".toList ++ showInt t ++
    "°C > threshold ".toList ++ showInt limits.maxTempCelsius ++ "°C".toList) tempC ++
  broken (limits.maxEccErrors < ·) (fun n => "ECC errors ".toList ++ showInt n ++
    " > threshold ".toList ++ showInt limits.maxEccErrors) eccErrors ++
  broken (· < limits.minVramFreeMb) (fun n => "free VRAM ".toList ++ showInt n ++
    " MB < threshold ".toList ++ showInt limits.minVramFreeMb ++ " MB".toList) vramFreeMb

section

variable (loads : Txt → Except LoadError JsonValue)

/-- `none` when one of the three commands or its reader raises. -/
def checkViaAmdSmi (limits : Limits) (gpuIndex : Nat) (temp ecc vram : Option CommandResult) :
    Option HealthResult := do
  let tempC ← (queryGpuTemp loads (← temp) gpuIndex).toOption
  let eccErrors ← (queryEccErrors loads (← ecc)).toOption
  let vramInfo ← (queryVramUsage loads (← vram) gpuIndex).toOption
  let vramFreeMb := vramInfo.map GpuVramInfo.freeMb
  let found := failures limits tempC eccErrors vramFreeMb
  pure
    { passed := found = []
      message := if found = [] then "all checks passed".toList else "; ".toList.intercalate found
      tempC, eccErrors, vramFreeMb }

def check (limits : Limits) (gpuIndex : Nat) (temp ecc vram : Option CommandResult) :
    HealthResult :=
  (checkViaAmdSmi loads limits gpuIndex temp ecc vram).getD
    { passed := true, message := "health check skipped (no amd-smi)".toList }

/-! ### What fails a GPU -/

variable {loads} {result : CommandResult} {gpuIndex : Nat}

/-- A reader that handles nothing returns for documents of its shape only. -/
theorem fits_of_query {α : Type} {parse : JsonValue → Except AccessError (Option α)}
    {part : JsonValue → Part} (hpart : ∀ entry, Part.of (parse entry) = part entry) {a : Option α}
    (h : queryWith loads result parse = .ok a) :
    Loads loads result ∧ (firstEntry loads result ≠ .null →
      part (firstEntry loads result) = .fine) := by
  have hiff : (∃ a, queryWith loads result parse = .ok a ∧ True) ↔ _ :=
    queryWith_iff (fun _ => True) hpart trivial fun _ _ => Iff.rfl
  obtain ⟨hloads, hentry⟩ := hiff.mp ⟨a, h, trivial⟩
  exact ⟨hloads, fun hne => (hentry hne).1⟩

theorem ecc_of_query {n : Int} (h : queryEccErrors loads result = .ok (some n)) :
    intIn (nodeAt (firstEntry loads result) "ecc".toList "total_correctable_count".toList) =
      some n := by
  have hfits : Fits loads result .eccErrors := (fits_iff _).mpr (fits_of_query part_parseEcc h)
  obtain ⟨count, hquery, hread⟩ := (degrades_eccErrors (fun _ => []) 0).mpr hfits
  rw [h] at hquery
  obtain rfl := Except.ok.inj hquery
  rcases hread with hnone | hread
  · cases hnone
  · exact hread.symm

theorem free_of_query {info : GpuVramInfo}
    (h : queryVramUsage loads result gpuIndex = .ok (some info)) :
    info.freeMb = (amount loads result "vram_free".toList).getD 0 ∧
      ((amount loads result "vram_total".toList).isSome ∨
        (amount loads result "vram_used".toList).isSome) := by
  have hfits : Fits loads result .vramUsage :=
    (fits_iff _).mpr (fits_of_query (fun entry => part_parseVram entry gpuIndex) h)
  obtain ⟨usage, hquery, hread⟩ := (degrades_vramUsage (fun _ => []) gpuIndex).mpr hfits
  rw [h] at hquery
  obtain rfl := Except.ok.inj hquery
  rcases hread with hnone | ⟨hinfo, hsome⟩
  · cases hnone
  · rw [Option.some.inj hinfo]
    exact ⟨rfl, hsome⟩

theorem temp_of_query {t : Int} (h : queryGpuTemp loads result gpuIndex = .ok (some t)) :
    (numberIn (nodeAt (firstEntry loads result) "temperature".toList
      "hotspot_temperature".toList)).getD 0 = t := by
  obtain ⟨_, hread⟩ := hotspot_of_queryGpuTemp h
  by_cases hvalue : HasValue (nodeAt (firstEntry loads result) "temperature".toList
      "hotspot_temperature".toList)
  · rw [← toScalar_ok hread hvalue]
    rfl
  · obtain ⟨hzero, hnone⟩ := toScalar_made_up hread hvalue
    rw [hnone, Option.some.inj hzero]
    rfl

theorem broken_eq_nil {breaks : Int → Bool} {text : Int → Txt} {value : Option Int} :
    broken breaks text value = [] ↔ ∀ n, value = some n → breaks n = false := by
  cases value with
  | none => simp [broken]
  | some n => cases hn : breaks n <;> simp [broken, hn]

theorem failures_ne_nil {limits : Limits} {tempC eccErrors vramFreeMb : Option Int}
    (h : failures limits tempC eccErrors vramFreeMb ≠ []) :
    (∃ t, tempC = some t ∧ limits.maxTempCelsius < t) ∨
      (∃ n, eccErrors = some n ∧ limits.maxEccErrors < n) ∨
      ∃ n, vramFreeMb = some n ∧ n < limits.minVramFreeMb := by
  by_contra hnot
  push Not at hnot
  obtain ⟨htemp, hecc, hfree⟩ := hnot
  refine h ?_
  unfold failures
  rw [broken_eq_nil.mpr fun t ht => decide_eq_false (not_lt.mpr (htemp t ht)),
    broken_eq_nil.mpr fun n hn => decide_eq_false (not_lt.mpr (hecc n hn)),
    broken_eq_nil.mpr fun n hn => decide_eq_false (not_lt.mpr (hfree n hn))]
  rfl

theorem toOption_eq_some {α ε : Type} {x : Except ε α} {a : α} :
    x.toOption = some a ↔ x = .ok a := by
  cases x <;> simp [Except.toOption]

theorem of_check_failed {limits : Limits} {temp ecc vram : Option CommandResult}
    (h : (check loads limits gpuIndex temp ecc vram).passed = false) :
    ∃ r₁ r₂ r₃ tempC eccErrors info, temp = some r₁ ∧ ecc = some r₂ ∧ vram = some r₃ ∧
      queryGpuTemp loads r₁ gpuIndex = .ok tempC ∧ queryEccErrors loads r₂ = .ok eccErrors ∧
      queryVramUsage loads r₃ gpuIndex = .ok info ∧
      failures limits tempC eccErrors (info.map GpuVramInfo.freeMb) ≠ [] := by
  unfold check at h
  cases hcheck : checkViaAmdSmi loads limits gpuIndex temp ecc vram with
  | none =>
    rw [hcheck] at h
    cases h
  | some r =>
    rw [hcheck, Option.getD_some] at h
    simp only [checkViaAmdSmi, Option.bind_eq_bind, Option.bind_eq_some_iff,
      toOption_eq_some] at hcheck
    obtain ⟨r₁, h₁, tempC, htemp, r₂, h₂, eccErrors, hecc, r₃, h₃, info, hinfo, hr⟩ := hcheck
    cases hr
    exact ⟨r₁, r₂, r₃, tempC, eccErrors, info, h₁, h₂, h₃, htemp, hecc, hinfo,
      of_decide_eq_false h⟩

/-- A number in one of the outputs breaks its limit.  A zero stands for a number that is not there,
but a memory without a total and a used amount is none. -/
def Excess (loads : Txt → Except LoadError JsonValue) (limits : Limits)
    (temp ecc vram : CommandResult) : Prop :=
  limits.maxTempCelsius < (numberIn (nodeAt (firstEntry loads temp) "temperature".toList
      "hotspot_temperature".toList)).getD 0 ∨
    limits.maxEccErrors < (intIn (nodeAt (firstEntry loads ecc) "ecc".toList
      "total_correctable_count".toList)).getD 0 ∨
    ((amount loads vram "vram_total".toList).isSome ∨
      (amount loads vram "vram_used".toList).isSome) ∧
      (amount loads vram "vram_free".toList).getD 0 < limits.minVramFreeMb

/-- A GPU fails only when all three commands were answered and read, and for a number in an
answer. -/
theorem check_fails {limits : Limits} {temp ecc vram : Option CommandResult}
    (h : (check loads limits gpuIndex temp ecc vram).passed = false) :
    ∃ r₁ r₂ r₃, temp = some r₁ ∧ ecc = some r₂ ∧ vram = some r₃ ∧
      (∃ tempC, queryGpuTemp loads r₁ gpuIndex = .ok tempC) ∧
      (∃ eccErrors, queryEccErrors loads r₂ = .ok eccErrors) ∧
      (∃ info, queryVramUsage loads r₃ gpuIndex = .ok info) ∧ Excess loads limits r₁ r₂ r₃ := by
  obtain ⟨r₁, r₂, r₃, tempC, eccErrors, info, h₁, h₂, h₃, htemp, hecc, hinfo, hfound⟩ :=
    of_check_failed h
  refine ⟨r₁, r₂, r₃, h₁, h₂, h₃, ⟨tempC, htemp⟩, ⟨eccErrors, hecc⟩, ⟨info, hinfo⟩, ?_⟩
  rcases failures_ne_nil hfound with ⟨t, rfl, ht⟩ | ⟨n, rfl, hn⟩ | ⟨n, hfree, hn⟩
  · left
    rwa [temp_of_query htemp]
  · right
    left
    rw [ecc_of_query hecc]
    exact hn
  · obtain ⟨info', rfl, rfl⟩ := Option.map_eq_some_iff.mp hfree
    obtain ⟨hamount, hsome⟩ := free_of_query hinfo
    right
    right
    exact ⟨hsome, hamount ▸ hn⟩

/-- What is printed for a GPU whose free memory is not known. -/
def freeMissingText : Txt := "[\x7b\"vram\": \x7b\"vram_total\": 1024\x7d\x7d]".toList

def loadsFreeMissing (t : Txt) : Except LoadError JsonValue :=
  if t = freeMissingText then
    .ok (.arr [.obj [("vram".toList, .obj [("vram_total".toList, .int 1024)])]])
  else .error .jsonDecodeError

/-- The answer to each of the three commands. -/
def freeMissingAnswer : Option CommandResult := some ⟨true, freeMissingText⟩

theorem check_fails_freeMissing : ∃ r₁ r₂ r₃,
    freeMissingAnswer = some r₁ ∧ freeMissingAnswer = some r₂ ∧ freeMissingAnswer = some r₃ ∧
      (∃ tempC, queryGpuTemp loadsFreeMissing r₁ 0 = .ok tempC) ∧
      (∃ eccErrors, queryEccErrors loadsFreeMissing r₂ = .ok eccErrors) ∧
      (∃ info, queryVramUsage loadsFreeMissing r₃ 0 = .ok info) ∧
        Excess loadsFreeMissing {} r₁ r₂ r₃ := by
  have hfails : (check loadsFreeMissing {} 0 freeMissingAnswer freeMissingAnswer
      freeMissingAnswer).passed = false := by
    rfl
  exact check_fails hfails

end

end Health
end Gpu
end RocmTests

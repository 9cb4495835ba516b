import RocmTests.Conc.Fallible
import RocmTests.Text.JsonValue

/-!
# The readers of `amd-smi`

A reader runs one command, loads its output and walks down the document with `get` and
`int`.  Some handle what this raises, and each handles other exceptions.  How a document is
read is described by its shape: in the order of the code each part of it is fine, or raises
a `TypeError`, or something that no reader handles.
-/

namespace RocmTests
namespace Rocm
namespace AmdSmi

open Conc Text
open JsonValue (asInt intIn intIn_of_asInt field getOf getOf_ok emptyDict)

/-! ## The schema helpers -/

/-- `list(v)`. -/
def toList : JsonValue → Except AccessError (List JsonValue)
  | .arr xs => .ok xs
  | .obj items => .ok (items.map fun x => .str x.1)
  | .str s => .ok (s.map fun c => .str [c])
  | _ => .error .typeError

def unwrapEntries : JsonValue → Except AccessError (List JsonValue)
  | .obj items => toList (field (.obj items) "gpu_data".toList (.arr []))
  | .arr xs => .ok xs
  | _ => .ok []

def toMb : JsonValue → Except AccessError Int
  | .obj items => asInt (field (.obj items) "value".toList (.int 0))
  | .bool b => asInt (.bool b)
  | .int n => asInt (.int n)
  | .float x => asInt (.float x)
  | _ => .ok 0

def toScalar : JsonValue → Except AccessError (Option Int)
  | .obj items => (asInt (field (.obj items) "value".toList (.int 0))).map some
  | .bool b => (asInt (.bool b)).map some
  | .int n => (asInt (.int n)).map some
  | .float x => (asInt (.float x)).map some
  | _ => .ok none

/-! ## The readers -/

/-- What `executor.run` returns. -/
structure CommandResult where
  ok : Bool
  stdout : Txt

structure GpuDeviceInfo where
  index : Nat
  arch : JsonValue
  vramTotal : Int
  bdf : JsonValue
  driverVer : JsonValue
  asicSerial : JsonValue

structure GpuThermalInfo where
  index : Nat
  tempEdge : Option Int := none
  tempHotspot : Option Int := none
  fanRpm : Int := -1

structure GpuVramInfo where
  index : Nat
  totalMb : Int
  usedMb : Int
  freeMb : Int
deriving DecidableEq

def unknown : JsonValue := .str "unknown".toList

def deviceOf (index : Nat) (dev : JsonValue) : Except AccessError GpuDeviceInfo :=
  (getOf dev "asic".toList emptyDict).bind fun asic =>
  (getOf asic "target_graphics_version".toList unknown).bind fun arch =>
  (getOf dev "vram".toList emptyDict).bind fun vram =>
  (getOf vram "size".toList (.int 0)).bind fun size =>
  (toMb size).bind fun vramTotal =>
  (getOf dev "bdf".toList (.str [])).bind fun bdf =>
  (getOf dev "driver".toList emptyDict).bind fun driver =>
  (getOf driver "driver_version".toList unknown).bind fun driverVer =>
  (getOf asic "asic_serial".toList unknown).map fun asicSerial =>
    { index, arch, vramTotal, bdf, driverVer, asicSerial }

section

variable (loads : Txt → Except LoadError JsonValue) (str : JsonValue → Txt) (result : CommandResult)

/-- `result` is that of `amd-smi static`. -/
def listDevices : Except ReadError (List GpuDeviceInfo) :=
  if result.ok then
    match loads result.stdout with
    | .error .jsonDecodeError => .ok []
    | .error e => .error (.load e)
    | .ok data =>
      match (unwrapEntries data).bind fun entries =>
          entries.zipIdx.mapM fun x => deviceOf x.2 x.1 with
      | .error .typeError => .ok []
      | .error e => .error (.access e)
      | .ok devices => .ok devices
  else .ok []

/-- `_run_metric_json`; `None` is a null. -/
def runMetricJson : Except ReadError JsonValue :=
  if result.ok then
    match loads result.stdout with
    | .error .jsonDecodeError => .ok .null
    | .error e => .error (.load e)
    | .ok data =>
      match unwrapEntries data with
      | .error .typeError => .ok .null
      | .error e => .error (.access e)
      | .ok entries => .ok (entries.head?.getD .null)
  else .ok .null

def parseVram (entry : JsonValue) (gpuIndex : Nat) : Except AccessError (Option GpuVramInfo) :=
  (getOf entry "vram".toList emptyDict).bind fun vram =>
  (getOf vram "vram_total".toList (.int 0)).bind fun total =>
  (toMb total).bind fun total =>
  (getOf vram "vram_used".toList (.int 0)).bind fun used =>
  (toMb used).bind fun used =>
  (getOf vram "vram_free".toList (.int 0)).bind fun free =>
  (toMb free).map fun free =>
    if total = 0 ∧ used = 0 then none
    else some { index := gpuIndex, totalMb := total, usedMb := used, freeMb := free }

def parseUtil (entry : JsonValue) : Except AccessError (Option Int) :=
  (getOf entry "activity".toList emptyDict).bind fun activity =>
  (getOf activity "gfx_activity".toList .null).bind fun raw =>
  (toScalar raw).map fun val => val.map fun val => max 0 (min 100 val)

def parseEcc (entry : JsonValue) : Except AccessError (Option Int) :=
  (getOf entry "ecc".toList emptyDict).bind fun ecc =>
  (getOf ecc "total_correctable_count".toList .null).bind fun val =>
    match val with
    | .null => .ok none
    | val => (asInt val).map some

def parseClock (entry : JsonValue) : Except AccessError (Option Txt) :=
  (getOf entry "clock".toList emptyDict).bind fun clock =>
  (getOf clock "performance_level".toList .null).map fun val =>
    match val with
    | .null => none
    | val => some (str val)

/-- The `try` block of `_query_thermal`. -/
def thermalOf (entry : JsonValue) (gpuIndex : Nat) : Except AccessError GpuThermalInfo :=
  (getOf entry "temperature".toList emptyDict).bind fun temp =>
  (getOf temp "fan_speed_rpm".toList .null).bind fun speed =>
  (if speed.truthy then .ok speed
    else
      (getOf entry "fan".toList emptyDict).bind fun fan =>
        getOf fan "speed_rpm".toList .null).bind fun fanRaw =>
  (toScalar fanRaw).bind fun fan =>
  (getOf temp "edge_temperature".toList .null).bind fun edge =>
  (toScalar edge).bind fun tempEdge =>
  (getOf temp "hotspot_temperature".toList .null).bind fun hotspot =>
  (toScalar hotspot).map fun tempHotspot =>
    { index := gpuIndex, tempEdge, tempHotspot, fanRpm := fan.getD (-1) }

def queryThermal (gpuIndex : Nat) : Except ReadError GpuThermalInfo :=
  (runMetricJson loads result).bind fun entry =>
    match entry with
    | .null => .ok { index := gpuIndex }
    | entry =>
      match thermalOf entry gpuIndex with
      | .error .typeError => .ok { index := gpuIndex }
      | .error e => .error (.access e)
      | .ok info => .ok info

def queryGpuTemp (gpuIndex : Nat) : Except ReadError (Option Int) :=
  (queryThermal loads result gpuIndex).map GpuThermalInfo.tempHotspot

/-- What the other queries do with the entry. -/
def queryWith {α : Type} (parse : JsonValue → Except AccessError (Option α)) :
    Except ReadError (Option α) :=
  (runMetricJson loads result).bind fun entry =>
    match entry with
    | .null => .ok none
    | entry => (parse entry).mapError .access

def queryVramUsage (gpuIndex : Nat) : Except ReadError (Option GpuVramInfo) :=
  queryWith loads result (parseVram · gpuIndex)

def queryEccErrors : Except ReadError (Option Int) := queryWith loads result parseEcc

def queryGpuUtilization : Except ReadError (Option Int) := queryWith loads result parseUtil

def queryClockState : Except ReadError (Option Txt) := queryWith loads result (parseClock str)

end

/-! ## What can be read -/

/-- The elements of the list of a document, if it has one. -/
def entriesOf (data : JsonValue) : List JsonValue :=
  match unwrapEntries data with
  | .ok entries => entries
  | .error _ => []

/-- The number that a node states, by itself or as its `value`. -/
def numberIn : JsonValue → Option Int
  | .obj items => intIn (field (.obj items) "value".toList .null)
  | .bool b => intIn (.bool b)
  | .int n => intIn (.int n)
  | .float x => intIn (.float x)
  | _ => none

/-- The node at two keys. -/
def nodeAt (entry : JsonValue) (key key' : Txt) : JsonValue :=
  field (field entry key emptyDict) key' .null

inductive Reader where
  | listDevices
  | gpuTemp
  | vramUsage
  | eccErrors
  | gpuUtilization
  | clockState

section

variable (loads : Txt → Except LoadError JsonValue) (str : JsonValue → Txt) (result : CommandResult)

/-- The list that the command printed. -/
def printed : List JsonValue :=
  if result.ok then
    match loads result.stdout with
    | .ok data => entriesOf data
    | .error _ => []
  else []

/-- The first entry, or a null. -/
def firstEntry : JsonValue := (printed loads result).head?.getD .null

def amount (key : Txt) : Option Int := numberIn (nodeAt (firstEntry loads result) "vram".toList key)

/-- The reader returns, and what it returns is nothing or what can be read. -/
def Degrades (gpuIndex : Nat) : Reader → Prop
  | .listDevices => ∃ devices, listDevices loads result = .ok devices ∧
      (devices = [] ∨ devices.length = (printed loads result).length)
  | .gpuTemp => ∃ temp, queryGpuTemp loads result gpuIndex = .ok temp ∧
      (temp = none ∨ temp = numberIn (nodeAt (firstEntry loads result) "temperature".toList
        "hotspot_temperature".toList))
  | .vramUsage => ∃ usage, queryVramUsage loads result gpuIndex = .ok usage ∧
      (usage = none ∨
        usage = some
          { index := gpuIndex
            totalMb := (amount loads result "vram_total".toList).getD 0
            usedMb := (amount loads result "vram_used".toList).getD 0
            freeMb := (amount loads result "vram_free".toList).getD 0 } ∧
          ((amount loads result "vram_total".toList).isSome ∨
            (amount loads result "vram_used".toList).isSome))
  | .eccErrors => ∃ count, queryEccErrors loads result = .ok count ∧
      (count = none ∨ count = intIn (nodeAt (firstEntry loads result) "ecc".toList
        "total_correctable_count".toList))
  | .gpuUtilization => ∃ util, queryGpuUtilization loads result = .ok util ∧
      (util = none ∨ util = (numberIn (nodeAt (firstEntry loads result) "activity".toList
        "gfx_activity".toList)).map fun val => max 0 (min 100 val))
  | .clockState => ∃ level, queryClockState loads str result = .ok level ∧
      (level = none ∨ level = some (str (nodeAt (firstEntry loads result) "clock".toList
        "performance_level".toList)))

end

/-! ## The shape of a document -/

/-- How the reading of a part goes. -/
inductive Part where
  | fine
  | typeError
  | other
deriving DecidableEq

namespace Part

/-- The second part is read where the first is fine. -/
def next : Part → Part → Part
  | fine, q => q
  | p, _ => p

/-- Parts in a row. -/
def first (ps : List Part) : Part := ps.foldr next fine

/-- `get` is for a dict. -/
def dict : JsonValue → Part
  | .obj _ => fine
  | _ => other

/-- `int` is for a number or a numeral. -/
def int : JsonValue → Part
  | .bool _ => fine
  | .int _ => fine
  | .float (.finite _) => fine
  | .float _ => other
  | .str t => if (parseInt t).isSome then fine else other
  | _ => typeError

/-- A node with a value, or a number; anything else is passed over. -/
def node : JsonValue → Part
  | .obj items => int (field (.obj items) "value".toList (.int 0))
  | .float x => int (.float x)
  | _ => fine

end Part

open RocmTests.Rocm.AmdSmi.Part (dict int node first)

def devicePart (dev : JsonValue) : Part :=
  let asic := field dev "asic".toList emptyDict
  let vram := field dev "vram".toList emptyDict
  first [dict dev, dict asic, dict vram, node (field vram "size".toList (.int 0)),
    dict (field dev "driver".toList emptyDict)]

def vramPart (entry : JsonValue) : Part :=
  let vram := field entry "vram".toList emptyDict
  first [dict entry, dict vram, node (field vram "vram_total".toList (.int 0)),
    node (field vram "vram_used".toList (.int 0)), node (field vram "vram_free".toList (.int 0))]

def utilPart (entry : JsonValue) : Part :=
  first [dict entry, dict (field entry "activity".toList emptyDict),
    node (nodeAt entry "activity".toList "gfx_activity".toList)]

def eccPart (entry : JsonValue) : Part :=
  first [dict entry, dict (field entry "ecc".toList emptyDict),
    match nodeAt entry "ecc".toList "total_correctable_count".toList with
    | .null => .fine
    | val => int val]

def clockPart (entry : JsonValue) : Part :=
  first [dict entry, dict (field entry "clock".toList emptyDict)]

/-- The speed of the fan is looked for in two places. -/
def fanNode (entry : JsonValue) : JsonValue :=
  let speed := nodeAt entry "temperature".toList "fan_speed_rpm".toList
  if speed.truthy then speed else nodeAt entry "fan".toList "speed_rpm".toList

def thermalPart (entry : JsonValue) : Part :=
  first [dict entry, dict (field entry "temperature".toList emptyDict),
    if (nodeAt entry "temperature".toList "fan_speed_rpm".toList).truthy then .fine
    else dict (field entry "fan".toList emptyDict),
    node (fanNode entry), node (nodeAt entry "temperature".toList "edge_temperature".toList),
    node (nodeAt entry "temperature".toList "hotspot_temperature".toList)]

/-- No dict without a value, for which a zero is made up. -/
def HasValue : JsonValue → Prop
  | .obj items => (JsonValue.get? items "value".toList).isSome
  | _ => True

/-- An entry that a query can cope with. -/
def EntryFits (entry : JsonValue) : Reader → Prop
  | .listDevices => True
  | .gpuTemp => thermalPart entry ≠ .other ∧
      (thermalPart entry = .fine →
        HasValue (nodeAt entry "temperature".toList "hotspot_temperature".toList))
  | .vramUsage => vramPart entry = .fine
  | .eccErrors => eccPart entry = .fine
  | .gpuUtilization => utilPart entry = .fine ∧
      HasValue (nodeAt entry "activity".toList "gfx_activity".toList)
  | .clockState => clockPart entry = .fine

/-- A document that a reader can cope with: the first device that is not fine has a
`TypeError`, or the first entry is a null or fits. -/
def DocumentFits (data : JsonValue) : Reader → Prop
  | .listDevices => first ((entriesOf data).map devicePart) ≠ .other
  | reader => ∀ entry, (entriesOf data).head? = some entry → entry ≠ .null → EntryFits entry reader

/-- An output that a reader can cope with. -/
def Fits (loads : Txt → Except LoadError JsonValue) (result : CommandResult) (reader : Reader) :
    Prop :=
  result.ok = true →
    match loads result.stdout with
    | .error e => e = .jsonDecodeError
    | .ok data => DocumentFits data reader

/-! ## The shape says how the reading goes -/

namespace Part

def of {α : Type} : Except AccessError α → Part
  | .ok _ => fine
  | .error .typeError => typeError
  | .error _ => other

section

variable {α β : Type}

@[simp] theorem fine_next (q : Part) : fine.next q = q := rfl

@[simp] theorem typeError_next (q : Part) : typeError.next q = typeError := rfl

@[simp] theorem other_next (q : Part) : other.next q = other := rfl

@[simp] theorem next_fine (p : Part) : p.next fine = p := by
  cases p <;> rfl

theorem first_nil : first [] = fine := rfl

theorem first_cons (p : Part) (ps : List Part) : first (p :: ps) = p.next (first ps) := rfl

theorem of_eq_fine {x : Except AccessError α} : of x = fine ↔ ∃ a, x = .ok a := by
  cases x with
  | ok a => exact iff_of_true rfl ⟨a, rfl⟩
  | error e => cases e <;> simp [of]

theorem of_bind {x : Except AccessError α} {f : α → Except AccessError β} {q : Part}
    (h : ∀ a, x = .ok a → of (f a) = q) : of (x.bind f) = (of x).next q := by
  cases x with
  | ok a => exact h a rfl
  | error e => cases e <;> rfl

theorem of_map (x : Except AccessError α) (f : α → β) : of (x.map f) = of x := by
  cases x with
  | ok a => rfl
  | error e => cases e <;> rfl

theorem of_mapM (f : α → Except AccessError β) (xs : List α) :
    of (xs.mapM f) = first (xs.map fun x => of (f x)) := by
  induction xs with
  | nil => rfl
  | cons x xs ih =>
    rw [Fallible.mapM_cons, List.map_cons, first_cons, ← ih]
    exact of_bind fun y _ => of_map _ _

theorem dict_cases (v : JsonValue) : dict v = fine ∨ dict v = other := by
  cases v with
  | obj items => exact Or.inl rfl
  | _ => exact Or.inr rfl

/-- `get`, and what comes after it. -/
theorem of_getOf_bind (v : JsonValue) (key : Txt) (default : JsonValue)
    (f : JsonValue → Except AccessError α) :
    of ((getOf v key default).bind f) = (dict v).next (of (f (field v key default))) := by
  cases v <;> rfl

theorem of_getOf (v : JsonValue) (key : Txt) (default : JsonValue) :
    of (getOf v key default) = dict v := by
  cases v <;> rfl

theorem of_asInt (v : JsonValue) : of (asInt v) = int v := by
  cases v with
  | float x => cases x <;> rfl
  | str t =>
    show of ((((parseInt t).map Except.ok).getD (.error IntError.valueError)).mapError
      JsonValue.ofIntError) =
      if (parseInt t).isSome then fine else other
    cases parseInt t <;> rfl
  | _ => rfl

theorem of_toMb (v : JsonValue) : of (toMb v) = node v := by
  cases v with
  | obj items => exact of_asInt _
  | float x => exact of_asInt _
  | _ => rfl

theorem of_toScalar (v : JsonValue) : of (toScalar v) = node v := by
  cases v with
  | obj items => exact (of_map _ _).trans (of_asInt _)
  | float x => exact (of_map _ _).trans (of_asInt _)
  | _ => rfl

/-- A number of megabytes, and what comes after it. -/
theorem of_toMb_bind {v : JsonValue} {f : Int → Except AccessError α} {q : Part}
    (h : ∀ n, of (f n) = q) : of ((toMb v).bind f) = (node v).next q := by
  rw [of_bind fun n _ => h n, of_toMb]

theorem of_toScalar_bind {v : JsonValue} {f : Option Int → Except AccessError α} {q : Part}
    (h : ∀ n, of (f n) = q) : of ((toScalar v).bind f) = (node v).next q := by
  rw [of_bind fun n _ => h n, of_toScalar]

end

end Part

open RocmTests.Rocm.AmdSmi.Part (of_getOf_bind of_getOf of_map of_toMb of_toScalar of_toMb_bind
  of_toScalar_bind dict_cases)

theorem part_deviceOf (index : Nat) (dev : JsonValue) :
    Part.of (deviceOf index dev) = devicePart dev := by
  have hparts : Part.of (deviceOf index dev) =
      (dict dev).next ((dict (field dev "asic".toList emptyDict)).next ((dict dev).next
        ((dict (field dev "vram".toList emptyDict)).next
          ((node (field (field dev "vram".toList emptyDict) "size".toList (.int 0))).next
            ((dict dev).next ((dict dev).next
              ((dict (field dev "driver".toList emptyDict)).next
                (dict (field dev "asic".toList emptyDict))))))))) := by
    unfold deviceOf
    rw [of_getOf_bind, of_getOf_bind, of_getOf_bind, of_getOf_bind]
    rw [of_toMb_bind]
    intro n
    rw [of_getOf_bind, of_getOf_bind, of_getOf_bind, of_map, of_getOf]
  rw [hparts]
  unfold devicePart
  simp only [Part.first_cons, Part.first_nil, Part.next_fine]
  rcases dict_cases dev with hdev | hdev
  · rcases dict_cases (field dev "asic".toList emptyDict) with hasic | hasic
    · simp only [hdev, hasic, Part.fine_next, Part.next_fine]
    · simp only [hdev, hasic, Part.fine_next, Part.other_next]
  · simp only [hdev, Part.other_next]

theorem part_parseVram (entry : JsonValue) (gpuIndex : Nat) :
    Part.of (parseVram entry gpuIndex) = vramPart entry := by
  have hparts : Part.of (parseVram entry gpuIndex) =
      (dict entry).next ((dict (field entry "vram".toList emptyDict)).next
        ((node (field (field entry "vram".toList emptyDict) "vram_total".toList (.int 0))).next
          ((dict (field entry "vram".toList emptyDict)).next
            ((node (field (field entry "vram".toList emptyDict) "vram_used".toList (.int 0))).next
              ((dict (field entry "vram".toList emptyDict)).next
                (node (field (field entry "vram".toList emptyDict) "vram_free".toList
                  (.int 0)))))))) := by
    unfold parseVram
    rw [of_getOf_bind, of_getOf_bind, of_toMb_bind]
    intro total
    rw [of_getOf_bind, of_toMb_bind]
    intro used
    rw [of_getOf_bind, of_map, of_toMb]
  rw [hparts]
  unfold vramPart
  simp only [Part.first_cons, Part.first_nil, Part.next_fine]
  rcases dict_cases (field entry "vram".toList emptyDict) with hvram | hvram
  · simp only [hvram, Part.fine_next]
  · simp only [hvram, Part.other_next]

theorem part_parseUtil (entry : JsonValue) : Part.of (parseUtil entry) = utilPart entry := by
  unfold parseUtil utilPart
  simp only [Part.first_cons, Part.first_nil, Part.next_fine]
  rw [of_getOf_bind, of_getOf_bind, of_map, of_toScalar]
  rfl

theorem part_parseEcc (entry : JsonValue) : Part.of (parseEcc entry) = eccPart entry := by
  unfold parseEcc eccPart
  simp only [Part.first_cons, Part.first_nil, Part.next_fine]
  rw [of_getOf_bind, of_getOf_bind]
  show _ = (dict entry).next ((dict (field entry "ecc".toList emptyDict)).next
    (match field (field entry "ecc".toList emptyDict) "total_correctable_count".toList .null with
      | .null => .fine
      | val => int val))
  generalize field (field entry "ecc".toList emptyDict) "total_correctable_count".toList .null = val
  cases val with
  | null => rfl
  | _ => simp only [of_map, Part.of_asInt]

theorem part_parseClock (str : JsonValue → Txt) (entry : JsonValue) :
    Part.of (parseClock str entry) = clockPart entry := by
  unfold parseClock clockPart
  simp only [Part.first_cons, Part.first_nil, Part.next_fine]
  rw [of_getOf_bind, of_map, of_getOf]

/-- The node for the speed of the fan. -/
theorem part_fan {α : Type} (entry : JsonValue) {f : JsonValue → Except AccessError α} :
    let speed := field (field entry "temperature".toList emptyDict) "fan_speed_rpm".toList .null
    Part.of ((if speed.truthy then .ok speed
      else
        (getOf entry "fan".toList emptyDict).bind fun fan =>
          getOf fan "speed_rpm".toList .null).bind f) =
      (if speed.truthy then .fine
        else (dict entry).next (dict (field entry "fan".toList emptyDict))).next
          (Part.of (f (fanNode entry))) := by
  intro speed
  have hnode : fanNode entry =
      if speed.truthy then speed else nodeAt entry "fan".toList "speed_rpm".toList := rfl
  by_cases htruthy : speed.truthy = true
  · rw [if_pos htruthy, if_pos htruthy, hnode, if_pos htruthy]
    rfl
  · rw [if_neg htruthy, if_neg htruthy, hnode, if_neg htruthy]
    have hfan : Part.of ((getOf entry "fan".toList emptyDict).bind fun fan =>
        getOf fan "speed_rpm".toList .null) =
          (dict entry).next (dict (field entry "fan".toList emptyDict)) := by
      rw [of_getOf_bind, of_getOf]
    rw [← hfan]
    apply Part.of_bind
    intro v hv
    obtain ⟨fan, hfan, hv⟩ := Fallible.bind_eq_ok.mp hv
    rw [getOf_ok hv, getOf_ok hfan]
    rfl

theorem part_thermalOf (entry : JsonValue) (gpuIndex : Nat) :
    Part.of (thermalOf entry gpuIndex) = thermalPart entry := by
  have hparts : Part.of (thermalOf entry gpuIndex) =
      (dict entry).next ((dict (field entry "temperature".toList emptyDict)).next
        ((if (nodeAt entry "temperature".toList "fan_speed_rpm".toList).truthy then .fine
          else (dict entry).next (dict (field entry "fan".toList emptyDict))).next
            ((node (fanNode entry)).next
              ((dict (field entry "temperature".toList emptyDict)).next
                ((node (nodeAt entry "temperature".toList "edge_temperature".toList)).next
                  ((dict (field entry "temperature".toList emptyDict)).next
                    (node (nodeAt entry "temperature".toList
                      "hotspot_temperature".toList)))))))) := by
    unfold thermalOf
    rw [of_getOf_bind, of_getOf_bind, part_fan, of_toScalar_bind]
    · rfl
    intro fan
    rw [of_getOf_bind]
    refine congrArg _ (of_toScalar_bind fun tempEdge => ?_)
    rw [of_getOf_bind, of_map, of_toScalar]
    rfl
  rw [hparts]
  unfold thermalPart
  simp only [Part.first_cons, Part.first_nil, Part.next_fine]
  rcases dict_cases entry with hentry | hentry
  · rcases dict_cases (field entry "temperature".toList emptyDict) with htemp | htemp
    · simp only [hentry, htemp, Part.fine_next]
    · simp only [hentry, htemp, Part.fine_next, Part.other_next]
  · simp only [hentry, Part.other_next]

/-! ## What is returned -/

theorem number_ok {v : JsonValue} {val : Option Int} (h : (asInt v).map some = .ok val) :
    val = intIn v := by
  obtain ⟨n, hn, rfl⟩ := Fallible.map_eq_ok.mp h
  exact (intIn_of_asInt hn).symm

/-- A node is read as the number it states; a dict without a value as zero. -/
theorem toScalar_ok {v : JsonValue} {val : Option Int} (h : toScalar v = .ok val)
    (hvalue : HasValue v) : val = numberIn v := by
  cases v with
  | obj items =>
    obtain ⟨n, hn, rfl⟩ := Fallible.map_eq_ok.mp h
    obtain ⟨w, hw⟩ := Option.isSome_iff_exists.mp hvalue
    have hread : intIn ((JsonValue.get? items "value".toList).getD (.int 0)) = some n :=
      intIn_of_asInt hn
    rw [hw, Option.getD_some] at hread
    show some n = intIn (((JsonValue.get? items "value".toList)).getD .null)
    rw [hw, Option.getD_some, hread]
  | bool b => exact number_ok h
  | int m => exact number_ok h
  | float x => exact number_ok h
  | null => exact (Except.ok.inj h).symm
  | str t => exact (Except.ok.inj h).symm
  | arr xs => exact (Except.ok.inj h).symm

/-- A zero is made up for a dict without a value. -/
theorem toScalar_made_up {v : JsonValue} {val : Option Int} (h : toScalar v = .ok val)
    (hvalue : ¬ HasValue v) : val = some 0 ∧ numberIn v = none := by
  cases v with
  | obj items =>
    have hnone : JsonValue.get? items "value".toList = none := by
      cases hget : JsonValue.get? items "value".toList with
      | none => rfl
      | some w => exact absurd (by rw [HasValue, hget]; rfl) hvalue
    have hzero : (asInt ((JsonValue.get? items "value".toList).getD (.int 0))).map some =
        .ok val := h
    rw [hnone] at hzero
    refine ⟨(Except.ok.inj hzero).symm, ?_⟩
    show intIn (((JsonValue.get? items "value".toList)).getD .null) = none
    rw [hnone]
    rfl
  | _ => exact absurd trivial hvalue

/-- A missing amount is zero megabytes. -/
theorem toMb_ok {v : JsonValue} {n : Int} (h : toMb v = .ok n) : n = (numberIn v).getD 0 := by
  cases v with
  | obj items =>
    show n = (intIn (((JsonValue.get? items "value".toList)).getD .null)).getD 0
    have hread : asInt ((JsonValue.get? items "value".toList).getD (.int 0)) = .ok n := h
    cases hget : JsonValue.get? items "value".toList with
    | none =>
      rw [hget] at hread
      exact (Except.ok.inj hread).symm
    | some w =>
      rw [hget, Option.getD_some] at hread
      rw [Option.getD_some, intIn_of_asInt hread, Option.getD_some]
  | bool b => rw [show numberIn (.bool b) = _ from intIn_of_asInt h]; rfl
  | int m => rw [show numberIn (.int m) = _ from intIn_of_asInt h]; rfl
  | float x => rw [show numberIn (.float x) = _ from intIn_of_asInt h]; rfl
  | null => exact (Except.ok.inj h).symm
  | str t => exact (Except.ok.inj h).symm
  | arr xs => exact (Except.ok.inj h).symm

/-! ## When the readers degrade -/

section

variable (loads : Txt → Except LoadError JsonValue) (str : JsonValue → Txt) (result : CommandResult)

/-- A successful command printed JSON, or what is no JSON in the ordinary way. -/
def Loads : Prop := result.ok = true → ∀ e, loads result.stdout = .error e → e = .jsonDecodeError

variable {loads result}

theorem unwrapEntries_error {data : JsonValue} {e : AccessError}
    (h : unwrapEntries data = .error e) : e = .typeError := by
  cases data with
  | obj items =>
    have hlist : toList (field (.obj items) "gpu_data".toList (.arr [])) = .error e := h
    generalize field (.obj items) "gpu_data".toList (.arr []) = v at hlist
    cases v with
    | arr xs => cases hlist
    | obj items => cases hlist
    | str s => cases hlist
    | _ => exact (Except.error.inj hlist).symm
  | _ => cases h

theorem runMetricJson_of_loads (h : Loads loads result) :
    runMetricJson loads result = .ok (firstEntry loads result) := by
  unfold runMetricJson firstEntry printed
  cases hok : result.ok with
  | false => rfl
  | true =>
    simp only [if_true]
    cases hload : loads result.stdout with
    | error e =>
      rw [h hok e hload]
      rfl
    | ok data =>
      simp only
      unfold entriesOf
      cases hentries : unwrapEntries data with
      | error e =>
        rw [unwrapEntries_error hentries]
        rfl
      | ok entries => rfl

theorem not_loads (h : ¬ Loads loads result) :
    result.ok = true ∧ ∃ e, loads result.stdout = .error e ∧ e ≠ .jsonDecodeError := by
  unfold Loads at h
  push Not at h
  obtain ⟨hok, e, hload, hne⟩ := h
  exact ⟨hok, e, hload, hne⟩

theorem runMetricJson_of_not_loads (h : ¬ Loads loads result) :
    ∃ e, runMetricJson loads result = .error e := by
  obtain ⟨hok, e, hload, hne⟩ := not_loads h
  refine ⟨.load e, ?_⟩
  unfold runMetricJson
  rw [hok, hload]
  cases e with
  | jsonDecodeError => exact absurd rfl hne
  | _ => rfl

theorem listDevices_of_not_loads (h : ¬ Loads loads result) :
    ∃ e, listDevices loads result = .error e := by
  obtain ⟨hok, e, hload, hne⟩ := not_loads h
  refine ⟨.load e, ?_⟩
  unfold listDevices
  rw [hok, hload]
  cases e with
  | jsonDecodeError => exact absurd rfl hne
  | _ => rfl

/-- What fits, by the list that was printed. -/
theorem fits_iff (reader : Reader) : Fits loads result reader ↔
    Loads loads result ∧
      match reader with
      | .listDevices => first ((printed loads result).map devicePart) ≠ .other
      | reader => firstEntry loads result ≠ .null → EntryFits (firstEntry loads result) reader := by
  have hhead : ∀ (entries : List JsonValue) (p : JsonValue → Prop),
      (∀ entry, entries.head? = some entry → entry ≠ .null → p entry) ↔
        (entries.head?.getD .null ≠ .null → p (entries.head?.getD .null)) := by
    intro entries p
    cases entries.head? with
    | none => simp
    | some entry => simp
  have hempty : first (([] : List JsonValue).map devicePart) ≠ .other := by decide
  unfold Fits Loads firstEntry printed
  cases hok : result.ok with
  | false => cases reader <;> simp [Part.first_nil]
  | true =>
    simp only [if_true, true_implies]
    cases hload : loads result.stdout with
    | error e => cases reader <;> simp [Part.first_nil]
    | ok data =>
      cases reader with
      | listDevices => simp [DocumentFits]
      | _ => simpa [DocumentFits] using hhead (entriesOf data) _

/-! ### The queries -/

section

variable {α : Type} {parse : JsonValue → Except AccessError (Option α)}

theorem queryWith_null (h : Loads loads result) (hnull : firstEntry loads result = .null) :
    queryWith loads result parse = .ok none := by
  unfold queryWith
  rw [runMetricJson_of_loads h, hnull]
  rfl

theorem queryWith_entry (h : Loads loads result) (hentry : firstEntry loads result ≠ .null) :
    queryWith loads result parse = (parse (firstEntry loads result)).mapError .access := by
  unfold queryWith
  rw [runMetricJson_of_loads h]
  generalize firstEntry loads result = entry at *
  cases entry with
  | null => exact absurd rfl hentry
  | _ => rfl

/-- A query that nothing is handled in: the entry is a null, or all of it is fine and what is
made of it is what can be read. -/
theorem queryWith_iff (good : JsonValue → Prop) {part : JsonValue → Part}
    {readable : Option α → Prop} (hpart : ∀ entry, Part.of (parse entry) = part entry)
    (hnone : readable none)
    (hread : ∀ a, parse (firstEntry loads result) = .ok a →
      (readable a ↔ good (firstEntry loads result))) :
    (∃ a, queryWith loads result parse = .ok a ∧ readable a) ↔
      Loads loads result ∧ (firstEntry loads result ≠ .null →
        part (firstEntry loads result) = .fine ∧ good (firstEntry loads result)) := by
  by_cases hloads : Loads loads result
  · rw [and_iff_right hloads]
    by_cases hnull : firstEntry loads result = .null
    · rw [queryWith_null hloads hnull]
      exact iff_of_true ⟨none, rfl, hnone⟩ fun h => absurd hnull h
    · rw [queryWith_entry hloads hnull, imp_iff_right hnull, ← hpart, Part.of_eq_fine]
      cases hparse : parse (firstEntry loads result) with
      | error e =>
        refine iff_of_false ?_ ?_
        · intro h
          obtain ⟨a, ha, -⟩ := h
          cases ha
        · intro h
          obtain ⟨⟨a, ha⟩, -⟩ := h
          cases ha
      | ok a =>
        have hgood := hread a hparse
        constructor
        · intro h
          obtain ⟨b, hb, hreadable⟩ := h
          rw [← Except.ok.inj hb] at hreadable
          exact ⟨⟨a, rfl⟩, hgood.mp hreadable⟩
        · intro h
          exact ⟨a, rfl, hgood.mpr h.2⟩
  · obtain ⟨e, he⟩ := runMetricJson_of_not_loads hloads
    refine iff_of_false ?_ fun h => hloads h.1
    intro h
    obtain ⟨a, ha, -⟩ := h
    unfold queryWith at ha
    rw [he] at ha
    cases ha

end

theorem degrades_vramUsage (gpuIndex : Nat) :
    Degrades loads str result gpuIndex .vramUsage ↔ Fits loads result .vramUsage := by
  rw [fits_iff]
  unfold Degrades queryVramUsage
  refine (queryWith_iff (fun _ => True) (fun entry => part_parseVram entry gpuIndex)
    (Or.inl rfl) ?_).trans ?_
  · intro usage h
    refine iff_of_true ?_ trivial
    obtain ⟨vram, hvram, h⟩ := Fallible.bind_eq_ok.mp h
    obtain ⟨total, htotal, h⟩ := Fallible.bind_eq_ok.mp h
    obtain ⟨totalMb, htotalMb, h⟩ := Fallible.bind_eq_ok.mp h
    obtain ⟨used, hused, h⟩ := Fallible.bind_eq_ok.mp h
    obtain ⟨usedMb, husedMb, h⟩ := Fallible.bind_eq_ok.mp h
    obtain ⟨free, hfree, h⟩ := Fallible.bind_eq_ok.mp h
    obtain ⟨freeMb, hfreeMb, rfl⟩ := Fallible.map_eq_ok.mp h
    -- an amount without a node is zero, with a default of zero or of null
    have hamount : ∀ {key : Txt} {v : JsonValue} {n : Int}, getOf vram key (.int 0) = .ok v →
        toMb v = .ok n → n = (amount loads result key).getD 0 := by
      intro key v n hv hn
      have hread := toMb_ok hn
      rw [getOf_ok hv, getOf_ok hvram] at hread
      unfold amount nodeAt
      generalize field (firstEntry loads result) "vram".toList emptyDict = vram at hread
      cases vram with
      | obj items =>
        rw [hread]
        unfold field
        simp only
        cases JsonValue.get? items key with
        | none => rfl
        | some w => rfl
      | _ => exact hread
    rw [hamount htotal htotalMb, hamount hused husedMb, hamount hfree hfreeMb]
    by_cases hnone : (amount loads result "vram_total".toList).getD 0 = 0 ∧
        (amount loads result "vram_used".toList).getD 0 = 0
    · exact Or.inl (if_pos hnone)
    · refine Or.inr ⟨if_neg hnone, ?_⟩
      by_contra hnot
      obtain ⟨htotal', hused'⟩ := not_or.mp hnot
      rw [Option.not_isSome_iff_eq_none] at htotal' hused'
      rw [htotal', hused'] at hnone
      exact hnone ⟨rfl, rfl⟩
  · simp [EntryFits]

theorem degrades_eccErrors (gpuIndex : Nat) :
    Degrades loads str result gpuIndex .eccErrors ↔ Fits loads result .eccErrors := by
  rw [fits_iff]
  unfold Degrades queryEccErrors
  refine (queryWith_iff (fun _ => True) part_parseEcc (Or.inl rfl) ?_).trans ?_
  · intro count h
    refine iff_of_true (Or.inr ?_) trivial
    obtain ⟨ecc, hecc, h⟩ := Fallible.bind_eq_ok.mp h
    obtain ⟨val, hval, h⟩ := Fallible.bind_eq_ok.mp h
    rw [getOf_ok hecc] at hval
    have hnode : val = nodeAt (firstEntry loads result) "ecc".toList
        "total_correctable_count".toList := getOf_ok hval
    rw [← hnode]
    cases val with
    | null => exact (Except.ok.inj h).symm
    | _ => exact number_ok h
  · simp [EntryFits]

theorem degrades_gpuUtilization (gpuIndex : Nat) :
    Degrades loads str result gpuIndex .gpuUtilization ↔ Fits loads result .gpuUtilization := by
  rw [fits_iff]
  unfold Degrades queryGpuUtilization
  refine queryWith_iff (fun entry => HasValue (nodeAt entry "activity".toList
    "gfx_activity".toList)) part_parseUtil (Or.inl rfl) ?_
  intro util h
  obtain ⟨activity, hactivity, h⟩ := Fallible.bind_eq_ok.mp h
  obtain ⟨raw, hraw, h⟩ := Fallible.bind_eq_ok.mp h
  obtain ⟨val, hval, rfl⟩ := Fallible.map_eq_ok.mp h
  rw [getOf_ok hactivity] at hraw
  have hnode : raw = nodeAt (firstEntry loads result) "activity".toList
      "gfx_activity".toList := getOf_ok hraw
  rw [← hnode]
  by_cases hvalue : HasValue raw
  · rw [toScalar_ok hval hvalue]
    exact iff_of_true (Or.inr rfl) hvalue
  · obtain ⟨hzero, hnone⟩ := toScalar_made_up hval hvalue
    rw [hzero, hnone]
    refine iff_of_false ?_ hvalue
    simp

theorem degrades_clockState (gpuIndex : Nat) :
    Degrades loads str result gpuIndex .clockState ↔ Fits loads result .clockState := by
  rw [fits_iff]
  unfold Degrades queryClockState
  refine (queryWith_iff (fun _ => True) (part_parseClock str) (Or.inl rfl) ?_).trans ?_
  · intro level h
    refine iff_of_true ?_ trivial
    obtain ⟨clock, hclock, h⟩ := Fallible.bind_eq_ok.mp h
    obtain ⟨val, hval, rfl⟩ := Fallible.map_eq_ok.mp h
    rw [getOf_ok hclock] at hval
    have hnode : val = nodeAt (firstEntry loads result) "clock".toList
        "performance_level".toList := getOf_ok hval
    rw [← hnode]
    cases val with
    | null => exact Or.inl rfl
    | _ => exact Or.inr rfl
  · simp [EntryFits]

/-! ### The temperature -/

/-- A `TypeError` is handled here. -/
theorem queryGpuTemp_entry (gpuIndex : Nat) (h : Loads loads result)
    (hentry : firstEntry loads result ≠ .null) :
    queryGpuTemp loads result gpuIndex =
      match thermalOf (firstEntry loads result) gpuIndex with
      | .error .typeError => .ok none
      | .error e => .error (.access e)
      | .ok info => .ok info.tempHotspot := by
  unfold queryGpuTemp queryThermal
  rw [runMetricJson_of_loads h]
  generalize firstEntry loads result = entry at *
  cases entry with
  | null => exact absurd rfl hentry
  | _ =>
    simp only [Except.bind]
    cases thermalOf _ gpuIndex with
    | ok info => rfl
    | error e => cases e <;> rfl

theorem degrades_gpuTemp (gpuIndex : Nat) :
    Degrades loads str result gpuIndex .gpuTemp ↔ Fits loads result .gpuTemp := by
  rw [fits_iff]
  show (∃ temp, queryGpuTemp loads result gpuIndex = .ok temp ∧ (temp = none ∨
      temp = numberIn (nodeAt (firstEntry loads result) "temperature".toList
        "hotspot_temperature".toList))) ↔ Loads loads result ∧
    (firstEntry loads result ≠ .null →
      thermalPart (firstEntry loads result) ≠ .other ∧
        (thermalPart (firstEntry loads result) = .fine →
          HasValue (nodeAt (firstEntry loads result) "temperature".toList
            "hotspot_temperature".toList)))
  by_cases hloads : Loads loads result
  · rw [and_iff_right hloads]
    by_cases hnull : firstEntry loads result = .null
    · refine iff_of_true ⟨none, ?_, Or.inl rfl⟩ fun h => absurd hnull h
      unfold queryGpuTemp queryThermal
      rw [runMetricJson_of_loads hloads, hnull]
      rfl
    · rw [queryGpuTemp_entry gpuIndex hloads hnull, imp_iff_right hnull]
      rw [← part_thermalOf _ gpuIndex]
      cases hthermal : thermalOf (firstEntry loads result) gpuIndex with
      | error e =>
        cases e with
        | typeError => exact iff_of_true ⟨none, rfl, Or.inl rfl⟩ ⟨by decide, fun h => nomatch h⟩
        | _ => exact iff_of_false (fun h => nomatch h.choose_spec.1) fun h => h.1 rfl
      | ok info =>
        have hhot : toScalar (nodeAt (firstEntry loads result) "temperature".toList
            "hotspot_temperature".toList) = .ok info.tempHotspot := by
          obtain ⟨temp, htemp, h⟩ := Fallible.bind_eq_ok.mp hthermal
          obtain ⟨speed, _, h⟩ := Fallible.bind_eq_ok.mp h
          obtain ⟨fanRaw, _, h⟩ := Fallible.bind_eq_ok.mp h
          obtain ⟨fan, _, h⟩ := Fallible.bind_eq_ok.mp h
          obtain ⟨edge, _, h⟩ := Fallible.bind_eq_ok.mp h
          obtain ⟨tempEdge, _, h⟩ := Fallible.bind_eq_ok.mp h
          obtain ⟨hotspot, hhotspot, h⟩ := Fallible.bind_eq_ok.mp h
          obtain ⟨tempHotspot, hread, rfl⟩ := Fallible.map_eq_ok.mp h
          rw [getOf_ok htemp] at hhotspot
          rw [getOf_ok hhotspot] at hread
          exact hread
        have hreturns :
            (∃ temp, (Except.ok info.tempHotspot : Except ReadError (Option Int)) = .ok temp ∧
            (temp = none ∨ temp = numberIn (nodeAt (firstEntry loads result) "temperature".toList
              "hotspot_temperature".toList))) ↔
            HasValue (nodeAt (firstEntry loads result) "temperature".toList
              "hotspot_temperature".toList) := by
          by_cases hvalue : HasValue (nodeAt (firstEntry loads result) "temperature".toList
              "hotspot_temperature".toList)
          · exact iff_of_true ⟨_, rfl, Or.inr (toScalar_ok hhot hvalue)⟩ hvalue
          · obtain ⟨hzero, hnone⟩ := toScalar_made_up hhot hvalue
            rw [hzero, hnone]
            refine iff_of_false ?_ hvalue
            intro h
            obtain ⟨temp, htemp, hread⟩ := h
            rw [← Except.ok.inj htemp] at hread
            simp at hread
        refine Iff.trans hreturns ?_
        constructor
        · exact fun h => ⟨(fun h => nomatch h), fun _ => h⟩
        · exact fun h => h.2 rfl
  · obtain ⟨e, he⟩ := runMetricJson_of_not_loads hloads
    refine iff_of_false ?_ fun h => hloads h.1
    intro h
    obtain ⟨temp, htemp, -⟩ := h
    unfold queryGpuTemp queryThermal at htemp
    rw [he] at htemp
    cases htemp

/-! ### The devices -/

theorem degrades_listDevices (gpuIndex : Nat) :
    Degrades loads str result gpuIndex .listDevices ↔ Fits loads result .listDevices := by
  rw [fits_iff]
  show (∃ devices, listDevices loads result = .ok devices ∧
      (devices = [] ∨ devices.length = (printed loads result).length)) ↔
    Loads loads result ∧ first ((printed loads result).map devicePart) ≠ .other
  by_cases hloads : Loads loads result
  · rw [and_iff_right hloads]
    have hnone : first (([] : List JsonValue).map devicePart) ≠ .other := by decide
    cases hok : result.ok with
    | false =>
      have hprinted : printed loads result = [] := by
        unfold printed
        rw [hok]
        rfl
      rw [hprinted]
      refine iff_of_true ⟨[], ?_, Or.inl rfl⟩ hnone
      unfold listDevices
      rw [hok]
      rfl
    | true =>
      cases hload : loads result.stdout with
      | error e =>
        have hprinted : printed loads result = [] := by
          unfold printed
          rw [hok, hload]
          rfl
        rw [hprinted]
        refine iff_of_true ⟨[], ?_, Or.inl rfl⟩ hnone
        unfold listDevices
        rw [hok, hload, hloads hok e hload]
        rfl
      | ok data =>
        have hprinted : printed loads result = entriesOf data := by
          unfold printed
          rw [hok, hload]
          rfl
        rw [hprinted]
        unfold listDevices entriesOf
        rw [hok, hload]
        simp only [if_true]
        cases hentries : unwrapEntries data with
        | error e =>
          rw [unwrapEntries_error hentries]
          exact iff_of_true ⟨[], rfl, Or.inl rfl⟩ hnone
        | ok entries =>
          have hpart : Part.of (entries.zipIdx.mapM fun x => deviceOf x.2 x.1) =
              first (entries.map devicePart) := by
            rw [Part.of_mapM, List.map_congr_left fun x _ => part_deviceOf x.2 x.1]
            conv_rhs => rw [← List.zipIdx_map_fst 0 entries, List.map_map]
            rfl
          simp only [Except.bind]
          rw [← hpart]
          cases hdevices : entries.zipIdx.mapM fun x => deviceOf x.2 x.1 with
          | error e =>
            cases e with
            | typeError => exact iff_of_true ⟨[], rfl, Or.inl rfl⟩ (by decide)
            | _ => exact iff_of_false (fun h => nomatch h.choose_spec.1) fun h => h rfl
          | ok devices =>
            refine iff_of_true ⟨devices, rfl, Or.inr ?_⟩ fun h => nomatch h
            rw [← (Fallible.forall₂_of_mapM hdevices).length_eq, List.length_zipIdx]
  · obtain ⟨e, he⟩ := listDevices_of_not_loads hloads
    refine iff_of_false ?_ fun h => hloads h.1
    intro h
    obtain ⟨devices, hdevices, -⟩ := h
    rw [he] at hdevices
    cases hdevices

end

/-- A reader degrades exactly on the outputs that it can cope with. -/
theorem degrades_iff (loads : Txt → Except LoadError JsonValue) (str : JsonValue → Txt)
    (result : CommandResult) (gpuIndex : Nat) (reader : Reader) :
    Degrades loads str result gpuIndex reader ↔ Fits loads result reader := by
  cases reader with
  | listDevices => exact degrades_listDevices str gpuIndex
  | gpuTemp => exact degrades_gpuTemp str gpuIndex
  | vramUsage => exact degrades_vramUsage str gpuIndex
  | eccErrors => exact degrades_eccErrors str gpuIndex
  | gpuUtilization => exact degrades_gpuUtilization str gpuIndex
  | clockState => exact degrades_clockState str gpuIndex

/-- A device whose memory reports no temperature, and says so. -/
def temperatureUnavailable : JsonValue :=
  .arr [.obj [("temperature".toList,
    .obj [("hotspot_temperature".toList, .obj [("value".toList, .str "N/A".toList)])])]]

def unavailableText : Txt :=
  ("[\x7b\"temperature\": \x7b\"hotspot_temperature\": " ++
    "\x7b\"value\": \"N/A\"\x7d\x7d\x7d]").toList

def loadsUnavailable (t : Txt) : Except LoadError JsonValue :=
  if t = unavailableText then .ok temperatureUnavailable else .error .jsonDecodeError

theorem temperatureUnavailable_raises :
    ¬ Degrades loadsUnavailable (fun _ => []) ⟨true, unavailableText⟩ 0 .gpuTemp := by
  intro h
  obtain ⟨temp, htemp, -⟩ := h
  have hraised : queryGpuTemp loadsUnavailable ⟨true, unavailableText⟩ 0 =
      .error (.access .valueError) := by rfl
  rw [hraised] at htemp
  cases htemp

end AmdSmi
end Rocm
end RocmTests

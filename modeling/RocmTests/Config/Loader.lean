import RocmTests.Collections.Dict
import RocmTests.Text.Numeral

/-!
# The configuration loader

`load_config` builds one object for each section: the defaults of the code, over
them the values of `rocm-test.toml`, over these the environment.  An environment
variable is converted to the type of the value that it replaces.

A section object is its instance dictionary.  The names that every Python object
has of its own differ from one version to the next, and are a parameter; three of
them are not stored in that dictionary.
-/

namespace RocmTests
namespace Config

open Markers (strip)
open Text

inductive Toml where
  | str (s : Txt)
  | int (n : Int)
  | float (x : PyFloat)
  | bool (b : Bool)
  | datetime (text : Txt)
  | arr (xs : List Toml)
  | table (items : List (Txt × Toml))

/-- The types that a conversion is chosen by; everything else is taken as text. -/
inductive Kind where
  | bool
  | int
  | float
  | list
  | text
deriving DecidableEq

def kindOf : Toml → Kind
  | .bool _ => .bool
  | .int _ => .int
  | .float _ => .float
  | .arr _ => .list
  | _ => .text

inductive PyError where
  | typeError
  | attributeError
deriving DecidableEq

/-! ## The sections -/

inductive Section where
  | framework
  | gpu
  | reporting
  | therock
  | frameworks
deriving DecidableEq

/-- A field of a dataclass. -/
structure Field where
  name : Txt
  declared : Kind
  default : Toml
  typed : kindOf default = declared

def strField (name default : String) : Field := ⟨name.toList, .text, .str default.toList, rfl⟩

def intField (name : String) (default : Int) : Field := ⟨name.toList, .int, .int default, rfl⟩

def floatField (name : String) (default : ℚ) : Field :=
  ⟨name.toList, .float, .float (.finite default), rfl⟩

def listField (name : String) (default : List String) : Field :=
  ⟨name.toList, .list, .arr (default.map fun s => .str s.toList), rfl⟩

def Section.key : Section → Txt
  | .framework => "framework".toList
  | .gpu => "gpu".toList
  | .reporting => "reporting".toList
  | .therock => "therock".toList
  | .frameworks => "frameworks".toList

def fields : Section → List Field
  | .framework =>
    [strField "log_level" "normal", strField "run_id_prefix" "rocm-test",
      strField "artifact_dir" "output/artifacts/",
      strField "session_log" "output/logs/session.log"]
  | .gpu =>
    [strField "detection" "auto", intField "max_temp_celsius" 90, intField "max_ecc_errors" 0,
      intField "min_vram_free_mb" 512,
      listField "health_metrics" ["temp", "vram", "util", "ecc", "clock"],
      listField "monitor_metrics" ["temp", "vram", "util", "ecc", "clock"],
      floatField "monitor_interval_secs" 15, floatField "monitor_duration_secs" 0]
  | .reporting =>
    [strField "allure_results_dir" "output/artifacts/allure-results/", intField "history_depth" 5]
  | .therock =>
    [strField "rock_dir" "", strField "rocm_version" "",
      strField "build_dir" "output/test-binaries/", floatField "build_timeout_secs" 7200,
      floatField "build_inactivity_timeout_secs" 600]
  | .frameworks =>
    [strField "default_mode" "auto",
      strField "multiarch_index" "https://rocm.nightlies.amd.com/whl-multi-arch/",
      strField "family_index_base" "https://rocm.nightlies.amd.com/v2",
      strField "staging_index" "https://rocm.nightlies.amd.com/whl-staging-multi-arch/",
      strField "requirements_pytorch" "tests/common/ml_provisioning/requirements-pytorch.txt"]

/-- A section object, as its `vars`. -/
abbrev Obj := Dict Txt Toml

theorem names_nodup (s : Section) :
    (((fields s).map fun f => (f.name, f.default)).map Prod.fst).Nodup := by
  have hnames : ((fields s).map fun f => (f.name, f.default)).map Prod.fst =
      (fields s).map Field.name := by
    rw [List.map_map]
    rfl
  rw [hnames]
  cases s <;> decide +kernel

/-- `default_cls()`. -/
def defaultObject (s : Section) : Obj :=
  ⟨(fields s).map fun f => (f.name, f.default), names_nodup s⟩

/-- A default that is no list is an attribute of the class, too. -/
def classDefault (s : Section) (name : Txt) : Option Toml :=
  ((fields s).find? fun f => decide (f.name = name ∧ f.declared ≠ .list)).map Field.default

/-- The attributes that Python keeps outside of the instance dictionary. -/
def descriptors : List Txt := ["__class__".toList, "__dict__".toList, "__weakref__".toList]

def hasattr (own : Txt → Bool) (s : Section) (obj : Obj) (name : Txt) : Bool :=
  decide (name ∈ obj.keys) || (classDefault s name).isSome || decide (name ∈ descriptors) ||
    own name

def setattr (obj : Obj) (name : Txt) (value : Toml) : Except PyError Obj :=
  if name = "__class__".toList then .error .typeError
  else if name = "__weakref__".toList then .error .attributeError
  else if name = "__dict__".toList then
    match value with
    | .table items => .ok (.ofItems items)
    | _ => .error .typeError
  else .ok (obj.assign name value)

/-- The value of a field. -/
def getattr (s : Section) (obj : Obj) (name : Txt) : Option Toml :=
  (obj.get name).or (classDefault s name)

/-! ## The file -/

def mergeItems (own : Txt → Bool) (s : Section) : List (Txt × Toml) → Obj → Except PyError Obj
  | [], obj => .ok obj
  | (key, value) :: items, obj =>
    if hasattr own s obj key then (setattr obj key value).bind (mergeItems own s items)
    else mergeItems own s items obj

/-- A section that is no table has no `items`. -/
def merge (own : Txt → Bool) (raw : Dict Txt Toml) (s : Section) : Except PyError Obj :=
  match raw.get s.key with
  | none => .ok (defaultObject s)
  | some (.table items) => mergeItems own s (Dict.ofItems items).items (defaultObject s)
  | some _ => .error .attributeError

structure FrameworkConfig where
  framework : Obj
  gpu : Obj
  reporting : Obj
  therock : Obj
  frameworks : Obj

def FrameworkConfig.section (cfg : FrameworkConfig) : Section → Obj
  | .framework => cfg.framework
  | .gpu => cfg.gpu
  | .reporting => cfg.reporting
  | .therock => cfg.therock
  | .frameworks => cfg.frameworks

/-- One object for each section, in the order of the code; the first exception is
raised on. -/
def eachSection (build : Section → Except PyError Obj) : Except PyError FrameworkConfig := do
  let framework ← build .framework
  let gpu ← build .gpu
  let reporting ← build .reporting
  let therock ← build .therock
  let frameworks ← build .frameworks
  pure ⟨framework, gpu, reporting, therock, frameworks⟩

def buildConfig (own : Txt → Bool) (raw : Dict Txt Toml) : Except PyError FrameworkConfig :=
  eachSection (merge own raw)

/-! ## The environment -/

section

variable (round : PyFloat → PyFloat) (environ : Txt → Option Txt)

/-- `ROCM_TEST_<SECTION>_<KEY>`. -/
def envKey (s : Section) (attr : Txt) : Txt :=
  "ROCM_TEST_".toList ++ s.key.map Char.toUpper ++ '_' :: attr.map Char.toUpper

/-- The conversion of a text, or nothing for a `ValueError`.  None of the three words
for true has a letter that `str.lower` makes of a character outside ASCII. -/
def convert : Kind → Txt → Option Toml
  | .bool, raw =>
    some (.bool (decide (raw.map Char.toLower ∈ ["1".toList, "true".toList, "yes".toList])))
  | .int, raw => (parseInt raw).map .int
  | .float, raw => (PyFloat.parse raw).map fun x => .float (round x)
  | .list, raw => some (.arr ((raw.splitOn ',').map fun v => .str (strip v)))
  | .text, raw => some (.str raw)

/-- The type of the value an override replaces. -/
def currentKind (obj : Obj) (attr : Txt) : Kind :=
  if attr ∈ descriptors then .text else ((obj.get attr).map kindOf).getD .text

/-- One round of the loop.  A `ValueError` or `TypeError` is logged. -/
def applyOverride (s : Section) (attr : Txt) (obj : Obj) : Except PyError Obj :=
  match environ (envKey s attr) with
  | none => .ok obj
  | some raw =>
    match convert round (currentKind obj attr) raw with
    | none => .ok obj
    | some converted =>
      match setattr obj attr converted with
      | .error .typeError => .ok obj
      | result => result

def applyOverrides (s : Section) : List Txt → Obj → Except PyError Obj
  | [], obj => .ok obj
  | attr :: attrs, obj => (applyOverride round environ s attr obj).bind (applyOverrides s attrs)

def applyEnvOverrides (cfg : FrameworkConfig) : Except PyError FrameworkConfig :=
  eachSection fun s => applyOverrides round environ s (cfg.section s).keys (cfg.section s)

end

/-! ## Loading -/

/-- What the loader finds around it.  `readToml` is the document in a file,
`roundFloat` the nearest binary64 number, and `ownAttribute` says which names the
class of a section has besides its fields. -/
structure Host where
  isFile : Txt → Bool
  cwd : Txt
  home : Txt
  environ : Txt → Option Txt
  readToml : Txt → Dict Txt Toml
  roundFloat : PyFloat → PyFloat
  ownAttribute : Txt → Bool

def resolveConfigPath (host : Host) (explicit : Option Txt) : Option Txt :=
  match explicit with
  | some (c :: cs) => if host.isFile (c :: cs) then some (c :: cs) else none
  | _ => [host.cwd ++ "/rocm-test.toml".toList, host.home ++ "/rocm-test.toml".toList].find?
      host.isFile

/-- The document that is merged; without a file it is empty. -/
def document (host : Host) (configPath : Option Txt) : Dict Txt Toml :=
  match resolveConfigPath host configPath with
  | some path => host.readToml path
  | none => .empty

def loadConfig (host : Host) (configPath : Option Txt) : Except PyError FrameworkConfig := do
  let cfg ← buildConfig host.ownAttribute (document host configPath)
  applyEnvOverrides host.roundFloat host.environ cfg

end Config
end RocmTests

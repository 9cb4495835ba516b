import RocmTests.Conc.Fallible
import RocmTests.Config.Loader

/-!
# The priority of the three layers

A field of the configuration should be what the environment says, converted to the
type of the field; or else what the file says; or else its default.  The override
converts to the type of the value that the file has put there.
-/

namespace RocmTests
namespace Config

open Text
open Conc.Fallible (bind_eq_ok)

section

variable {round : PyFloat → PyFloat} {environ : Txt → Option Txt} {own : Txt → Bool}

/-! ## One field -/

theorem kindOf_convert {k : Kind} {raw : Txt} {v : Toml} (h : convert round k raw = some v) :
    kindOf v = k := by
  cases k with
  | bool => exact Option.some.inj h ▸ rfl
  | int =>
    obtain ⟨n, -, rfl⟩ := Option.map_eq_some_iff.mp h
    rfl
  | float =>
    obtain ⟨x, -, rfl⟩ := Option.map_eq_some_iff.mp h
    rfl
  | list => exact Option.some.inj h ▸ rfl
  | text => exact Option.some.inj h ▸ rfl

variable (round)

/-- What the loop makes of the value that is there. -/
def overridden (current : Toml) (setting : Option Txt) : Toml :=
  (setting.bind (convert round (kindOf current))).getD current

/-- What the priority makes of the three layers. -/
def layered (f : Field) (toml : Option Toml) (setting : Option Txt) : Toml :=
  (setting.bind (convert round f.declared)).getD (toml.getD f.default)

/-- A field that is set in both places has in the file a value of its own type, or the
environment says nothing of either type that is not in the file. -/
def Agrees (f : Field) (toml : Option Toml) (setting : Option Txt) : Prop :=
  ∀ v, toml = some v → ∀ raw, setting = some raw →
    kindOf v = f.declared ∨
      convert round f.declared raw = none ∧
        (convert round (kindOf v) raw = none ∨ convert round (kindOf v) raw = some v)

variable {round}

theorem overridden_eq_layered_iff (f : Field) (toml : Option Toml) (setting : Option Txt) :
    overridden round (toml.getD f.default) setting = layered round f toml setting ↔
      Agrees round f toml setting := by
  unfold overridden layered Agrees
  cases toml with
  | none =>
    rw [Option.getD_none, f.typed]
    refine iff_of_true rfl fun v hv => ?_
    cases hv
  | some v =>
    cases setting with
    | none =>
      refine iff_of_true rfl fun _ _ raw hraw => ?_
      cases hraw
    | some raw =>
      simp only [Option.getD_some, Option.bind_some, Option.some.injEq, forall_eq']
      by_cases hkind : kindOf v = f.declared
      · rw [hkind]
        exact iff_of_true rfl (Or.inl rfl)
      · rw [or_iff_right hkind]
        cases hdeclared : convert round f.declared raw with
        | none =>
          rw [Option.getD_none, and_iff_right rfl]
          cases hused : convert round (kindOf v) raw with
          | none => exact iff_of_true rfl (Or.inl rfl)
          | some w =>
            rw [Option.getD_some, Option.some.injEq]
            exact (or_iff_right (Option.some_ne_none w)).symm
        | some w =>
          have hw := kindOf_convert hdeclared
          refine iff_of_false (fun heq => ?_) fun hnone => nomatch hnone.1
          rw [Option.getD_some] at heq
          -- the used conversion gives a value of another type, or leaves the one of the file
          cases hused : convert round (kindOf v) raw with
          | none =>
            rw [hused, Option.getD_none] at heq
            rw [← heq] at hw
            exact hkind hw
          | some u =>
            have hu := kindOf_convert hused
            rw [hused, Option.getD_some] at heq
            rw [heq, hw] at hu
            exact hkind hu.symm

/-! ## One section -/

variable {s : Section} {obj : Obj} {name attr : Txt} {value : Toml}

theorem setattr_of_plain (h : name ∉ descriptors) :
    setattr obj name value = .ok (obj.assign name value) := by
  unfold descriptors at h
  simp only [List.mem_cons, List.not_mem_nil, or_false, not_or] at h
  unfold setattr
  rw [if_neg h.1, if_neg h.2.2, if_neg h.2.1]

theorem setattr_of_descriptor (h : name ∈ descriptors)
    (hdict : ∀ items, name = "__dict__".toList → value ≠ .table items) :
    ∃ e, setattr obj name value = .error e := by
  unfold descriptors at h
  simp only [List.mem_cons, List.not_mem_nil, or_false] at h
  unfold setattr
  rcases h with rfl | rfl | rfl
  · exact ⟨.typeError, if_pos rfl⟩
  · refine ⟨.typeError, ?_⟩
    rw [if_neg (by decide), if_neg (by decide), if_pos rfl]
    cases value with
    | table items => exact absurd rfl (hdict items rfl)
    | _ => rfl
  · exact ⟨.attributeError, by rw [if_neg (by decide), if_pos rfl]⟩

theorem hasattr_of_mem (h : name ∈ obj.keys) : hasattr own s obj name = true := by
  simp [hasattr, h]

theorem hasattr_of_descriptor (h : name ∈ descriptors) : hasattr own s obj name = true := by
  simp [hasattr, h]

/-- The fields of an object that the file was merged into. -/
structure Merged (items : List (Txt × Toml)) (obj obj' : Obj) : Prop where
  kept : ∀ k ∈ obj.keys, k ∈ obj'.keys
  plain : (∀ k ∈ obj.keys, k ∉ descriptors) → ∀ k ∈ obj'.keys, k ∉ descriptors
  value : ∀ k ∈ obj.keys, obj'.get k = (Dict.valueIn items k).or (obj.get k)

theorem mergeItems_of_plain {items : List (Txt × Toml)} (hnodup : (items.map Prod.fst).Nodup)
    (hplain : ∀ k ∈ items.map Prod.fst, k ∉ descriptors) :
    ∀ obj : Obj, ∃ obj', mergeItems own s items obj = .ok obj' ∧ Merged items obj obj' := by
  induction items with
  | nil => exact fun obj => ⟨obj, rfl, fun _ => id, id, fun _ _ => rfl⟩
  | cons p items ih =>
    obtain ⟨key, v⟩ := p
    rw [List.map_cons, List.nodup_cons] at hnodup
    rw [List.map_cons, List.forall_mem_cons] at hplain
    intro obj
    have habsent : Dict.valueIn items key = none := Dict.valueIn_eq_none_iff.mpr hnodup.1
    rw [mergeItems]
    by_cases hattr : hasattr own s obj key = true
    · obtain ⟨obj', hmerge, hmerged⟩ := ih hnodup.2 hplain.2 (obj.assign key v)
      refine ⟨obj', ?_, ?_, ?_, ?_⟩
      · rw [if_pos hattr, setattr_of_plain hplain.1]
        exact hmerge
      · exact fun k hk => hmerged.kept k (Dict.mem_keys_assign.mpr (Or.inr hk))
      · intro hobj
        refine hmerged.plain fun k hk => ?_
        rcases Dict.mem_keys_assign.mp hk with rfl | hk
        · exact hplain.1
        · exact hobj k hk
      · intro k hk
        rw [hmerged.value k (Dict.mem_keys_assign.mpr (Or.inr hk)), Dict.get_assign, Dict.valueIn]
        by_cases hkey : key = k
        · rw [if_pos hkey, if_pos hkey, ← hkey, habsent]
          rfl
        · rw [if_neg hkey, if_neg hkey]
    · obtain ⟨obj', hmerge, hmerged⟩ := ih hnodup.2 hplain.2 obj
      refine ⟨obj', ?_, hmerged.kept, hmerged.plain, ?_⟩
      · rw [if_neg hattr]
        exact hmerge
      · intro k hk
        have hkey : key ≠ k := fun h => hattr (hasattr_of_mem (h ▸ hk))
        rw [hmerged.value k hk, Dict.valueIn, if_neg hkey]

/-- An attribute that cannot be set ends the loading. -/
theorem mergeItems_of_descriptor {items : List (Txt × Toml)}
    (hdict : ∀ inner, ("__dict__".toList, .table inner) ∉ items)
    (hmem : ∃ k ∈ items.map Prod.fst, k ∈ descriptors) :
    ∀ obj : Obj, ∃ e, mergeItems own s items obj = .error e := by
  induction items with
  | nil =>
    obtain ⟨k, hk, -⟩ := hmem
    exact absurd hk List.not_mem_nil
  | cons p items ih =>
    obtain ⟨key, v⟩ := p
    intro obj
    have hrest : ∀ inner, ("__dict__".toList, .table inner) ∉ items :=
      fun inner h => hdict inner (List.mem_cons_of_mem _ h)
    rw [mergeItems]
    by_cases hkey : key ∈ descriptors
    · obtain ⟨e, he⟩ : ∃ e, setattr obj key v = .error e :=
        setattr_of_descriptor hkey fun inner hname hv =>
          hdict inner (hname ▸ hv ▸ List.mem_cons_self)
      rw [if_pos (hasattr_of_descriptor hkey), he]
      exact ⟨e, rfl⟩
    · have hlater : ∃ k ∈ items.map Prod.fst, k ∈ descriptors := by
        obtain ⟨k, hk, hd⟩ := hmem
        rcases List.mem_cons.mp hk with rfl | hk
        · exact absurd hd hkey
        · exact ⟨k, hk, hd⟩
      rw [setattr_of_plain hkey]
      split
      case isTrue => exact ih hrest hlater (obj.assign key v)
      case isFalse => exact ih hrest hlater obj

theorem applyOverride_of_plain (hplain : attr ∉ descriptors) {current : Toml}
    (hcurrent : obj.get attr = some current) :
    ∃ obj', applyOverride round environ s attr obj = .ok obj' ∧ obj'.keys = obj.keys ∧
      ∀ k, obj'.get k =
        if attr = k then some (overridden round current (environ (envKey s attr)))
        else obj.get k := by
  have hkind : currentKind obj attr = kindOf current := by
    unfold currentKind
    rw [if_neg hplain, hcurrent]
    rfl
  have hmem : attr ∈ obj.keys := by
    by_contra hnot
    rw [Dict.get_eq_none_iff.mpr hnot] at hcurrent
    cases hcurrent
  have hsame : ∀ k, obj.get k = if attr = k then some current else obj.get k := by
    intro k
    by_cases hk : attr = k
    · rw [if_pos hk, ← hk, hcurrent]
    · rw [if_neg hk]
  unfold applyOverride overridden
  cases environ (envKey s attr) with
  | none => exact ⟨obj, rfl, rfl, hsame⟩
  | some raw =>
    simp only [hkind, Option.bind_some]
    cases convert round (kindOf current) raw with
    | none => exact ⟨obj, rfl, rfl, hsame⟩
    | some v =>
      refine ⟨obj.assign attr v, ?_, Dict.keys_assign_of_mem v hmem, fun k => Dict.get_assign ..⟩
      simp only [setattr_of_plain hplain]

theorem applyOverrides_of_plain {attrs : List Txt} (hnodup : attrs.Nodup)
    (hplain : ∀ k ∈ attrs, k ∉ descriptors) :
    ∀ obj : Obj, (∀ k ∈ attrs, k ∈ obj.keys) →
      ∃ obj', applyOverrides round environ s attrs obj = .ok obj' ∧
        ∀ k, obj'.get k =
          if k ∈ attrs then (obj.get k).map (overridden round · (environ (envKey s k)))
          else obj.get k := by
  induction attrs with
  | nil => exact fun obj _ => ⟨obj, rfl, fun k => (if_neg List.not_mem_nil).symm⟩
  | cons attr attrs ih =>
    rw [List.nodup_cons] at hnodup
    rw [List.forall_mem_cons] at hplain
    intro obj hkeys
    obtain ⟨current, hcurrent⟩ := Dict.exists_get (hkeys attr List.mem_cons_self)
    obtain ⟨first, hfirst, hsame, hvalue⟩ := applyOverride_of_plain hplain.1 hcurrent
    have hkeys' : ∀ k ∈ attrs, k ∈ first.keys :=
      fun k hk => hsame ▸ hkeys k (List.mem_cons_of_mem _ hk)
    obtain ⟨obj', hrest, hvalues⟩ := ih hnodup.2 hplain.2 first hkeys'
    refine ⟨obj', ?_, fun k => ?_⟩
    · rw [applyOverrides, hfirst]
      exact hrest
    · rw [hvalues k, hvalue k]
      by_cases hk : attr = k
      · subst hk
        rw [if_neg hnodup.1, if_pos rfl, if_pos List.mem_cons_self, hcurrent]
        rfl
      · have hmem : k ∈ attr :: attrs ↔ k ∈ attrs := by
          rw [List.mem_cons]
          exact or_iff_right (Ne.symm hk)
        by_cases hin : k ∈ attrs
        · rw [if_pos hin, if_neg hk, if_pos (hmem.mpr hin)]
        · rw [if_neg hin, if_neg hk, if_neg (mt hmem.mp hin)]

/-! ## One document -/

/-- The value that the file has for a field. -/
def tomlValue (raw : Dict Txt Toml) (s : Section) (name : Txt) : Option Toml :=
  match raw.get s.key with
  | some (.table items) => (Dict.ofItems items).get name
  | _ => none

/-- A section is a table, and leaves the attributes alone that Python needs. -/
def Ordinary (raw : Dict Txt Toml) (s : Section) : Prop :=
  match raw.get s.key with
  | none => True
  | some (.table items) => ∀ k ∈ (Dict.ofItems items).keys, k ∉ descriptors
  | some _ => False

/-- Some section puts a table in the place of the instance dictionary. -/
def Supplants (raw : Dict Txt Toml) : Prop :=
  ∃ s items inner, raw.get (Section.key s) = some (.table items) ∧
    (Dict.ofItems items).get "__dict__".toList = some (.table inner)

theorem name_not_descriptor (s : Section) {k : Txt} (h : k ∈ (defaultObject s).keys) :
    k ∉ descriptors := by
  have hall : ∀ k ∈ (fields s).map Field.name, k ∉ descriptors := by
    cases s <;> decide +kernel
  refine hall k ?_
  have hkeys : (defaultObject s).keys = (fields s).map Field.name := by
    show ((fields s).map fun f => (f.name, f.default)).map Prod.fst = _
    rw [List.map_map]
    rfl
  rwa [hkeys] at h

theorem defaultObject_get {s : Section} {f : Field} (hf : f ∈ fields s) :
    (defaultObject s).get f.name = some f.default :=
  Dict.valueIn_of_mem (names_nodup s) (List.mem_map.mpr ⟨f, hf, rfl⟩)

theorem name_mem_keys {s : Section} {f : Field} (hf : f ∈ fields s) :
    f.name ∈ (defaultObject s).keys :=
  List.mem_map.mpr ⟨(f.name, f.default), List.mem_map.mpr ⟨f, hf, rfl⟩, rfl⟩

/-- A merged section carries the values of the file over the defaults. -/
theorem merge_of_ordinary {raw : Dict Txt Toml} (h : Ordinary raw s) :
    ∃ obj, merge own raw s = .ok obj ∧ (∀ k ∈ obj.keys, k ∉ descriptors) ∧
      ∀ f ∈ fields s, obj.get f.name = some ((tomlValue raw s f.name).getD f.default) := by
  unfold Ordinary at h
  unfold merge tomlValue
  split at h
  next hraw =>
    rw [hraw]
    exact ⟨defaultObject s, rfl, fun k hk => name_not_descriptor s hk,
      fun f hf => defaultObject_get hf⟩
  next items hraw =>
    rw [hraw]
    obtain ⟨obj, hmerge, hmerged⟩ : ∃ obj, mergeItems own s (Dict.ofItems items).items
        (defaultObject s) = .ok obj ∧ Merged (Dict.ofItems items).items (defaultObject s) obj :=
      mergeItems_of_plain (Dict.ofItems items).nodup h (defaultObject s)
    refine ⟨obj, hmerge, hmerged.plain fun k hk => name_not_descriptor s hk, fun f hf => ?_⟩
    rw [hmerged.value f.name (name_mem_keys hf), defaultObject_get hf]
    show ((Dict.ofItems items).get f.name).or (some f.default) =
      some (((Dict.ofItems items).get f.name).getD f.default)
    cases (Dict.ofItems items).get f.name <;> rfl
  next => exact absurd h id

theorem ordinary_of_merge {raw : Dict Txt Toml} (hdict : ¬ Supplants raw) {obj : Obj}
    (h : merge own raw s = .ok obj) : Ordinary raw s := by
  unfold merge at h
  unfold Ordinary
  cases hraw : raw.get s.key with
  | none => trivial
  | some entry =>
    rw [hraw] at h
    cases entry with
    | table items =>
      intro k hk hdescriptor
      have hinner : ∀ inner, ("__dict__".toList, .table inner) ∉ (Dict.ofItems items).items :=
        fun inner hmem => hdict ⟨s, items, inner, hraw,
          Dict.valueIn_of_mem (Dict.ofItems items).nodup hmem⟩
      obtain ⟨e, he⟩ : ∃ e, mergeItems own s (Dict.ofItems items).items (defaultObject s) =
          .error e :=
        mergeItems_of_descriptor hinner ⟨k, hk, hdescriptor⟩ (defaultObject s)
      have herror : mergeItems own s (Dict.ofItems items).items (defaultObject s) = .ok obj := h
      rw [he] at herror
      cases herror
    | _ => cases h

/-- The fields of a section after the environment. -/
theorem section_of_ordinary {raw : Dict Txt Toml} (h : Ordinary raw s) :
    ∃ obj obj', merge own raw s = .ok obj ∧
      applyOverrides round environ s obj.keys obj = .ok obj' ∧
      ∀ f ∈ fields s, getattr s obj' f.name =
        some (overridden round ((tomlValue raw s f.name).getD f.default)
          (environ (envKey s f.name))) := by
  obtain ⟨obj, hmerge, hplain, hvalue⟩ : ∃ obj, merge own raw s = .ok obj ∧ _ :=
    merge_of_ordinary h
  obtain ⟨obj', happly, hoverridden⟩ : ∃ obj', applyOverrides round environ s obj.keys obj =
      .ok obj' ∧ _ :=
    applyOverrides_of_plain (show obj.keys.Nodup from obj.nodup) hplain obj fun k hk => hk
  refine ⟨obj, obj', hmerge, happly, fun f hf => ?_⟩
  have hmem : f.name ∈ obj.keys := by
    by_contra hnot
    have hnone := Dict.get_eq_none_iff.mpr hnot
    rw [hvalue f hf] at hnone
    cases hnone
  unfold getattr
  rw [hoverridden f.name, if_pos hmem, hvalue f hf]
  rfl

/-! ## The whole configuration -/

theorem eachSection_eq_ok_iff {build : Section → Except PyError Obj} {cfg : FrameworkConfig} :
    eachSection build = .ok cfg ↔ ∀ s, build s = .ok (cfg.section s) := by
  obtain ⟨framework, gpu, reporting, therock, frameworks⟩ := cfg
  unfold eachSection
  simp only [bind, bind_eq_ok, pure, Except.pure, Except.ok.injEq, FrameworkConfig.mk.injEq]
  constructor
  · rintro ⟨a, h₁, b, h₂, c, h₃, d, h₄, e, h₅, rfl, rfl, rfl, rfl, rfl⟩ s
    cases s with
    | framework => exact h₁
    | gpu => exact h₂
    | reporting => exact h₃
    | therock => exact h₄
    | frameworks => exact h₅
  · intro h
    exact ⟨framework, h .framework, gpu, h .gpu, reporting, h .reporting, therock, h .therock,
      frameworks, h .frameworks, rfl, rfl, rfl, rfl, rfl⟩

theorem exists_eachSection {build : Section → Except PyError Obj}
    (h : ∀ s, ∃ obj, build s = .ok obj) : ∃ cfg, eachSection build = .ok cfg := by
  choose objs hobjs using h
  refine ⟨⟨objs .framework, objs .gpu, objs .reporting, objs .therock, objs .frameworks⟩, ?_⟩
  refine eachSection_eq_ok_iff.mpr fun s => ?_
  rw [hobjs s]
  cases s <;> rfl

end

/-- `load_config` returns a configuration that has in each field what the priority of
the layers gives. -/
def Layered (host : Host) (configPath : Option Txt) : Prop :=
  ∃ cfg, loadConfig host configPath = .ok cfg ∧ ∀ s, ∀ f ∈ fields s,
    getattr s (cfg.section s) f.name =
      some (layered host.roundFloat f (tomlValue (document host configPath) s f.name)
        (host.environ (envKey s f.name)))

/-- The configuration of a document with ordinary sections. -/
theorem loadConfig_of_ordinary {host : Host} {configPath : Option Txt}
    (h : ∀ s, Ordinary (document host configPath) s) :
    ∃ cfg, loadConfig host configPath = .ok cfg ∧ ∀ s, ∀ f ∈ fields s,
      getattr s (cfg.section s) f.name =
        some (overridden host.roundFloat
          ((tomlValue (document host configPath) s f.name).getD f.default)
          (host.environ (envKey s f.name))) := by
  choose merged final hmerge happly hvalue using fun s =>
    @section_of_ordinary host.roundFloat host.environ host.ownAttribute s _ (h s)
  obtain ⟨built, hbuilt⟩ := exists_eachSection fun s => ⟨merged s, hmerge s⟩
  have hsame : ∀ s, built.section s = merged s := fun s =>
    Except.ok.inj ((eachSection_eq_ok_iff.mp hbuilt s).symm.trans (hmerge s))
  obtain ⟨cfg, hcfg⟩ : ∃ cfg, applyEnvOverrides host.roundFloat host.environ built = .ok cfg := by
    refine exists_eachSection fun s => ⟨final s, ?_⟩
    rw [hsame]
    exact happly s
  refine ⟨cfg, ?_, fun s f hf => ?_⟩
  · show (buildConfig host.ownAttribute (document host configPath)).bind _ = _
    exact bind_eq_ok.mpr ⟨built, hbuilt, hcfg⟩
  · have hfinal := eachSection_eq_ok_iff.mp hcfg s
    simp only [hsame] at hfinal
    rw [← Except.ok.inj ((happly s).symm.trans hfinal)]
    exact hvalue s f hf

theorem ordinary_of_loadConfig {host : Host} {configPath : Option Txt}
    (hdict : ¬ Supplants (document host configPath)) {cfg : FrameworkConfig}
    (h : loadConfig host configPath = .ok cfg) (s : Section) :
    Ordinary (document host configPath) s := by
  obtain ⟨built, hbuilt, -⟩ := bind_eq_ok.mp
    (show (buildConfig host.ownAttribute (document host configPath)).bind _ = .ok cfg from h)
  exact ordinary_of_merge hdict (eachSection_eq_ok_iff.mp hbuilt s)

/-- The layers keep their priority exactly where a field that is set in both places
agrees. -/
theorem layered_iff (host : Host) (configPath : Option Txt)
    (hdict : ¬ Supplants (document host configPath)) :
    Layered host configPath ↔
      (∀ s, Ordinary (document host configPath) s) ∧
        ∀ s, ∀ f ∈ fields s, Agrees host.roundFloat f
          (tomlValue (document host configPath) s f.name) (host.environ (envKey s f.name)) := by
  constructor
  · rintro ⟨cfg, hload, hlayered⟩
    have hordinary := ordinary_of_loadConfig hdict hload
    obtain ⟨cfg', hload', hvalue⟩ := loadConfig_of_ordinary hordinary
    rw [hload] at hload'
    cases hload'
    refine ⟨hordinary, fun s f hf => (overridden_eq_layered_iff f _ _).mp ?_⟩
    exact Option.some.inj ((hvalue s f hf).symm.trans (hlayered s f hf))
  · rintro ⟨hordinary, hagrees⟩
    obtain ⟨cfg, hload, hvalue⟩ := loadConfig_of_ordinary hordinary
    refine ⟨cfg, hload, fun s f hf => ?_⟩
    rw [hvalue s f hf, (overridden_eq_layered_iff f _ _).mpr (hagrees s f hf)]

/-- A machine with a document in its home, and one variable set. -/
def hostOf (raw : Dict Txt Toml) (name value : String) : Host where
  isFile path := decide (path = "/root/rocm-test.toml".toList)
  cwd := "/root".toList
  home := "/root".toList
  environ key := if key = name.toList then some value.toList else none
  readToml _ := raw
  roundFloat := id
  ownAttribute _ := false

/-- An interval that the file gives as it is declared. -/
def halfSeconds : Dict Txt Toml :=
  .ofItems [("gpu".toList, .table [("monitor_interval_secs".toList, .float (.finite (15 / 2)))])]

theorem layered_setTwice :
    Layered (hostOf halfSeconds "ROCM_TEST_GPU_MONITOR_INTERVAL_SECS" "20.5") none := by
  have hordinary : ∀ s, Ordinary halfSeconds s := by
    intro s
    cases s with
    | gpu =>
      show ∀ k ∈ ["monitor_interval_secs".toList], k ∉ descriptors
      decide +kernel
    | _ => trivial
  refine (layered_iff _ none ?_).mpr ⟨hordinary, fun s f hf v hv _ _ => Or.inl ?_⟩
  · rintro ⟨s, items, inner, hraw, hinner⟩
    cases s with
    | gpu =>
      obtain rfl : [("monitor_interval_secs".toList, Toml.float (.finite (15 / 2)))] = items :=
        Toml.table.inj (Option.some.inj hraw)
      cases hinner
    | _ => cases hraw
  · cases s with
    | gpu =>
      have hfloat : ∀ f ∈ fields .gpu, f.name = "monitor_interval_secs".toList →
          f.declared = .float := by decide +kernel
      have hget : ((Dict.empty : Dict Txt Toml).assign "monitor_interval_secs".toList
          (.float (.finite (15 / 2)))).get f.name = some v := hv
      rw [Dict.get_assign] at hget
      split_ifs at hget with hname
      · rw [hfloat f hf hname.symm, ← Option.some.inj hget]
        rfl
      · cases hget
    | _ => cases hv

/-- An interval that the file gives in whole seconds. -/
def wholeSeconds : Dict Txt Toml :=
  .ofItems [("gpu".toList, .table [("monitor_interval_secs".toList, .int 15)])]

/-- The environment asks for a fraction, and does not get it. -/
theorem not_layered_wholeSeconds :
    ¬ Layered (hostOf wholeSeconds "ROCM_TEST_GPU_MONITOR_INTERVAL_SECS" "20.5") none := by
  have hordinary : ∀ s, Ordinary wholeSeconds s := by
    intro s
    cases s with
    | gpu =>
      show ∀ k ∈ ["monitor_interval_secs".toList], k ∉ descriptors
      decide +kernel
    | _ => trivial
  have hmem : floatField "monitor_interval_secs" 15 ∈ fields .gpu := by
    unfold fields
    simp
  have htoml : tomlValue wholeSeconds .gpu "monitor_interval_secs".toList = some (.int 15) := rfl
  have henv : (hostOf wholeSeconds "ROCM_TEST_GPU_MONITOR_INTERVAL_SECS" "20.5").environ
      (envKey .gpu "monitor_interval_secs".toList) = some "20.5".toList := by
    decide +kernel
  rintro ⟨cfg, hload, hlayered⟩
  obtain ⟨cfg', hload', hvalue⟩ : ∃ cfg, loadConfig
      (hostOf wholeSeconds "ROCM_TEST_GPU_MONITOR_INTERVAL_SECS" "20.5") none = .ok cfg ∧ _ :=
    loadConfig_of_ordinary hordinary
  rw [hload] at hload'
  cases hload'
  have hsame := Option.some.inj ((hvalue .gpu _ hmem).symm.trans (hlayered .gpu _ hmem))
  rcases (overridden_eq_layered_iff _ _ _).mp hsame (.int 15) htoml _ henv with hkind | ⟨hnone, -⟩
  · cases hkind
  · have hparse : (PyFloat.parse "20.5".toList).isSome = true := by decide +kernel
    obtain ⟨x, hx⟩ := Option.isSome_iff_exists.mp hparse
    have hconvert : (PyFloat.parse "20.5".toList).map (fun x => Toml.float (id x)) = none := hnone
    rw [hx] at hconvert
    cases hconvert

end Config
end RocmTests

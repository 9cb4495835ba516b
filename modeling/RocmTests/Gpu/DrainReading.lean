import RocmTests.Gpu.Drain

/-!
# What a document says of the memory in use

A document of `amd-smi memory` states an amount in one of three places.  The reading of the
drain check is right where it is this amount in whole megabytes, or nothing where none is
stated.
-/

namespace RocmTests
namespace Gpu
namespace Drain

open Text
open JsonValue (asInt field getOf emptyDict)

/-! ## The amount that is stated -/

inductive MemoryUnit where
  | b
  | kb
  | mb
  | gb

namespace MemoryUnit

def ofText (t : Txt) : Option MemoryUnit :=
  let upper := t.map Char.toUpper
  if upper = "B".toList then some b
  else if upper = "KB".toList then some kb
  else if upper = "MB".toList then some mb
  else if upper = "GB".toList then some gb
  else none

/-- An amount in this unit, in whole megabytes. -/
def wholeMb : MemoryUnit → ℚ → Int
  | b, q => ⌊q / 1048576⌋
  | kb, q => ⌊q / 1024⌋
  | mb, q => ⌊q⌋
  | gb, q => ⌊q * 1024⌋

end MemoryUnit

/-- An amount of memory is a number or a numeral, and not negative. -/
def amountOf : JsonValue → Option ℚ
  | .int n => if 0 ≤ n then some n else none
  | .float (.finite q) => if 0 ≤ q then some q else none
  | .str t => (parseInt t).bind fun n => if 0 ≤ n then some (n : ℚ) else none
  | _ => none

def unitOf : JsonValue → Option MemoryUnit
  | .str t => MemoryUnit.ofText t
  | _ => none

/-- A value in a unit. -/
def statedIn (value unit : JsonValue) : Option Int :=
  (amountOf value).bind fun q => (unitOf unit).map fun u => u.wholeMb q

/-- What a dict with a value and a unit states, or a plain number of megabytes. -/
def stated : JsonValue → Option Int
  | .obj items =>
    statedIn (field (.obj items) "value".toList .null)
      (field (.obj items) "unit".toList (.str "MB".toList))
  | .int n => (amountOf (.int n)).map MemoryUnit.mb.wholeMb
  | .float x => (amountOf (.float x)).map MemoryUnit.mb.wholeMb
  | _ => none

/-- A dict or a number is a field; anything else is none. -/
def isField : JsonValue → Bool
  | .obj _ => true
  | .int _ => true
  | .float _ => true
  | .bool _ => true
  | _ => false

/-- The value at two keys, if it is a field. -/
def fieldAt (device : JsonValue) (key key' : Txt) : Option JsonValue :=
  let v := field (field device key emptyDict) key' .null
  bif isField v then some v else none

/-- What the third place states. -/
def nestedStated (device : JsonValue) : Option Int :=
  (fieldAt device "vram".toList "used".toList).bind stated

/-- What the second place states, or the third. -/
def flatStated (device : JsonValue) : Option Int :=
  match field device "vram_used_mb".toList .null with
  | .null => nestedStated device
  | v => (amountOf v).map MemoryUnit.mb.wholeMb

/-- What the first place with a field states. -/
def deviceStated (device : JsonValue) : Option Int :=
  match fieldAt device "mem_info".toList "vram_used".toList with
  | some v => stated v
  | none => flatStated device

/-- The memory in use by the document of the first device. -/
def documentStated : Except LoadError JsonValue → Option Int
  | .error _ => none
  | .ok data => deviceStated (firstDevice data)

/-- The reading is what the document states. -/
def NeverInvents (stdout : Except LoadError JsonValue) : Prop :=
  parseUsedMb stdout = .ok (documentStated stdout)

/-! ## The documents that are read rightly -/

/-- Only MB and B are known.  An amount in KB or GB is right while both are zero. -/
def UnitFits (q : ℚ) : MemoryUnit → Prop
  | .b => True
  | .kb => q < 1024
  | .mb => True
  | .gb => q * 1024 < 1

/-- The value is an amount, in a unit that fits. -/
def ValueFits (value unit : JsonValue) : Prop :=
  ∃ q u, amountOf value = some q ∧ unitOf unit = some u ∧ UnitFits q u

/-- A field that is read rightly. -/
def FieldFits : JsonValue → Prop
  | .obj items =>
    ValueFits (field (.obj items) "value".toList .null)
      (field (.obj items) "unit".toList (.str "MB".toList))
  | v => (amountOf v).isSome

/-- Where `vram` is a dict it has `used`, which is a field that fits, or none. -/
def NestedFits (device : JsonValue) : Prop :=
  match field device "vram".toList emptyDict with
  | .obj vram => ∃ v, JsonValue.get? vram "used".toList = some v ∧ (isField v = true → FieldFits v)
  | _ => True

def FlatFits (device : JsonValue) : Prop :=
  match field device "vram_used_mb".toList .null with
  | .null => NestedFits device
  | v => (amountOf v).isSome

/-- A `mem_info` that is not empty is a dict.  Without `vram_used` it is taken for zero. -/
def DeviceFits (device : JsonValue) : Prop :=
  let memInfo := field device "mem_info".toList emptyDict
  if memInfo.truthy then
    match memInfo with
    | .obj items =>
      match JsonValue.get? items "vram_used".toList with
      | none => flatStated device = some 0
      | some v => if isField v then FieldFits v else FlatFits device
    | _ => False
  else FlatFits device

def DocumentFits : Except LoadError JsonValue → Prop
  | .error e => e ≠ .recursionError
  | .ok data =>
    match firstDevice data with
    | .obj items => DeviceFits (.obj items)
    | _ => True

/-! ## One field -/

/-- `int` of an amount. -/
theorem asInt_of_amount {v : JsonValue} {q : ℚ} (h : amountOf v = some q) :
    0 ≤ q ∧ asInt v = .ok ⌊q⌋ := by
  cases v with
  | int n =>
    have hn : (if 0 ≤ n then some (n : ℚ) else none) = some q := h
    split_ifs at hn with hpos
    rw [← Option.some.inj hn]
    exact ⟨by exact_mod_cast hpos, by rw [Int.floor_intCast]; rfl⟩
  | float x =>
    cases x with
    | finite r =>
      have hr : (if 0 ≤ r then some r else none) = some q := h
      split_ifs at hr with hpos
      rw [← Option.some.inj hr]
      exact ⟨hpos, by rw [← truncate_of_nonneg hpos]; rfl⟩
    | _ => cases h
  | str t =>
    obtain ⟨n, hn, hq⟩ := Option.bind_eq_some_iff.mp h
    split_ifs at hq with hpos
    rw [← Option.some.inj hq]
    refine ⟨by exact_mod_cast hpos, ?_⟩
    show ((((parseInt t).map Except.ok).getD (.error IntError.valueError)).mapError
      JsonValue.ofIntError) = _
    rw [hn, Int.floor_intCast]
    rfl
  | _ => cases h

/-- What the code makes of the whole part of an amount. -/
def crudeMb (n : Int) : MemoryUnit → Int
  | .mb => n
  | _ => n / (1024 * 1024)

/-- The division is right for bytes, and otherwise while both sides are zero. -/
theorem crudeMb_eq_iff {q : ℚ} (hq : 0 ≤ q) (u : MemoryUnit) :
    crudeMb ⌊q⌋ u = u.wholeMb q ↔ UnitFits q u := by
  have hfloor : 0 ≤ ⌊q⌋ := Int.floor_nonneg.mpr hq
  cases u with
  | b =>
    have hdiv := Int.floor_div_natCast q 1048576
    exact iff_of_true hdiv.symm trivial
  | kb =>
    have hdiv : ⌊q / 1024⌋ = ⌊q⌋ / 1024 := Int.floor_div_natCast q 1024
    have hlt : ⌊q⌋ < 1024 ↔ q < 1024 := by
      rw [Int.floor_lt]
      norm_num
    show ⌊q⌋ / (1024 * 1024) = ⌊q / 1024⌋ ↔ q < 1024
    rw [hdiv, ← hlt]
    omega
  | mb => exact iff_of_true rfl trivial
  | gb =>
    have hlt : ⌊q * 1024⌋ < 1 ↔ q * 1024 < 1 := by
      rw [Int.floor_lt]
      norm_num
    have hle : ⌊q⌋ * 1024 ≤ ⌊q * 1024⌋ := by
      rw [Int.le_floor]
      push_cast
      linarith [Int.floor_le q]
    show ⌊q⌋ / (1024 * 1024) = ⌊q * 1024⌋ ↔ q * 1024 < 1
    rw [← hlt]
    omega

theorem ofText_eq_mb {t : Txt} {u : MemoryUnit} (h : MemoryUnit.ofText t = some u) (n : Int) :
    (if t.map Char.toUpper = "MB".toList then n else n / (1024 * 1024)) = crudeMb n u := by
  unfold MemoryUnit.ofText at h
  simp only at h
  generalize t.map Char.toUpper = upper at *
  split_ifs at h with hb hkb hmb hgb
  · rw [if_neg (by rw [hb]; decide), ← Option.some.inj h]
    rfl
  · rw [if_neg (by rw [hkb]; decide), ← Option.some.inj h]
    rfl
  · rw [if_pos hmb, ← Option.some.inj h]
    rfl
  · rw [if_neg hmb, ← Option.some.inj h]
    rfl

/-- A number that is no amount is read as some number nevertheless, or raises. -/
theorem asInt_ne_none {v : JsonValue} :
    (asInt v).map some ≠ (.ok none : Except AccessError (Option Int)) := by
  cases asInt v with
  | error e => intro h; cases h
  | ok n => intro h; cases h

/-- A value that is missing is read as zero. -/
theorem value_iff {raw value : JsonValue} (hraw : raw = value ∨ raw = .int 0 ∧ value = .null)
    (t : Txt) :
    ((asInt raw).map fun n => if t.map Char.toUpper = "MB".toList then n else n / (1024 * 1024)).map
        some = .ok (statedIn value (.str t)) ↔ ValueFits value (.str t) := by
  have hunit : unitOf (.str t) = MemoryUnit.ofText t := rfl
  unfold statedIn ValueFits
  rw [hunit]
  cases hamount : amountOf value with
  | none =>
    refine iff_of_false ?_ ?_
    · rw [Option.bind_none]
      cases asInt raw with
      | error e => exact fun h => by cases h
      | ok n => exact fun h => by cases h
    · intro h
      obtain ⟨q, u, hq, -⟩ := h
      cases hq
  | some q =>
    obtain ⟨hpos, hint⟩ := asInt_of_amount hamount
    have hsame : raw = value := by
      rcases hraw with h | ⟨-, h⟩
      · exact h
      · rw [h] at hamount
        cases hamount
    rw [hsame, hint, Option.bind_some]
    show Except.ok (some (if t.map Char.toUpper = "MB".toList then ⌊q⌋
      else ⌊q⌋ / (1024 * 1024))) = Except.ok _ ↔ _
    cases hof : MemoryUnit.ofText t with
    | none =>
      refine iff_of_false (fun h => by cases Except.ok.inj h) ?_
      intro h
      obtain ⟨q', u, -, hu, -⟩ := h
      cases hu
    | some u =>
      rw [ofText_eq_mb hof, Option.map_some, Except.ok.injEq, Option.some.injEq,
        crudeMb_eq_iff hpos]
      constructor
      · exact fun h => ⟨q, u, rfl, rfl, h⟩
      · intro h
        obtain ⟨q', u', hq, hu, hfits⟩ := h
        rw [Option.some.inj hq, Option.some.inj hu]
        exact hfits

/-- A dict is read rightly where its value is an amount in a unit that fits. -/
theorem usedMb_iff (items : List (Txt × JsonValue)) :
    (usedMb (.obj items)).map some = .ok (stated (.obj items)) ↔ FieldFits (.obj items) := by
  have hraw : field (.obj items) "value".toList (.int 0) =
        field (.obj items) "value".toList .null ∨
      field (.obj items) "value".toList (.int 0) = .int 0 ∧
        field (.obj items) "value".toList .null = .null := by
    show (JsonValue.get? items "value".toList).getD (.int 0) =
        (JsonValue.get? items "value".toList).getD .null ∨
      (JsonValue.get? items "value".toList).getD (.int 0) = .int 0 ∧
        (JsonValue.get? items "value".toList).getD .null = .null
    cases JsonValue.get? items "value".toList with
    | none => exact Or.inr ⟨rfl, rfl⟩
    | some v => exact Or.inl rfl
  show (usedMb (.obj items)).map some = .ok (statedIn (field (.obj items) "value".toList .null)
    (field (.obj items) "unit".toList (.str "MB".toList))) ↔
      ValueFits (field (.obj items) "value".toList .null)
        (field (.obj items) "unit".toList (.str "MB".toList))
  unfold usedMb
  generalize field (.obj items) "unit".toList (.str "MB".toList) = unit
  cases unit with
  | str t => exact value_iff hraw t
  | _ =>
    refine iff_of_false (fun h => by cases h) ?_
    intro h
    obtain ⟨q, u, -, hu, -⟩ := h
    cases hu

/-- A plain number is read rightly where it is an amount. -/
theorem number_iff (v : JsonValue) :
    (asInt v).map some = .ok ((amountOf v).map MemoryUnit.mb.wholeMb) ↔
      (amountOf v).isSome := by
  cases hamount : amountOf v with
  | none => exact iff_of_false asInt_ne_none (by simp)
  | some q =>
    obtain ⟨-, hint⟩ := asInt_of_amount hamount
    rw [hint]
    exact iff_of_true rfl rfl

theorem usedOf_iff {v : JsonValue} (h : isField v = true) :
    usedOf v = .ok (stated v) ↔ FieldFits v := by
  cases v with
  | obj items => exact usedMb_iff items
  | int n => exact number_iff (.int n)
  | float x => exact number_iff (.float x)
  | bool b => exact number_iff (.bool b)
  | _ => cases h

theorem usedOf_of_not_field {v : JsonValue} (h : isField v = false) : usedOf v = .ok none := by
  cases v <;> first | rfl | cases h

/-- A reading of a field is some number, or raises. -/
theorem usedOf_ne_none {v : JsonValue} (h : isField v = true) : usedOf v ≠ .ok none := by
  cases v with
  | obj items =>
    show (usedMb (.obj items)).map some ≠ .ok none
    cases usedMb (.obj items) with
    | error e => exact fun h => by cases h
    | ok n => exact fun h => by cases h
  | int n => exact @asInt_ne_none (.int n)
  | float x => exact @asInt_ne_none (.float x)
  | bool b => exact @asInt_ne_none (.bool b)
  | _ => cases h

/-! ## The three places -/

theorem field_obj (items : List (Txt × JsonValue)) (key : Txt) (default : JsonValue) :
    field (.obj items) key default = (JsonValue.get? items key).getD default := rfl

/-- An empty dict is read as zero. -/
theorem usedOf_emptyDict : usedOf emptyDict = .ok (some 0) := rfl

theorem nested_iff (device : JsonValue) :
    usedNested device = .ok (nestedStated device) ↔ NestedFits device := by
  unfold usedNested nestedStated NestedFits fieldAt
  generalize field device "vram".toList emptyDict = vram
  cases vram with
  | obj items =>
    simp only [field_obj]
    cases JsonValue.get? items "used".toList with
    | none =>
      refine iff_of_false ?_ ?_
      · rw [Option.getD_none, usedOf_emptyDict]
        exact fun h => by cases Except.ok.inj h
      · intro h
        obtain ⟨v, hv, -⟩ := h
        cases hv
    | some v =>
      simp only [Option.getD_some]
      cases hfield : isField v with
      | true =>
        rw [cond_true, Option.bind_some, usedOf_iff hfield]
        constructor
        · exact fun h => ⟨v, rfl, fun _ => h⟩
        · intro h
          obtain ⟨v', hv, hfits⟩ := h
          obtain rfl := Option.some.inj hv
          exact hfits hfield
      | false =>
        rw [cond_false, Option.bind_none, usedOf_of_not_field hfield]
        refine iff_of_true rfl ⟨v, rfl, fun h => ?_⟩
        rw [hfield] at h
        cases h
  | _ => exact iff_of_true rfl trivial

theorem flat_iff (device : JsonValue) :
    usedFlat device = .ok (flatStated device) ↔ FlatFits device := by
  unfold usedFlat flatStated FlatFits
  generalize field device "vram_used_mb".toList .null = v
  cases v with
  | null => exact nested_iff device
  | _ => exact number_iff _

theorem device_iff (device : JsonValue) :
    usedOfDevice device = .ok (deviceStated device) ↔ DeviceFits device := by
  unfold usedOfDevice deviceStated DeviceFits fieldAt
  generalize field device "mem_info".toList emptyDict = memInfo
  simp only
  by_cases htruthy : memInfo.truthy = true
  · rw [if_pos htruthy, if_pos htruthy]
    cases memInfo with
    | obj items =>
      show ((usedOf (field (.obj items) "vram_used".toList emptyDict)).bind _) = _ ↔ _
      simp only [field_obj]
      cases JsonValue.get? items "vram_used".toList with
      | none =>
        simp only [Option.getD_none, usedOf_emptyDict]
        show Except.ok (some 0) = Except.ok (flatStated device) ↔ _
        rw [Except.ok.injEq, eq_comm]
      | some v =>
        simp only [Option.getD_some]
        cases hfield : isField v with
        | true =>
          -- some number, or an error: the other places are not looked at
          have hnone := usedOf_ne_none hfield
          have hiff := usedOf_iff hfield
          rw [if_pos rfl]
          cases hused : usedOf v with
          | error e => rw [hused] at hiff; exact hiff
          | ok used =>
            cases used with
            | none => exact absurd hused hnone
            | some mb => rw [hused] at hiff; exact hiff
        | false =>
          rw [usedOf_of_not_field hfield, if_neg Bool.false_ne_true]
          exact flat_iff device
    | _ => exact iff_of_false (fun h => by cases h) id
  · rw [if_neg htruthy, if_neg htruthy]
    have hnone : isField (field memInfo "vram_used".toList .null) = false := by
      cases memInfo with
      | obj items =>
        cases items with
        | nil => rfl
        | cons item items => exact absurd rfl htruthy
      | _ => rfl
    rw [hnone]
    exact flat_iff device

/-! ## Whole documents -/

theorem fieldAt_of_not_dict {device : JsonValue} (h : ∀ items, device ≠ .obj items)
    (key key' : Txt) : fieldAt device key key' = none := by
  cases device with
  | obj items => exact absurd rfl (h items)
  | _ => rfl

theorem deviceStated_of_not_dict {device : JsonValue} (h : ∀ items, device ≠ .obj items) :
    deviceStated device = none := by
  unfold deviceStated flatStated nestedStated
  rw [fieldAt_of_not_dict h, fieldAt_of_not_dict h]
  cases device with
  | obj items => exact absurd rfl (h items)
  | _ => rfl

/-- A document is read rightly exactly where it fits. -/
theorem neverInvents_of_document (stdout : Except LoadError JsonValue) :
    NeverInvents stdout ↔ DocumentFits stdout := by
  unfold NeverInvents
  cases stdout with
  | error e => cases e <;> simp [parseUsedMb, documentStated, DocumentFits]
  | ok data =>
    unfold parseUsedMb documentStated DocumentFits
    simp only
    generalize firstDevice data = device
    cases device with
    | obj items =>
      show (usedOfDevice (.obj items)).mapError ReadError.access = _ ↔ DeviceFits (.obj items)
      rw [← device_iff]
      cases usedOfDevice (.obj items) with
      | error e => exact iff_of_false (fun h => by cases h) fun h => by cases h
      | ok used =>
        show Except.ok used = _ ↔ _
        rw [Except.ok.injEq, Except.ok.injEq]
    | _ =>
      refine iff_of_true ?_ trivial
      rw [deviceStated_of_not_dict]
      intro items h
      cases h

/-! ### The loop -/

/-- Where the loop comes to this document it does not raise, and it reports a drained GPU
only if the document states an amount below the threshold. -/
def ReportsStated (stdout : Except LoadError JsonValue) : Prop :=
  ∀ (x : Settings) (start now : ℚ) (before : List Turn),
    waitLoop x.thresholdMb (start + x.timeoutSecs) before = none →
      (∀ e, waitForDrain x true start (before ++ [⟨.exited 0 stdout, now⟩]) ≠ some (.error e)) ∧
        (waitForDrain x true start (before ++ [⟨.exited 0 stdout, now⟩]) = some (.ok true) →
          ∃ n, documentStated stdout = some n ∧ n < x.thresholdMb)

/-- A document that is read rightly is reported rightly exactly if it states an amount:
`None` is reported as a drained GPU. -/
theorem reportsStated_iff {stdout : Except LoadError JsonValue} (h : NeverInvents stdout) :
    ReportsStated stdout ↔ (documentStated stdout).isSome := by
  have hquery : queryUsedVramMb (.exited 0 stdout) = .ok (documentStated stdout) := h
  constructor
  · intro hreports
    obtain ⟨-, hdrained⟩ := hreports {} 0 0 [] rfl
    cases hstated : documentStated stdout with
    | some n => rfl
    | none =>
      rw [hstated] at hquery hdrained
      have htrue : waitForDrain {} true 0 ([] ++ [⟨.exited 0 stdout, 0⟩]) = some (.ok true) := by
        show waitLoop _ _ [_] = _
        unfold waitLoop
        rw [hquery]
      obtain ⟨n, hn, -⟩ := hdrained htrue
      cases hn
  · intro hsome x start now before hbefore
    obtain ⟨n, hn⟩ := Option.isSome_iff_exists.mp hsome
    have hrun : waitForDrain x true start (before ++ [⟨.exited 0 stdout, now⟩]) =
        waitLoop x.thresholdMb (start + x.timeoutSecs) [⟨.exited 0 stdout, now⟩] :=
      waitLoop_append hbefore _
    rw [hn] at hquery ⊢
    rw [hrun]
    unfold waitLoop
    simp only [hquery]
    constructor
    · intro e
      split_ifs
      · intro h
        cases h
      · intro h
        cases h
      · intro h
        cases h
    · intro htrue
      refine ⟨n, rfl, ?_⟩
      by_contra hlt
      rw [if_neg hlt] at htrue
      split_ifs at htrue
      · cases htrue
      · cases htrue

namespace Call

/-- A call without a document. -/
def Failed : Call → Prop
  | exited code _ => code ≠ 0
  | _ => True

/-- What the document of a call states. -/
def stated : Call → Option Int
  | exited _ stdout => documentStated stdout
  | _ => none

/-- The call fails, or its document fits and states an amount. -/
def Fits : Call → Prop
  | exited code stdout => code = 0 → DocumentFits stdout ∧ (documentStated stdout).isSome
  | _ => True

end Call

/-- A call that fails gives no reading, and one that fits what is stated. -/
theorem query_of_fits {c : Call} (h : c.Fits) :
    (c.Failed ∧ queryUsedVramMb c = .ok none) ∨
      ∃ n, c.stated = some n ∧ queryUsedVramMb c = .ok (some n) := by
  cases c with
  | exited code stdout =>
    by_cases hcode : code = 0
    · obtain ⟨hfits, hsome⟩ := h hcode
      obtain ⟨n, hn⟩ := Option.isSome_iff_exists.mp hsome
      refine Or.inr ⟨n, hn, ?_⟩
      show (if code ≠ 0 then _ else parseUsedMb stdout) = _
      rw [if_neg (not_not.mpr hcode), ← hn]
      exact (neverInvents_of_document stdout).mpr hfits
    · refine Or.inl ⟨hcode, ?_⟩
      show (if code ≠ 0 then _ else _) = Except.ok none
      rw [if_pos hcode]
  | _ => exact Or.inl ⟨trivial, rfl⟩

/-- The loop does not raise, and where it reports a drained GPU, `amd-smi` is missing, the
call that it ends with has failed, or its document states less than the threshold. -/
structure Honest (x : Settings) (found : Bool) (start : ℚ) (turns : List Turn) : Prop where
  returns : ∀ e, waitForDrain x found start turns ≠ some (.error e)
  drained : waitForDrain x found start turns = some (.ok true) → found = false ∨
    ∃ before t after, turns = before ++ t :: after ∧
      waitLoop x.thresholdMb (start + x.timeoutSecs) before = none ∧
        (t.call.Failed ∨ ∃ n, t.call.stated = some n ∧ n < x.thresholdMb)

theorem waitLoop_returns {thresholdMb : Int} {deadline : ℚ} {turns : List Turn}
    (h : ∀ t ∈ turns, t.call.Fits) (e : ReadError) :
    waitLoop thresholdMb deadline turns ≠ some (.error e) := by
  induction turns with
  | nil =>
    intro h
    cases h
  | cons t ts ih =>
    have hrest := ih fun t' ht' => h t' (List.mem_cons_of_mem _ ht')
    unfold waitLoop
    rcases query_of_fits (h t List.mem_cons_self) with ⟨-, hquery⟩ | ⟨used, -, hquery⟩
    · rw [hquery]
      intro h
      cases h
    · rw [hquery]
      simp only
      split_ifs
      · intro h
        cases h
      · intro h
        cases h
      · exact hrest

theorem honest_of_fits {x : Settings} {found : Bool} {start : ℚ} {turns : List Turn}
    (h : ∀ t ∈ turns, t.call.Fits) : Honest x found start turns := by
  constructor
  · intro e
    unfold waitForDrain
    cases found with
    | false =>
      intro h
      cases h
    | true => exact waitLoop_returns h e
  · intro hdrained
    cases found with
    | false => exact Or.inl rfl
    | true =>
      obtain ⟨before, t, after, rfl, hbefore, hidle⟩ := waitLoop_result hdrained
      refine Or.inr ⟨before, t, after, rfl, hbefore, ?_⟩
      have hfits := h t (List.mem_append_right _ List.mem_cons_self)
      rcases query_of_fits hfits with ⟨hfailed, -⟩ | ⟨n, hn, hquery⟩
      · exact Or.inl hfailed
      · refine Or.inr ⟨n, hn, ?_⟩
        rcases hidle with hnone | ⟨used, hused, hlt⟩
        · cases Except.ok.inj (hquery.symm.trans hnone)
        · cases Except.ok.inj (hquery.symm.trans hused)
          exact hlt

/-- No reading is invented exactly where the document fits.  No GPU is reported as drained
on the strength of a missing or unknown field either exactly where it also states an amount,
and in a run with only such documents the loop goes by what is stated. -/
theorem neverInvents_iff (stdout : Except LoadError JsonValue) (x : Settings) (found : Bool)
    (start : ℚ) (turns : List Turn) :
    (NeverInvents stdout ↔ DocumentFits stdout) ∧
      (NeverInvents stdout ∧ ReportsStated stdout ↔
        DocumentFits stdout ∧ (documentStated stdout).isSome) ∧
      ((∀ t ∈ turns, t.call.Fits) → Honest x found start turns) := by
  refine ⟨neverInvents_of_document stdout, ?_, honest_of_fits⟩
  rw [← neverInvents_of_document]
  exact and_congr_right reportsStated_iff

/-- A document without any field is read as zero. -/
theorem emptyDocument_invents : ¬ NeverInvents (.ok (.arr [emptyDict])) := by
  intro h
  have hread : parseUsedMb (.ok (.arr [emptyDict])) = .ok (some 0) := rfl
  unfold NeverInvents at h
  rw [hread] at h
  cases Except.ok.inj h

end Drain
end Gpu
end RocmTests

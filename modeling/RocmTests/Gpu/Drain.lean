import RocmTests.Text.JsonValue

/-!
# Waiting for the memory of a GPU

`GpuDrainChecker` asks `amd-smi` for the memory in use until it is below a threshold.  The
loop is a fold over its turns, each of which is the outcome of one call of `amd-smi` and the
clock afterwards.  The lines it logs are left out.
-/

namespace RocmTests
namespace Gpu
namespace Drain

open Text
open JsonValue (asInt field getOf emptyDict)

/-! ## The memory in use -/

/-- A `value` in the `unit` beside it, in MB. -/
def usedMb (d : JsonValue) : Except AccessError Int :=
  match field d "unit".toList (.str "MB".toList) with
  | .str unit =>
    (asInt (field d "value".toList (.int 0))).map fun raw =>
      if unit.map Char.toUpper = "MB".toList then raw else raw / (1024 * 1024)
  | _ => .error .attributeError

/-- A dict with a value, a number, or something else. -/
def usedOf : JsonValue → Except AccessError (Option Int)
  | .obj items => (usedMb (.obj items)).map some
  | .int n => (asInt (.int n)).map some
  | .float x => (asInt (.float x)).map some
  | .bool b => (asInt (.bool b)).map some
  | _ => .ok none

/-- The third variant: `vram` and `used`. -/
def usedNested (data : JsonValue) : Except AccessError (Option Int) :=
  match field data "vram".toList emptyDict with
  | .obj vram => usedOf (field (.obj vram) "used".toList emptyDict)
  | _ => .ok none

/-- The second variant, `vram_used_mb`, and then the third. -/
def usedFlat (data : JsonValue) : Except AccessError (Option Int) :=
  match field data "vram_used_mb".toList .null with
  | .null => usedNested data
  | flat => (asInt flat).map some

/-- The first variant: `mem_info` and `vram_used`. -/
def usedOfDevice (data : JsonValue) : Except AccessError (Option Int) :=
  let memInfo := field data "mem_info".toList emptyDict
  if memInfo.truthy then
    (getOf memInfo "vram_used".toList emptyDict).bind fun vramUsed =>
      (usedOf vramUsed).bind fun used =>
        match used with
        | some mb => .ok (some mb)
        | none => usedFlat data
  else usedFlat data

/-- The device dict, where the document has one. -/
def firstDevice : JsonValue → JsonValue
  | .arr (data :: _) => data
  | data => data

/-- `_parse_used_mb`, on what `json.loads` has made of the text. -/
def parseUsedMb : Except LoadError JsonValue → Except ReadError (Option Int)
  | .error .recursionError => .error (.load .recursionError)
  | .error _ => .ok none
  | .ok data =>
    match firstDevice data with
    | .obj items => (usedOfDevice (.obj items)).mapError .access
    | _ => .ok none

/-- A call of `amd-smi`, with what `json.loads` makes of its output. -/
inductive Call where
  | timedOut
  | osError
  | exited (code : Int) (stdout : Except LoadError JsonValue)

def queryUsedVramMb : Call → Except ReadError (Option Int)
  | .exited code stdout => if code ≠ 0 then .ok none else parseUsedMb stdout
  | _ => .ok none

/-! ## The loop -/

/-- A turn of the loop: what `amd-smi` answered, and `time.monotonic()` after that. -/
structure Turn where
  call : Call
  now : ℚ

structure Settings where
  thresholdMb : Int := 512
  pollIntervalSecs : ℚ := 1
  timeoutSecs : ℚ := 30

/-- `none` when the loop is still waiting after these turns. -/
def waitLoop (thresholdMb : Int) (deadline : ℚ) : List Turn → Option (Except ReadError Bool)
  | [] => none
  | t :: ts =>
    match queryUsedVramMb t.call with
    | .error e => some (.error e)
    | .ok none => some (.ok true)
    | .ok (some used) =>
      if used < thresholdMb then some (.ok true)
      else if deadline - t.now ≤ 0 then some (.ok false)
      else waitLoop thresholdMb deadline ts

/-- `found` is whether there is an `amd-smi`, and the loop begins at `start`. -/
def waitForDrain (x : Settings) (found : Bool) (start : ℚ) (turns : List Turn) :
    Option (Except ReadError Bool) :=
  if found then waitLoop x.thresholdMb (start + x.timeoutSecs) turns else some (.ok true)

/-- `amd-smi` has given no reading, or one below the threshold. -/
def Idle (thresholdMb : Int) (t : Turn) : Prop :=
  queryUsedVramMb t.call = .ok none ∨
    ∃ used, queryUsedVramMb t.call = .ok (some used) ∧ used < thresholdMb

/-- Still in use when the time is up. -/
def Busy (thresholdMb : Int) (deadline : ℚ) (t : Turn) : Prop :=
  (∃ used, queryUsedVramMb t.call = .ok (some used) ∧ thresholdMb ≤ used) ∧ deadline ≤ t.now

/-- The turn that the loop ends with. -/
theorem waitLoop_result {thresholdMb : Int} {deadline : ℚ} {turns : List Turn} {b : Bool}
    (h : waitLoop thresholdMb deadline turns = some (.ok b)) :
    ∃ before t after, turns = before ++ t :: after ∧
      waitLoop thresholdMb deadline before = none ∧
        if b then Idle thresholdMb t else Busy thresholdMb deadline t := by
  induction turns with
  | nil => cases h
  | cons t ts ih =>
    unfold waitLoop at h
    cases hquery : queryUsedVramMb t.call with
    | error e =>
      rw [hquery] at h
      cases h
    | ok reading =>
      rw [hquery] at h
      cases reading with
      | none =>
        cases h
        exact ⟨[], t, ts, rfl, rfl, Or.inl hquery⟩
      | some used =>
        by_cases hused : used < thresholdMb
        · have hb : b = true := by simpa [hused] using h.symm
          rw [hb]
          exact ⟨[], t, ts, rfl, rfl, Or.inr ⟨used, hquery, hused⟩⟩
        · by_cases hnow : deadline - t.now ≤ 0
          · have hb : b = false := by simpa [hused, hnow] using h.symm
            rw [hb]
            exact ⟨[], t, ts, rfl, rfl, ⟨used, hquery, by omega⟩, by linarith⟩
          · have hrest : waitLoop thresholdMb deadline ts = some (.ok b) := by
              simpa [hused, hnow] using h
            obtain ⟨before, t', after, rfl, hbefore, hresult⟩ := ih hrest
            refine ⟨t :: before, t', after, rfl, ?_, hresult⟩
            simpa [waitLoop, hquery, hused, hnow] using hbefore

/-- A loop that still waits goes on with the next turns. -/
theorem waitLoop_append {thresholdMb : Int} {deadline : ℚ} {before : List Turn}
    (h : waitLoop thresholdMb deadline before = none) (turns : List Turn) :
    waitLoop thresholdMb deadline (before ++ turns) = waitLoop thresholdMb deadline turns := by
  induction before with
  | nil => rfl
  | cons t ts ih =>
    rw [List.cons_append, waitLoop]
    rw [waitLoop] at h
    cases hquery : queryUsedVramMb t.call with
    | error e =>
      rw [hquery] at h
      cases h
    | ok reading =>
      rw [hquery] at h
      cases reading with
      | none => cases h
      | some used =>
        simp only at h ⊢
        split_ifs at h ⊢
        exact ih h

end Drain
end Gpu
end RocmTests

import Mathlib.Data.Finset.Basic
import Mathlib.Algebra.Order.Ring.Rat
import RocmTests.Text.Numeral

/-!
# GPU descriptors and the per-node allocator

`GpuAllocator` is one process's view of one node.  `pool` is what the detector
found and never changes; `available` is the set of indices not handed out by
this process.  `NodePool` always calls the two allocation methods with
`wait_timeout_secs = 0.0`, so the waiting branch of the source is not taken and
each method is a single step under the allocator's condition variable.

Sizes in GB are binary64 numbers, as rationals: the source divides an integer number of
megabytes by 1024, subtracts the reserve and compares.
-/

namespace RocmTests
namespace Gpu

structure GpuInfo where
  index : Int
  arch : String
  vramMb : Int
  numaNode : Int := -1
deriving DecidableEq, Repr

/-- The `RuntimeError`s and the `ValueError` of the allocator. -/
inductive AllocError where
  | noAvailableGpu (vramRequiredGb : ℚ)
  | indexUnavailable (gpuIndex : Int)
  | indexNotInPool (gpuIndex : Int)
deriving DecidableEq, Repr

structure GpuAllocator where
  pool : List GpuInfo
  available : Finset Int
  headroomGb : ℚ

/-- Total memory less the reserve is at least what the test asks for. -/
def GpuInfo.fits (gpu : GpuInfo) (headroomGb vramRequiredGb : ℚ) : Bool :=
  let vramGb := Text.PyFloat.nearest ((gpu.vramMb : ℚ) / 1024)
  decide (vramRequiredGb ≤ Text.PyFloat.nearest (vramGb - headroomGb))

/-- Order of preference: lowest NUMA node, then lowest index. -/
def GpuInfo.before (g h : GpuInfo) : Bool :=
  decide (g.numaNode < h.numaNode) ||
    (decide (g.numaNode = h.numaNode) && decide (g.index < h.index))

namespace GpuAllocator

def init (pool : List GpuInfo) (headroomGb : ℚ) : GpuAllocator :=
  { pool, available := (pool.map GpuInfo.index).toFinset, headroomGb }

def candidates (a : GpuAllocator) (vramRequiredGb : ℚ) : List GpuInfo :=
  a.pool.filter fun gpu =>
    decide (gpu.index ∈ a.available) &&
      (decide (vramRequiredGb = 0) || gpu.fits a.headroomGb vramRequiredGb)

/-- `min` with a key: the first of the least elements. -/
def preferred : List GpuInfo → Option GpuInfo
  | [] => none
  | g :: gs => some (gs.foldl (fun best h => if h.before best then h else best) g)

def allocate (a : GpuAllocator) (vramRequiredGb : ℚ) :
    Except AllocError (GpuInfo × GpuAllocator) :=
  match preferred (a.candidates vramRequiredGb) with
  | some chosen => .ok (chosen, { a with available := a.available.erase chosen.index })
  | none => .error (.noAvailableGpu vramRequiredGb)

def allocateSpecific (a : GpuAllocator) (gpuIndex : Int) :
    Except AllocError (GpuInfo × GpuAllocator) :=
  match a.pool.find? (fun g => g.index = gpuIndex) with
  | none => .error (.indexNotInPool gpuIndex)
  | some gpu =>
    if gpuIndex ∈ a.available then
      .ok (gpu, { a with available := a.available.erase gpuIndex })
    else .error (.indexUnavailable gpuIndex)

def release (a : GpuAllocator) (gpu : GpuInfo) : GpuAllocator :=
  { a with available := insert gpu.index a.available }

/-! ## What one call can do -/

theorem preferred_mem {gs : List GpuInfo} {g : GpuInfo} (h : preferred gs = some g) : g ∈ gs := by
  cases gs with
  | nil => cases h
  | cons x xs =>
    have fold : ∀ (ys : List GpuInfo) (b : GpuInfo),
        ys.foldl (fun best y => if y.before best then y else best) b = b ∨
          ys.foldl (fun best y => if y.before best then y else best) b ∈ ys := by
      intro ys
      induction ys with
      | nil => intro b; exact Or.inl rfl
      | cons y ys ih =>
        intro b
        simp only [List.foldl_cons, List.mem_cons]
        rcases ih (if y.before b then y else b) with hb | hb
        · rw [hb]
          by_cases hy : y.before b
          · rw [if_pos hy]; exact Or.inr (Or.inl rfl)
          · rw [if_neg hy]; exact Or.inl rfl
        · exact Or.inr (Or.inr hb)
    obtain rfl := Option.some.inj h
    rcases fold xs x with hx | hx
    · rw [hx]; exact List.mem_cons_self
    · exact List.mem_cons_of_mem x hx

theorem before_iff {g h : GpuInfo} : g.before h = true ↔
    g.numaNode < h.numaNode ∨ (g.numaNode = h.numaNode ∧ g.index < h.index) := by
  simp [GpuInfo.before]

/-- Nothing comes before the GPU that is chosen. -/
theorem preferred_least {gs : List GpuInfo} {m : GpuInfo} (h : preferred gs = some m) :
    ∀ g ∈ gs, ¬ g.before m = true := by
  cases gs with
  | nil => cases h
  | cons x xs =>
    have fold : ∀ (ys : List GpuInfo) (b : GpuInfo),
        ∀ g ∈ b :: ys,
          ¬ g.before (ys.foldl (fun best y => if y.before best then y else best) b) = true := by
      intro ys
      induction ys with
      | nil =>
        intro b g hg
        rw [List.mem_singleton.mp hg, List.foldl_nil, before_iff]
        omega
      | cons y ys ih =>
        intro b g hg
        rw [List.foldl_cons]
        have hb := ih (if y.before b then y else b) _ List.mem_cons_self
        have hys := ih (if y.before b then y else b)
        generalize ys.foldl (fun best y => if y.before best then y else best)
          (if y.before b then y else b) = r at hb hys
        -- what the first step passes over does not come before what it keeps
        have hpassed : ¬ b.before r = true ∧ ¬ y.before r = true := by
          by_cases hy : y.before b = true
          · rw [if_pos hy, before_iff] at hb
            rw [before_iff] at hy
            rw [before_iff, before_iff]
            omega
          · rw [if_neg hy, before_iff] at hb
            rw [before_iff] at hy
            rw [before_iff, before_iff]
            omega
        rcases List.mem_cons.mp hg with rfl | hg
        · exact hpassed.1
        · rcases List.mem_cons.mp hg with rfl | hg
          · exact hpassed.2
          · exact hys g (List.mem_cons_of_mem _ hg)
    obtain rfl := Option.some.inj h
    exact fold xs x

theorem preferred_eq_none {gs : List GpuInfo} : preferred gs = none ↔ gs = [] := by
  cases gs with
  | nil => exact ⟨fun _ => rfl, fun _ => rfl⟩
  | cons x xs => exact ⟨fun h => (nomatch h), fun h => (nomatch h)⟩

/-- A successful allocation takes an available index of the pool and nothing
else. -/
theorem allocate_ok {a a' : GpuAllocator} {v : ℚ} {g : GpuInfo}
    (h : a.allocate v = .ok (g, a')) :
    g ∈ a.pool ∧ g.index ∈ a.available ∧
      a' = { a with available := a.available.erase g.index } := by
  unfold allocate at h
  cases hp : preferred (a.candidates v) with
  | none => rw [hp] at h; cases h
  | some c =>
    rw [hp] at h
    cases h
    have hmem := List.mem_filter.mp (preferred_mem hp)
    have havail := (Bool.and_eq_true_iff.mp hmem.2).1
    exact ⟨hmem.1, of_decide_eq_true havail, rfl⟩

/-- What the filter keeps once an index has been taken. -/
theorem candidates_erase (a : GpuAllocator) (v : ℚ) (i : Int) :
    ({ a with available := a.available.erase i } : GpuAllocator).candidates v =
      (a.candidates v).filter fun g => decide (g.index ≠ i) := by
  unfold candidates
  rw [List.filter_filter]
  apply List.filter_congr
  intro g _
  simp only [Finset.mem_erase, Bool.decide_and, Bool.and_assoc]

theorem allocateSpecific_ok {a a' : GpuAllocator} {i : Int} {g : GpuInfo}
    (h : a.allocateSpecific i = .ok (g, a')) :
    g ∈ a.pool ∧ g.index = i ∧ i ∈ a.available ∧
      a' = { a with available := a.available.erase i } := by
  unfold allocateSpecific at h
  cases hf : a.pool.find? (fun g => g.index = i) with
  | none => rw [hf] at h; cases h
  | some gpu =>
    rw [hf] at h
    by_cases hi : i ∈ a.available
    · simp only [hi, if_true] at h
      cases h
      have hidx := List.find?_some hf
      exact ⟨List.mem_of_find?_eq_some hf, of_decide_eq_true hidx, hi, rfl⟩
    · simp only [hi, if_false] at h
      cases h

end GpuAllocator

end Gpu
end RocmTests

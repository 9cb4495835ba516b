import RocmTests.Conc.Seq
import RocmTests.Nodes.Os

/-!
# Registry of pending GPU requests

A caller waiting for several GPUs registers how many it needs.  A caller that
wants a single GPU asks `shouldYield` first.  The answer is computed from the
largest live request alone (`maxPendingCount`) and from probing every lock file
of the node (`trueAvailableCount`): a probe takes the lock and drops it again.
-/

namespace RocmTests
namespace Nodes

open Conc

namespace PendingAcquisitionTracker

def register (nodeLabel : String) (count : Int) (timeoutAt : ℚ)
    (waitsFor : Option (String × Int)) : OsProg Nat :=
  Os.addPending (safeLabel nodeLabel) ⟨count, timeoutAt, waitsFor⟩

def deregister (nodeLabel : String) (requestId : Nat) : OsProg Unit :=
  Os.dropPending (safeLabel nodeLabel) requestId

/-- `max` of the counts, or 0 when there are none. -/
def maxCount (counts : List Int) : Int := counts.max?.getD 0

def maxPendingCount (nodeLabel : String) : OsProg Int := do
  let now ← Os.monotonic
  match ← Os.livePending (safeLabel nodeLabel) now with
  | none => pure 0
  | some counts => pure (maxCount counts)

def trueAvailableCount (nodeLabel : String) (available : Nat) : List Int → OsProg Nat
  | [] => pure available
  | idx :: rest => do
    match ← Os.flock (lockFile nodeLabel idx) with
    | some id =>
      Os.funlock (lockFile nodeLabel idx) id
      trueAvailableCount nodeLabel (available + 1) rest
    | none => trueAvailableCount nodeLabel available rest

def shouldYield (nodeLabel : String) (gpuIndices : List Int) : OsProg Bool := do
  let maxPending ← maxPendingCount nodeLabel
  if maxPending ≤ 1 then
    pure false
  else if (gpuIndices.length : Int) < maxPending then
    pure false
  else do
    let available ← trueAvailableCount nodeLabel 0 gpuIndices
    pure (decide ((available : Int) - 1 < maxPending))

/-! ## The answer on a directory nobody else touches -/

/-- GPUs of the list whose lock file nobody holds. -/
def freeCount (nodeLabel : String) (gpuIndices : List Int) (s : OsState) : Nat :=
  gpuIndices.countP fun i => (s.holder (lockFile nodeLabel i)).isNone

/-- Requests of the node that are registered and unexpired at `now`. -/
def liveCounts (nodeLabel : String) (now : ℚ) (s : OsState) : List Int :=
  (OsState.liveAt now (s.pending (safeLabel nodeLabel))).map (·.2.count)

/-- The value `should_yield` computes, as a function of the live counts, the size
of the node and the number of free locks. -/
def yieldValue (counts : List Int) (total free : Nat) : Bool :=
  decide (1 < maxCount counts) && decide (maxCount counts ≤ total) &&
    decide ((free : Int) - 1 < maxCount counts)

/-- A live request that more than one GPU could serve and that taking one GPU
would starve. -/
def Starved (counts : List Int) (total free : Nat) : Prop :=
  ∃ c ∈ counts, 1 < c ∧ c ≤ (total : Int) ∧ (free : Int) - 1 < c

instance (counts : List Int) (total free : Nat) : Decidable (Starved counts total free) :=
  inferInstanceAs (Decidable (∃ c ∈ counts, _))

theorem le_maxCount {cs : List Int} {c : Int} (h : c ∈ cs) : c ≤ maxCount cs := by
  unfold maxCount
  cases hm : cs.max? with
  | none =>
    rw [List.max?_eq_none_iff] at hm
    rw [hm] at h
    cases h
  | some m => exact (List.max?_eq_some_iff.mp hm).2 c h

theorem maxCount_mem {cs : List Int} (h : maxCount cs ≠ 0) : maxCount cs ∈ cs := by
  unfold maxCount at h ⊢
  cases hm : cs.max? with
  | none => rw [hm] at h; exact absurd rfl h
  | some m => exact List.max?_mem hm

/-- Every request fits on the node, so the largest one decides for all. -/
theorem yieldValue_iff_of_le {counts : List Int} {total free : Nat}
    (hfit : ∀ c ∈ counts, c ≤ (total : Int)) :
    yieldValue counts total free = true ↔ Starved counts total free := by
  simp only [yieldValue, Bool.and_eq_true, decide_eq_true_eq]
  constructor
  · rintro ⟨⟨h1, h2⟩, h3⟩
    have hne : maxCount counts ≠ 0 := by omega
    exact ⟨maxCount counts, maxCount_mem hne, h1, h2, h3⟩
  · rintro ⟨c, hc, h1, h2, h3⟩
    have hle := le_maxCount hc
    have hne : maxCount counts ≠ 0 := by omega
    have hmem := maxCount_mem hne
    have htot := hfit _ hmem
    exact ⟨⟨by omega, htot⟩, by omega⟩

/-- A request larger than the node silences the yield test. -/
theorem yieldValue_of_lt {counts : List Int} {total free : Nat} {c : Int} (hc : c ∈ counts)
    (hlarge : (total : Int) < c) : yieldValue counts total free = false := by
  have hle := le_maxCount hc
  have hnot : ¬ maxCount counts ≤ (total : Int) := by omega
  simp [yieldValue, hnot]

theorem yieldValue_exact_iff (counts : List Int) (total free : Nat) :
    (yieldValue counts total free = true ↔ Starved counts total free) ↔
      ((∀ c ∈ counts, c ≤ (total : Int)) ∨ ¬ Starved counts total free) := by
  by_cases hfit : ∀ c ∈ counts, c ≤ (total : Int)
  · exact iff_of_true (yieldValue_iff_of_le hfit) (Or.inl hfit)
  · have hlarge : ∃ c ∈ counts, (total : Int) < c := by
      by_contra hno
      exact hfit fun c hc => by
        by_contra hlt
        exact hno ⟨c, hc, by omega⟩
    obtain ⟨c, hc, hlt⟩ := hlarge
    rw [yieldValue_of_lt hc hlt]
    constructor
    · intro h
      exact Or.inr fun hs => Bool.noConfusion (h.mpr hs)
    · rintro (h | h)
      · exact absurd h hfit
      · exact ⟨fun hf => Bool.noConfusion hf, fun hs => absurd hs h⟩

/-! ## Running the test alone -/

/-- A run of process `pid` with the directory to itself. -/
def runAlone {α : Type} (pid : Nat) (choices : List OsChoice) (p : OsProg α) (s : OsState) :
    Option (α × List OsChoice × OsState) :=
  runSeq (fun o e s => some (OsState.exec pid o e s)) choices p s

/-- The directory after probing free locks: as before, `n` lock objects later. -/
def probed (n : Nat) (s : OsState) : OsState := { s with nextId := s.nextId + n }

theorem freeCount_probed (nodeLabel : String) (idxs : List Int) (n : Nat) (s : OsState) :
    freeCount nodeLabel idxs (probed n s) = freeCount nodeLabel idxs s := rfl

/-- Dropping a lock just taken puts the directory back. -/
theorem funlock_flocked {pid : Nat} {f : LockFile} {c : OsChoice} {s : OsState}
    (hf : s.holder f = none) :
    OsState.exec pid (.funlock f s.nextId) c
      { s with
        holder := Function.update s.holder f (some ⟨pid, s.nextId⟩)
        nextId := s.nextId + 1 } = ((), probed 1 s) := by
  have hrestore : Function.update (Function.update s.holder f (some ⟨pid, s.nextId⟩)) f none =
      s.holder := by
    rw [Function.update_idem, ← hf, Function.update_eq_self]
  simp only [OsState.exec, Function.update_self, if_true, hrestore, probed]

theorem trueAvailableCount_run (pid : Nat) (nodeLabel : String) (idxs : List Int) :
    ∀ (available : Nat) (s : OsState) (choices : List OsChoice),
      2 * idxs.length ≤ choices.length →
        ∃ rest n, runAlone pid choices (trueAvailableCount nodeLabel available idxs) s =
          some (available + freeCount nodeLabel idxs s, rest, probed n s) := by
  induction idxs with
  | nil =>
    intro available s choices _
    exact ⟨choices, 0, runSeq_ret _ _ _⟩
  | cons i idxs ih =>
    intro available s choices hlen
    rw [List.length_cons] at hlen
    match choices with
    | c :: d :: cs =>
      simp only [List.length_cons] at hlen
      cases hf : s.holder (lockFile nodeLabel i) with
      | some h =>
        obtain ⟨rest, n, hrun⟩ := ih available s (d :: cs) (by simp only [List.length_cons]; omega)
        refine ⟨rest, n, ?_⟩
        have hcount : freeCount nodeLabel (i :: idxs) s = freeCount nodeLabel idxs s := by
          simp [freeCount, hf]
        rw [hcount, ← hrun]
        rw [runAlone, trueAvailableCount, Prog.bind_eq, runSeq_perform, OsState.flock_held hf]
        rfl
      | none =>
        obtain ⟨rest, n, hrun⟩ := ih (available + 1) (probed 1 s) cs (by omega)
        refine ⟨rest, n + 1, ?_⟩
        have hcount : freeCount nodeLabel (i :: idxs) s = freeCount nodeLabel idxs s + 1 := by
          simp [freeCount, hf]
        have hprobed : probed (n + 1) s = probed n (probed 1 s) := by
          simp only [probed]; congr 1; omega
        rw [hcount, hprobed, show available + (freeCount nodeLabel idxs s + 1) =
          available + 1 + freeCount nodeLabel idxs (probed 1 s) by
            rw [freeCount_probed]; omega, ← hrun]
        rw [runAlone, trueAvailableCount, Prog.bind_eq, runSeq_perform, OsState.flock_free hf,
          Option.bind_some]
        show runSeq _ (d :: cs) ((Os.funlock _ _).bind fun _ => _) _ = _
        rw [runSeq_perform, funlock_flocked hf]
        rfl

/-- The directory after the registry of a node was read at `now`. -/
def pruned (nodeLabel : String) (now : ℚ) (s : OsState) : OsState :=
  { s with
    clock := now
    pending := Function.update s.pending (safeLabel nodeLabel)
      (OsState.liveAt now (s.pending (safeLabel nodeLabel))) }

theorem maxPendingCount_run (pid : Nat) (nodeLabel : String) (c d : OsChoice)
    (cs : List OsChoice) (s : OsState) (hd : d.metaTimeout = false) :
    runAlone pid (c :: d :: cs) (maxPendingCount nodeLabel) s =
      some (maxCount (liveCounts nodeLabel (s.clock + max 0 c.elapsed) s), cs,
        pruned nodeLabel (s.clock + max 0 c.elapsed) s) := by
  rw [runAlone, maxPendingCount, Prog.bind_eq, runSeq_perform, Option.bind_some, Prog.bind_eq,
    runSeq_perform, OsState.livePending_read hd, Option.bind_some]
  exact runSeq_ret _ _ _

/-- The test returns, and its value is `yieldValue` of what the directory held
when it was called. -/
theorem shouldYield_run (pid : Nat) (nodeLabel : String) (idxs : List Int) (c : OsChoice)
    (cs : List OsChoice) (s : OsState) (hcs : ∀ d ∈ cs, d.metaTimeout = false)
    (hlen : 2 * idxs.length + 1 ≤ cs.length) :
    ∃ rest s', runAlone pid (c :: cs) (shouldYield nodeLabel idxs) s =
      some (yieldValue (liveCounts nodeLabel (s.clock + max 0 c.elapsed) s) idxs.length
        (freeCount nodeLabel idxs s), rest, s') := by
  match cs with
  | d :: ds =>
    have hmax := maxPendingCount_run pid nodeLabel c d ds s (hcs d List.mem_cons_self)
    set now := s.clock + max 0 c.elapsed
    set m := maxCount (liveCounts nodeLabel now s)
    rw [List.length_cons] at hlen
    rw [runAlone, shouldYield, Prog.bind_eq, runSeq_bind, ← runAlone, hmax, Option.bind_some]
    by_cases h1 : m ≤ 1
    · refine ⟨ds, pruned nodeLabel now s, ?_⟩
      have hval : yieldValue (liveCounts nodeLabel now s) idxs.length
          (freeCount nodeLabel idxs s) = false := by
        have hnot : ¬ 1 < m := by omega
        simp [yieldValue, show ¬ 1 < maxCount (liveCounts nodeLabel now s) from hnot]
      rw [hval, if_pos h1]
      exact runSeq_ret _ _ _
    · rw [if_neg h1]
      by_cases h2 : (idxs.length : Int) < m
      · refine ⟨ds, pruned nodeLabel now s, ?_⟩
        have hval : yieldValue (liveCounts nodeLabel now s) idxs.length
            (freeCount nodeLabel idxs s) = false := by
          have hnot : ¬ m ≤ (idxs.length : Int) := by omega
          simp [yieldValue, show ¬ maxCount (liveCounts nodeLabel now s) ≤
            (idxs.length : Int) from hnot]
        rw [hval, if_pos h2]
        exact runSeq_ret _ _ _
      · obtain ⟨rest, n, havail⟩ := trueAvailableCount_run pid nodeLabel idxs 0
          (pruned nodeLabel now s) ds (by omega)
        refine ⟨rest, probed n (pruned nodeLabel now s), ?_⟩
        rw [if_neg h2, Prog.bind_eq, runSeq_bind, ← runAlone, havail, Option.bind_some]
        have hval : yieldValue (liveCounts nodeLabel now s) idxs.length
            (freeCount nodeLabel idxs s) =
            decide (((0 + freeCount nodeLabel idxs (pruned nodeLabel now s) : Nat) : Int) - 1 <
              m) := by
          have hlt : 1 < m := by omega
          have hle : m ≤ (idxs.length : Int) := by omega
          rw [Nat.zero_add]
          simp [yieldValue, show 1 < maxCount (liveCounts nodeLabel now s) from hlt,
            show maxCount (liveCounts nodeLabel now s) ≤ (idxs.length : Int) from hle, m]
          rfl
        rw [hval]
        exact runSeq_ret _ _ _

/-- The yield test agrees with the per-request condition exactly when no live
request exceeds the node, or when no request is starved anyway.  A request
larger than the node hides every smaller one, because the test only looks at the
largest. -/
theorem shouldYield_exact_iff (pid : Nat) (nodeLabel : String) (idxs : List Int) (c : OsChoice)
    (cs : List OsChoice) (s : OsState) (hcs : ∀ d ∈ cs, d.metaTimeout = false)
    (hlen : 2 * idxs.length + 1 ≤ cs.length) :
    ∃ b rest s', runAlone pid (c :: cs) (shouldYield nodeLabel idxs) s = some (b, rest, s') ∧
      ((b = true ↔ Starved (liveCounts nodeLabel (s.clock + max 0 c.elapsed) s) idxs.length
          (freeCount nodeLabel idxs s)) ↔
        ((∀ n ∈ liveCounts nodeLabel (s.clock + max 0 c.elapsed) s, n ≤ (idxs.length : Int)) ∨
          ¬ Starved (liveCounts nodeLabel (s.clock + max 0 c.elapsed) s) idxs.length
            (freeCount nodeLabel idxs s))) := by
  obtain ⟨rest, s', hrun⟩ := shouldYield_run pid nodeLabel idxs c cs s hcs hlen
  exact ⟨_, rest, s', hrun, yieldValue_exact_iff _ _ _⟩

/-- Two free GPUs, with one live request for five GPUs and one for two. -/
def mixedRequests : OsState :=
  { OsState.start with
    pending := fun safe =>
      if safe = "localhost" then [(0, ⟨5, 60, none⟩), (1, ⟨2, 60, none⟩)] else [] }

theorem shouldYield_exact_iff_mixed :
    ∃ b rest s', runAlone 7 (List.replicate 6 {}) (shouldYield "localhost" [0, 1]) mixedRequests =
        some (b, rest, s') ∧
      ((b = true ↔ Starved (liveCounts "localhost" (mixedRequests.clock + max 0 0) mixedRequests) 2
          (freeCount "localhost" [0, 1] mixedRequests)) ↔
        ((∀ n ∈ liveCounts "localhost" (mixedRequests.clock + max 0 0) mixedRequests,
            n ≤ ((2 : Nat) : Int)) ∨
          ¬ Starved (liveCounts "localhost" (mixedRequests.clock + max 0 0) mixedRequests) 2
            (freeCount "localhost" [0, 1] mixedRequests))) :=
  shouldYield_exact_iff 7 "localhost" [0, 1] {} (List.replicate 5 {}) mixedRequests
    (by decide) (by decide)

/-- The request for two GPUs is starved and the test does not yield to it. -/
theorem shouldYield_misses_starved :
    (runAlone 7 (List.replicate 6 {}) (shouldYield "localhost" [0, 1]) mixedRequests).map (·.1) =
        some false ∧
      Starved (liveCounts "localhost" 0 mixedRequests) 2
        (freeCount "localhost" [0, 1] mixedRequests) := by
  decide +kernel

end PendingAcquisitionTracker

end Nodes
end RocmTests

import Mathlib.Data.List.Induction

/-!
# A capture buffer of bounded size

`_BoundedChunks` keeps the most recent chunks of what was appended.  The oldest one
goes while the cap is exceeded, but never the last one there is.
-/

namespace RocmTests
namespace Executors

structure BoundedChunks (β : Type) where
  chunks : List (List β)
  total : Int
  max : Int
  truncated : Bool

namespace BoundedChunks

variable {β : Type}

def init (maxBytes : Int) : BoundedChunks β := ⟨[], 0, maxBytes, false⟩

/-- The `while` loop of `append`, on the chunks, their total and the flag. -/
def evict (max : Int) : List (List β) → Int → Bool → List (List β) × Int × Bool
  | c :: c' :: rest, total, truncated =>
    if max < total then evict max (c' :: rest) (total - c.length) true
    else (c :: c' :: rest, total, truncated)
  | [c], total, truncated => ([c], total, truncated)
  | [], total, truncated => ([], total, truncated)

def append (b : BoundedChunks β) (chunk : List β) : BoundedChunks β :=
  let (chunks, total, truncated) :=
    evict b.max (b.chunks ++ [chunk]) (b.total + chunk.length) b.truncated
  { b with chunks, total, truncated }

/-- The buffer after a sequence of appends. -/
def appendAll (maxBytes : Int) (appended : List (List β)) : BoundedChunks β :=
  appended.foldl append (init maxBytes)

/-- What the loop leaves of some chunks: `dropped` went from their front, the last of
them while the cap was exceeded. -/
structure Evicted (max : Int) (chunks dropped : List (List β)) (total : Int) (truncated : Bool)
    (left : List (List β) × Int × Bool) : Prop where
  split : chunks = dropped ++ left.1
  some_left : left.1 ≠ []
  counted : left.2.1 = total - dropped.flatten.length
  flag : left.2.2 = (truncated || decide (dropped ≠ []))
  bounded : left.2.1 ≤ max ∨ left.1.length = 1
  needed : ∀ c, dropped.getLast? = some c → max < left.2.1 + c.length

theorem evict_spec (max : Int) (chunks : List (List β)) :
    ∀ (total : Int) (truncated : Bool), chunks ≠ [] →
      ∃ dropped, Evicted max chunks dropped total truncated (evict max chunks total truncated) := by
  induction chunks with
  | nil => exact fun _ _ h => absurd rfl h
  | cons c rest ih =>
    intro total truncated _
    cases rest with
    | nil =>
      refine ⟨[], rfl, List.cons_ne_nil c [], ?_, ?_, Or.inr rfl, fun _ h => nomatch h⟩
      · show total = total - (0 : Nat)
        omega
      · exact (Bool.or_false truncated).symm
    | cons c' rest =>
      by_cases hover : max < total
      · obtain ⟨dropped, hleft⟩ := ih (total - c.length) true (List.cons_ne_nil c' rest)
        have hstep : evict max (c :: c' :: rest) total truncated =
            evict max (c' :: rest) (total - c.length) true := by
          rw [evict, if_pos hover]
        rw [hstep]
        refine ⟨c :: dropped, ?_, hleft.some_left, ?_, ?_, hleft.bounded, ?_⟩
        · rw [List.cons_append, ← hleft.split]
        · have hcounted := hleft.counted
          rw [List.flatten_cons, List.length_append]
          omega
        · rw [hleft.flag]
          simp
        · intro d hd
          cases dropped with
          | nil =>
            have hcounted := hleft.counted
            rw [List.getLast?_singleton, Option.some.injEq] at hd
            rw [← hd]
            rw [List.flatten_nil, List.length_nil] at hcounted
            omega
          | cons e dropped => exact hleft.needed d hd
      · have hstep : evict max (c :: c' :: rest) total truncated =
            (c :: c' :: rest, total, truncated) := by
          rw [evict, if_neg hover]
        rw [hstep]
        refine ⟨[], rfl, List.cons_ne_nil _ _, ?_, ?_, Or.inl ?_, fun _ h => nomatch h⟩
        · show total = total - (0 : Nat)
          omega
        · exact (Bool.or_false truncated).symm
        · show total ≤ max
          omega

/-! ## After a sequence of appends -/

/-- The buffer holds the end of what was appended; `evicted` is the rest of it. -/
structure Holds (b : BoundedChunks β) (maxBytes : Int) (appended evicted : List (List β)) :
    Prop where
  cap : b.max = maxBytes
  split : appended = evicted ++ b.chunks
  total : b.total = b.chunks.flatten.length
  bounded : b.total ≤ maxBytes ∨ b.chunks.length = 1 ∨ (appended = [] ∧ maxBytes < 0)
  flag : b.truncated = decide (evicted ≠ [])
  needed : ∀ c, evicted.getLast? = some c → maxBytes < b.total + c.length

theorem holds_init (maxBytes : Int) : Holds (init maxBytes : BoundedChunks β) maxBytes [] [] := by
  refine ⟨rfl, rfl, rfl, ?_, rfl, fun _ h => nomatch h⟩
  rcases Int.lt_or_le maxBytes 0 with hneg | hpos
  · exact Or.inr (Or.inr ⟨rfl, hneg⟩)
  · exact Or.inl hpos

/-- An append evicts from the front of what is held. -/
theorem Holds.append {b : BoundedChunks β} {maxBytes : Int} {appended evicted : List (List β)}
    (h : Holds b maxBytes appended evicted) (chunk : List β) :
    ∃ evicted', Holds (b.append chunk) maxBytes (appended ++ [chunk]) evicted' := by
  obtain ⟨dropped, hleft⟩ := evict_spec b.max (b.chunks ++ [chunk]) (b.total + chunk.length)
    b.truncated (List.append_ne_nil_of_right_ne_nil _ (List.cons_ne_nil chunk []))
  have htotal : ((b.chunks ++ [chunk]).flatten.length : Int) = b.total + chunk.length := by
    rw [h.total, List.flatten_append, List.length_append]
    simp
  have hcounted : (b.append chunk).total = (b.append chunk).chunks.flatten.length := by
    have hlength := congrArg (fun l => l.flatten.length) hleft.split
    simp only [List.flatten_append, List.length_append] at hlength
    have hleftTotal : (b.append chunk).total = b.total + chunk.length - dropped.flatten.length :=
      hleft.counted
    have hsum : ((b.chunks ++ [chunk]).flatten.length : Int) =
        dropped.flatten.length + (b.append chunk).chunks.flatten.length := by
      rw [List.flatten_append, List.length_append]
      exact_mod_cast hlength
    omega
  refine ⟨evicted ++ dropped, h.cap, ?_, hcounted, ?_, ?_, ?_⟩
  · rw [h.split, List.append_assoc, hleft.split, List.append_assoc]
    rfl
  · rcases hleft.bounded with hle | hone
    · exact Or.inl (h.cap ▸ hle)
    · exact Or.inr (Or.inl hone)
  · show (evict b.max _ _ _).2.2 = _
    rw [hleft.flag, h.flag]
    cases evicted <;> cases dropped <;> rfl
  · intro c hc
    rcases List.eq_nil_or_concat dropped with hnone | ⟨ds, d, hdropped⟩
    · -- nothing went, so the buffer has only grown since the last eviction
      rw [hnone, List.append_nil] at hc
      have hbefore := h.needed c hc
      have hleftTotal : (b.append chunk).total = b.total + chunk.length - dropped.flatten.length :=
        hleft.counted
      rw [hnone, List.flatten_nil, List.length_nil] at hleftTotal
      omega
    · have hlast : dropped.getLast? = some c := by
        rw [hdropped, List.concat_eq_append, ← List.append_assoc, List.getLast?_concat] at hc
        rw [hdropped, List.concat_eq_append, List.getLast?_concat, hc]
      exact h.cap ▸ hleft.needed c hlast

theorem appendAll_concat (maxBytes : Int) (appended : List (List β)) (chunk : List β) :
    appendAll maxBytes (appended ++ [chunk]) = (appendAll maxBytes appended).append chunk := by
  unfold appendAll
  rw [List.foldl_append]
  rfl

theorem holds_appendAll (maxBytes : Int) (appended : List (List β)) :
    ∃ evicted, Holds (appendAll maxBytes appended) maxBytes appended evicted := by
  induction appended using List.reverseRecOn with
  | nil => exact ⟨[], holds_init maxBytes⟩
  | append_singleton appended chunk ih =>
    obtain ⟨evicted, hheld⟩ := ih
    rw [appendAll_concat]
    exact hheld.append chunk

/-- What is kept is the end of what was appended, and how much of it. -/
structure Tail (b : BoundedChunks β) (maxBytes : Int) (appended : List (List β)) : Prop where
  suffix : b.chunks.flatten <:+ appended.flatten
  total : b.total = b.chunks.flatten.length
  bounded : (b.chunks.flatten.length : Int) ≤ maxBytes ∨ b.chunks.length = 1 ∨
    (appended = [] ∧ maxBytes < 0)
  evicted : ∃ evicted, appended = evicted ++ b.chunks ∧ (b.truncated = true ↔ evicted ≠ []) ∧
    ∀ c, evicted.getLast? = some c → maxBytes < b.chunks.flatten.length + c.length
  dropped : (∀ c ∈ appended, c ≠ []) →
    (b.truncated = true ↔ b.chunks.flatten ≠ appended.flatten)

theorem Holds.tail {b : BoundedChunks β} {maxBytes : Int} {appended evicted : List (List β)}
    (h : Holds b maxBytes appended evicted) : Tail b maxBytes appended := by
  have hflag : b.truncated = true ↔ evicted ≠ [] := by rw [h.flag, decide_eq_true_iff]
  have hflatten : appended.flatten = evicted.flatten ++ b.chunks.flatten := by
    rw [h.split, List.flatten_append]
  refine ⟨⟨evicted.flatten, hflatten.symm⟩, h.total, h.total ▸ h.bounded,
    ⟨evicted, h.split, hflag, h.total ▸ h.needed⟩, fun hne => ?_⟩
  rw [hflag, hflatten, ne_eq, ne_eq, List.self_eq_append_left, List.flatten_eq_nil_iff]
  constructor
  · intro hevicted hall
    obtain ⟨c, rest, hcons⟩ := List.exists_cons_of_ne_nil hevicted
    have hc : c ∈ evicted := hcons ▸ List.mem_cons_self
    exact hne c (h.split ▸ List.mem_append_left _ hc) (hall c hc)
  · intro hall hnone
    refine hall fun c hc => ?_
    rw [hnone] at hc
    exact absurd hc List.not_mem_nil

theorem tail_appendAll (maxBytes : Int) (appended : List (List β)) :
    Tail (appendAll maxBytes appended) maxBytes appended := by
  obtain ⟨evicted, hheld⟩ := holds_appendAll maxBytes appended
  exact hheld.tail

/-- An empty chunk that goes sets the flag, and is nothing to miss. -/
theorem truncated_without_loss :
    ¬ ((appendAll 1 [[], [0, 1]] : BoundedChunks UInt8).truncated = true ↔
      (appendAll 1 [[], [0, 1]] : BoundedChunks UInt8).chunks.flatten ≠
        ([[], [0, 1]] : List (List UInt8)).flatten) := by
  decide

end BoundedChunks
end Executors
end RocmTests

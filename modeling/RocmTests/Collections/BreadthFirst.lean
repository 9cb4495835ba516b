import Mathlib.Algebra.GroupWithZero.Nat
import Mathlib.Algebra.Order.BigOperators.Group.List
import Mathlib.Algebra.Order.Group.Nat
import Mathlib.Logic.Relation

/-!
# Breadth-first walks

`walk children n todo` takes a node off the front of a queue and puts its children at the
back, at most `n` times.  Where the nodes have a size that their children share between them,
`n` at least the size of the queue is enough, and the walk visits what is below the queue and
nothing else.
-/

namespace RocmTests
namespace Collections

variable {α : Type*} (children : α → List α)

/-- `b` is `a` or a descendant of `a`. -/
def Below (a b : α) : Prop := Relation.ReflTransGen (fun x y => y ∈ children x) a b

def walk : Nat → List α → List α
  | 0, _ => []
  | _ + 1, [] => []
  | n + 1, a :: rest => a :: walk n (rest ++ children a)

/-- The walk stays below its queue. -/
theorem exists_below_of_mem_walk {n : Nat} {todo : List α} {b : α}
    (h : b ∈ walk children n todo) : ∃ a ∈ todo, Below children a b := by
  induction n generalizing todo with
  | zero => exact absurd h List.not_mem_nil
  | succ n ih =>
    cases todo with
    | nil => exact absurd h List.not_mem_nil
    | cons a rest =>
      rcases List.mem_cons.mp h with rfl | h
      · exact ⟨b, List.mem_cons_self, .refl⟩
      · obtain ⟨c, hc, hbelow⟩ := ih h
        rcases List.mem_append.mp hc with hrest | hchild
        · exact ⟨c, List.mem_cons_of_mem _ hrest, hbelow⟩
        · exact ⟨a, List.mem_cons_self, .head hchild hbelow⟩

section Sized

variable {children} {size : α → Nat}

/-- A queue as heavy as the steps that are left is walked to its end. -/
theorem mem_walk_of_below (hsize : ∀ a, ((children a).map size).sum < size a) {n : Nat}
    {todo : List α} (hn : (todo.map size).sum ≤ n) {a b : α} (ha : a ∈ todo)
    (h : Below children a b) : b ∈ walk children n todo := by
  induction n generalizing todo a with
  | zero =>
    have hpos : 0 < size a := Nat.lt_of_le_of_lt (Nat.zero_le _) (hsize a)
    have hle : size a ≤ (todo.map size).sum :=
      List.single_le_sum (fun _ _ => Nat.zero_le _) _ (List.mem_map_of_mem ha)
    omega
  | succ n ih =>
    cases todo with
    | nil => exact absurd ha List.not_mem_nil
    | cons c rest =>
      have hstep : ((rest ++ children c).map size).sum ≤ n := by
        have hc := hsize c
        rw [List.map_append, List.sum_append]
        rw [List.map_cons, List.sum_cons] at hn
        omega
      rcases List.mem_cons.mp ha with rfl | hrest
      · rcases Relation.ReflTransGen.cases_head h with rfl | ⟨d, hd, hbelow⟩
        · exact List.mem_cons_self
        · exact List.mem_cons_of_mem _ (ih hstep (List.mem_append_right _ hd) hbelow)
      · exact List.mem_cons_of_mem _ (ih hstep (List.mem_append_left _ hrest) h)

theorem mem_walk_iff (hsize : ∀ a, ((children a).map size).sum < size a) {n : Nat}
    {todo : List α} (hn : (todo.map size).sum ≤ n) {b : α} :
    b ∈ walk children n todo ↔ ∃ a ∈ todo, Below children a b :=
  ⟨exists_below_of_mem_walk children, fun ⟨_, ha, h⟩ => mem_walk_of_below hsize hn ha h⟩

end Sized

end Collections
end RocmTests

import RocmTests.Text.Lines
import RocmTests.Collections.BreadthFirst

/-!
# Syntax trees of test modules

What the linter and an import of a test module read of `ast.parse`'s tree: the definitions,
the assignments and where they stand.
-/

namespace RocmTests
namespace Markers

open Text Collections

/-- `ast.expr`.  The last case is every other expression, as it is written. -/
inductive Expr where
  | name (id : Txt)
  | attribute (value : Expr) (attr : Txt)
  | call (func : Expr) (args : List Expr)
  | list (elts : List Expr)
  | other (text : Txt)

/-- `ast.FunctionDef` or `ast.AsyncFunctionDef`, without its body. -/
structure FunctionDef where
  isAsync : Bool
  name : Txt
  lineno : Nat
  decorators : List Expr

/-- `ast.ClassDef`, without its body. -/
structure ClassDef where
  name : Txt
  lineno : Nat
  bases : List Expr
  decorators : List Expr

/-- `ast.stmt`.  `bind` is any other statement that binds a name of its scope: an annotated
or augmented assignment, an import, a loop target, an unpacking.  `compound` is any other
node with statements below it. -/
inductive Stmt where
  | functionDef (f : FunctionDef) (body : List Stmt)
  | classDef (c : ClassDef) (body : List Stmt)
  | assign (targets : List Expr) (value : Expr)
  | bind (id : Txt) (value : Expr)
  | compound (body : List Stmt)

namespace Stmt

def children : Stmt → List Stmt
  | .functionDef _ body | .classDef _ body | .compound body => body
  | .assign _ _ | .bind _ _ => []

mutual

/-- The number of statements of a tree. -/
def size : Stmt → Nat
  | .functionDef _ body | .classDef _ body | .compound body => sizes body + 1
  | .assign _ _ | .bind _ _ => 1

def sizes : List Stmt → Nat
  | [] => 0
  | s :: rest => size s + sizes rest

end

theorem sizes_eq_sum (body : List Stmt) : sizes body = (body.map size).sum := by
  induction body with
  | nil => rfl
  | cons s rest ih => rw [sizes, ih, List.map_cons, List.sum_cons]

theorem size_eq (s : Stmt) : s.size = sizes s.children + 1 := by
  cases s with
  | functionDef f body => rw [size, children]
  | classDef c body => rw [size, children]
  | compound body => rw [size, children]
  | assign targets value => rw [size, children, sizes]
  | bind id value => rw [size, children, sizes]

theorem size_children_lt (s : Stmt) : (s.children.map size).sum < s.size := by
  rw [size_eq, sizes_eq_sum]
  exact Nat.lt_succ_self _

/-- `id` is what the statement binds in its scope. -/
def binds (id : Txt) : Stmt → Bool
  | .functionDef f _ => f.name = id
  | .classDef c _ => c.name = id
  | .assign targets _ => targets.any fun
      | .name n => n = id
      | _ => false
  | .bind n _ => n = id
  | .compound _ => false

mutual

/-- The statements of a scope that begin with this one: a definition's body is a scope of
its own. -/
def scopeFrom : Stmt → List Stmt
  | .compound body => .compound body :: scope body
  | s => [s]

/-- The statements of the scope that a body opens. -/
def scope : List Stmt → List Stmt
  | [] => []
  | s :: rest => scopeFrom s ++ scope rest

end

end Stmt

open Stmt

/-- `ast.walk(tree)`, the statements of it. -/
def walk (tree : List Stmt) : List Stmt := Collections.walk children (sizes tree) tree

theorem mem_walk_iff {tree : List Stmt} {s : Stmt} :
    s ∈ walk tree ↔ ∃ a ∈ tree, Below children a s :=
  Collections.mem_walk_iff size_children_lt (Nat.le_of_eq (sizes_eq_sum tree).symm)

/-- A walk goes on below each node it visits. -/
theorem mem_walk_of_walk_children {tree : List Stmt} {s t : Stmt} (hs : s ∈ walk tree)
    (ht : t ∈ walk s.children) : t ∈ walk tree := by
  obtain ⟨a, ha, has⟩ := mem_walk_iff.mp hs
  obtain ⟨b, hb, hbt⟩ := mem_walk_iff.mp ht
  exact mem_walk_iff.mpr ⟨a, ha, has.trans (.head hb hbt)⟩

mutual

theorem below_of_mem_scopeFrom {s t : Stmt} (h : t ∈ scopeFrom s) : Below children s t := by
  cases s with
  | compound body =>
    rcases List.mem_cons.mp h with rfl | h
    · exact .refl
    · obtain ⟨a, ha, hbelow⟩ := exists_below_of_mem_scope h
      exact .head ha hbelow
  | functionDef f body => exact List.mem_singleton.mp h ▸ .refl
  | classDef c body => exact List.mem_singleton.mp h ▸ .refl
  | assign targets value => exact List.mem_singleton.mp h ▸ .refl
  | bind id value => exact List.mem_singleton.mp h ▸ .refl

theorem exists_below_of_mem_scope {body : List Stmt} {t : Stmt} (h : t ∈ scope body) :
    ∃ a ∈ body, Below children a t := by
  cases body with
  | nil => exact absurd h List.not_mem_nil
  | cons s rest =>
    rcases List.mem_append.mp h with h | h
    · exact ⟨s, List.mem_cons_self, below_of_mem_scopeFrom h⟩
    · obtain ⟨a, ha, hbelow⟩ := exists_below_of_mem_scope h
      exact ⟨a, List.mem_cons_of_mem _ ha, hbelow⟩

end

/-- The walk visits every statement of the outermost scope. -/
theorem mem_walk_of_mem_scope {body : List Stmt} {t : Stmt} (h : t ∈ scope body) :
    t ∈ walk body :=
  mem_walk_iff.mpr (exists_below_of_mem_scope h)

end Markers
end RocmTests

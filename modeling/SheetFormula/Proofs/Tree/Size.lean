import Mathlib.Tactic.Common
import SheetFormula.Proofs.Tree.Nodes
import SheetFormula.Proofs.Tree.Shape

/-!
# The size of a tree

What makes a tree large are parentheses, calls and operations, its branching nodes. Each branching
node stores the mark of an operator or of an opening parenthesis, so that they can be counted on the
marks of the tree.

Main results:
* `Expr.height_le`: no expression is higher than one more than the number of its branching nodes.
* `Node.countP_isBranching`: a tree has as many branching nodes as branching marks.
* `Node.countP_le_of_mem_nodes`: below a node there are not more of them than in its whole tree.
-/

namespace SheetFormula

/-- Whether a node is a pair of parentheses, a call or an operation. -/
def Node.isBranching : Node → Bool
  | .expr (.paren ..) | .expr (.call ..) | .expr (.unary ..) | .expr (.binary ..) => true
  | _ => false

/-- Whether a mark of this role belongs to a branching node, which has one of these only. -/
def Role.isBranching : Role → Bool
  | .lparen | .operator => true
  | _ => false

namespace Expr

mutual

/-- The number of nodes on the longest way down from an expression. -/
def height : Expr → Nat
  | bad .. | ident _ | literal _ => 1
  | paren _ x _ | unary _ _ x => height x + 1
  | call f _ xs _ => max (height f) (heightAll xs) + 1
  | binary x _ _ y => max (height x) (height y) + 1

/-- The greatest height of several expressions. -/
def heightAll : List Expr → Nat
  | [] => 0
  | x :: xs => max (height x) (heightAll xs)

end

mutual

/-- Only branching nodes make an expression higher than a leaf. -/
theorem height_le : (x : Expr) → x.height ≤ x.nodes.countP Node.isBranching + 1
  | bad .. | ident _ | literal _ => by simp [height]
  | paren p x q => by
    have inner := height_le x
    rw [height, nodes, List.countP_cons_of_pos rfl]
    omega
  | unary p op x => by
    have inner := height_le x
    rw [height, nodes, List.countP_cons_of_pos rfl]
    omega
  | call f p xs q => by
    have function := height_le f
    have arguments := heightAll_le xs
    rw [height, nodes, List.countP_cons_of_pos rfl, List.countP_append]
    omega
  | binary x p op y => by
    have left := height_le x
    have right := height_le y
    rw [height, nodes, List.countP_cons_of_pos rfl, List.countP_append]
    omega

/-- So it is with several expressions. -/
theorem heightAll_le :
    (xs : List Expr) → heightAll xs ≤ (nodesAll xs).countP Node.isBranching + 1
  | [] => by simp [heightAll]
  | x :: xs => by
    have first := height_le x
    have later := heightAll_le xs
    rw [heightAll, nodesAll, List.countP_append]
    omega

end

mutual

/-- An expression has as many branching nodes as branching marks. -/
theorem countP_isBranching :
    (x : Expr) → x.nodes.countP Node.isBranching = x.marks.countP (·.role.isBranching)
  | bad .. | ident _ | literal _ => rfl
  | paren p x q => by
    rw [nodes, marks, List.countP_cons_of_pos rfl, List.countP_cons_of_pos rfl,
      List.countP_append, countP_isBranching x]
    rfl
  | unary p op x => by
    rw [nodes, marks, List.countP_cons_of_pos rfl, List.countP_cons_of_pos rfl,
      countP_isBranching x]
  | call f p xs q => by
    rw [nodes, marks, List.countP_cons_of_pos rfl, List.countP_append, List.countP_append,
      List.countP_cons_of_pos rfl, List.countP_append, countP_isBranching f,
      countP_isBranching_all xs]
    rfl
  | binary x p op y => by
    rw [nodes, marks, List.countP_cons_of_pos rfl, List.countP_append, List.countP_append,
      List.countP_cons_of_pos rfl, countP_isBranching x, countP_isBranching y]
    rfl

/-- So have several expressions. -/
theorem countP_isBranching_all : (xs : List Expr) →
    (nodesAll xs).countP Node.isBranching = (marksAll xs).countP (·.role.isBranching)
  | [] => rfl
  | x :: xs => by
    simp [nodesAll, marksAll, countP_isBranching x, countP_isBranching_all xs]

end

end Expr

namespace Node

/-- **A tree has as many branching nodes as branching marks.** -/
theorem countP_isBranching (root : Node) :
    root.nodes.countP isBranching = root.marks.countP (·.role.isBranching) := by
  have entry : ∀ f : Field, f.nodes.countP isBranching = f.marks.countP (·.role.isBranching) := by
    intro f
    have names : (f.names.map name).countP isBranching = 0 := by
      simp [List.countP_eq_zero, isBranching]
    have tags : (f.tag.toList.map tag).countP isBranching = 0 := by
      simp [List.countP_eq_zero, isBranching]
    rw [Field.nodes, Field.marks]
    simp [names, tags, isBranching, Role.isBranching, f.type.countP_isBranching,
      List.countP_map, Function.comp_def]
  cases root with
  | expr x => exact x.countP_isBranching
  | name n => rfl
  | tag t => rfl
  | field f => exact entry f
  | fields l =>
    have entries : (l.fields.flatMap Field.nodes).countP isBranching =
        (l.fields.flatMap Field.marks).countP (·.role.isBranching) := by
      rw [List.countP_flatMap, List.countP_flatMap]
      congr 1
      exact List.map_congr_left fun f _ => entry f
    simp [nodes, marks, FieldList.marks, isBranching, Role.isBranching, entries]

/-- Below a node there are not more branching nodes than in its whole tree. -/
theorem countP_le_of_mem_nodes {root n : Node} (mem : n ∈ root.nodes) :
    n.nodes.countP isBranching ≤ root.nodes.countP isBranching := by
  refine forall_nodes_of_passes
    (P := fun n => n.nodes.countP isBranching ≤ root.nodes.countP isBranching) ?_ root
    (Nat.le_refl _) n mem
  intro n within c child
  have below : c.nodes.Sublist (n.children.flatMap nodes) :=
    List.sublist_flatten_of_mem (List.mem_map_of_mem child)
  rw [nodes_eq, List.countP_cons] at within
  have fewer := below.countP_le (p := isBranching)
  omega

/-- The leaves of a tree with their levels: those of an entry are those of its type, and lists open
no level. -/
def leaves : Node → List (Expr × Nat)
  | expr x => x.leaves
  | field f => f.type.leaves
  | fields l => l.fields.flatMap fun f => f.type.leaves
  | name _ | tag _ => []

end Node

end SheetFormula

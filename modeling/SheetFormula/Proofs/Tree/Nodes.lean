import Mathlib.Tactic.Common
import SheetFormula.Proofs.Tree.Parts
import SheetFormula.Tree.Walk

/-!
# The nodes of a tree

All nodes of a tree in one list, each in front of what is below it.

Main results:
* `Visitor.walk_eq`: a walk shows a node to the visitor, with walks of its children in between.
  Later proofs go by this equation and not by the kinds of nodes.
* `Node.inspected_all`: the nodes of a tree are those that a walk shows, in its order.
* `Node.forall_nodes_of_passes` and `Node.forall_nodes`: what is said of every node of a tree is
  proved either from the root down, if it passes from each node to its children, or from the leaves
  up.
-/

namespace SheetFormula

namespace Expr

mutual

/-- The nodes of an expression, each in front of what is below it. -/
def nodes : Expr → List Node
  | bad p q => [.expr (bad p q)]
  | ident n => [.expr (ident n)]
  | literal l => [.expr (literal l)]
  | paren p x q => .expr (paren p x q) :: nodes x
  | call f p xs q => .expr (call f p xs q) :: (nodes f ++ nodesAll xs)
  | unary p op x => .expr (unary p op x) :: nodes x
  | binary x p op y => .expr (binary x p op y) :: (nodes x ++ nodes y)

/-- The nodes of several expressions. -/
def nodesAll : List Expr → List Node
  | [] => []
  | x :: xs => nodes x ++ nodesAll xs

end

/-- The nodes of several expressions are those of each, one after the other. -/
theorem nodesAll_eq_flatMap (xs : List Expr) : nodesAll xs = xs.flatMap nodes := by
  induction xs with
  | nil => rfl
  | cons x xs ih => rw [nodesAll, ih, List.flatMap_cons]

end Expr

/-- The nodes of an entry. -/
def Field.nodes (f : Field) : List Node :=
  .field f :: (f.names.map .name ++ f.type.nodes ++ f.tag.toList.map .tag)

namespace Node

/-- The nodes of a tree, given by its root. -/
def nodes : Node → List Node
  | expr x => x.nodes
  | name n => [name n]
  | tag t => [tag t]
  | field f => f.nodes
  | fields l => fields l :: l.fields.flatMap Field.nodes

/-- The nodes of a tree are its root and the nodes below each child of the root. -/
theorem nodes_eq (n : Node) : n.nodes = n :: n.children.flatMap nodes := by
  have single : ∀ {α : Type} (f : α → Node) (xs : List α), (∀ x, (f x).nodes = [f x]) →
      (xs.map f).flatMap nodes = xs.map f := by
    intro α f xs leaf
    rw [List.flatMap_map, List.map_eq_flatMap]
    exact List.flatMap_congr fun x _ => leaf x
  match n with
  | expr (.bad ..) | expr (.ident _) | expr (.literal _) | name _ | tag _ => rfl
  | expr (.paren _ x _) | expr (.unary _ _ x) => simp [nodes, children, Expr.nodes]
  | expr (.binary x _ _ y) => simp [nodes, children, Expr.nodes]
  | expr (.call f _ xs _) =>
    simp [nodes, children, Expr.nodes, Expr.nodesAll_eq_flatMap, List.flatMap_map]
  | field f =>
    have names := single name f.names fun _ => rfl
    have tags := single tag f.tag.toList fun _ => rfl
    simp [nodes, children, Field.nodes, names, tags]
  | fields l => simp [nodes, children, List.flatMap_map]

/-- The root of a tree is one of its nodes. -/
theorem mem_nodes_self (n : Node) : n ∈ n.nodes := by
  rw [nodes_eq]
  exact List.mem_cons_self

/-- Something holds of all nodes of a tree if it holds of the root and of all nodes below it. -/
theorem forall_nodes {P : Node → Prop} {n : Node} :
    (∀ m ∈ n.nodes, P m) ↔ P n ∧ ∀ c ∈ n.children, ∀ m ∈ c.nodes, P m := by
  rw [nodes_eq, List.forall_mem_cons, List.forall_mem_flatMap]

/-- A node is larger than each of its children. -/
theorem sizeOf_lt_of_mem_children {n c : Node} (child : c ∈ n.children) :
    sizeOf c < sizeOf n := by
  match n with
  | expr (.bad ..) | expr (.ident _) | expr (.literal _) | name _ | tag _ =>
    exact absurd child List.not_mem_nil
  | expr (.paren _ x _) | expr (.unary _ _ x) =>
    obtain rfl := List.mem_singleton.mp child
    simp +arith
  | expr (.binary x _ _ y) =>
    simp only [children, List.mem_cons, List.not_mem_nil, or_false] at child
    rcases child with rfl | rfl <;> simp +arith
  | expr (.call f _ xs _) =>
    rcases List.mem_cons.mp child with rfl | argument
    · simp +arith
    · obtain ⟨x, mem, rfl⟩ := List.mem_map.mp argument
      have smaller := List.sizeOf_lt_of_mem mem
      simp only [expr.sizeOf_spec, Expr.call.sizeOf_spec]
      omega
  | field ⟨names, type, label⟩ =>
    simp only [children, List.mem_append, List.mem_cons, List.mem_map] at child
    rcases child with ⟨i, mem, rfl⟩ | rfl | ⟨t, mem, rfl⟩
    · have smaller := List.sizeOf_lt_of_mem mem
      simp only [name.sizeOf_spec, field.sizeOf_spec, Field.mk.sizeOf_spec]
      omega
    · simp +arith
    · obtain rfl := Option.mem_toList.mp mem
      simp +arith
  | fields ⟨opening, entries, closing⟩ =>
    obtain ⟨f, mem, rfl⟩ := List.mem_map.mp child
    have smaller : sizeOf f < sizeOf entries := List.sizeOf_lt_of_mem mem
    simp only [field.sizeOf_spec, fields.sizeOf_spec, FieldList.mk.sizeOf_spec]
    omega

/-- **What passes from every node to its children holds of all nodes of a tree** if it holds of the
root. -/
theorem forall_nodes_of_passes {P : Node → Prop} (passes : ∀ n, P n → ∀ c ∈ n.children, P c)
    (root : Node) (holds : P root) : ∀ m ∈ root.nodes, P m := by
  rw [forall_nodes]
  refine ⟨holds, ?_⟩
  intro c child
  exact forall_nodes_of_passes passes c (passes root holds c child)
termination_by sizeOf root
decreasing_by exact sizeOf_lt_of_mem_children child

end Node

/-! ## Nodes in the order of a walk -/

namespace Visitor

variable {σ : Type}

/-- Several expressions are walked one after the other. -/
theorem walkExprs_eq (v : Visitor σ) (xs : List Expr) (state : σ) :
    v.walkExprs xs state = xs.foldl (fun state x => v.walkExpr x state) state := by
  induction xs generalizing state with
  | nil => rfl
  | cons x xs ih =>
    rw [List.foldl_cons, walkExprs]
    exact ih _

/-- **A walk shows a node to the visitor, with walks of its children in between**, one after the
other. -/
theorem walk_eq (v : Visitor σ) (n : Node) (state : σ) :
    v.walk n state =
      v.visit n (fun state => n.children.foldl (fun state c => v.walk c state) state) state := by
  match n with
  | .expr (.bad ..) | .expr (.ident _) | .expr (.literal _) | .name _ | .tag _ => rfl
  | .expr (.paren ..) | .expr (.unary ..) | .expr (.binary ..) =>
    simp [walk, walkExpr, Node.children]
  | .expr (.call ..) =>
    simp [walk, walkExpr, walkExprs_eq, Node.children, List.foldl_map]
  | .field f =>
    rcases label : f.tag with _ | t <;>
      simp [walk, walkField, Node.children, label, List.foldl_map, List.foldl_append]
  | .fields l => simp [walk, Node.children, List.foldl_map]

end Visitor

namespace Node

/-- Collects all nodes of a walk. -/
def collector : Visitor (Array Node) where
  enter n seen := (.children, seen.push n)

/-- The collector keeps a node and goes below it. -/
@[simp] theorem visit_collector (n : Node) (below : Array Node → Array Node) (seen : Array Node) :
    collector.visit n below seen = below (seen.push n) := rfl

/-- A walk of the collector adds all nodes of a tree to those that were collected before. -/
theorem walk_collector (root : Node) (seen : Array Node) :
    (collector.walk root seen).toList = seen.toList ++ root.nodes := by
  have row : ∀ (cs : List Node), (∀ c ∈ cs, c ∈ root.children) → ∀ seen : Array Node,
      (cs.foldl (fun seen c => collector.walk c seen) seen).toList =
        seen.toList ++ cs.flatMap nodes := by
    intro cs among
    induction cs with
    | nil => simp
    | cons c cs ih =>
      intro seen
      obtain ⟨child, among⟩ := List.forall_mem_cons.mp among
      rw [List.foldl_cons, ih among, walk_collector c seen, List.flatMap_cons, List.append_assoc]
  rw [Visitor.walk_eq, visit_collector, row _ (fun _ child => child), nodes_eq, Array.toList_push,
    List.append_assoc, List.singleton_append]
termination_by sizeOf root
decreasing_by exact sizeOf_lt_of_mem_children child

/-- **The nodes of a tree are those that a walk shows**, in the order of the walk. -/
theorem inspected_all (root : Node) : root.inspected (fun _ => true) = root.nodes := by
  show (collector.walk root #[]).toList = root.nodes
  rw [walk_collector, List.nil_append]

/-! ## Marks of nodes -/

/-- The marks of a node and of all that is below it. -/
def marks : Node → List Part
  | expr x => x.marks
  | name n => [⟨.name, n.pos, .ident, n.name⟩]
  | tag t => [⟨.value, t.pos, t.kind, t.value⟩]
  | field f => f.marks
  | fields l => l.marks

/-- The marks of a child are marks of its parent. -/
theorem marks_subset_of_mem_children {n c : Node} (child : c ∈ n.children) :
    c.marks ⊆ n.marks := by
  match n with
  | expr (.bad ..) | expr (.ident _) | expr (.literal _) | name _ | tag _ =>
    exact absurd child List.not_mem_nil
  | expr (.paren _ x _) | expr (.unary _ _ x) =>
    obtain rfl := List.mem_singleton.mp child
    intro m mem
    simp [marks, Expr.marks, show m ∈ x.marks from mem]
  | expr (.binary x _ _ y) =>
    simp only [children, List.mem_cons, List.not_mem_nil, or_false] at child
    rcases child with rfl | rfl <;> intro m mem <;> simp_all [marks, Expr.marks]
  | expr (.call f _ xs _) =>
    intro m mem
    rw [marks, Expr.marks, Expr.marksAll_eq_flatMap]
    rcases List.mem_cons.mp child with rfl | argument
    · exact List.mem_append_left _ mem
    · obtain ⟨x, among, rfl⟩ := List.mem_map.mp argument
      have inside : m ∈ xs.flatMap Expr.marks := List.mem_flatMap.mpr ⟨x, among, mem⟩
      simp [inside]
  | field f =>
    intro m mem
    rw [marks, Field.marks]
    simp only [children, List.mem_append, List.mem_cons, List.mem_map] at child
    rcases child with ⟨i, among, rfl⟩ | rfl | ⟨t, among, rfl⟩
    · obtain rfl := List.mem_singleton.mp mem
      exact List.mem_append_left _ (List.mem_append_left _ (List.mem_map_of_mem among))
    · exact List.mem_append_left _ (List.mem_append_right _ mem)
    · obtain rfl := List.mem_singleton.mp mem
      exact List.mem_append_right _ (List.mem_map_of_mem among)
  | fields l =>
    obtain ⟨f, among, rfl⟩ := List.mem_map.mp child
    intro m mem
    rw [marks, FieldList.marks]
    have inside : m ∈ l.fields.flatMap Field.marks := List.mem_flatMap.mpr ⟨f, among, mem⟩
    simp [inside]

/-- The marks of a node are marks of its tree. -/
theorem marks_subset_of_mem_nodes {root n : Node} (mem : n ∈ root.nodes) :
    n.marks ⊆ root.marks := by
  refine forall_nodes_of_passes (P := fun n => n.marks ⊆ root.marks) ?_ root
    (List.Subset.refl _) n mem
  intro n within c child
  exact List.Subset.trans (marks_subset_of_mem_children child) within

end Node

end SheetFormula

import SheetFormula.Tree.Node

/-!
# Walking a tree

A walk enters a node, walks its children in the order of the source, and leaves the node. A visitor
sees both events, carries a state from one to the next, and may decline to go below a node, which
is then not left either. `inspect` and `outline` are walks with visitors of their own.
-/

namespace SheetFormula

/-- What a visitor wants done with a node that it has entered. -/
inductive Descent
  /-- Walk the children, then leave the node. -/
  | children
  /-- Go on behind the node. -/
  | skip
  deriving DecidableEq, Repr

/-- Someone who is shown the nodes of a walk. -/
structure Visitor (σ : Type) where
  enter : Node → σ → Descent × σ
  leave : Node → σ → σ := fun _ state => state

namespace Visitor

variable {σ : Type}

/-- Shows a node to the visitor, with a walk over its children in between. -/
def visit (v : Visitor σ) (node : Node) (below : σ → σ) (state : σ) : σ :=
  match v.enter node state with
  | (.skip, state) => state
  | (.children, state) => v.leave node (below state)

mutual

/-- Walks an expression. -/
def walkExpr (v : Visitor σ) : Expr → σ → σ
  | .bad a b => v.visit (.expr (.bad a b)) id
  | .ident n => v.visit (.expr (.ident n)) id
  | .literal l => v.visit (.expr (.literal l)) id
  | .paren a x b => v.visit (.expr (.paren a x b)) (v.walkExpr x)
  | .call f a xs b =>
    v.visit (.expr (.call f a xs b)) fun state => v.walkExprs xs (v.walkExpr f state)
  | .unary p o x => v.visit (.expr (.unary p o x)) (v.walkExpr x)
  | .binary x p o y =>
    v.visit (.expr (.binary x p o y)) fun state => v.walkExpr y (v.walkExpr x state)

/-- Walks the arguments of a call. -/
def walkExprs (v : Visitor σ) : List Expr → σ → σ
  | [] => id
  | x :: xs => fun state => v.walkExprs xs (v.walkExpr x state)

end

/-- Walks an entry: its names, its type, its tag. -/
def walkField (v : Visitor σ) (f : Field) : σ → σ :=
  v.visit (.field f) fun state =>
    let state := f.names.foldl (fun state n => v.visit (.name n) id state) state
    let state := v.walkExpr f.type state
    f.tag.elim state fun t => v.visit (.tag t) id state

/-- Walks a node and what is below it. -/
def walk (v : Visitor σ) : Node → σ → σ
  | .expr x => v.walkExpr x
  | .name n => v.visit (.name n) id
  | .tag t => v.visit (.tag t) id
  | .field f => v.walkField f
  | .fields l => v.visit (.fields l) fun state => l.fields.foldl (fun s f => v.walkField f s) state

end Visitor

/-! ## Walks with visitors of their own -/

/-- An event of a walk. -/
inductive WalkEvent
  | enter (node : Node)
  | leave (node : Node)
  deriving DecidableEq, Repr

namespace Node

/-- Records the events of a walk that goes below a node exactly if `goesBelow` holds of it. -/
def recorder (goesBelow : Node → Bool) : Visitor (Array WalkEvent) where
  enter node seen := (if goesBelow node then .children else .skip, seen.push (.enter node))
  leave node seen := seen.push (.leave node)

/-- The events of a walk that goes below a node exactly if `goesBelow` holds of it. -/
def events (goesBelow : Node → Bool) (root : Node) : List WalkEvent :=
  ((recorder goesBelow).walk root #[]).toList

/-- Shows every node of a walk to a function with a state; where the function answers `false` the
walk does not go below the node. -/
def inspect {σ : Type} (f : Node → σ → Bool × σ) (root : Node) (state : σ) : σ :=
  let visitor : Visitor σ :=
    { enter := fun node state =>
        let (goesBelow, state) := f node state
        (if goesBelow then .children else .skip, state) }
  visitor.walk root state

/-- The nodes that an inspection with a plain condition shows, in order. -/
def inspected (goesBelow : Node → Bool) (root : Node) : List Node :=
  (root.inspect (fun node seen => (goesBelow node, seen.push node)) #[]).toList

/-- Keeps the depth of a walk, and all nodes that it entered with the depth at which they lie. -/
def outliner : Visitor (Nat × Array (Nat × Node)) where
  enter node := fun (depth, rows) => (.children, depth + 1, rows.push (depth, node))
  leave _ := fun (depth, rows) => (depth - 1, rows)

/-- All nodes of a tree in the order of a walk, each with its depth below the root. -/
def outline (root : Node) : List (Nat × Node) :=
  (outliner.walk root (0, #[])).2.toList

end Node

end SheetFormula

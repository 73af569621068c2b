import SheetFormula.Position
import SheetFormula.Token

/-!
# Syntax trees

The tree of a formula, and the list of parameters, which is parsed apart. Nodes store only the
positions that cannot be computed from their parts; the extents of whole nodes are computed in
`SheetFormula.Tree.Extent`. Where an operand is missing the tree has a `bad` node in its place.
-/

namespace SheetFormula

/-- A name where it stands. -/
structure Ident where
  pos : Pos
  name : String
  deriving DecidableEq, Repr, Inhabited

/-- A value literal where it stands, with its text as written. -/
structure Literal where
  pos : Pos
  kind : Token
  value : String
  deriving DecidableEq, Repr, Inhabited

/-- Expressions. -/
inductive Expr
  /-- A place where an operand is missing. -/
  | bad (start stop : Pos)
  | ident (name : Ident)
  | literal (literal : Literal)
  | paren (opening : Pos) (inner : Expr) (closing : Pos)
  | call (function : Expr) (opening : Pos) (arguments : List Expr) (closing : Pos)
  | unary (opPos : Pos) (op : Token) (operand : Expr)
  | binary (left : Expr) (opPos : Pos) (op : Token) (right : Expr)
  deriving Repr, Inhabited

namespace Expr

/-! ## Equality -/

mutual

/-- Compares two expressions part by part. -/
def same : Expr → Expr → Bool
  | bad p q, bad p' q' => p = p' && q = q'
  | ident n, ident n' => n = n'
  | literal l, literal l' => l = l'
  | paren p x q, paren p' x' q' => p = p' && same x x' && q = q'
  | call f p xs q, call f' p' xs' q' => same f f' && p = p' && sameList xs xs' && q = q'
  | unary p o x, unary p' o' x' => p = p' && o = o' && same x x'
  | binary x p o y, binary x' p' o' y' => same x x' && p = p' && o = o' && same y y'
  | _, _ => false

/-- Compares two argument lists entry by entry. -/
def sameList : List Expr → List Expr → Bool
  | [], [] => true
  | x :: xs, y :: ys => same x y && sameList xs ys
  | _, _ => false

end

mutual

theorem same_iff : (x y : Expr) → (same x y = true ↔ x = y)
  | bad .., y => by cases y <;> simp [same]
  | ident _, y => by cases y <;> simp [same]
  | literal _, y => by cases y <;> simp [same]
  | paren _ x _, y => by cases y <;> simp [same, same_iff x, and_assoc]
  | call f _ xs _, y => by cases y <;> simp [same, same_iff f, sameList_iff xs, and_assoc]
  | unary _ _ x, y => by cases y <;> simp [same, same_iff x, and_assoc]
  | binary x _ _ z, y => by cases y <;> simp [same, same_iff x, same_iff z, and_assoc]

theorem sameList_iff : (xs ys : List Expr) → (sameList xs ys = true ↔ xs = ys)
  | [], ys => by cases ys <;> simp [sameList]
  | x :: xs, ys => by cases ys <;> simp [sameList, same_iff x, sameList_iff xs]

end

instance : DecidableEq Expr := fun x y => decidable_of_iff _ (same_iff x y)

/-! ## Views -/

/-- Whether the expression as a whole is missing. -/
def isBad : Expr → Bool
  | bad .. => true
  | _ => false

/-- The expression inside any number of parentheses. -/
def unparen : Expr → Expr
  | paren _ inner _ => inner.unparen
  | x => x

/-- Whether the expression is a literal, inside any number of parentheses, of a kind that is not one
of values. -/
def isValueless (x : Expr) : Bool :=
  match x.unparen with
  | literal l => !l.kind.isValue
  | _ => false

end Expr

/-- An entry of a parameter list: names, if any, a type expression and an optional tag. -/
structure Field where
  names : List Ident
  type : Expr
  tag : Option Literal
  deriving DecidableEq, Repr, Inhabited

/-- A list of entries between parentheses. -/
structure FieldList where
  opening : Pos
  fields : List Field
  closing : Pos
  deriving DecidableEq, Repr, Inhabited

namespace FieldList

/-- A list without parentheses and entries. -/
def empty : FieldList := ⟨.none, [], .none⟩

/-- The number of parameters: each name counts, and an entry without names counts once. -/
def parameterCount (list : FieldList) : Nat :=
  list.fields.foldl (fun count f => count + max f.names.length 1) 0

end FieldList

end SheetFormula

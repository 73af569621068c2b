import SheetFormula.Tree.Extent

/-!
# Nodes

Any node of any tree: an expression, an entry, a list, or one of the names and tags of an entry. A
node has a kind, an extent, children in the order of the source, and labels, which are the words by
which a reader would look for it.
-/

namespace SheetFormula

/-- A node of a tree, with all that is below it. -/
inductive Node
  | expr (x : Expr)
  /-- A name that an entry declares. -/
  | name (n : Ident)
  /-- The tag of an entry. -/
  | tag (t : Literal)
  | field (f : Field)
  | fields (l : FieldList)
  deriving DecidableEq, Repr

namespace Node

instance : HasExtent Node where
  start
    | expr x => start x
    | name n => start n
    | tag t => start t
    | field f => start f
    | fields l => start l
  stop
    | expr x => stop x
    | name n => stop n
    | tag t => stop t
    | field f => stop f
    | fields l => stop l

/-- The children of a node, in the order of the source. -/
def children : Node → List Node
  | expr (.paren _ inner _) => [expr inner]
  | expr (.call function _ arguments _) => expr function :: arguments.map expr
  | expr (.unary _ _ operand) => [expr operand]
  | expr (.binary left _ _ right) => [expr left, expr right]
  | expr _ => []
  | name _ => []
  | tag _ => []
  | field f => f.names.map name ++ expr f.type :: f.tag.toList.map tag
  | fields l => l.fields.map field

/-- What sort of node it is. -/
def kind : Node → String
  | expr (.bad ..) => "Bad"
  | expr (.ident _) => "Ident"
  | expr (.literal _) => "BasicLit"
  | expr (.paren ..) => "Paren"
  | expr (.call ..) => "Call"
  | expr (.unary ..) => "Unary"
  | expr (.binary ..) => "Binary"
  | name _ => "Name"
  | tag _ => "Tag"
  | field _ => "Field"
  | fields _ => "FieldList"

/-- The words that a node goes by: its kind, and the name, the text or the operator that it holds.
-/
def labels (n : Node) : List String :=
  n.kind :: match n with
    | expr (.ident i) | name i => [i.name]
    | expr (.literal l) | tag l => [l.kind.spelling, l.value]
    | expr (.unary _ op _) | expr (.binary _ _ op _) => [op.spelling]
    | _ => []

end Node

end SheetFormula

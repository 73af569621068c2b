import SheetFormula.Exchange.Plain
import SheetFormula.Tree

/-!
# Exchange form of trees

An expression is an object with a single member, whose key says which sort of expression it is and
whose value is the record of its parts. Entries and lists are plain records; the tag of an entry may
be absent or null.
-/

namespace SheetFormula

/-! ## Writing -/

/-- A name as a value. -/
def Ident.toJson (n : Ident) : Json :=
  .object [("name_pos", n.pos.toJson), ("name", .text n.name)]

/-- A literal as a value. -/
def Literal.toJson (l : Literal) : Json :=
  .object [("value_pos", l.pos.toJson), ("kind", l.kind.toJson), ("value", .text l.value)]

mutual

/-- An expression as a value. -/
def Expr.toJson : Expr → Json
  | .bad start stop => .object [("Bad", .object [("from", start.toJson), ("to", stop.toJson)])]
  | .ident n => .object [("Ident", n.toJson)]
  | .literal l => .object [("BasicLit", l.toJson)]
  | .paren opening inner closing =>
    .object [("Paren", .object
      [("lparen", opening.toJson), ("x", inner.toJson), ("rparen", closing.toJson)])]
  | .call function opening arguments closing =>
    .object [("Call", .object
      [("fun", function.toJson), ("lparen", opening.toJson),
       ("args", .list (Expr.listToJson arguments)), ("rparen", closing.toJson)])]
  | .unary opPos op operand =>
    .object [("Unary", .object
      [("op_pos", opPos.toJson), ("op", op.toJson), ("x", operand.toJson)])]
  | .binary left opPos op right =>
    .object [("Binary", .object
      [("x", left.toJson), ("op_pos", opPos.toJson), ("op", op.toJson), ("y", right.toJson)])]

/-- The expressions of a list as values. -/
def Expr.listToJson : List Expr → List Json
  | [] => []
  | x :: xs => x.toJson :: Expr.listToJson xs

end

/-- An entry as a value; where there is no tag the value says so. -/
def Field.toJson (f : Field) : Json :=
  .object [("names", .list (f.names.map Ident.toJson)), ("ty", f.type.toJson),
    ("tag", f.tag.elim .null Literal.toJson)]

/-- A list of entries as a value. -/
def FieldList.toJson (l : FieldList) : Json :=
  .object [("opening", l.opening.toJson), ("list", .list (l.fields.map Field.toJson)),
    ("closing", l.closing.toJson)]

/-! ## Reading -/

/-- The name that a value is. -/
def Ident.ofJson? (value : Json) : Option Ident :=
  match value.record? ["name_pos", "name"] with
  | some [some ⟨pos, _⟩, some ⟨name, _⟩] => return ⟨← Pos.ofJson? pos, ← name.text?⟩
  | _ => none

/-- The literal that a value is. -/
def Literal.ofJson? (value : Json) : Option Literal :=
  match value.record? ["value_pos", "kind", "value"] with
  | some [some ⟨pos, _⟩, some ⟨kind, _⟩, some ⟨text, _⟩] =>
    return ⟨← Pos.ofJson? pos, ← Token.ofJson? kind, ← text.text?⟩
  | _ => none

mutual

/-- The expression that a value is. -/
def Expr.ofJson? : Json → Option Expr
  | .object [("Bad", content)] =>
    match content.record? ["from", "to"] with
    | some [some ⟨start, _⟩, some ⟨stop, _⟩] =>
      return .bad (← Pos.ofJson? start) (← Pos.ofJson? stop)
    | _ => none
  | .object [("Ident", content)] => (Ident.ofJson? content).map .ident
  | .object [("BasicLit", content)] => (Literal.ofJson? content).map .literal
  | .object [("Paren", content)] =>
    match content.record? ["lparen", "x", "rparen"] with
    | some [some ⟨opening, _⟩, some ⟨inner, _⟩, some ⟨closing, _⟩] =>
      return .paren (← Pos.ofJson? opening) (← Expr.ofJson? inner) (← Pos.ofJson? closing)
    | _ => none
  | .object [("Call", content)] =>
    match content.record? ["fun", "lparen", "args", "rparen"] with
    | some [some ⟨function, _⟩, some ⟨opening, _⟩, some ⟨.list arguments, _⟩,
        some ⟨closing, _⟩] =>
      return .call (← Expr.ofJson? function) (← Pos.ofJson? opening)
        (← Expr.listOfJson? arguments) (← Pos.ofJson? closing)
    | _ => none
  | .object [("Unary", content)] =>
    match content.record? ["op_pos", "op", "x"] with
    | some [some ⟨opPos, _⟩, some ⟨op, _⟩, some ⟨operand, _⟩] =>
      return .unary (← Pos.ofJson? opPos) (← Token.ofJson? op) (← Expr.ofJson? operand)
    | _ => none
  | .object [("Binary", content)] =>
    match content.record? ["x", "op_pos", "op", "y"] with
    | some [some ⟨left, _⟩, some ⟨opPos, _⟩, some ⟨op, _⟩, some ⟨right, _⟩] =>
      return .binary (← Expr.ofJson? left) (← Pos.ofJson? opPos) (← Token.ofJson? op)
        (← Expr.ofJson? right)
    | _ => none
  | _ => none
termination_by value => sizeOf value
decreasing_by all_goals (simp_all; omega)

/-- The expressions that the items of a list are. -/
def Expr.listOfJson? : List Json → Option (List Expr)
  | [] => some []
  | item :: items => return (← Expr.ofJson? item) :: (← Expr.listOfJson? items)
termination_by items => sizeOf items

end

/-- The entry that a value is; its tag may be absent or null. -/
def Field.ofJson? (value : Json) : Option Field :=
  match value.record? ["names", "ty", "tag"] with
  | some [some ⟨names, _⟩, some ⟨type, _⟩, tag] => do
    let names ← (← names.items?).mapM Ident.ofJson?
    let type ← Expr.ofJson? type
    match tag with
    | none | some ⟨.null, _⟩ => return ⟨names, type, none⟩
    | some ⟨tag, _⟩ => return ⟨names, type, ← Literal.ofJson? tag⟩
  | _ => none

/-- The list of entries that a value is. -/
def FieldList.ofJson? (value : Json) : Option FieldList :=
  match value.record? ["opening", "list", "closing"] with
  | some [some ⟨opening, _⟩, some ⟨fields, _⟩, some ⟨closing, _⟩] => do
    return ⟨← Pos.ofJson? opening, ← (← fields.items?).mapM Field.ofJson?,
      ← Pos.ofJson? closing⟩
  | _ => none

end SheetFormula

import SheetFormula.Tree

/-!
# Extents

Where nodes of a tree start and where they stop, as positions. Both come from the positions stored
in the node and from the lengths of texts in bytes: a parenthesis, a call and a list stop behind
their closing mark, a name and a literal behind their text, and an operator reaches as far as its
operands do.
-/

namespace SheetFormula

/-- Things that extend over a part of a source. -/
class HasExtent (α : Type) where
  /-- The position of the first byte. -/
  start : α → Pos
  /-- The position behind the last byte. -/
  stop : α → Pos

export HasExtent (start stop)

/-- The bytes that a node extends over. -/
def span {α : Type} [HasExtent α] (x : α) : Span := .between (start x) (stop x)

namespace Expr

/-- The position of the first byte of an expression. -/
def first : Expr → Pos
  | bad start _ => start
  | ident name => name.pos
  | literal l => l.pos
  | paren opening _ _ => opening
  | call function _ _ _ => function.first
  | unary opPos _ _ => opPos
  | binary left _ _ _ => left.first

/-- The position behind the last byte of an expression. -/
def behind : Expr → Pos
  | bad _ stop => stop
  | ident name => name.pos + name.name.utf8ByteSize
  | literal l => l.pos + l.value.utf8ByteSize
  | paren _ _ closing => closing + 1
  | call _ _ _ closing => closing + 1
  | unary _ _ operand => operand.behind
  | binary _ _ _ right => right.behind

end Expr

instance : HasExtent Expr := ⟨Expr.first, Expr.behind⟩

instance : HasExtent Ident := ⟨(·.pos), fun n => n.pos + n.name.utf8ByteSize⟩

instance : HasExtent Literal := ⟨(·.pos), fun l => l.pos + l.value.utf8ByteSize⟩

/-- An entry starts at its first name, or at its type if it has none, and stops behind its tag, or
behind its type if it has none. -/
instance : HasExtent Field where
  start f := f.names.head?.elim (start f.type) start
  stop f := f.tag.elim (stop f.type) stop

/-- A list reaches from parenthesis to parenthesis; where one is missing it reaches to the first or
the last entry. -/
instance : HasExtent FieldList where
  start l := if l.opening.isValid then l.opening else l.fields.head?.elim .none start
  stop l := if l.closing.isValid then l.closing + 1 else l.fields.getLast?.elim .none stop

end SheetFormula

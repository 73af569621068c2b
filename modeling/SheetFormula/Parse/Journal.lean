import SheetFormula.Lexeme.Stream
import SheetFormula.Parse.Fault

/-!
# The journal and the log of a parse

A parse keeps a journal of what it does: which productions it enters and leaves, which lexemes it
consumes, and which faults it notes. The diagnostics, in the order in which scanner and parser found
them, are read off the journal. Beside it a parse writes a log, with the productions as nested
brackets if tracing is on.
-/

namespace SheetFormula

/-- The productions of the grammar. -/
inductive Rule
  | formula
  | expression
  | binary
  | unary
  | primary
  | operand
  | call
  | parameterList
  | parameters
  deriving DecidableEq, Repr

/-- The name of a production in the log. -/
def Rule.name : Rule → String
  | formula => "Formula"
  | expression => "Expression"
  | binary => "BinaryExpr"
  | unary => "UnaryExpr"
  | primary => "PrimaryExpr"
  | operand => "Operand"
  | call => "Call"
  | parameterList => "ParameterList"
  | parameters => "Parameters"

/-- One entry of a journal. -/
inductive Event
  | enter (rule : Rule)
  | leave (rule : Rule)
  /-- A lexeme is consumed and the next scan comes into view. An operand has moved its text into
  the tree before that, all other lexemes still have theirs. -/
  | consume (lexeme : Lexeme) (asOperand : Bool) (next : Scanned)
  /-- A fault is noted at an offset. -/
  | report (offset : Nat) (fault : SyntaxFault)
  deriving DecidableEq, Repr

namespace Event

/-- The diagnostics that an event adds. -/
def reports : Event → List Diagnostic
  | consume _ _ next => next.reports
  | report offset fault => [⟨offset, fault.message⟩]
  | _ => []

end Event

/-- What a parse has done, in order. -/
abbrev Journal := List Event

namespace Journal

/-- The diagnostics, in the order in which they were found. -/
def reports (journal : Journal) : List Diagnostic := journal.flatMap Event.reports

/-- The lexemes that were consumed, in order. -/
def consumed (journal : Journal) : List Lexeme :=
  journal.filterMap fun
    | .consume lexeme _ _ => some lexeme
    | _ => none

end Journal

/-- The journal of a production of the grammar, around the journal of what it reads. -/
def Rule.around (rule : Rule) (inner : Journal) : Journal :=
  .enter rule :: (inner ++ [.leave rule])

/-! ## The log

The log is written while a parse goes on. Its records of productions and of consumed lexemes stand
behind two dots for each production that is open.
-/

/-- How a parse keeps its log: whether productions and consumed lexemes are shown, and how many
productions are open. -/
structure Tracing where
  shown : Bool := false
  depth : Nat := 0
  deriving DecidableEq, Repr

namespace Tracing

/-- One production more is open. -/
def deeper (tracing : Tracing) : Tracing := { tracing with depth := tracing.depth + 1 }

/-- One production less is open. -/
def shallower (tracing : Tracing) : Tracing := { tracing with depth := tracing.depth - 1 }

@[simp] theorem shallower_deeper (tracing : Tracing) : tracing.deeper.shallower = tracing := rfl

/-- A record of the parser, if there is to be one. -/
def record (tracing : Tracing) (text : String) : List Log.Record :=
  if tracing.shown then
    [⟨.trace, Log.parserTarget, String.ofList (List.replicate (2 * tracing.depth) '.') ++ text⟩]
  else []

/-- How the log shows a consumed lexeme: kinds of the literal band with the text they still have,
operators and punctuation in quotes, the others by their spelling alone. -/
def lexemeText (l : Lexeme) (asOperand : Bool) : String :=
  if l.token.isLiteral then s!"{l.token} " ++ if asOperand then "" else l.literal
  else if l.token.isOperator then s!"\"{l.token}\""
  else l.token.spelling

end Tracing

end SheetFormula

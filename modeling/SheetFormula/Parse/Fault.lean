import SheetFormula.Token

/-!
# Syntactic faults

What can be wrong with the order of tokens in a formula. Each cause has one wording. A fault by
which something else was needed tells what was found instead, but only if it is noted at the lexeme
that the parser was looking at: of other places the parser no longer knows what stands there.
-/

namespace SheetFormula

/-- The greatest number of parentheses, calls and prefix operators around an operand. -/
def nestingLimit : Nat := 64

/-- The greatest number of characters in a source. -/
def lengthLimit : Nat := 8192

/-- What the parser would have needed. -/
inductive Expectation
  | token (t : Token)
  | operand
  | expression
  | endOfFormula
  deriving DecidableEq, Repr

/-- How a message names what was needed. -/
def Expectation.text : Expectation → String
  | token t => s!"'{t}'"
  | operand => "operand"
  | expression => "expression"
  | endOfFormula => "end of formula"

/-- A problem that the parser can find. -/
inductive SyntaxFault
  /-- Something else was needed than what stands there, which is told if it is known. -/
  | expected (what : Expectation) (found : Option String)
  /-- An argument follows an argument. -/
  | missingComma
  /-- An argument list breaks off at the end of a line. -/
  | missingCommaBeforeNewline
  | nestingExceeded
  deriving DecidableEq, Repr

namespace SyntaxFault

/-- The wording of a fault. -/
def message : SyntaxFault → String
  | expected what found => s!"expected {what.text}" ++ found.elim "" fun text => s!", found {text}"
  | missingComma => "missing ',' in argument list"
  | missingCommaBeforeNewline => "missing ',' before newline in argument list"
  | nestingExceeded => s!"expression nesting exceeds {nestingLimit} levels"

end SyntaxFault

/-- The wording for a source that is too long. -/
def lengthMessage (characters : Nat) : String :=
  s!"formula exceeds the {lengthLimit}-character limit (got {characters})"

end SheetFormula

/-!
# Log records

What the scanner, the parser and a session have to say about their own work. A record has a level,
a target that names the part of the program that speaks, and a message.
-/

namespace SheetFormula.Log

/-- The weight of a record, heaviest first. -/
inductive Level
  | error
  | warn
  | info
  | debug
  | trace
  deriving DecidableEq, Repr

namespace Level

/-- The place in the order of weights. -/
def rank : Level → Nat
  | error => 1
  | warn => 2
  | info => 3
  | debug => 4
  | trace => 5

/-- The level as a line of the log shows it. -/
def text : Level → String
  | error => "ERROR"
  | warn => "WARN"
  | info => "INFO"
  | debug => "DEBUG"
  | trace => "TRACE"

end Level

/-- One record of the log. -/
structure Record where
  level : Level
  target : String
  message : String
  deriving DecidableEq, Repr

/-- The level, the target and the message on one line. -/
def Record.line (r : Record) : String :=
  s!"{r.level.text} {r.target}: {r.message}"

/-- What the targets of the scanner's and the parser's records begin with. -/
def libraryTarget : String := "formula_syntax"

/-- The target of the scanner's records. -/
def scannerTarget : String := "formula_syntax::scanner"

/-- The target of the parser's records. -/
def parserTarget : String := "formula_syntax::parser"

/-- The target of a session's records. -/
def sessionTarget : String := "formula_calc"

end SheetFormula.Log

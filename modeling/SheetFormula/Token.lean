/-!
# Token kinds

The catalog of token kinds in three bands, in this order: literal kinds, whose text the scanner
keeps, operators, and punctuation. `illegal` and `endOfFormula` precede the bands. Each kind has a
number (its place in the catalog), a spelling for messages and a key for the exchange form, and
the binary operators have a precedence. Some kinds are reserved: no source scans to them.
-/

namespace SheetFormula

/-- The kinds of tokens, in catalog order. -/
inductive Token
  | illegal
  | endOfFormula
  -- Literal kinds.
  | ident
  /-- The equals sign that leads a formula: the first character of its line. -/
  | lead
  | boolean
  | cell
  | error
  | errorReference
  | function
  | range
  | reference
  | sheet
  | integer
  | float
  | imaginary
  | string
  -- Operators.
  | plus
  | minus
  | times
  | divide
  | power
  | and
  | or
  | equal
  | less
  | greater
  | notEqual
  | lessEqual
  | greaterEqual
  -- Punctuation.
  | openParen
  | openBracket
  | openBrace
  | comma
  | period
  | closeParen
  | closeBracket
  | closeBrace
  | semicolon
  | colon
  deriving DecidableEq, Repr, Inhabited

namespace Token

/-- Every kind, in catalog order. -/
def catalog : List Token :=
  [illegal, endOfFormula,
   ident, lead, boolean, cell, error, errorReference, function, range, reference, sheet,
   integer, float, imaginary, string,
   plus, minus, times, divide, power, and, or, equal, less, greater, notEqual, lessEqual,
   greaterEqual,
   openParen, openBracket, openBrace, comma, period, closeParen, closeBracket, closeBrace,
   semicolon, colon]

/-- The kind with a given catalog number. -/
def ofNumber? (number : Nat) : Option Token :=
  catalog[number]?

/-- The catalog number of a kind. -/
def number (t : Token) : Nat := t.ctorIdx

/-- The catalog and the numbers agree. -/
theorem ofNumber?_number (t : Token) : ofNumber? t.number = some t := by
  cases t <;> rfl

/-- How messages and answers spell a kind: operators and punctuation as in a source, all others by
an upper case name. -/
def spelling : Token → String
  | illegal => "ILLEGAL"
  | endOfFormula => "EOF"
  | ident => "IDENT"
  | lead => "FRML"
  | boolean => "BOOL"
  | cell => "CELL"
  | error => "ERR"
  | errorReference => "ERREF"
  | function => "FUNC"
  | range => "RNG"
  | reference => "REF"
  | sheet => "SHEET"
  | integer => "INT"
  | float => "FLOAT"
  | imaginary => "IMAG"
  | string => "STRING"
  | plus => "+"
  | minus => "-"
  | times => "*"
  | divide => "/"
  | power => "^"
  | and => "AND"
  | or => "OR"
  | equal => "="
  | less => "<"
  | greater => ">"
  | notEqual => "<>"
  | lessEqual => "<="
  | greaterEqual => ">="
  | openParen => "("
  | openBracket => "["
  | openBrace => "\x7b"
  | comma => ","
  | period => "."
  | closeParen => ")"
  | closeBracket => "]"
  | closeBrace => "\x7d"
  | semicolon => ";"
  | colon => ":"

instance : ToString Token := ⟨spelling⟩

/-- The name of a kind in the exchange form. -/
def key : Token → String
  | illegal => "Illegal"
  | endOfFormula => "Eof"
  | ident => "Ident"
  | lead => "Frml"
  | boolean => "Bool"
  | cell => "Cell"
  | error => "Err"
  | errorReference => "ErrRef"
  | function => "Func"
  | range => "Rng"
  | reference => "Ref"
  | sheet => "Sheet"
  | integer => "Int"
  | float => "Float"
  | imaginary => "Imag"
  | string => "String"
  | plus => "Add"
  | minus => "Sub"
  | times => "Mul"
  | divide => "Quo"
  | power => "Exp"
  | and => "Land"
  | or => "Lor"
  | equal => "Eql"
  | less => "Lss"
  | greater => "Gtr"
  | notEqual => "Not"
  | lessEqual => "Leq"
  | greaterEqual => "Geq"
  | openParen => "LParen"
  | openBracket => "LBrack"
  | openBrace => "LBrace"
  | comma => "Comma"
  | period => "Period"
  | closeParen => "RParen"
  | closeBracket => "RBrack"
  | closeBrace => "RBrace"
  | semicolon => "Semicolon"
  | colon => "Colon"

/-- The kind with a given key. -/
def ofKey? (key : String) : Option Token :=
  catalog.find? (·.key == key)

/-- No two kinds share a key. -/
theorem ofKey?_key (t : Token) : ofKey? t.key = some t := by
  cases t <;> decide +kernel

/-- The name of whatever stands at a catalog number; numbers outside the catalog have one too. -/
def nameOf (number : Nat) : String :=
  match ofNumber? number with
  | some t => t.spelling
  | none => s!"token({number})"

/-- The name at the catalog number of a kind is how messages spell it. -/
theorem nameOf_number (t : Token) : nameOf t.number = t.spelling := by
  rw [nameOf, ofNumber?_number]

/-- The operator or punctuation mark that a single character is. The equals sign and the
comparisons are left out: they depend on where they stand or on what follows. -/
def ofChar : Char → Token
  | '+' => plus
  | '-' => minus
  | '*' => times
  | '/' => divide
  | '^' => power
  | '(' => openParen
  | '[' => openBracket
  | '\x7b' => openBrace
  | ',' => comma
  | '.' => period
  | ')' => closeParen
  | ']' => closeBracket
  | '\x7d' => closeBrace
  | ';' => semicolon
  | ':' => colon
  | _ => illegal

/-- The precedence of whatever is no binary operator. -/
def lowestPrecedence : Nat := 0

/-- The binding power of operators in front of their operand. -/
def unaryPrecedence : Nat := 6

/-- A precedence above all others. -/
def highestPrecedence : Nat := 7

/-- How tightly a binary operator binds. -/
def precedence : Token → Nat
  | or => 1
  | and => 2
  | equal | less | lessEqual | greater | greaterEqual | notEqual => 3
  | plus | minus => 4
  | times | divide => 5
  | _ => lowestPrecedence

/-- Whether a kind lies in the band of literals. -/
def isLiteral (t : Token) : Bool :=
  ident.number ≤ t.number && t.number ≤ string.number

/-- Whether a kind lies in the bands of operators and punctuation. -/
def isOperator (t : Token) : Bool :=
  plus.number ≤ t.number && t.number ≤ colon.number

/-- Whether a token of this kind can stand for a value in a formula. -/
def isValue : Token → Bool
  | integer | float | imaginary | string | reference | range => true
  | _ => false

/-- Whether an operator may stand in front of its operand. -/
def isPrefixOperator : Token → Bool
  | plus | minus | notEqual | times => true
  | _ => false

/-- Whether a lexeme of this kind keeps its text. -/
def keepsText : Token → Bool
  | illegal | ident => true
  | t => t.isValue

/-- No binary operator binds as tightly as an operator in front of its operand. -/
theorem precedence_lt_unary (t : Token) : t.precedence < unaryPrecedence := by
  cases t <;> decide

/-- What binds as tightly as a binary operator is not the end. -/
theorem ne_end_of_binds {least : Nat} (binary : 0 < least) {t : Token}
    (binds : least ≤ t.precedence) : t ≠ .endOfFormula := by
  rintro rfl
  exact absurd binds (Nat.not_le_of_lt binary)

/-- The end is no prefix operator. -/
theorem ne_end_of_isPrefixOperator {t : Token} (operator : t.isPrefixOperator) :
    t ≠ .endOfFormula := by
  rintro rfl
  cases operator

/-- The end is no value. -/
theorem ne_end_of_isValue {t : Token} (value : t.isValue) : t ≠ .endOfFormula := by
  rintro rfl
  cases value

end Token

end SheetFormula

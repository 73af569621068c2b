import SheetFormula.Lexeme.Radix
import SheetFormula.Text.Quoted
import SheetFormula.Text.Symbol
import SheetFormula.Token

/-!
# Recognitions

What the characters in front of a scanner make is decided by looking at them, without moving. The
outcome says which token it is and how to move over it: in legs, each a number of symbols to pass
and the faults to note once they are passed. Most tokens take a single leg; a number takes several,
because its faults are noted as its parts are passed. What can be wrong with the characters of a
formula is a fault; each cause has one wording.
-/

namespace SheetFormula

/-! ## Faults -/

/-- A problem that the scanner can find. -/
inductive LexicalFault
  | nul
  | malformedBytes
  | illegalCharacter (c : Char)
  | radixPoint (radix : Radix)
  | noDigits (radix : Radix)
  /-- An exponent with the given marker behind digits that are not decimal. -/
  | exponentOfNonDecimal (marker : Char)
  /-- An exponent with the given marker behind digits that are not hexadecimal. -/
  | exponentOfNonHexadecimal (marker : Char)
  | noExponentDigits
  | hexadecimalWithoutExponent
  | invalidDigit (digit : Char) (radix : Radix)
  | misplacedSeparator
  | unterminatedString
  deriving DecidableEq, Repr

namespace LexicalFault

open Text in
/-- The wording of a fault. -/
def message : LexicalFault → String
  | nul => "illegal character NUL"
  | malformedBytes => "illegal UTF-8 encoding"
  | illegalCharacter c =>
    s!"illegal character U+{String.ofList (hexDigits4 c.toNat)} {quotedChar c}"
  | radixPoint radix => s!"invalid radix point in {radix.literalName}"
  | noDigits radix => s!"{radix.literalName} has no digits"
  | exponentOfNonDecimal marker => s!"{quotedChar marker} exponent requires decimal mantissa"
  | exponentOfNonHexadecimal marker =>
    s!"{quotedChar marker} exponent requires hexadecimal mantissa"
  | noExponentDigits => "exponent has no digits"
  | hexadecimalWithoutExponent => "hexadecimal mantissa requires a 'p' exponent"
  | invalidDigit digit radix => s!"invalid digit {quotedChar digit} in {radix.literalName}"
  | misplacedSeparator => "'_' must separate successive digits"
  | unterminatedString => "string literal not terminated"

end LexicalFault

/-! ## Legs -/

/-- A stretch of a token, with the faults to note behind it. -/
structure Leg where
  /-- The number of symbols in the stretch. -/
  count : Nat
  /-- The faults, with their distance in bytes from the start of the token. -/
  faults : List (Nat × LexicalFault) := []
  deriving DecidableEq, Repr

/-- The number of symbols in all of several stretches. -/
def Leg.total : List Leg → Nat
  | [] => 0
  | leg :: legs => leg.count + total legs

/-- A token, and the stretches that it is made of. -/
structure Recognition where
  token : Token
  legs : List Leg
  deriving DecidableEq, Repr

namespace Recognition

/-- The number of symbols that the token takes. -/
def count (r : Recognition) : Nat := Leg.total r.legs

/-- A token of so many symbols without any fault. -/
def plain (token : Token) (count : Nat) : Recognition := ⟨token, [⟨count, []⟩]⟩

@[simp] theorem count_plain (token : Token) (n : Nat) : (plain token n).count = n := by
  simp [plain, count, Leg.total]

end Recognition

/-- The characters of the longest run of symbols in front whose characters are in a class. -/
def runOf (inClass : Char → Bool) (rest : List Text.Symbol) : List Char :=
  (rest.takeWhile fun s => inClass s.toChar).map Text.Symbol.toChar

/-- The character in front, if there is one. -/
def frontChar? (rest : List Text.Symbol) : Option Char :=
  rest.head?.map Text.Symbol.toChar

@[simp] theorem frontChar?_cons (s : Text.Symbol) (rest : List Text.Symbol) :
    frontChar? (s :: rest) = some s.toChar := rfl

/-- A run is not empty if the symbol in front belongs to it. -/
theorem runOf_length_pos {inClass : Char → Bool} {s : Text.Symbol} {rest : List Text.Symbol}
    (h : inClass s.toChar = true) : 0 < (runOf inClass (s :: rest)).length := by
  simp [runOf, h]

end SheetFormula

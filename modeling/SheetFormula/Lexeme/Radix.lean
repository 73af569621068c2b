/-!
# Radixes and digit separators

How the first characters of a number fix its base. A bare leading zero is a base of its own: the
number reads as decimal, but as an integer it may hold octal digits only. Between its digits a
number may hold separators.
-/

namespace SheetFormula

/-- The base of a number, by the way it begins. -/
inductive Radix
  | decimal
  /-- A bare leading zero. -/
  | leadingZero
  | hexadecimal
  | octal
  | binary
  deriving DecidableEq, Repr

namespace Radix

/-- How messages call a number of this base. -/
def literalName : Radix → String
  | hexadecimal => "hexadecimal literal"
  | octal => "octal literal"
  | binary => "binary literal"
  | decimal | leadingZero => "decimal literal"

/-- The base in which the digits of an integer must lie. -/
def base : Radix → Nat
  | decimal => 10
  | leadingZero => 8
  | hexadecimal => 16
  | octal => 8
  | binary => 2

/-- The base that a letter behind a leading zero announces. -/
def ofMarker? : Char → Option Radix
  | 'x' | 'X' => some hexadecimal
  | 'o' | 'O' => some octal
  | 'b' | 'B' => some binary
  | _ => none

end Radix

/-! ## Digit separators

An underscore may stand between two digits of a number and nowhere else. `misplaced?` finds the
first one that does not, reading the text once and remembering of each byte only what kind of
neighbour it makes. -/

namespace Separator

/-- The separator byte, an underscore. -/
def separator : UInt8 := 0x5F

/-- What a byte is to the separator that may stand beside it. -/
inductive Neighbour
  | digit
  | separator
  | other
  deriving DecidableEq, Repr

/-- Whether `b` is an ASCII digit, or, where `hexadecimal` is set, a hexadecimal digit. -/
def isDigit (hexadecimal : Bool) (b : UInt8) : Bool :=
  (0x30 ≤ b && b ≤ 0x39) ||
    hexadecimal && ((0x61 ≤ b && b ≤ 0x66) || (0x41 ≤ b && b ≤ 0x46))

/-- Reads on from the byte at `index`, whose left neighbour is `left`. A separator without a digit
to its left is misplaced itself; one without a digit or a separator to its right is found out one
byte later. -/
def misplacedFrom (hexadecimal : Bool) (left : Neighbour) (index : Nat) : List UInt8 → Option Nat
  | [] => if left = .separator then some (index - 1) else none
  | b :: rest =>
    if b = separator then
      if left = .digit then misplacedFrom hexadecimal .separator (index + 1) rest else some index
    else if isDigit hexadecimal b then misplacedFrom hexadecimal .digit (index + 1) rest
    else if left = .separator then some (index - 1)
    else misplacedFrom hexadecimal .other (index + 1) rest

/-- The base that the text of a number announces by its first two bytes. -/
def announced? : List UInt8 → Option Radix
  | 0x30 :: marker :: _ => Radix.ofMarker? (Char.ofUInt8 marker)
  | _ => none

/-- The index of the first separator that does not stand between two digits. The two bytes that
announce a base are not read. -/
def misplaced? (text : List UInt8) : Option Nat :=
  match announced? text with
  | some radix => misplacedFrom (radix = .hexadecimal) .other 2 (text.drop 2)
  | none => misplacedFrom false .other 0 text

end Separator

end SheetFormula

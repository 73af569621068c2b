import SheetFormula.Text.Character

/-!
# Parts of a text

A text without the white space around it, the piece of a text between two offsets, and which texts
are numbers in decimal digits.
-/

namespace SheetFormula.Text

/-- Removes the white space at both ends. -/
def trim (text : List Char) : List Char :=
  ((text.dropWhile isSpace).reverse.dropWhile isSpace).reverse

/-! ## Pieces

Cutting a text at offsets in bytes. A cut can be made between two characters only, so a piece that
would begin or end inside a character does not exist. -/

/-- How many bytes a run of characters takes. -/
def width : List Char → Nat
  | [] => 0
  | c :: rest => c.utf8Size + width rest

/-- The first bytes of a text, if they are whole characters. -/
def takeBytes? : Nat → List Char → Option (List Char)
  | 0, _ => some []
  | _ + 1, [] => none
  | n + 1, c :: rest =>
    if c.utf8Size ≤ n + 1 then (takeBytes? (n + 1 - c.utf8Size) rest).map (c :: ·) else none

/-- A text without its first bytes, if these are whole characters. -/
def dropBytes? : Nat → List Char → Option (List Char)
  | 0, text => some text
  | _ + 1, [] => none
  | n + 1, c :: rest => if c.utf8Size ≤ n + 1 then dropBytes? (n + 1 - c.utf8Size) rest else none

/-- The piece of a text from one offset to another. -/
def piece? (text : List Char) (start stop : Nat) : Option (List Char) :=
  (dropBytes? start text).bind (takeBytes? (stop - start))

/-! ## Decimal numbers -/

/-- Whether a text is a whole number without a sign. -/
def isWhole (text : List Char) : Bool :=
  text != [] && text.all Char.isDigit

/-- Whether a text is the exponent of a number, with its letter, or nothing. -/
def isExponent : List Char → Bool
  | [] => true
  | 'e' :: '+' :: digits | 'e' :: '-' :: digits | 'E' :: '+' :: digits | 'E' :: '-' :: digits =>
    isWhole digits
  | 'e' :: digits | 'E' :: digits => isWhole digits
  | _ => false

/-- Whether a text is a decimal number without a sign, with digits in front of or behind its point
and perhaps an exponent, or the word for infinity or for no number. -/
def isDecimal (text : List Char) : Bool :=
  let whole := text.takeWhile Char.isDigit
  let numeric := match text.dropWhile Char.isDigit with
    | '.' :: rest =>
      (whole != [] || isWhole (rest.takeWhile Char.isDigit)) &&
        isExponent (rest.dropWhile Char.isDigit)
    | rest => whole != [] && isExponent rest
  numeric || ["inf", "infinity", "nan"].contains (String.ofList (text.map Char.toLower))

end SheetFormula.Text

import SheetFormula.Lexeme.Recognition
import SheetFormula.Lexeme.Radix
import SheetFormula.Text.Character

/-!
# Numbers

A number is read greedily into its parts: the characters that announce a base, the digits in front
of the point, the point with the digits behind it, the exponent and the imaginary suffix. Parts are
taken as they come, whether or not they fit together; what does not fit is a fault. In every digit
run the underscore may separate digits, and runs accept every decimal digit whatever the base, so
that a digit out of range is reported instead of splitting the number.
-/

namespace SheetFormula

open Text (Symbol isHexDigit)

/-- Whether `c` may stand in a digit run of a number of this base. -/
def Radix.inRun (radix : Radix) (c : Char) : Bool :=
  c == '_' || if radix = .hexadecimal then isHexDigit c else c.isDigit

/-- An exponent as written. -/
structure Exponent where
  marker : Char
  sign : Option Char
  digits : List Char
  deriving DecidableEq, Repr

/-- The characters of an exponent. -/
def Exponent.text (e : Exponent) : List Char :=
  e.marker :: (e.sign.toList ++ e.digits)

/-- A number, part by part. -/
structure Numeral where
  radix : Radix
  /-- The characters that announce the base. -/
  announcement : List Char
  /-- The digit run in front of the point. -/
  whole : List Char
  /-- The digit run behind the point, if there is a point. -/
  fraction : Option (List Char)
  exponent : Option Exponent
  imaginary : Bool
  deriving DecidableEq, Repr

namespace Numeral

/-! ## Reading -/

/-- The base that the front announces, with the characters that announce it. -/
def readRadix (rest : List Symbol) : Radix × List Char :=
  if frontChar? rest = some '0' then
    match frontChar? rest.tail with
    | some marker =>
      match Radix.ofMarker? marker with
      | some radix => (radix, ['0', marker])
      | none => (.leadingZero, ['0'])
    | none => (.leadingZero, ['0'])
  else (.decimal, [])

/-- The digits behind a point, if a point is in front. -/
def readFraction (radix : Radix) (rest : List Symbol) : Option (List Char) :=
  if frontChar? rest = some '.' then some (runOf radix.inRun rest.tail) else none

/-- Whether `c` marks an exponent. -/
def isExponentMarker (c : Char) : Bool :=
  c == 'e' || c == 'E' || c == 'p' || c == 'P'

/-- Whether `c` is a sign. -/
def isSign (c : Char) : Bool :=
  c == '+' || c == '-'

/-- The exponent in front, if there is one. -/
def readExponent (rest : List Symbol) : Option Exponent :=
  match (frontChar? rest).filter isExponentMarker with
  | none => none
  | some marker =>
    let sign := (frontChar? rest.tail).filter isSign
    some ⟨marker, sign, runOf Radix.decimal.inRun (rest.tail.drop sign.toList.length)⟩

/-! ## Parts as text -/

/-- The characters up to the point. -/
def wholeText (n : Numeral) : List Char := n.announcement ++ n.whole

/-- The point and the digits behind it. -/
def fractionText (n : Numeral) : List Char :=
  match n.fraction with
  | some digits => '.' :: digits
  | none => []

/-- The exponent. -/
def exponentText (n : Numeral) : List Char :=
  match n.exponent with
  | some e => e.text
  | none => []

/-- The imaginary suffix. -/
def suffixText (n : Numeral) : List Char :=
  if n.imaginary then ['i'] else []

/-- The whole number as written. -/
def text (n : Numeral) : List Char :=
  n.wholeText ++ n.fractionText ++ n.exponentText ++ n.suffixText

/-- Reads the number in front of the symbols. -/
def read (rest : List Symbol) : Numeral :=
  let (radix, announcement) := readRadix rest
  let rest := rest.drop announcement.length
  let whole := runOf radix.inRun rest
  let rest := rest.drop whole.length
  let fraction := readFraction radix rest
  let rest := rest.drop (fraction.elim 0 fun digits => digits.length + 1)
  let exponent := readExponent rest
  let rest := rest.drop (exponent.elim 0 fun e => e.text.length)
  ⟨radix, announcement, whole, fraction, exponent, frontChar? rest = some 'i'⟩

/-! ## Kind and faults -/

/-- The kind of token that the number is. -/
def token (n : Numeral) : Token :=
  if n.imaginary then .imaginary
  else if n.fraction.isSome || n.exponent.isSome then .float
  else .integer

/-- Whether a digit run holds a digit. -/
def hasDigit (run : List Char) : Bool := run.any (· != '_')

/-- Whether the number has a digit in front of its exponent; a bare leading zero is one. -/
def hasMantissa (n : Numeral) : Bool :=
  n.radix = .leadingZero || hasDigit n.whole || hasDigit (n.fraction.getD [])

/-- Octal and binary numbers have no point. -/
def pointFaults (n : Numeral) : List LexicalFault :=
  if n.fraction.isSome && (n.radix = .octal || n.radix = .binary) then [.radixPoint n.radix] else []

/-- A number needs a digit. -/
def mantissaFaults (n : Numeral) : List LexicalFault :=
  if n.hasMantissa then [] else [.noDigits n.radix]

/-- A decimal exponent goes with decimal digits and a binary exponent with hexadecimal ones, which
need it if they have a point. -/
def markerFaults (n : Numeral) : List LexicalFault :=
  match n.exponent with
  | some e =>
    if e.marker = 'e' ∨ e.marker = 'E' then
      if n.radix = .decimal ∨ n.radix = .leadingZero then [] else [.exponentOfNonDecimal e.marker]
    else
      if n.radix = .hexadecimal then [] else [.exponentOfNonHexadecimal e.marker]
  | none =>
    if n.radix = .hexadecimal ∧ n.fraction.isSome then [.hexadecimalWithoutExponent] else []

/-- An exponent needs a digit. -/
def exponentFaults (n : Numeral) : List LexicalFault :=
  match n.exponent with
  | some e => if hasDigit e.digits then [] else [.noExponentDigits]
  | none => []

/-- The index of the first digit in a run that is too large for the base, with the digit. -/
def outOfBase? (base index : Nat) : List Char → Option (Nat × Char)
  | [] => none
  | c :: rest =>
    if c.isDigit ∧ base ≤ c.toNat - '0'.toNat then some (index, c)
    else outOfBase? base (index + 1) rest

/-- An integer holds digits of its base only. Numbers with a point, an exponent or a suffix are
free of this rule. -/
def digitFaults (n : Numeral) : List (Nat × LexicalFault) :=
  if n.token = .integer then
    match outOfBase? n.radix.base n.announcement.length n.whole with
    | some (index, digit) => [(index, .invalidDigit digit n.radix)]
    | none => []
  else []

/-- Separators stand between digits. -/
def separatorFaults (n : Numeral) : List (Nat × LexicalFault) :=
  match Separator.misplaced? (n.text.flatMap String.utf8EncodeChar) with
  | some index => [(index, .misplacedSeparator)]
  | none => []

/-- The number as a token: faults of a part are noted where the part ends, and those that concern
single characters come last. -/
def recognition (n : Numeral) : Recognition :=
  let pointAt := n.wholeText.length
  let markerAt := pointAt + n.fractionText.length
  let suffixAt := markerAt + n.exponentText.length
  ⟨n.token,
    [⟨n.wholeText.length, n.pointFaults.map (pointAt, ·)⟩,
     ⟨n.fractionText.length, (n.mantissaFaults ++ n.markerFaults).map (markerAt, ·)⟩,
     ⟨n.exponentText.length, n.exponentFaults.map (suffixAt, ·)⟩,
     ⟨n.suffixText.length, n.digitFaults ++ n.separatorFaults⟩]⟩

/-- The token takes the characters of the number, no more and no less. -/
theorem count_recognition (n : Numeral) : n.recognition.count = n.text.length := by
  simp [recognition, Recognition.count, Leg.total, text, Nat.add_assoc]

/-- In front of a point, the digits behind it are read as a fraction. -/
theorem fraction_read_of_point {s : Symbol} (point : s.toChar = '.') (rest : List Symbol) :
    (read (s :: rest)).fraction = some (runOf Radix.decimal.inRun rest) := by
  have plain : readRadix (s :: rest) = (.decimal, []) := by simp [readRadix, point]
  have run : runOf Radix.decimal.inRun (s :: rest) = [] := by simp [runOf, Radix.inRun, point]
  simp [read, plain, run, readFraction, point]

/-- In front of a digit, or of a point, the number that is read is not empty. -/
theorem text_read_length_pos {s : Symbol} {rest : List Symbol}
    (h : s.toChar.isDigit = true ∨ s.toChar = '.') : 0 < (read (s :: rest)).text.length := by
  by_cases zero : s.toChar = '0'
  · have announced : 0 < (readRadix (s :: rest)).2.length := by
      simp only [readRadix, frontChar?_cons, zero]
      repeat' split
      all_goals simp_all
    simp only [text, wholeText, read, List.length_append]
    omega
  · have plain : readRadix (s :: rest) = (.decimal, []) := by simp [readRadix, zero]
    rcases h with digit | point
    · have whole : 0 < (runOf Radix.decimal.inRun (s :: rest)).length :=
        runOf_length_pos (by simp [Radix.inRun, digit])
      simp only [text, wholeText, read, plain, List.length_append, List.length_nil, List.drop_zero]
      omega
    · simp only [text, fractionText, fraction_read_of_point point, List.length_append,
        List.length_cons]
      omega

end Numeral

end SheetFormula

import SheetFormula.Text.Utf8

/-!
# Source symbols

Scanning sees a source as a sequence of symbols: well-formed characters, and stray bytes that are
no part of one. Unlike the lossy reading of a text, each stray byte counts for itself. Nothing is
lost: the bytes of the symbols, in order, are the source.
-/

namespace SheetFormula.Text

/-- One step of reading a source. -/
inductive Symbol
  /-- A well-formed character. -/
  | character (c : Char)
  /-- A byte at which no well-formed character starts. -/
  | stray (b : UInt8)
  deriving DecidableEq, Repr

namespace Symbol

/-- The character that scanning sees: a stray byte looks like the replacement character. -/
def toChar : Symbol → Char
  | character c => c
  | stray _ => replacement

/-- The bytes that the symbol was read from. -/
def bytes : Symbol → List UInt8
  | character c => String.utf8EncodeChar c
  | stray b => [b]

/-- How many bytes the symbol was read from. -/
def width : Symbol → Nat
  | character c => c.utf8Size
  | stray _ => 1

end Symbol

/-- Reads a source from its first byte to its last. -/
def symbols : List UInt8 → List Symbol
  | [] => []
  | b :: rest =>
    match decodeChar? (b :: rest) with
    | some (c, width) => .character c :: symbols (rest.drop (width - 1))
    | none => .stray b :: symbols rest
termination_by bytes => bytes.length
decreasing_by
  · simp only [List.length_cons, List.length_drop]; omega
  · simp

/-- The bytes of a run of symbols, in order. -/
def bytesOf (run : List Symbol) : List UInt8 :=
  run.flatMap Symbol.bytes

end SheetFormula.Text

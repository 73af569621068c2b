import SheetFormula.Ascending

/-!
# Lines and columns

Positions are byte offsets; a line and a column are found on demand, in one of two ways: by reading
the source up to the offset, or by looking the offset up in a table of the offsets at which lines
start. Lines and columns are counted from one, and columns are counted in bytes.
-/

namespace SheetFormula

/-- The line feed byte. -/
def lineFeed : UInt8 := 0x0A

/-- An offset with the line and column it stands for. -/
structure Location where
  offset : Nat
  line : Nat
  column : Nat
  deriving DecidableEq, Repr

namespace Location

/-- The location of the first byte of a source. -/
def first : Location := ⟨0, 1, 1⟩

/-- The location after reading one more byte: a line feed starts a line, any other byte a column. -/
def step (here : Location) (b : UInt8) : Location :=
  if b = lineFeed then ⟨here.offset + 1, here.line + 1, 1⟩
  else ⟨here.offset + 1, here.line, here.column + 1⟩

/-- The location of an offset in a source. Offsets past the end stand for the end. -/
def inSource (source : List UInt8) (offset : Nat) : Location :=
  (source.take offset).foldl step first

/-- The location of an offset, given the ascending offsets at which lines start. An offset before
the first line belongs to that line, at its first column.

Offsets are taken below the greatest machine word. In words the column of that one offset, in a line
that starts at zero, would leave the range of a word. -/
def inLines (starts : Array Nat) (offset : Nat) : Location :=
  let index := Ascending.countUpTo starts offset - 1
  ⟨offset, index + 1, offset - starts.getD index 0 + 1⟩

/-- The line and the column, with a colon between them. -/
def text (here : Location) : String :=
  s!"{here.line}:{here.column}"

instance : ToString Location := ⟨text⟩

end Location

end SheetFormula

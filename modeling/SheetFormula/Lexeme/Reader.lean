import SheetFormula.Diagnostic
import SheetFormula.Lexeme.Recognition

/-!
# The reader

A reader stands in front of a symbol of its source. It moves one symbol at a time, keeps count of
the bytes behind it and of where lines have started, and finds out about zero bytes and bytes that
cannot be decoded as soon as it stands in front of them. Everything that scans moves by `advance`.
-/

namespace SheetFormula

open Text (Symbol)

/-- A place in a source, with what lies ahead and where lines have started so far. -/
structure Reader where
  /-- The number of bytes behind the reader. -/
  offset : Nat
  /-- The symbols ahead. -/
  rest : List Symbol
  /-- The offset at which the line of the reader starts. -/
  lineStart : Nat
  /-- The offsets at which the lines before that one start, the latest first. -/
  earlierLines : List Nat
  deriving DecidableEq, Repr

namespace Reader

/-- A reader in front of the first symbol of a source. -/
def start (source : List UInt8) : Reader := ⟨0, Text.symbols source, 0, []⟩

/-- Moves over one symbol. Behind a line feed a line starts; at the end nothing moves. -/
def advance (r : Reader) : Reader :=
  match r.rest with
  | [] => r
  | s :: rest =>
    let offset := r.offset + s.width
    if s.toChar = '\n' then ⟨offset, rest, offset, r.lineStart :: r.earlierLines⟩
    else ⟨offset, rest, r.lineStart, r.earlierLines⟩

/-- The fault of the symbol in front, if it cannot stand in any source. -/
def faults (r : Reader) : List Diagnostic :=
  match r.rest with
  | .character '\x00' :: _ => [⟨r.offset, LexicalFault.nul.message⟩]
  | .stray _ :: _ => [⟨r.offset, LexicalFault.malformedBytes.message⟩]
  | _ => []

/-- Moves over so many symbols. Also yields the faults of the symbols that the reader came to stand
in front of on the way. -/
def consume (r : Reader) : Nat → Reader × List Diagnostic
  | 0 => (r, [])
  | count + 1 =>
    let next := r.advance
    let (last, later) := next.consume count
    (last, next.faults ++ later)

/-- Moves over the legs of a token that starts at an offset. Also yields all faults on the way, in
the order in which they are noted. -/
def follow (tokenStart : Nat) (r : Reader) : List Leg → Reader × List Diagnostic
  | [] => (r, [])
  | leg :: legs =>
    let (behind, onTheWay) := r.consume leg.count
    let own := leg.faults.map fun (distance, fault) => ⟨tokenStart + distance, fault.message⟩
    let (last, later) := behind.follow tokenStart legs
    (last, onTheWay ++ own ++ later)

/-- The offsets at which lines have started so far, in ascending order. -/
def lineStarts (r : Reader) : List Nat :=
  (r.lineStart :: r.earlierLines).reverse

/-! ## What moving leaves ahead -/

@[simp] theorem rest_advance (r : Reader) : r.advance.rest = r.rest.tail := by
  unfold advance
  split
  · simp_all
  · next h => dsimp only; split <;> simp [h]

@[simp] theorem rest_consume (r : Reader) (count : Nat) :
    (r.consume count).1.rest = r.rest.drop count := by
  induction count generalizing r with
  | zero => rfl
  | succ count ih => simp [consume, ih]

@[simp] theorem rest_follow (tokenStart : Nat) (r : Reader) (legs : List Leg) :
    (r.follow tokenStart legs).1.rest = r.rest.drop (Leg.total legs) := by
  induction legs generalizing r with
  | nil => rfl
  | cons leg legs ih => simp [follow, ih, Leg.total]

end Reader

end SheetFormula

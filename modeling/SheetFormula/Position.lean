/-!
# Positions and spans

A `Pos` is a byte offset counted from one, so that zero is free to say "no position"; tokens and
tree nodes carry nothing else. A `Span` is a half-open range of offsets counted from zero.
-/

namespace SheetFormula

/-- A byte offset into a source counted from one, or no position at all. -/
structure Pos where
  /-- The offset plus one; zero for no position. -/
  index : Nat
  deriving DecidableEq, Repr, Inhabited

namespace Pos

/-- No position. -/
def none : Pos := ⟨0⟩

/-- The position of the byte at an offset counted from zero. -/
def ofOffset (offset : Nat) : Pos := ⟨offset + 1⟩

/-- Whether `p` is a position at all. -/
def isValid (p : Pos) : Bool := p.index != 0

/-- The offset counted from zero. -/
def offset? (p : Pos) : Option Nat :=
  match p.index with
  | 0 => .none
  | i + 1 => some i

/-- The offset counted from zero, and zero for no position. -/
def offset (p : Pos) : Nat := p.index - 1

/-- The position so many bytes further on. -/
def shift (p : Pos) (bytes : Nat) : Pos := ⟨p.index + bytes⟩

instance : HAdd Pos Nat Pos := ⟨shift⟩

instance : LT Pos := ⟨fun p q => p.index < q.index⟩

instance (p q : Pos) : Decidable (p < q) :=
  inferInstanceAs (Decidable (p.index < q.index))

/-- The number, or a dash for no position. -/
def text (p : Pos) : String :=
  if p.isValid then toString p.index else "-"

instance : ToString Pos := ⟨text⟩

end Pos

/-- The bytes from offset `start` up to, but without, offset `stop`. -/
structure Span where
  start : Nat
  stop : Nat
  deriving DecidableEq, Repr

namespace Span

/-- The span from `first` up to `next`. A missing position collapses onto the other one, and a span
never ends before it starts. -/
def between (first next : Pos) : Span :=
  let start := (first.offset?.or next.offset?).getD 0
  ⟨start, max (next.offset?.getD start) start⟩

/-- The number of bytes in the span. -/
def size (s : Span) : Nat := s.stop - s.start

/-- Whether the span has no bytes. -/
def isEmpty (s : Span) : Bool := s.start == s.stop

end Span

end SheetFormula

import SheetFormula.Lexeme
import SheetFormula.Lexeme.Front
import SheetFormula.Lexeme.Reader

/-!
# The scanner

A scanner yields one lexeme per scan: it passes the gap in front of it, decides which token begins
there, and moves over that token. At the end of the source every scan yields the end token again.
Problems are part of what a scan yields and never stop it. Diagnostics that a caller wants to keep
beside a scanner are the business of `Scanner.Keeping`.
-/

namespace SheetFormula

open Text (Symbol)

/-- A scanner between two scans. -/
structure Scanner where
  source : List UInt8
  reader : Reader
  /-- Whether the latest scan skipped a line break in front of its lexeme. -/
  newlineBefore : Bool
  /-- The kind that was scanned last, `illegal` before the first scan. -/
  previous : Token
  deriving DecidableEq, Repr

namespace Scanner

/-- A scanner in front of its source. -/
def start (source : List UInt8) : Scanner := ⟨source, .start source, false, .illegal⟩

/-- What is wrong with the very first symbol is found before any scan. -/
def openingReports (source : List UInt8) : List Diagnostic := (start source).reader.faults

/-- The blank symbols in front. -/
def gap (rest : List Symbol) : List Symbol := rest.takeWhile fun s => Text.isBlank s.toChar

/-- Whether a gap holds a line break. -/
def hasBreak (blanks : List Symbol) : Bool := blanks.any fun s => s.toChar == '\n'

/-- The text that a lexeme keeps of the symbols it was scanned from. -/
def literal (token : Token) (symbols : List Symbol) : String :=
  if token.keepsText then Text.lossyString (Text.bytesOf symbols) else ""

/-- Scans the next lexeme. -/
def scan (s : Scanner) : Scanned × Scanner :=
  let blanks := gap s.reader.rest
  let newlineBefore := hasBreak blanks
  let (here, inGap) := s.reader.consume blanks.length
  let pos := Pos.ofOffset here.offset
  match Recognition.ofSymbols (here.offset = here.lineStart) here.rest with
  | none =>
    (⟨⟨pos, .endOfFormula, ""⟩, newlineBefore, s.previous, inGap⟩,
      ⟨s.source, here, newlineBefore, .endOfFormula⟩)
  | some found =>
    let (behind, inToken) := here.follow here.offset found.legs
    let text := literal found.token (here.rest.take found.count)
    (⟨⟨pos, found.token, text⟩, newlineBefore, s.previous, inGap ++ inToken⟩,
      ⟨s.source, behind, newlineBefore, found.token⟩)

/-- The line and column of a position. Up to where the scanner stands its line table answers; what
lies further on is looked up in the source. -/
def location? (s : Scanner) (p : Pos) : Option Location :=
  p.offset?.map fun offset =>
    if offset ≤ s.reader.offset then .inLines s.reader.lineStarts.toArray offset
    else .inSource s.source offset

/-! ## A scanner that keeps diagnostics -/

/-- A scanner and the list that its diagnostics go to. The list can be added to and sorted between
scans, and no scan reads it. -/
structure Keeping where
  scanner : Scanner
  diagnostics : Diagnostics
  deriving DecidableEq, Repr

namespace Keeping

/-- A scanner in front of its source, with a fresh list. -/
def start (source : List UInt8) : Keeping := ⟨.start source, ⟨openingReports source⟩⟩

/-- Scans the next lexeme and keeps what the scan reports. -/
def scan (k : Keeping) : Scanned × Keeping :=
  let (scanned, scanner) := k.scanner.scan
  (scanned, ⟨scanner, k.diagnostics.addAll scanned.reports⟩)

/-- Adds a diagnostic to the list. -/
def add (k : Keeping) (d : Diagnostic) : Keeping := ⟨k.scanner, k.diagnostics.add d⟩

/-- Sorts the list. -/
def sort (k : Keeping) : Keeping := ⟨k.scanner, k.diagnostics.sort⟩

end Keeping

end Scanner

end SheetFormula

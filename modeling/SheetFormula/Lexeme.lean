import SheetFormula.Diagnostic
import SheetFormula.Log
import SheetFormula.Position
import SheetFormula.Text.Quoted
import SheetFormula.Token

/-!
# Lexemes

A lexeme is a token with its place and, for kinds that keep it, its text. What a single scan yields
is a lexeme together with what the parser and the log have to know about that scan.
-/

namespace SheetFormula

/-- A token at a position, with its text if the kind keeps it and an empty text otherwise. -/
structure Lexeme where
  pos : Pos
  token : Token
  literal : String
  deriving DecidableEq, Repr

/-- What one scan yields. -/
structure Scanned where
  lexeme : Lexeme
  /-- Whether a line break was skipped in front of the lexeme. -/
  newlineBefore : Bool
  /-- The kind that was scanned just before, `illegal` at the first scan. -/
  previous : Token
  /-- The problems found during the scan, in the order in which they were found. -/
  reports : List Diagnostic
  deriving DecidableEq, Repr

namespace Scanned

/-- The kind of the lexeme. -/
def token (s : Scanned) : Token := s.lexeme.token

/-- The place of the lexeme. -/
def pos (s : Scanned) : Pos := s.lexeme.pos

/-- Words are classified by what follows them, so the scanner notes how it decided. -/
def note (s : Scanned) : List Log.Record :=
  match s.token with
  | .ident | .reference | .range =>
    let word := Text.quotedString s.lexeme.literal
    [⟨.trace, Log.scannerTarget,
      s!"{word} classified as {s.token} (previous token {s.previous})"⟩]
  | _ => []

/-- How a message names what was found: a line break hides what stands behind it, a text stands for
itself, and all else goes by its spelling in quotes. -/
def found (s : Scanned) : String :=
  if s.newlineBefore then "newline"
  else if s.token.isLiteral && s.lexeme.literal != "" then s.lexeme.literal
  else s!"'{s.token}'"

end Scanned

end SheetFormula

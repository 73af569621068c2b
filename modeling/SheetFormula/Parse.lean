import SheetFormula.Parse.Grammar

/-!
# Parsing

Parsing a source always yields a tree. Diagnostics of the scanner and of the parser are gathered in
one list, which is sorted by offset; if it is empty the parse is clean. Sources of more than
`lengthLimit` characters are not parsed at all.
-/

namespace SheetFormula

/-- What a caller may ask of a parse beside its result. -/
structure ParseOptions where
  /-- Whether the log shows the productions and the consumed lexemes. -/
  trace : Bool := false
  deriving DecidableEq, Repr

/-- The result of a parse. -/
structure Parsed (α : Type) where
  root : α
  /-- The sorted diagnostics. -/
  diagnostics : Diagnostics
  /-- What the scanner and the parser note about their work. -/
  log : List Log.Record
  deriving DecidableEq, Repr

namespace Parsed

variable {α : Type}

/-- Whether nothing was wrong. -/
def isClean (p : Parsed α) : Bool := p.diagnostics.isEmpty

/-- The failure that the diagnostics amount to, if there are any. -/
def failure? (p : Parsed α) : Option Failure := p.diagnostics.failure?

end Parsed

/-- The number of characters of a source: all bytes count but those that continue a character. -/
def characterCount (source : List UInt8) : Nat :=
  source.countP fun b => b &&& 0xC0 != 0x80

namespace Parse

variable {α : Type}

/-- The diagnostics of a run of a production on the stream of a source, as they were found: the
scanner reports what is in front of it before the first lexeme comes into view, and each further
lexeme brings its own reports. -/
def reports (source : List UInt8) (stream : TokenStream) (outcome : Outcome α) : List Diagnostic :=
  Scanner.openingReports source ++ stream.lookahead.reports ++ outcome.journal.reports

/-- Reads a source with a production. Where the source is too long, `rejected` stands for the tree.
-/
def parseWith (production : Production α) (rejected : α) (options : ParseOptions)
    (source : List UInt8) : Parsed α :=
  let characters := characterCount source
  if characters > lengthLimit then
    ⟨rejected, ⟨[⟨0, lengthMessage characters⟩]⟩,
      [⟨.debug, Log.parserTarget, s!"rejecting {characters}-character formula"⟩]⟩
  else
    let stream := TokenStream.ofSource source
    let passage := production.pass ⟨options.trace, 0⟩ stream
    ⟨passage.value, (Diagnostics.mk (reports source stream passage.toOutcome)).sort,
      stream.lookahead.note ++ passage.log⟩

end Parse

/-- Parses a formula. A source that is too long is a single missing expression. -/
def parseFormula (options : ParseOptions) (source : List UInt8) : Parsed Expr :=
  Parse.parseWith Grammar.formula (.bad (.ofOffset 0) (.ofOffset source.length)) options source

/-- Parses a list of parameters between parentheses. Each entry is an expression without names and
tag, and a comma may stand behind the last one. -/
def parseParameters (options : ParseOptions) (source : List UInt8) : Parsed FieldList :=
  Parse.parseWith Grammar.parametersOnly .empty options source

end SheetFormula

import SheetFormula.Lexeme.Scanner

/-!
# Token streams

Scanning a source to its end gives its token stream: what the scans yield up to the end token, and
the end token, which can be looked at over and over. A stream is what the parser works on, one
lexeme of lookahead at a time, and `lex` is the plain list of lexemes with the sorted diagnostics.
-/

namespace SheetFormula

/-- The end of a stream: the fields of the scan that came upon the end of the source. -/
structure StreamEnd where
  pos : Pos
  newlineBefore : Bool
  previous : Token
  reports : List Diagnostic
  deriving DecidableEq, Repr

namespace StreamEnd

/-- The scan that came upon the end. -/
def scanned (e : StreamEnd) : Scanned :=
  ⟨⟨e.pos, .endOfFormula, ""⟩, e.newlineBefore, e.previous, e.reports⟩

/-- What a further scan at the end finds: the same token, no gap and nothing to report. -/
def again (e : StreamEnd) : StreamEnd := ⟨e.pos, false, .endOfFormula, []⟩

end StreamEnd

/-- The scans of the lexemes that are still ahead, and the end that follows them. -/
structure TokenStream where
  tokens : List Scanned
  finish : StreamEnd
  deriving DecidableEq, Repr

namespace TokenStream

/-- The scan of the lexeme in front. -/
def lookahead (s : TokenStream) : Scanned := s.tokens.headD s.finish.scanned

/-- The stream behind the lexeme in front. The end stays in front of itself. -/
def advance (s : TokenStream) : TokenStream :=
  match s.tokens with
  | [] => ⟨[], s.finish.again⟩
  | _ :: tokens => ⟨tokens, s.finish⟩

/-- The number of lexemes in front of the end. -/
def size (s : TokenStream) : Nat := s.tokens.length

/-- All lexemes of the stream, up to and with the end. -/
def lexemes (s : TokenStream) : List Lexeme :=
  (s.tokens.map Scanned.lexeme) ++ [s.finish.scanned.lexeme]

/-- All scans of the stream, up to and with the end. -/
def scans (s : TokenStream) : List Scanned := s.tokens ++ [s.finish.scanned]

theorem size_advance (s : TokenStream) : s.advance.size = s.size - 1 := by
  cases s with
  | mk tokens finish => cases tokens <;> simp [advance, size]

theorem size_advance_le (s : TokenStream) : s.advance.size ≤ s.size := by
  rw [size_advance]
  exact Nat.sub_le ..

/-- If the lexeme in front is not the end, there is a lexeme in front of the end. -/
theorem size_pos {s : TokenStream} (h : s.lookahead.token ≠ .endOfFormula) : 0 < s.size := by
  cases s with
  | mk tokens finish =>
    cases tokens with
    | nil => exact absurd rfl h
    | cons => simp [size]

theorem size_advance_lt {s : TokenStream} (h : s.lookahead.token ≠ .endOfFormula) :
    s.advance.size < s.size := by
  have := size_pos h
  rw [size_advance]
  omega

end TokenStream

namespace Scanner

/-- A scan that does not yield the end leaves fewer symbols ahead. -/
theorem rest_scan_lt {s : Scanner} (h : s.scan.1.token ≠ .endOfFormula) :
    s.scan.2.reader.rest.length < s.reader.rest.length := by
  revert h
  simp only [scan]
  split
  · intro h; exact absurd rfl h
  · next found recognized =>
    intro _
    have taken := Recognition.count_pos_of_ofSymbols recognized
    have ahead : 0 < (s.reader.consume (gap s.reader.rest).length).1.rest.length := by
      cases nonempty : (s.reader.consume (gap s.reader.rest).length).1.rest with
      | nil => rw [nonempty] at recognized; simp [Recognition.ofSymbols] at recognized
      | cons => simp
    simp only [Reader.rest_follow, Reader.rest_consume, List.length_drop] at ahead ⊢
    simp only [Recognition.count] at taken
    omega

/-- Scans to the end. -/
def stream (s : Scanner) : TokenStream :=
  match result : s.scan with
  | (scanned, next) =>
    if more : scanned.token ≠ .endOfFormula then
      have : next.reader.rest.length < s.reader.rest.length := by
        have shrinks := @rest_scan_lt s
        rw [result] at shrinks
        exact shrinks more
      let later := next.stream
      ⟨scanned :: later.tokens, later.finish⟩
    else ⟨[], ⟨scanned.pos, scanned.newlineBefore, scanned.previous, scanned.reports⟩⟩
termination_by s.reader.rest.length

end Scanner

/-- The token stream of a source. -/
def TokenStream.ofSource (source : List UInt8) : TokenStream := (Scanner.start source).stream

/-- All lexemes of a source, and all that is wrong with its characters. -/
structure Lexed where
  /-- The lexemes, up to and with the end. -/
  lexemes : List Lexeme
  /-- The sorted diagnostics. -/
  diagnostics : Diagnostics
  /-- What the scanner notes about its work. -/
  log : List Log.Record
  deriving DecidableEq, Repr

/-- Scans a source to its end. -/
def lex (source : List UInt8) : Lexed :=
  let stream := TokenStream.ofSource source
  let reports := Scanner.openingReports source ++ stream.scans.flatMap Scanned.reports
  ⟨stream.lexemes, (Diagnostics.mk reports).sort, stream.scans.flatMap Scanned.note⟩

end SheetFormula

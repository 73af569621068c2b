import SheetFormula.Lexeme.Number

/-!
# What stands in front

The one decision of the scanner: which token begins where a gap ends. It looks at the symbols from
there on and at nothing behind them, except that an equals sign leads a formula exactly at the start
of its line. Words and string literals are recognized here; numbers have a module of their own.
-/

namespace SheetFormula

/-! ## Words

A word is a run of letters and digits. Whether it names something or refers to a cell is decided by
its shape and by what follows: in front of an opening parenthesis every word is a name; otherwise a
word of one ASCII letter, or of one ASCII letter and one ASCII digit, is a reference, and two
references with a colon between them and nothing else are a range. -/

namespace Word

open Text (Symbol isWordChar)

/-- The word in front of the symbols. -/
def run (rest : List Symbol) : List Char := runOf isWordChar rest

/-- Whether a word has the shape of a reference. -/
def isReference : List Char → Bool
  | [column] => column.isAlpha
  | [column, row] => column.isAlpha && row.isDigit
  | _ => false

/-- The word behind the colon that follows a reference, if it makes a range of the two. -/
def rangeEnd? (rest : List Symbol) : Option (List Char) :=
  if frontChar? rest = some ':' then
    let other := run rest.tail
    if isReference other then some other else none
  else none

/-- Classifies the word in front of the symbols. -/
def recognize (rest : List Symbol) : Recognition :=
  let word := run rest
  let behind := rest.drop word.length
  if frontChar? behind = some '(' then .plain .ident word.length
  else if isReference word then
    match rangeEnd? behind with
    | some other => .plain .range (word.length + 1 + other.length)
    | none => .plain .reference word.length
  else .plain .ident word.length

/-- A word takes at least the characters of its run. -/
theorem run_length_le_count (rest : List Symbol) : (run rest).length ≤ (recognize rest).count := by
  simp only [recognize]
  repeat' split
  all_goals simp only [Recognition.count_plain]; omega

/-- In front of a letter the word is not empty. -/
theorem count_recognize_pos {s : Symbol} {rest : List Symbol} (h : Text.isLetter s.toChar = true) :
    0 < (recognize (s :: rest)).count :=
  Nat.lt_of_lt_of_le (runOf_length_pos (by simp [isWordChar, h])) (run_length_le_count _)

end Word

/-! ## String literals

A string literal runs from one double quote to the next; inside, two double quotes in a row stand
for one and do not end it. A string that meets the end of its line or of the source first is
unterminated and stops there. -/

namespace Quotation

open Text (Symbol)

/-- How far a string reaches behind its opening quote, and whether a quote closes it. -/
structure Extent where
  count : Nat
  closed : Bool
  deriving DecidableEq, Repr

/-- The extent when so many symbols more stand in front of it. -/
def Extent.behind (e : Extent) (more : Nat) : Extent := ⟨e.count + more, e.closed⟩

/-- Reads on inside a string. -/
def extent : List Symbol → Extent
  | [] => ⟨0, false⟩
  | s :: rest =>
    if s.toChar = '\n' then ⟨0, false⟩
    else if s.toChar = '"' then
      match rest with
      | [] => ⟨1, true⟩
      | t :: rest => if t.toChar = '"' then (extent rest).behind 2 else ⟨1, true⟩
    else (extent rest).behind 1

/-- The string literal whose opening quote stands in front of `rest`. -/
def recognize (rest : List Symbol) : Recognition :=
  let e := extent rest
  ⟨.string, [⟨e.count + 1, if e.closed then [] else [(0, .unterminatedString)]⟩]⟩

end Quotation

/-! ## The decision -/

namespace Recognition

open Text (Symbol)

/-- A comparison that may be followed by a second character. -/
def comparison (rest : List Symbol) (alone : Token) (pairs : List (Char × Token)) : Recognition :=
  match (frontChar? rest).bind (List.lookup · pairs) with
  | some both => plain both 2
  | none => plain alone 1

/-- A character that begins no token of its own kind: an operator, a punctuation mark, or a token
that is illegal. Zero bytes and bytes that cannot be decoded are faults wherever they stand, so
they are not reported once more here, and neither is the replacement character. -/
def single (c : Char) : Recognition :=
  let token := Token.ofChar c
  if token = .illegal ∧ c ≠ '\x00' ∧ c ≠ Text.replacement then
    ⟨token, [⟨1, [(0, .illegalCharacter c)]⟩]⟩
  else plain token 1

/-- Whether a number starts with character `c` in front of `rest`. -/
def startsNumber (c : Char) (rest : List Symbol) : Bool :=
  c.isDigit || (c == '.' && (frontChar? rest).any Char.isDigit)

/-- The token in front of the symbols, if there are any. -/
def ofSymbols (atLineStart : Bool) : List Symbol → Option Recognition
  | [] => none
  | s :: rest =>
    let c := s.toChar
    some <|
      if Text.isLetter c then Word.recognize (s :: rest)
      else if startsNumber c rest then (Numeral.read (s :: rest)).recognition
      else if c = '=' then plain (if atLineStart then .lead else .equal) 1
      else if c = '"' then Quotation.recognize rest
      else if c = '<' then comparison rest .less [('=', .lessEqual), ('>', .notEqual)]
      else if c = '>' then comparison rest .greater [('=', .greaterEqual)]
      else single c

/-! ## Progress -/

theorem count_comparison_pos (rest : List Symbol) (alone : Token) (pairs : List (Char × Token)) :
    0 < (comparison rest alone pairs).count := by
  unfold comparison
  split <;> simp

theorem count_single_pos (c : Char) : 0 < (single c).count := by
  simp only [single]
  split
  · simp [count, Leg.total]
  · simp

/-- Where something is recognized, there is a symbol ahead. -/
theorem exists_cons_of_ofSymbols {atLineStart : Bool} {rest : List Symbol} {found : Recognition}
    (h : ofSymbols atLineStart rest = some found) : ∃ s later, rest = s :: later := by
  cases rest with
  | nil => simp [ofSymbols] at h
  | cons s later => exact ⟨s, later, rfl⟩

/-- Every token takes at least one symbol. -/
theorem count_pos_of_ofSymbols {atLineStart : Bool} {rest : List Symbol} {found : Recognition}
    (h : ofSymbols atLineStart rest = some found) : 0 < found.count := by
  cases rest with
  | nil => simp [ofSymbols] at h
  | cons s rest =>
    simp only [ofSymbols, Option.some.injEq] at h
    subst h
    repeat' split
    · exact Word.count_recognize_pos ‹_›
    · rw [Numeral.count_recognition]
      apply Numeral.text_read_length_pos
      simp_all [startsNumber]
      grind
    · simp
    · simp
    · simp [Quotation.recognize, count, Leg.total]
    · exact count_comparison_pos ..
    · exact count_comparison_pos ..
    · exact count_single_pos _

end Recognition

end SheetFormula

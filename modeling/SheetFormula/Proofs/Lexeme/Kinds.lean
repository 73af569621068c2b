import Mathlib.Tactic.Common
import SheetFormula.Proofs.Lexeme.Tiling

/-!
# Which recognizer a token comes from

The character in front decides which recognizer is asked for a token: the one for words, for
numbers, for strings, for the equals sign and the comparisons, or the one for all other characters.
`Recognition.Kind` lists these five ways.

Main results:
* `Recognition.kind_of_ofSymbols`: what is recognized is recognized in one of the five ways.
* `Recognition.Kind.eq_word`, `Recognition.Kind.eq_string` and `Recognition.Kind.eq_illegal`: the
  kind of a token tells which of them was taken.
* `Recognition.faults_word`, `Recognition.faults_string` and `Recognition.faults_single`: which
  faults the recognizers note.
-/

namespace SheetFormula

open Text (Symbol)

/-- Whether a kind of token is scanned from a word, or from two with a colon between them. -/
def Token.isWord (t : Token) : Bool := t = .ident || t = .reference || t = .range

/-- A lexeme that is scanned from a word keeps its text. -/
theorem Token.keepsText_of_isWord {t : Token} (isWord : t.isWord) : t.keepsText := by
  cases t <;> first | rfl | exact absurd isWord Bool.false_ne_true

namespace Recognition

/-- Whether a character with nothing behind it is left to the last of the recognizers. -/
def Unclaimed (c : Char) : Prop :=
  ¬ Text.isLetter c ∧ ¬ c.isDigit ∧ c ∉ ['=', '"', '<', '>']

/-- The ways in which a token is recognized in front of `s :: rest`. -/
inductive Kind (s : Symbol) (rest : List Symbol) : Recognition → Prop
  | word (letter : Text.isLetter s.toChar) : Kind s rest (Word.recognize (s :: rest))
  | number (starts : startsNumber s.toChar rest) :
    Kind s rest (Numeral.read (s :: rest)).recognition
  | string (quote : s.toChar = '"') : Kind s rest (Quotation.recognize rest)
  /-- An operator or a punctuation mark. -/
  | mark {token : Token} {count : Nat} (bare : token.keepsText = false)
    (inside : count ≤ rest.length + 1) : Kind s rest (plain token count)
  | illegal (is : Token.ofChar s.toChar = .illegal) (unclaimed : Unclaimed s.toChar) :
    Kind s rest (single s.toChar)

variable {atLineStart : Bool} {s : Symbol} {rest : List Symbol} {found : Recognition}

/-- A comparison is recognized from its own character, if none of its tokens keeps a text. -/
theorem kind_comparison (alone : Token) (pairs : List (Char × Token))
    (bare : alone.keepsText = false) (bare' : ∀ pair ∈ pairs, pair.2.keepsText = false) :
    Kind s rest (comparison rest alone pairs) := by
  rcases comparison_cases rest alone pairs with ⟨d, both, front, mem, is⟩ | ⟨-, is⟩
  · rw [is]
    refine .mark (bare' (d, both) mem) ?_
    cases rest with
    | nil => cases front
    | cons t rest => simp
  · rw [is]
    exact .mark bare (Nat.le_add_left ..)

/-- A character that no other recognizer claims is recognized alone. -/
theorem kind_single (unclaimed : Unclaimed s.toChar) (rest : List Symbol) :
    Kind s rest (single s.toChar) := by
  rcases Token.accords_ofChar s.toChar with illegal | ⟨-, bare, -⟩
  · exact .illegal illegal unclaimed
  · have known : ¬ (Token.ofChar s.toChar = .illegal ∧ s.toChar ≠ '\x00' ∧
        s.toChar ≠ Text.replacement) := by
      rintro ⟨illegal, -⟩
      rw [illegal] at bare
      cases bare
    simp only [single, if_neg known]
    exact .mark bare (Nat.le_add_left ..)

/-- What is recognized is recognized in one of these ways. -/
theorem kind_of_ofSymbols (h : ofSymbols atLineStart (s :: rest) = some found) :
    Kind s rest found := by
  simp only [ofSymbols, Option.some.injEq] at h
  subst h
  split
  · next letter => exact .word letter
  next noLetter =>
  split
  · next starts => exact .number starts
  next noNumber =>
  split
  · refine .mark ?_ (Nat.le_add_left ..)
    split <;> rfl
  next noEqual =>
  split
  · next quote => exact .string quote
  next noQuote =>
  split
  · exact kind_comparison _ _ rfl (by decide)
  next noLess =>
  split
  · exact kind_comparison _ _ rfl (by decide)
  next noGreater =>
  refine kind_single ⟨noLetter, ?_, by simp [noEqual, noQuote, noLess, noGreater]⟩ rest
  exact fun digit => noNumber (by simp [startsNumber, digit])

/-! ## What the kind of a token tells -/

/-- The recognizer of words yields words. -/
theorem isWord_recognize (rest : List Symbol) : (Word.recognize rest).token.isWord := by
  simp only [Word.recognize]
  repeat' split
  all_goals rfl

/-- The recognizer of numbers yields one of three kinds of numbers. -/
theorem token_number (n : Numeral) : n.recognition.token = .integer ∨
    n.recognition.token = .float ∨ n.recognition.token = .imaginary := by
  unfold Numeral.recognition Numeral.token
  dsimp only
  split_ifs
  · exact .inr (.inr rfl)
  · exact .inr (.inl rfl)
  · exact .inl rfl

/-- A single character is the token that it spells. -/
theorem token_single (c : Char) : (single c).token = Token.ofChar c := by
  unfold single
  dsimp only
  split <;> rfl

/-- A single character is one symbol. -/
theorem count_single (c : Char) : (single c).count = 1 := by
  simp only [single]
  split <;> rfl

namespace Kind

/-- Words are scanned where a letter is in front. -/
theorem eq_word (kind : Kind s rest found) (isWord : found.token.isWord) :
    Text.isLetter s.toChar ∧ found = Word.recognize (s :: rest) := by
  cases kind with
  | word letter => exact ⟨letter, rfl⟩
  | number =>
    have number := token_number (Numeral.read (s :: rest))
    rcases number with is | is | is
    all_goals
      rw [is] at isWord
      exact absurd isWord Bool.false_ne_true
  | string => exact absurd isWord Bool.false_ne_true
  | mark bare _ =>
    have keeps := Token.keepsText_of_isWord isWord
    exact absurd (bare.symm.trans keeps) Bool.false_ne_true
  | illegal is =>
    rw [token_single, is] at isWord
    exact absurd isWord Bool.false_ne_true

/-- Strings are scanned where a quote is in front. -/
theorem eq_string (kind : Kind s rest found) (string : found.token = .string) :
    s.toChar = '"' ∧ found = Quotation.recognize rest := by
  cases kind with
  | word letter =>
    have isWord := isWord_recognize (s :: rest)
    rw [string] at isWord
    exact absurd isWord Bool.false_ne_true
  | number =>
    have number := token_number (Numeral.read (s :: rest))
    rw [string] at number
    rcases number with is | is | is <;> cases is
  | string quote => exact ⟨quote, rfl⟩
  | @mark token count bare _ =>
    obtain rfl : token = .string := string
    cases bare
  | illegal is =>
    rw [token_single, is] at string
    cases string

/-- A token is illegal exactly as a character that is none of the known ones. -/
theorem eq_illegal (kind : Kind s rest found) (illegal : found.token = .illegal) :
    found = single s.toChar ∧ Token.ofChar s.toChar = .illegal := by
  cases kind with
  | word letter =>
    have isWord := isWord_recognize (s :: rest)
    rw [illegal] at isWord
    exact absurd isWord Bool.false_ne_true
  | number =>
    have number := token_number (Numeral.read (s :: rest))
    rw [illegal] at number
    rcases number with is | is | is <;> cases is
  | string => cases illegal
  | @mark token count bare _ =>
    obtain rfl : token = .illegal := illegal
    cases bare
  | illegal is => exact ⟨rfl, is⟩

end Kind

/-! ## Faults -/

/-- What is wrong with a token, with the distance from its start. -/
def faults (found : Recognition) : List (Nat × LexicalFault) := found.legs.flatMap Leg.faults

/-- A plain token has no fault. -/
@[simp] theorem faults_plain (token : Token) (count : Nat) : (plain token count).faults = [] := rfl

/-- A word has no fault. -/
@[simp] theorem faults_word (rest : List Symbol) : (Word.recognize rest).faults = [] := by
  simp only [Word.recognize]
  repeat' split
  all_goals rfl

/-- A string has a fault exactly if no quote closes it. -/
theorem faults_string (rest : List Symbol) : (Quotation.recognize rest).faults =
    if (Quotation.extent rest).closed then [] else [(0, .unterminatedString)] := by
  simp [Quotation.recognize, faults]

/-- A single character has a fault exactly if it is illegal and neither NUL nor the replacement
character. -/
theorem faults_single (c : Char) : (single c).faults =
    if Token.ofChar c = .illegal ∧ c ≠ '\x00' ∧ c ≠ Text.replacement then
      [(0, .illegalCharacter c)] else [] := by
  simp only [single]
  split <;> rfl

end Recognition

/-- What a scanner recognizes behind a gap, it recognizes in one of the five ways. -/
theorem Scanner.kind_of_recognized {s : Scanner} {found : Recognition}
    (recognized : s.recognized? = some found) :
    ∃ t rest, s.behindGap.rest = t :: rest ∧ Recognition.Kind t rest found := by
  obtain ⟨t, rest, ahead⟩ := Recognition.exists_cons_of_ofSymbols recognized
  rw [recognized?, ahead] at recognized
  exact ⟨t, rest, ahead, Recognition.kind_of_ofSymbols recognized⟩

end SheetFormula

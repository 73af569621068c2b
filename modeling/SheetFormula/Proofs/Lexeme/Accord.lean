import Mathlib.Tactic.Common
import SheetFormula.Lexeme.Scanner
import SheetFormula.Proofs.Lexeme.Reader

/-!
# How lexemes accord with the source

What a scan recognizes is compared with the bytes that it was recognized in. `Token.Accords` says
for each kind of token what text it may stand for, what literal it keeps, and, for the equals sign
and the comparisons, what may stand around it.

Main results:
* `Recognition.outcome_of_ofSymbols`: the list of the things that recognition can come upon
  (`Recognition.Outcome`), by which the later proofs go.
* `Token.accords_of_isText`: a name or a value keeps the lossy reading of its text.
* `Reader.Behind.accords`: every recognition gives a lexeme that accords with its text.
-/

namespace SheetFormula

open Text (Symbol bytesOf)

/-- The bytes of a text. -/
def Text.encoded (text : String) : List UInt8 := text.toList.flatMap String.utf8EncodeChar

/-- Whether a kind of token is scanned with its text: names and values. -/
def Token.isText (t : Token) : Bool := t = .ident || t.isValue

/-- Whether a token of this kind, with this literal, may stand for `text` where the bytes `before`
precede it and the bytes `after` follow. -/
def Token.Accords (before text after : List UInt8) (literal : String) : Token → Prop
  | .ident | .reference | .range | .integer | .float | .imaginary | .string =>
    literal = Text.lossyString text
  | .illegal =>
    (∃ c, literal = String.singleton c ∧ text = String.utf8EncodeChar c) ∨
      (∃ b, text = [b] ∧ literal = String.singleton Text.replacement ∧
        Text.decodeChar? (b :: after) = none)
  | .lead => text = Text.encoded "=" ∧ literal = "" ∧ AtLineStart before
  | .equal => text = Text.encoded "=" ∧ literal = "" ∧ ¬ AtLineStart before
  | .less =>
    text = Text.encoded "<" ∧ literal = "" ∧
      ¬ Text.encoded "=" <+: after ∧ ¬ Text.encoded ">" <+: after
  | .greater => text = Text.encoded ">" ∧ literal = "" ∧ ¬ Text.encoded "=" <+: after
  | .endOfFormula | .boolean | .cell | .error | .errorReference | .function | .sheet | .and
  | .or => False
  | t => text = Text.encoded t.spelling ∧ literal = ""

namespace Recognition

/-- What can be recognized in front of `s :: rest`. -/
inductive Outcome (atLineStart : Bool) (s : Symbol) (rest : List Symbol) : Recognition → Prop
  /-- A name or a value. -/
  | text {found : Recognition} (isText : found.token.isText) : Outcome atLineStart s rest found
  /-- An equals sign. -/
  | equals (is : s.toChar = '=') :
    Outcome atLineStart s rest (plain (if atLineStart then .lead else .equal) 1)
  /-- A comparison of two characters. -/
  | pair {d : Char} {both : Token} (front : frontChar? rest = some d)
      (spelled : both.spelling = String.ofList [s.toChar, d])
      (legible : s.toChar ≠ Text.replacement ∧ d ≠ Text.replacement)
      (known : both = .lessEqual ∨ both = .notEqual ∨ both = .greaterEqual) :
    Outcome atLineStart s rest (plain both 2)
  | less (is : s.toChar = '<') (noEqual : frontChar? rest ≠ some '=')
      (noGreater : frontChar? rest ≠ some '>') : Outcome atLineStart s rest (plain .less 1)
  | greater (is : s.toChar = '>') (noEqual : frontChar? rest ≠ some '=') :
    Outcome atLineStart s rest (plain .greater 1)
  /-- A mark of one character, or a character that is none. -/
  | single {found : Recognition} (taken : found.count = 1)
      (is : found.token = Token.ofChar s.toChar) : Outcome atLineStart s rest found

/-- A number is scanned with its text. -/
theorem isText_numeral (n : Numeral) : n.token.isText := by
  simp only [Numeral.token]
  split_ifs <;> rfl

/-- A word is scanned with its text. -/
theorem isText_word (rest : List Symbol) : (Word.recognize rest).token.isText := by
  simp only [Word.recognize]
  repeat' split
  all_goals rfl

/-- A comparison takes its second character exactly if that is one of its pairs. -/
theorem comparison_cases (rest : List Symbol) (alone : Token) (pairs : List (Char × Token)) :
    (∃ d both, frontChar? rest = some d ∧ (d, both) ∈ pairs ∧
      comparison rest alone pairs = plain both 2) ∨
    ((∀ d both, (d, both) ∈ pairs → frontChar? rest ≠ some d) ∧
      comparison rest alone pairs = plain alone 1) := by
  unfold comparison
  cases front : frontChar? rest with
  | none => exact Or.inr ⟨fun _ _ _ => by simp, rfl⟩
  | some d =>
    cases found : List.lookup d pairs with
    | none =>
      refine Or.inr ⟨?_, by simp [found]⟩
      intro d' both mem same
      obtain rfl := Option.some.inj same
      have absent := List.lookup_eq_none_iff.mp found _ mem
      simp at absent
    | some both =>
      refine Or.inl ⟨d, both, rfl, ?_, by simp [found]⟩
      obtain ⟨before, after, rfl, -⟩ := List.lookup_eq_some_iff.mp found
      simp

/-- What is recognized is one of the outcomes. The cases are those of the decision about the
character in front. -/
theorem outcome_of_ofSymbols {atLineStart : Bool} {s : Symbol} {rest : List Symbol}
    {found : Recognition} (h : ofSymbols atLineStart (s :: rest) = some found) :
    Outcome atLineStart s rest found := by
  simp only [ofSymbols, Option.some.injEq] at h
  subst h
  split
  · exact .text (isText_word _)
  split
  · exact .text (isText_numeral _)
  split
  · next equals => exact .equals equals
  split
  · exact .text rfl
  split
  · next less =>
    rcases comparison_cases rest .less [('=', .lessEqual), ('>', .notEqual)] with
      ⟨d, both, front, mem, found⟩ | ⟨other, found⟩
    · rw [found]
      simp only [List.mem_cons, Prod.mk.injEq, List.not_mem_nil, or_false] at mem
      rcases mem with ⟨rfl, rfl⟩ | ⟨rfl, rfl⟩
      · exact .pair front (by rw [less]; rfl) (by rw [less]; decide) (by simp)
      · exact .pair front (by rw [less]; rfl) (by rw [less]; decide) (by simp)
    · rw [found]
      exact .less less (other '=' .lessEqual (by simp)) (other '>' .notEqual (by simp))
  split
  · next greater =>
    rcases comparison_cases rest .greater [('=', .greaterEqual)] with
      ⟨d, both, front, mem, found⟩ | ⟨other, found⟩
    · rw [found]
      obtain ⟨rfl, rfl⟩ := Prod.mk.inj (List.mem_singleton.mp mem)
      exact .pair front (by rw [greater]; rfl) (by rw [greater]; decide) (by simp)
    · rw [found]
      exact .greater greater (other '=' .greaterEqual (by simp))
  · refine .single ?_ ?_
    · simp only [single]
      split
      · simp [count, Leg.total]
      · simp
    · simp only [single]
      split <;> rfl

end Recognition

/-! ## Symbols as bytes -/

namespace Text

/-- The bytes of a text are those of its characters, one after the other. -/
theorem encoded_ofList (text : List Char) :
    encoded (String.ofList text) = text.flatMap String.utf8EncodeChar := by
  rw [encoded, String.toList_ofList]

/-- A symbol that looks like any character but the replacement is that character. -/
theorem Symbol.eq_character_of_toChar {s : Symbol} (legible : s.toChar ≠ replacement) :
    s = .character s.toChar := by
  cases s with
  | character c => rfl
  | stray b => exact absurd rfl legible

/-- A symbol that does not look like the replacement character has the bytes of its character. -/
theorem Symbol.bytes_of_toChar {s : Symbol} (legible : s.toChar ≠ replacement) :
    s.bytes = String.utf8EncodeChar s.toChar := by
  conv_lhs => rw [s.eq_character_of_toChar legible]
  rfl

/-- An ASCII character stands in front of the bytes only if it stands in front of the symbols. -/
theorem not_encode_prefix {rest : List Symbol} (genuine : ∀ s ∈ rest, s.Genuine) {c : Char}
    (ascii : c.toNat < 0x80) (other : frontChar? rest ≠ some c) :
    ¬ String.utf8EncodeChar c <+: bytesOf rest := by
  rintro ⟨after, stands⟩
  cases rest with
  | nil => simp [String.utf8EncodeChar_ne_nil] at stands
  | cons s rest =>
    obtain ⟨b, following, front⟩ := List.exists_cons_of_ne_nil s.bytes_ne_nil
    have byte : (UInt8.ofNat c.toNat).toNat = c.toNat := UInt8.toNat_ofNat_of_lt' (by
      show c.toNat < 256; omega)
    have encoded : String.utf8EncodeChar c = [UInt8.ofNat c.toNat] := by
      have h := encode_of_ascii (b := UInt8.ofNat c.toNat) (by omega)
      rwa [byte, Char.ofNat_toNat] at h
    rw [bytesOf_cons, encoded, front] at stands
    obtain ⟨rfl, -⟩ := List.cons.inj stands
    have same := s.eq_character_of_mem_bytes (genuine s (by simp)) (front ▸ List.mem_cons_self)
      (by omega)
    rw [byte, Char.ofNat_toNat] at same
    exact other (by rw [frontChar?_cons, same]; rfl)

end Text

/-! ## Recognized lexemes accord with their text -/

/-- A character is a mark that is spelled by it, or it is illegal. -/
theorem Token.accords_ofChar (c : Char) :
    ofChar c = .illegal ∨
      c ≠ Text.replacement ∧ (ofChar c).keepsText = false ∧ ∀ before text after literal,
        text = String.utf8EncodeChar c → literal = "" →
          (ofChar c).Accords before text after literal := by
  unfold ofChar
  split
  all_goals first
    | exact Or.inl rfl
    | refine Or.inr ⟨by decide, rfl, ?_⟩
      intro before text after literal spelled bare
      exact ⟨spelled, bare⟩

/-- A lexeme of a name or of a value keeps the lossy reading of its text. -/
theorem Token.accords_of_isText {t : Token} (isText : t.isText) (before after : List UInt8)
    (taken : List Symbol) :
    t.Accords before (bytesOf taken) after (Scanner.literal t taken) := by
  cases t <;> first | rfl | cases isText

/-- **Recognitions accord**: what a reader recognizes in front of it, with the literal that a
lexeme keeps of it, accords with the bytes around it. -/
theorem Reader.Behind.accords {source : List UInt8} {passed : List Symbol} {r : Reader}
    (stands : r.Behind source passed) {found : Recognition}
    (h : Recognition.ofSymbols (decide (r.offset = r.lineStart)) r.rest = some found) :
    found.token.Accords (bytesOf passed) (bytesOf (r.rest.take found.count))
      (bytesOf (r.rest.drop found.count))
      (Scanner.literal found.token (r.rest.take found.count)) := by
  cases front : r.rest with
  | nil => simp [front, Recognition.ofSymbols] at h
  | cons s rest =>
    have genuine : ∀ t ∈ s :: rest, t.Genuine := fun t mem => stands.genuine (front ▸ mem)
    have one : bytesOf ((s :: rest).take 1) = s.bytes := by simp
    rw [front] at h
    cases Recognition.outcome_of_ofSymbols h with
    | text isText => exact Token.accords_of_isText isText ..
    -- The one lexeme that depends on what is in front of it, which `stands` ties to the reader.
    | equals is =>
      have bytes : s.bytes = Text.encoded "=" := by
        rw [s.bytes_of_toChar (by rw [is]; decide), is]
        rfl
      rw [Recognition.count_plain, one, bytes]
      by_cases lineStart : r.offset = r.lineStart
      · simp only [lineStart, decide_true, if_true]
        exact ⟨rfl, rfl, stands.lineStart_iff.mp lineStart⟩
      · simp only [lineStart, decide_false, Bool.false_eq_true, if_false]
        exact ⟨rfl, rfl, fun atStart => lineStart (stands.lineStart_iff.mpr atStart)⟩
    | @pair d both front spelled legible known =>
      obtain ⟨t, rest', rfl⟩ : ∃ t rest', rest = t :: rest' := by
        cases rest with
        | nil => cases front
        | cons t rest' => exact ⟨t, rest', rfl⟩
      obtain rfl : t.toChar = d := Option.some.inj front
      have two : bytesOf ((s :: t :: rest').take 2) = Text.encoded both.spelling := by
        rw [spelled, Text.encoded_ofList]
        simp [s.bytes_of_toChar legible.1, t.bytes_of_toChar legible.2]
      rw [Recognition.count_plain, two]
      rcases known with rfl | rfl | rfl
      all_goals exact ⟨rfl, rfl⟩
    -- Both marks are only said not to be in front as symbols, and it is bytes that must not follow.
    | less is noEqual noGreater =>
      have bytes : s.bytes = Text.encoded "<" := by
        rw [s.bytes_of_toChar (by rw [is]; decide), is]
        rfl
      have behind : ∀ t ∈ rest, t.Genuine := fun t mem => genuine t (List.mem_cons_of_mem s mem)
      rw [Recognition.count_plain, one, bytes]
      exact ⟨rfl, rfl, Text.not_encode_prefix behind (by decide) noEqual,
        Text.not_encode_prefix behind (by decide) noGreater⟩
    | greater is noEqual =>
      have bytes : s.bytes = Text.encoded ">" := by
        rw [s.bytes_of_toChar (by rw [is]; decide), is]
        rfl
      have behind : ∀ t ∈ rest, t.Genuine := fun t mem => genuine t (List.mem_cons_of_mem s mem)
      rw [Recognition.count_plain, one, bytes]
      exact ⟨rfl, rfl, Text.not_encode_prefix behind (by decide) noEqual⟩
    | single taken is =>
      rw [taken, one, is]
      rcases Token.accords_ofChar s.toChar with illegal | ⟨legible, bare, mark⟩
      -- An illegal lexeme is a character, or a byte where the bytes from it on spell none.
      · have literal : Scanner.literal .illegal ((s :: rest).take 1) =
            String.singleton s.toChar := by
          change Text.lossyString (bytesOf ((s :: rest).take 1)) = _
          rw [one, Text.lossyString, s.lossy_bytes (genuine s (by simp)),
            String.singleton_eq_ofList]
        rw [illegal, literal]
        cases s with
        | character c => exact Or.inl ⟨c, rfl, rfl⟩
        | stray b =>
          have ahead := Text.symbols_drop (front ▸ stands.symbols_eq)
          exact Or.inr ⟨b, rfl, rfl, (Text.symbols_tail ahead).2 b rfl⟩
      · refine mark _ _ _ _ (s.bytes_of_toChar legible) ?_
        simp only [Scanner.literal, bare, Bool.false_eq_true, if_false]

end SheetFormula

import Mathlib.Tactic.Common
import SheetFormula.Proofs.Lexeme.Ending
import SheetFormula.Proofs.Lexeme.Illegal
import SheetFormula.Proofs.Lexeme.Strings
import SheetFormula.Proofs.Lexeme.Words

/-!
# Literals alone

To find out where a lexeme ends a scan looks at what is behind it. Where something else has ended a
word, a number or a string, the end of a source does so as well, and so the literal of a lexeme,
scanned alone, is that lexeme again. There is one exception: a name may owe its kind to the
parenthesis behind it.

The literal of a string is what its bytes are read as, with replacements for what is malformed.
These are no quotes and no line feeds, so a text with doubled quotes still has them doubled when it
has been mended.

Main results:
* `Word.Reads.recognize_alone`, `Numeral.numberAhead_text` and `Quotation.standsAlone`: what ends
  words, numbers and strings may as well be the end of the source.
* `Quotation.mend_doubled`: a text that is doubled is still doubled when it has been mended.
* `Scanner.standsAlone_scan`: what one scan yields with its text stands alone.
* `standsAlone_of_mem_lexemes`: and so does every lexeme of a source that keeps its text.
-/

namespace SheetFormula

open Text (Symbol bytesOf symbols isWordChar)

/-- Whether a literal, scanned alone, is one lexeme of this kind that keeps it, and the end. -/
def Token.StandsAlone (t : Token) (literal : String) : Prop :=
  (lex (Text.encoded literal)).lexemes =
    [⟨⟨1⟩, t, literal⟩, ⟨⟨(Text.encoded literal).length + 1⟩, .endOfFormula, ""⟩]

instance (t : Token) (literal : String) : Decidable (t.StandsAlone literal) :=
  inferInstanceAs (Decidable (_ = _))

/-! ## Sources of one lexeme -/

namespace Scanner

/-- A source that one scan takes to its end has one lexeme and the end. -/
theorem lexemes_of_scan {source : List UInt8} (more : (start source).scan.1.token ≠ .endOfFormula)
    (rest : (start source).scan.2.reader.rest = []) : (lex source).lexemes =
      [(start source).scan.1.lexeme, ⟨.ofOffset source.length, .endOfFormula, ""⟩] := by
  obtain ⟨passed, stands⟩ := stands_after source 1
  have last : (start source).scan.2.scan.1.token = .endOfFormula := by
    rw [scan_at_rest rest]
    rfl
  have ends : (start source).scan.2.scan.1.lexeme = ⟨.ofOffset source.length, .endOfFormula, ""⟩ :=
    (scan_of_end (s := (start source).scan.2) stands last).1
  have stream : (start source).stream =
      ⟨[(start source).scan.1], (start source).scan.2.stream.finish⟩ := by
    rw [stream_of_ne more, stream_of_eq last]
  have finish : (start source).scan.2.stream.finish.scanned = (start source).scan.2.scan.1 := by
    rw [stream_of_eq last, scan_at_rest rest]
    rfl
  change (start source).stream.lexemes = _
  rw [stream, TokenStream.lexemes, finish, ends]
  rfl

/-- A literal stands alone if a scan takes it to its end. -/
theorem standsAlone_of_scan {t : Token} {literal : String} (more : t ≠ .endOfFormula)
    (lexeme : (start (Text.encoded literal)).scan.1.lexeme = ⟨.ofOffset 0, t, literal⟩)
    (rest : (start (Text.encoded literal)).scan.2.reader.rest = []) : t.StandsAlone literal := by
  have token : (start (Text.encoded literal)).scan.1.token = t := congrArg Lexeme.token lexeme
  have lexemes := lexemes_of_scan (token ▸ more) rest
  rw [lexeme] at lexemes
  exact lexemes

/-- Characters stand alone if all of them are recognized in front of nothing else. -/
theorem standsAlone_of_recognized {text : List Char} {found : Recognition}
    (recognized : Recognition.ofSymbols true (text.map .character) = some found)
    (solid : ∀ c ∈ text.head?, ¬ Text.isBlank c) (keeps : found.token.keepsText)
    (whole : found.count = text.length) : found.token.StandsAlone (String.ofList text) := by
  have source : (start (Text.encoded (String.ofList text))).reader =
      ⟨0, text.map .character, 0, []⟩ := by
    rw [Text.encoded_ofList, start, Reader.start, Text.symbols_encode]
  have none : gap (text.map .character) = [] := by
    cases text with
    | nil => rfl
    | cons c text => simp [gap, Symbol.toChar, solid c rfl]
  have here : (start (Text.encoded (String.ofList text))).behindGap =
      ⟨0, text.map .character, 0, []⟩ := by
    rw [behindGap, source, none]
    rfl
  have found? : (start (Text.encoded (String.ofList text))).recognized? = some found := by
    rw [recognized?, here]
    exact recognized
  obtain ⟨yields, leaves⟩ := scan_of_some found?
  rw [here] at yields leaves
  apply standsAlone_of_scan
  · intro last
    rw [last] at keeps
    cases keeps
  · rw [yields, whole]
    dsimp only
    rw [List.take_of_length_le (by simp), literal_characters keeps]
  · rw [leaves, Reader.rest_follow]
    exact List.drop_of_length_le ((List.length_map _).trans_le whole.ge)

end Scanner

/-! ## Words -/

namespace Word

variable {after behind : List UInt8} {word text : List Char} {token : Token}

/-- A word alone is the run of its characters. -/
theorem run_alone (wordly : ∀ c ∈ word, isWordChar c) : run (word.map .character) = word := by
  have alone := @runOf_characters isWordChar word [] wordly (by simp)
  rwa [List.append_nil] at alone

/-- **What is read as a word is recognized as the same where nothing is behind it**, unless a
parenthesis made a name of it. -/
theorem Reads.recognize_alone (reads : Reads word after token text behind)
    (wordly : ∀ c ∈ word, isWordChar c)
    (uncalled : token = .ident → ¬ Text.encoded "(" <+: behind) :
    recognize (text.map .character) = .plain token text.length := by
  have nothing : (word.map Symbol.character).drop word.length = [] :=
    List.drop_of_length_le (List.length_map _).le
  cases reads with
  | called parenthesis => exact absurd parenthesis (uncalled rfl)
  | name _ other =>
    simp only [recognize, run_alone wordly, nothing]
    rw [if_neg (by simp [frontChar?]), if_neg (mt isReference_iff.mp other)]
  | reference _ shaped _ =>
    simp only [recognize, run_alone wordly, nothing]
    rw [if_neg (by simp [frontChar?]), if_pos (isReference_iff.mpr shaped)]
    rfl
  | @range second _ _ shaped _ stands shaped' =>
    have ends : ∀ c ∈ (':' :: second).head?, ¬ isWordChar c := by
      rintro c ⟨⟩
      decide +kernel
    have behind : ((word ++ ':' :: second).map Symbol.character).drop word.length =
        .character ':' :: second.map .character := by
      rw [List.map_append, List.drop_left' (List.length_map _)]
      rfl
    have first : run ((word ++ ':' :: second).map .character) = word :=
      runOf_characters wordly ends
    have other : rangeEnd? (.character ':' :: second.map .character) = some second := by
      rw [rangeEnd?, if_pos (by rfl), List.tail_cons, run_alone stands.wordly]
      exact if_pos (isReference_iff.mpr shaped')
    simp only [recognize, first, behind, other]
    rw [if_neg (by simp [Symbol.toChar]), if_pos (isReference_iff.mpr shaped)]
    rw [List.length_append, List.length_cons, Nat.add_assoc, Nat.add_comm 1]

end Word

/-! ## Numbers -/

/-- Where a number is in front, one is in front of its text alone. -/
theorem Numeral.numberAhead_text {s : Symbol} {rest : List Symbol}
    (starts : Recognition.startsNumber s.toChar rest) :
    NumberAhead ((read (s :: rest)).text.map .character) := by
  have front : (read (s :: rest)).text <+: s.toChar :: rest.map Symbol.toChar :=
    inFront_text_read (s :: rest)
  simp only [Recognition.startsNumber, Bool.or_eq_true, Bool.and_eq_true, beq_iff_eq] at starts
  rcases starts with digit | ⟨point, behind⟩
  · have long : 0 < (read (s :: rest)).text.length := text_read_length_pos (.inl digit)
    generalize (read (s :: rest)).text = text at front long
    cases text with
    | nil => cases long
    | cons c text =>
      obtain ⟨rfl, -⟩ := List.cons_prefix_cons.mp front
      exact ⟨s.toChar, rfl, .inl digit⟩
  · cases rest with
    | nil => cases behind
    | cons t rest =>
      have digit : t.toChar.isDigit := behind
      have run : 0 < (runOf Radix.decimal.inRun (t :: rest)).length :=
        runOf_length_pos (by simp [Radix.inRun, digit])
      have long : 2 ≤ (read (s :: t :: rest)).text.length := by
        simp only [text, fractionText, fraction_read_of_point point, List.length_append,
          List.length_cons]
        omega
      generalize (read (s :: t :: rest)).text = text at front long
      rcases text with - | ⟨c, - | ⟨d, text⟩⟩
      · cases long
      · exact absurd long (by simp)
      · obtain ⟨rfl, later⟩ := List.cons_prefix_cons.mp front
        obtain ⟨rfl, -⟩ := List.cons_prefix_cons.mp later
        exact ⟨s.toChar, rfl, .inr ⟨point, t.toChar, rfl, digit⟩⟩

/-! ## Mended bytes -/

namespace Text

/-- Bytes with replacements for what is malformed in them. -/
def mend (bytes : List UInt8) : List UInt8 := (lossy bytes).flatMap String.utf8EncodeChar

/-- The bytes of what bytes are read as are these bytes, mended. -/
theorem encoded_lossyString_eq (bytes : List UInt8) : encoded (lossyString bytes) = mend bytes :=
  encoded_ofList _

/-- What has been mended is read as before. -/
theorem lossyString_mend (bytes : List UInt8) : lossyString (mend bytes) = lossyString bytes := by
  rw [lossyString, mend, ← bytesOf_characters, lossy_characters, lossyString]

/-- Bytes in front of others that no character continues into are mended on their own. -/
theorem mend_append (bytes : List UInt8) {after : List UInt8} (severs : Severs after) :
    mend (bytes ++ after) = mend bytes ++ mend after := by
  rw [mend, lossy_append bytes severs, List.flatMap_append, mend, mend]

/-- A byte in ASCII in front stays as it is. -/
theorem mend_cons {b : UInt8} (ascii : b.toNat < 0x80) (bytes : List UInt8) :
    mend (b :: bytes) = b :: mend bytes := by
  have read := lossy_encode_append (Char.ofNat b.toNat) bytes
  rw [encode_of_ascii ascii, List.singleton_append] at read
  rw [mend, read, List.flatMap_cons, encode_of_ascii ascii, mend]
  rfl

/-- Replacements bring in no byte in ASCII. -/
theorem mem_of_mem_mend {b : UInt8} (ascii : b.toNat < 0x80) {bytes : List UInt8}
    (mem : b ∈ mend bytes) : b ∈ bytes := by
  obtain ⟨c, read, among⟩ := List.mem_flatMap.mp mem
  apply encode_subset_of_mem_lossy read _ among
  rintro rfl
  have same := congrArg Char.toNat (eq_of_mem_encode among ascii)
  rw [toNat_charOfNat (by omega) (by omega)] at same
  exact absurd (same ▸ ascii) (by decide)

end Text

/-! ## Strings -/

namespace Quotation

/-- **A text that is doubled is still doubled when it has been mended**: replacements bring in no
quotes, and quotes are part of nothing that is replaced. -/
theorem mend_doubled (text : List UInt8) : Text.mend (doubled text) = doubled (Text.mend text) := by
  have ascii : quoteMark.toNat < 0x80 := by decide
  -- The induction is on the text behind the first quote.
  induction size : text.length using Nat.strongRecOn generalizing text with
  | _ size ih =>
  subst size
  by_cases quoted : quoteMark ∈ text
  · obtain ⟨front, later, rfl, first⟩ := List.eq_append_cons_of_mem quoted
    have severs : ∀ rest, Text.Severs (quoteMark :: rest) := by
      rintro rest b ⟨⟩
      exact ascii
    have pair : ∀ rest, doubled (quoteMark :: rest) = quoteMark :: quoteMark :: doubled rest :=
      fun rest => rfl
    have first' : quoteMark ∉ Text.mend front := mt (Text.mem_of_mem_mend ascii) first
    have behind := ih later.length (by rw [List.length_append, List.length_cons]; omega) later rfl
    rw [doubled_append, doubled_of_not_mem first, pair, Text.mend_append _ (severs _),
      Text.mend_cons ascii, Text.mend_cons ascii, behind, Text.mend_append _ (severs _),
      Text.mend_cons ascii, doubled_append, doubled_of_not_mem first', pair]
  · rw [doubled_of_not_mem quoted, doubled_of_not_mem (mt (Text.mem_of_mem_mend ascii) quoted)]

/-- What is between quotes is mended between quotes. -/
theorem mend_quoted (text : List UInt8) (closed : Bool) :
    Text.mend (quoteMark :: doubled text ++ closing closed) =
      quoteMark :: doubled (Text.mend text) ++ closing closed := by
  have ascii : quoteMark.toNat < 0x80 := by decide
  have nothing : Text.mend [] = [] := by simp [Text.mend, Text.lossy]
  have severs : Text.Severs (closing closed) := by
    cases closed <;> simp [closing, Text.Severs, ascii]
  have ending : Text.mend (closing closed) = closing closed := by
    cases closed with
    | true => rw [closing, Text.mend_cons ascii, nothing]
    | false => exact nothing
  rw [List.cons_append, Text.mend_cons ascii, Text.mend_append _ severs, mend_doubled, ending,
    List.cons_append]

/-- **What is read as a string stands alone as one**, closed or broken off as it was. -/
theorem standsAlone {text : List UInt8} (unbroken : lineFeed ∉ text) (closed : Bool) :
    Token.string.StandsAlone
      (Text.lossyString (quoteMark :: doubled text ++ closing closed)) := by
  have unbroken' : lineFeed ∉ Text.mend text := mt (Text.mem_of_mem_mend (by decide)) unbroken
  have reads : Reads (doubled (Text.mend text) ++ closing closed) (Text.mend text) closed [] :=
    ⟨by rw [List.append_nil], unbroken', by cases closed <;> simp [EndsAt]⟩
  obtain ⟨takes, -⟩ := Scanner.scan_string reads
  have source : Text.encoded (Text.lossyString (quoteMark :: doubled text ++ closing closed)) =
      quoteMark :: (doubled (Text.mend text) ++ closing closed) := by
    rw [Text.encoded_lossyString_eq, mend_quoted, List.cons_append]
  rw [← source] at takes
  apply Scanner.standsAlone_of_scan (by decide)
  · rw [takes.lexeme_eq, ← mend_quoted, Text.lossyString_mend]
  · rw [takes.rest_eq, Text.symbols]

end Quotation

/-! ## Illegal characters -/

namespace Recognition

/-- A character that no other recognizer claims is recognized by itself. -/
theorem Unclaimed.ofSymbols_character {c : Char} (unclaimed : Unclaimed c) (atLineStart : Bool) :
    ofSymbols atLineStart [.character c] = some (single c) := by
  obtain ⟨letter, digit, others⟩ := unclaimed
  simp only [List.mem_cons, List.not_mem_nil, or_false, not_or] at others
  simp [ofSymbols, Symbol.toChar, startsNumber, frontChar?, letter, digit, others]

/-- A character that is illegal stands alone as one. -/
theorem standsAlone_illegal {c : Char} (is : Token.ofChar c = .illegal) (unclaimed : Unclaimed c)
    (solid : ¬ Text.isBlank c) : Token.illegal.StandsAlone (String.singleton c) := by
  have token : (single c).token = .illegal := (token_single c).trans is
  have alone := @Scanner.standsAlone_of_recognized [c] (single c)
    (unclaimed.ofSymbols_character true) (by simpa using solid) (by rw [token]; rfl)
    (count_single c)
  rwa [token, ← String.singleton_eq_ofList] at alone

end Recognition

/-! ## One scan -/

namespace Scanner

variable {source : List UInt8} {passed : List Symbol} {s : Scanner}

/-- What a scan yields as a word stands alone, unless a parenthesis behind it made a name of it. -/
theorem standsAlone_word (stands : s.reader.Behind source passed) {t : Symbol} {rest : List Symbol}
    (ahead : s.behindGap.rest = t :: rest) (letter : Text.isLetter t.toChar)
    (uncalled : s.scan.1.token = .ident → ¬ Text.encoded "(" <+: bytesOf s.scan.2.reader.rest) :
    s.scan.1.token.StandsAlone s.scan.1.lexeme.literal := by
  obtain ⟨word, after, text, behind, standing, reads, takes⟩ :=
    takes_word stands (by rw [ahead]; rfl) letter
  rw [takes.rest_eq, Text.bytesOf_symbols] at uncalled
  rw [takes.lexeme_eq]
  have recognized := reads.recognize_alone standing.wordly uncalled
  obtain ⟨split, -, ends⟩ := reads.stands standing
  have symbols := (behindGap_stands stands).symbols_ahead
  rw [split, Text.symbols_encode_append, ahead] at symbols
  cases text with
  | nil =>
    have isWord := Text.isWordChar_of_isLetter letter
    apply absurd _ (ends _ isWord)
    apply (Text.frontChar?_symbols_iff (Text.legible_of_isWordChar isWord)).mp
    rw [show Text.symbols behind = t :: rest from symbols]
    rfl
  | cons c text =>
    obtain ⟨rfl, -⟩ := List.cons.inj symbols
    have isWord := Recognition.isWord_recognize ((c :: text).map .character)
    have alone : Recognition.ofSymbols true ((c :: text).map .character) =
        some (.plain s.scan.1.token (c :: text).length) := by
      rw [← recognized, List.map_cons, Recognition.ofSymbols, if_pos letter]
    rw [recognized] at isWord
    apply standsAlone_of_recognized alone
    · rintro _ ⟨⟩
      exact Text.isLetter_not_blank letter
    · exact Token.keepsText_of_isWord isWord
    · exact Recognition.count_plain ..

/-- What a scan yields as a number stands alone. -/
theorem standsAlone_number {t : Symbol} {rest : List Symbol} (ahead : s.behindGap.rest = t :: rest)
    (starts : Recognition.startsNumber t.toChar rest)
    (found : s.recognized? = some (Numeral.read (t :: rest)).recognition)
    (solid : ¬ Text.isBlank t.toChar) :
    s.scan.1.token.StandsAlone s.scan.1.lexeme.literal := by
  obtain ⟨yields, -⟩ := scan_of_some found
  have regular := Numeral.regular_read (t :: rest)
  have front := Numeral.inFront_text_read (t :: rest)
  have split := front.eq_append (Numeral.isAscii_text_read (t :: rest))
  have recognized := @Recognition.ofSymbols_of_numberAhead true _ (Numeral.numberAhead_text starts)
  rw [regular.read_text] at recognized
  generalize Numeral.read (t :: rest) = n at yields front split recognized
  have taken := n.take_total split
  rw [Scanned.token, yields, ahead, Recognition.count, taken]
  dsimp only
  rw [show n.recognition.token = n.token from rfl, n.literal_text]
  apply standsAlone_of_recognized recognized
  · intro c first
    obtain ⟨text, is⟩ : ∃ text, n.text = c :: text := List.head?_eq_some_iff.mp first
    rw [InFront, is] at front
    obtain ⟨rfl, -⟩ := List.cons_prefix_cons.mp front
    exact solid
  · exact n.keepsText_token
  · exact n.count_recognition

/-- **What a scan yields with its text stands alone**, unless it is a word that a parenthesis behind
it made a name. The cases are words, numbers, strings and single characters, as the kind of the
token tells. -/
theorem standsAlone_scan (stands : s.reader.Behind source passed)
    (keeps : s.scan.1.token.keepsText)
    (uncalled : s.scan.1.token = .ident → ¬ Text.encoded "(" <+: bytesOf s.scan.2.reader.rest) :
    s.scan.1.token.StandsAlone s.scan.1.lexeme.literal := by
  cases found? : s.recognized? with
  | none =>
    rw [Scanned.token, (scan_of_none found?).1] at keeps
    cases keeps
  | some found =>
    obtain ⟨t, rest, ahead, kind⟩ := kind_of_recognized found?
    have solid : ¬ Text.isBlank t.toChar := by
      rw [behindGap, Reader.rest_consume] at ahead
      exact solid_behind_gap ahead
    obtain ⟨yields, -⟩ := scan_of_some found?
    cases kind with
    | word letter => exact standsAlone_word stands ahead letter uncalled
    | number starts => exact standsAlone_number ahead starts found? solid
    | string quote =>
      obtain ⟨text, closed, after, reads, takes, -⟩ := takes_string stands ahead quote found?
      rw [Scanned.token, takes.lexeme_eq]
      exact Quotation.standsAlone reads.unbroken closed
    | mark bare =>
      rw [Scanned.token, yields] at keeps
      exact absurd (bare.symm.trans keeps) Bool.false_ne_true
    | illegal is unclaimed =>
      have genuine : t.Genuine := (behindGap_stands stands).genuine (ahead ▸ List.mem_cons_self)
      have token : (Recognition.single t.toChar).token = .illegal :=
        (Recognition.token_single _).trans is
      rw [Scanned.token, yields, token, Recognition.count_single, ahead, List.take_succ_cons,
        List.take_zero, literal_illegal genuine]
      exact Recognition.standsAlone_illegal is unclaimed solid

end Scanner

/-! ## Whole sources -/

/-- Where the text of a word ends, its scan has left its reader. -/
theorem Scanner.bytes_behind_word {source : List UInt8} {passed : List Symbol} {s : Scanner}
    (stands : s.reader.Behind source passed) (isWord : s.scan.1.token.isWord) :
    bytesOf s.scan.2.reader.rest = source.drop
      (s.scan.1.lexeme.pos.offset + (Text.encoded s.scan.1.lexeme.literal).length) := by
  obtain ⟨c, front, letter⟩ := front_of_isWord isWord
  obtain ⟨word, after, text, behind, -, -, takes⟩ := takes_word stands front letter
  obtain ⟨passed', stands'⟩ := scan_stands stands
  rw [← stands'.drop_offset, takes.offset_eq, takes.lexeme_eq, Text.encoded_ofList]
  rfl

/-- **Literals stand alone.** The literal of a lexeme that keeps its text, scanned alone, is this
lexeme at the start of its source, and the end; unless the lexeme is a name in front of a
parenthesis. -/
theorem standsAlone_of_mem_lexemes {source : List UInt8} {l : Lexeme}
    (mem : l ∈ (lex source).lexemes) (keeps : l.token.keepsText)
    (uncalled : l.token = .ident → ¬ Text.encoded "(" <+:
      source.drop (l.pos.offset + (Text.encoded l.literal).length)) :
    l.token.StandsAlone l.literal := by
  obtain ⟨n, is⟩ := List.mem_iff_getElem?.mp mem
  obtain rfl := Scanner.lexeme_scan_after is
  obtain ⟨passed, stands⟩ := Scanner.stands_after source n
  apply Scanner.standsAlone_scan stands keeps
  intro ident
  have isWord : ((Scanner.start source).after n).scan.1.token.isWord := by
    rw [ident]
    rfl
  rw [Scanner.bytes_behind_word stands isWord]
  exact uncalled ident

end SheetFormula

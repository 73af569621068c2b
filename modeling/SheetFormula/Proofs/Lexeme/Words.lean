import Mathlib.Tactic.Common
import SheetFormula.Proofs.Lexeme.Lines
import SheetFormula.Proofs.Lexeme.NumberScan

/-!
# How words are classified

A word is looked at in the bytes of a source, without the scanner: `Word.Stands` says that a word
stands in front of some bytes and is as long as can be, and `Word.Reads` by what it is classified:
by an opening parenthesis behind it, by its shape, and by a colon and another word behind that. The
word behind a colon is looked at from the reference in front of it, and unless a range is made of
the two nothing comes of that, neither a move nor a report.

Main results:
* `Word.recognize_reads`: what the scanner recognizes is what is read so.
* `Scanner.takes_word`: a scan in front of a letter takes what the word there is read as.
* `words_classified`: this of every scan of a source, which moves over exactly the characters that
  it has looked at and found to belong to the lexeme.
-/

namespace SheetFormula

open Text (Symbol bytesOf symbols isWordChar)

/-! ## Characters in bytes -/

namespace Text

/-- The replacement character stands in no word. -/
theorem not_isWordChar_replacement : ¬ isWordChar replacement := by
  decide +kernel

/-- NUL stands in no word. -/
theorem not_isWordChar_nul : ¬ isWordChar '\x00' := by
  decide +kernel

/-- A character of a word is not the replacement character. -/
theorem legible_of_isWordChar {c : Char} (isWord : isWordChar c) : c ≠ replacement := by
  rintro rfl
  exact not_isWordChar_replacement isWord

/-- A letter stands in words. -/
theorem isWordChar_of_isLetter {c : Char} (letter : isLetter c) : isWordChar c := by
  rw [isWordChar, letter, Bool.true_or]

/-- A character other than the replacement is in front of the symbols of a source exactly if its
encoding is in front of the source. -/
theorem frontChar?_symbols_iff {source : List UInt8} {c : Char} (legible : c ≠ replacement) :
    frontChar? (symbols source) = some c ↔ String.utf8EncodeChar c <+: source := by
  constructor
  · intro front
    have whole := bytesOf_symbols source
    cases ahead : symbols source with
    | nil => rw [ahead] at front; cases front
    | cons s rest =>
      rw [ahead] at front whole
      obtain rfl : s.toChar = c := Option.some.inj front
      rw [← s.bytes_of_toChar legible, ← whole, bytesOf_cons]
      exact List.prefix_append ..
  · intro stands
    have read := decodeChar?_eq_some_iff.mpr ⟨rfl, stands⟩
    rw [symbols_of_decodeChar? read]
    rfl

/-- A letter is not blank. -/
theorem isLetter_not_blank {c : Char} (letter : isLetter c) : ¬ isBlank c := by
  intro blank
  simp only [isBlank, Bool.or_eq_true, beq_iff_eq] at blank
  rcases blank with ((rfl | rfl) | rfl) | rfl
  all_goals exact absurd letter (by decide +kernel)

end Text

namespace Word

/-! ## Words in bytes -/

/-- The words that have the shape of a reference: a column, or a column and a row. -/
inductive Shaped : List Char → Prop
  | column {c : Char} (letter : c.isAlpha) : Shaped [c]
  | cell {c d : Char} (letter : c.isAlpha) (digit : d.isDigit) : Shaped [c, d]

/-- The shape of a reference, told letter by letter. -/
theorem isReference_iff {word : List Char} : isReference word ↔ Shaped word := by
  constructor
  · intro reference
    match word with
    | [_] => exact .column reference
    | [_, _] =>
      obtain ⟨letter, digit⟩ := (Bool.and_eq_true ..).mp reference
      exact .cell letter digit
  · rintro (letter | ⟨letter, digit⟩)
    · exact letter
    · exact (Bool.and_eq_true ..).mpr ⟨letter, digit⟩

/-- Whether a word, which may be empty, stands in front of some bytes and is as long as can be, with
the bytes `after` behind it. -/
structure Stands (bytes : List UInt8) (word : List Char) (after : List UInt8) : Prop where
  bytes_eq : bytes = word.flatMap String.utf8EncodeChar ++ after
  wordly : ∀ c ∈ word, isWordChar c
  longest : ∀ c, isWordChar c → ¬ String.utf8EncodeChar c <+: after

/-- The token that a word is read as where the bytes `after` are behind it, with the text of this
token and the bytes behind that. -/
inductive Reads (word : List Char) (after : List UInt8) :
    Token → (text : List Char) → (behind : List UInt8) → Prop
  /-- In front of an opening parenthesis every word is a name. -/
  | called (parenthesis : Text.encoded "(" <+: after) : Reads word after .ident word after
  | name (uncalled : ¬ Text.encoded "(" <+: after) (other : ¬ Shaped word) :
    Reads word after .ident word after
  /-- Two references with a colon between them are a range. -/
  | range {second : List Char} {further behind : List UInt8} (shaped : Shaped word)
      (colon : after = Text.encoded ":" ++ further) (stands : Stands further second behind)
      (shaped' : Shaped second) : Reads word after .range (word ++ ':' :: second) behind
  /-- A reference alone: whatever is behind a colon, it is no reference. -/
  | reference (uncalled : ¬ Text.encoded "(" <+: after) (shaped : Shaped word)
      (alone : ∀ second further behind, after = Text.encoded ":" ++ further →
        Stands further second behind → ¬ Shaped second) :
    Reads word after .reference word after

/-- The replacement character is not among the characters of a word. -/
theorem replacement_not_mem {word : List Char} (wordly : ∀ c ∈ word, isWordChar c) :
    Text.replacement ∉ word :=
  fun mem => Text.not_isWordChar_replacement (wordly _ mem)

/-- **The run in front of the symbols of a source is the word in front of the source.** -/
theorem stands_iff {bytes after : List UInt8} {word : List Char} :
    Stands bytes word after ↔
      word = run (symbols bytes) ∧ after = bytesOf ((symbols bytes).drop word.length) := by
  constructor
  · rintro ⟨rfl, wordly, longest⟩
    have ends : ∀ c, frontChar? (symbols after) = some c → ¬ isWordChar c := by
      rintro c front isWord
      apply longest c isWord
      exact (Text.frontChar?_symbols_iff (Text.legible_of_isWordChar isWord)).mp front
    rw [Text.symbols_encode_append, run, runOf_append_of_ends wordly ends,
      List.drop_left' (List.length_map _), Text.bytesOf_symbols]
    exact ⟨rfl, rfl⟩
  · rintro ⟨rfl, rfl⟩
    have wordly : ∀ c ∈ run (symbols bytes), isWordChar c := fun c mem => mem_runOf mem
    have split := (InFront.runOf isWordChar (symbols bytes)).eq_append_of_legible
      (replacement_not_mem wordly)
    refine ⟨?_, wordly, ?_⟩
    · have whole := congrArg bytesOf split
      rw [Text.bytesOf_symbols, Text.bytesOf_append] at whole
      rw [← Text.bytesOf_characters]
      exact whole
    · intro c isWord stands
      have behind :=
        (Text.frontChar?_symbols_iff (Text.legible_of_isWordChar isWord)).mpr stands
      rw [run, Text.symbols_drop split] at behind
      exact not_inClass_behind_run behind isWord

/-- A range ends where the word behind a colon is a reference. -/
theorem rangeEnd?_symbols_iff {after : List UInt8} {second : List Char} :
    rangeEnd? (symbols after) = some second ↔
      Shaped second ∧ ∃ further behind, after = Text.encoded ":" ++ further ∧
        Stands further second behind := by
  have colon_legible : ':' ≠ Text.replacement := by decide
  have symbols_colon : ∀ further, symbols (Text.encoded ":" ++ further) =
      .character ':' :: symbols further := Text.symbols_encode_append [':']
  constructor
  · intro ends
    obtain ⟨colon, other, reference⟩ := rangeEnd?_eq_some ends
    obtain ⟨further, rfl⟩ := (Text.frontChar?_symbols_iff colon_legible).mp colon
    refine ⟨isReference_iff.mp reference, further, _, rfl, stands_iff.mpr ⟨?_, rfl⟩⟩
    rw [other, show symbols (String.utf8EncodeChar ':' ++ further) = _ from symbols_colon further,
      List.tail_cons]
  · rintro ⟨shaped, further, behind, rfl, stands⟩
    obtain ⟨other, -⟩ := stands_iff.mp stands
    have reference := isReference_iff.mpr shaped
    rw [other] at reference ⊢
    rw [rangeEnd?, symbols_colon, if_pos (by rfl), List.tail_cons]
    exact if_pos reference

/-- In front of any bytes there stands a word, empty perhaps. -/
theorem exists_stands (bytes : List UInt8) : ∃ word after, Stands bytes word after :=
  ⟨_, _, stands_iff.mpr ⟨rfl, rfl⟩⟩

variable {bytes after behind : List UInt8} {word text : List Char} {token : Token}

/-- **Words are recognized as they are read**, with all characters of their text and no other. -/
theorem recognize_reads (stands : Stands bytes word after) :
    ∃ token text behind, Reads word after token text behind ∧
      recognize (symbols bytes) = .plain token text.length := by
  obtain ⟨is, rest⟩ := stands_iff.mp stands
  have split := List.take_append_drop word.length (symbols bytes)
  have later : (symbols bytes).drop word.length = symbols after := by
    rw [rest, Text.symbols_drop split.symm]
  have called_iff : frontChar? (symbols after) = some '(' ↔ Text.encoded "(" <+: after :=
    Text.frontChar?_symbols_iff (by decide)
  simp only [recognize, ← is, later]
  split
  · next parenthesis =>
    exact ⟨.ident, word, after, .called (called_iff.mp parenthesis), rfl⟩
  next other =>
  have uncalled := mt called_iff.mpr other
  split
  · next reference =>
    have shaped := isReference_iff.mp reference
    split
    · next second ends =>
      obtain ⟨shaped', further, behind, colon, stands'⟩ := rangeEnd?_symbols_iff.mp ends
      refine ⟨.range, _, behind, .range shaped colon stands' shaped', ?_⟩
      rw [List.length_append, List.length_cons, Nat.add_assoc, Nat.add_comm 1]
    · next alone =>
      refine ⟨.reference, word, after, .reference uncalled shaped ?_, rfl⟩
      intro second further behind colon stands' shaped'
      have ends := rangeEnd?_symbols_iff.mpr ⟨shaped', further, behind, colon, stands'⟩
      rw [alone] at ends
      cases ends
  · next name =>
    exact ⟨.ident, word, after, .name uncalled (mt isReference_iff.mpr name), rfl⟩

/-- What is read is in front, and no character of a word is behind it. -/
theorem Reads.stands (reads : Reads word after token text behind)
    (stands : Stands bytes word after) :
    bytes = text.flatMap String.utf8EncodeChar ++ behind ∧
      (∀ c ∈ text, isWordChar c ∨ c = ':') ∧
      ∀ c, isWordChar c → ¬ String.utf8EncodeChar c <+: behind := by
  have alone := fun c mem => Or.inl (b := c = ':') (stands.wordly c mem)
  cases reads with
  | called | name | reference => exact ⟨stands.bytes_eq, alone, stands.longest⟩
  | range shaped colon stands' shaped' =>
    refine ⟨?_, ?_, stands'.longest⟩
    · rw [stands.bytes_eq, colon, stands'.bytes_eq, List.flatMap_append, List.flatMap_cons]
      simp only [List.append_assoc]
      rfl
    · rw [List.forall_mem_append, List.forall_mem_cons]
      exact ⟨alone, .inr rfl, fun c mem => .inl (stands'.wordly c mem)⟩

end Word

/-! ## Scans in front of words -/

namespace Scanner

/-- Whether a scan took a text, from an offset on, as a lexeme, and nothing more: it leaves its
reader in front of the bytes `behind`, and reports what is wrong there and nothing else. -/
structure Takes (s : Scanner) (offset : Nat) (text : List Char) (behind : List UInt8) : Prop where
  lexeme_eq : s.scan.1.lexeme = ⟨.ofOffset offset, s.scan.1.token, String.ofList text⟩
  offset_eq : s.scan.2.reader.offset = offset + (text.flatMap String.utf8EncodeChar).length
  rest_eq : s.scan.2.reader.rest = symbols behind
  reports_eq : s.scan.1.reports = s.scan.2.reader.faults

variable {source behind : List UInt8} {passed : List Symbol} {s : Scanner}

/-- A scan that recognizes characters without a fault takes them. -/
theorem takes_of_plain (stands : s.reader.Behind source passed) {token : Token} {text : List Char}
    (found : s.recognized? = some (.plain token text.length)) (keeps : token.keepsText)
    (ahead : s.behindGap.rest = text.map .character ++ symbols behind)
    (harmless : '\x00' ∉ text) : s.Takes s.behindGap.offset text behind := by
  have here := behindGap_stands stands
  obtain ⟨yields, leaves⟩ := scan_of_some found
  have total : Leg.total (Recognition.plain token text.length).legs = text.length :=
    Recognition.count_plain token text.length
  have front : s.behindGap.rest.take text.length = text.map .character := by
    rw [ahead, List.take_left' (List.length_map _)]
  have faultless : ∀ t ∈ s.behindGap.rest.take text.length, t.fault? = none := by
    rw [front, List.forall_mem_map]
    rintro c mem
    apply if_neg
    rintro rfl
    exact harmless mem
  have more : text.length ≠ 0 := by
    have taken := Recognition.count_pos_of_ofSymbols found
    rw [Recognition.count_plain] at taken
    exact Nat.ne_of_gt taken
  refine ⟨?_, ?_, ?_, ?_⟩
  · rw [Scanned.token, yields, Recognition.count_plain, front]
    exact congrArg _ (literal_characters keeps text)
  · have moved := (here.follow s.behindGap.offset (Recognition.plain token text.length).legs)
    rw [leaves, moved.offset_eq, total, front, Text.bytesOf_append, List.length_append,
      ← here.offset_eq, Text.bytesOf_characters]
  · rw [leaves, Reader.rest_follow, total, ahead, List.drop_left' (List.length_map _)]
  · rw [(scan_reports s).2, found, Reader.reports_consume_gap]
    dsimp only
    rw [Reader.reports_follow _ (by simp [Recognition.plain]) (total ▸ faultless), total,
      if_neg more, leaves]
    have quiet : s.behindGap.faults = [] := Reader.faults_of_harmless _ more faultless
    rw [behindGap] at quiet
    rw [quiet, ite_self, List.nil_append]

/-- **A scan in front of a letter takes what the word there is read as.** -/
theorem takes_word (stands : s.reader.Behind source passed) {c : Char}
    (front : frontChar? s.behindGap.rest = some c) (letter : Text.isLetter c) :
    ∃ word after text behind, Word.Stands (bytesOf s.behindGap.rest) word after ∧
      Word.Reads word after s.scan.1.token text behind ∧
      s.Takes s.behindGap.offset text behind := by
  have here := behindGap_stands stands
  obtain ⟨word, after, ahead⟩ := Word.exists_stands (bytesOf s.behindGap.rest)
  obtain ⟨token, text, behind, reads, recognized⟩ := Word.recognize_reads ahead
  rw [here.symbols_ahead] at recognized
  have found : s.recognized? = some (.plain token text.length) := by
    cases symbols : s.behindGap.rest with
    | nil => rw [symbols] at front; cases front
    | cons t rest =>
      rw [symbols] at front recognized
      obtain rfl : t.toChar = c := Option.some.inj front
      simp only [recognized?, symbols, Recognition.ofSymbols, if_pos letter, recognized]
  have scanned : s.scan.1.token = token := by
    rw [Scanned.token, (scan_of_some found).1]
    rfl
  obtain ⟨split, characters, -⟩ := reads.stands ahead
  refine ⟨word, after, text, behind, ahead, scanned ▸ reads, ?_⟩
  apply takes_of_plain stands found
  · have isWord := Recognition.isWord_recognize s.behindGap.rest
    rw [recognized] at isWord
    exact Token.keepsText_of_isWord isWord
  · rw [← Text.symbols_encode_append, ← split, here.symbols_ahead]
  · intro mem
    rcases characters _ mem with isWord | colon
    · exact Text.not_isWordChar_nul isWord
    · exact absurd colon (by decide)

/-- The same, told of the bytes ahead: behind blank ones, those of a letter are in front. -/
theorem takes_word_of_bytes (stands : s.reader.Behind source passed) {blanks body : List UInt8}
    (ahead : bytesOf s.reader.rest = blanks ++ body) (blank : ∀ b ∈ blanks, isBlankByte b)
    {c : Char} (letter : Text.isLetter c) (front : String.utf8EncodeChar c <+: body) :
    ∃ word after text behind, Word.Stands body word after ∧
      Word.Reads word after s.scan.1.token text behind ∧
      body = text.flatMap String.utf8EncodeChar ++ behind ∧
      s.Takes (s.reader.offset + blanks.length) text behind := by
  have solid : ∀ b ∈ body.head?, ¬ isBlankByte b := by
    obtain ⟨rest, rfl⟩ := front
    rw [List.head?_append_of_ne_nil _ String.utf8EncodeChar_ne_nil]
    have unblank := Text.isLetter_not_blank letter
    exact fun b => not_isBlankByte_head (s := .character c) trivial unblank
  have offset := offset_behindGap_of_bytes stands ahead blank solid
  obtain ⟨-, behindGap, -⟩ := behindGap_of_bytes stands ahead blank solid
  have legible := Text.legible_of_isWordChar (Text.isWordChar_of_isLetter letter)
  have found := (Text.frontChar?_symbols_iff legible).mpr front
  rw [← behindGap] at found
  obtain ⟨word, after, text, behind, standing, reads, takes⟩ := takes_word stands found letter
  rw [behindGap, Text.bytesOf_symbols] at standing
  rw [offset] at takes
  exact ⟨word, after, text, behind, standing, reads, (reads.stands standing).1, takes⟩

/-- What a scan yields as a word has been taken in front of a letter. -/
theorem front_of_isWord (isWord : s.scan.1.token.isWord) :
    ∃ c, frontChar? s.behindGap.rest = some c ∧ Text.isLetter c := by
  cases found? : s.recognized? with
  | none =>
    rw [Scanned.token, (scan_of_none found?).1] at isWord
    exact absurd isWord Bool.false_ne_true
  | some found =>
    rw [Scanned.token, (scan_of_some found?).1] at isWord
    obtain ⟨t, rest, ahead, kind⟩ := kind_of_recognized found?
    exact ⟨t.toChar, by rw [ahead, frontChar?_cons], (kind.eq_word isWord).1⟩

/-- Behind what a scan yields as a word there is no letter and no digit. -/
theorem ends_of_isWord (stands : s.reader.Behind source passed) (isWord : s.scan.1.token.isWord) :
    ∃ behind, source.drop s.scan.1.pos.offset = Text.encoded s.scan.1.lexeme.literal ++ behind ∧
      ∀ c, isWordChar c → ¬ String.utf8EncodeChar c <+: behind := by
  obtain ⟨c, front, letter⟩ := front_of_isWord isWord
  obtain ⟨word, after, text, behind, standing, reads, takes⟩ := takes_word stands front letter
  obtain ⟨split, -, ends⟩ := reads.stands standing
  have here := (behindGap_stands stands).drop_offset
  refine ⟨behind, ?_, ends⟩
  rw [Scanned.pos, takes.lexeme_eq, Text.encoded_ofList, ← split, ← here]
  rfl

end Scanner

/-- **Words are classified by what follows them, and a scan takes what it has looked at.** Wherever
a scan comes upon a letter behind a gap, it yields what the longest word there is read as, leaves
its reader behind the text of that and reports nothing but what is wrong with the symbol behind it.
So no letter and no digit is behind a lexeme that is a name, a reference or a range. -/
theorem words_classified (source : List UInt8) :
    (∀ (n : Nat) (blanks body : List UInt8) (c : Char),
      source.drop ((Scanner.start source).after n).reader.offset = blanks ++ body →
      (∀ b ∈ blanks, isBlankByte b) → Text.isLetter c → String.utf8EncodeChar c <+: body →
      ∃ word after text behind, Word.Stands body word after ∧
        Word.Reads word after ((Scanner.start source).after n).scan.1.token text behind ∧
        body = text.flatMap String.utf8EncodeChar ++ behind ∧
        ((Scanner.start source).after n).Takes
          (((Scanner.start source).after n).reader.offset + blanks.length) text behind) ∧
    ∀ l ∈ (lex source).lexemes, l.token = .ident ∨ l.token = .reference ∨ l.token = .range →
      ∃ behind, source.drop l.pos.offset = Text.encoded l.literal ++ behind ∧
        ∀ c, isWordChar c → ¬ String.utf8EncodeChar c <+: behind := by
  constructor
  · intro n blanks body c ahead blank letter front
    obtain ⟨passed, stands⟩ := Scanner.stands_after source n
    rw [stands.drop_offset] at ahead
    exact Scanner.takes_word_of_bytes stands ahead blank letter front
  · intro l mem kind
    have isWord : l.token.isWord := by rcases kind with is | is | is <;> rw [is] <;> rfl
    obtain ⟨n, is⟩ := List.mem_iff_getElem?.mp mem
    obtain rfl := Scanner.lexeme_scan_after is
    obtain ⟨passed, stands⟩ := Scanner.stands_after source n
    exact Scanner.ends_of_isWord stands isWord

/-- A range in front of a zero byte. The word behind the colon ends there, and the byte, which the
scan has looked at and come to stand in front of, is reported once. -/
theorem words_classified_zero_byte :
    ∃ word after behind, Word.Stands (Text.encoded "a1:b" ++ [0x00]) word after ∧
      Word.Reads word after .range "a1:b".toList behind ∧
      (Scanner.start (Text.encoded "a1:b" ++ [0x00])).Takes 0 "a1:b".toList behind ∧
      (Scanner.start (Text.encoded "a1:b" ++ [0x00])).scan.1.reports =
        [⟨4, "illegal character NUL"⟩] := by
  obtain ⟨word, after, text, behind, stands, reads, -, takes⟩ :=
    (words_classified (Text.encoded "a1:b" ++ [0x00])).1 0 [] _ 'a' rfl (by simp)
      (by decide +kernel) (by decide +kernel)
  have lexeme : (Scanner.start (Text.encoded "a1:b" ++ [0x00])).scan.1.lexeme =
      ⟨.ofOffset 0, .range, "a1:b"⟩ := by
    decide +kernel
  have literal := congrArg Lexeme.literal (takes.lexeme_eq.symm.trans lexeme)
  obtain rfl : text = "a1:b".toList := by
    rw [← show String.ofList text = "a1:b" from literal, String.toList_ofList]
  have token : (Scanner.start (Text.encoded "a1:b" ++ [0x00])).scan.1.token = .range :=
    congrArg Lexeme.token lexeme
  exact ⟨word, after, behind, stands, token ▸ reads, takes, by decide +kernel⟩

end SheetFormula

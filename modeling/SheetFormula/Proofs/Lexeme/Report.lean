import Mathlib.Tactic.Common
import SheetFormula.Proofs.Lexeme.Kinds
import SheetFormula.Proofs.Lexeme.Numeral
import SheetFormula.Proofs.Lexeme.Order

/-!
# What the scanner reports

A scanner reports what is wrong with the characters of its source as it comes upon them. The stream
of a scanner is what its scans yield one after the other, so that all that is reported on the way to
the end is what the first scans report.

Main results:
* `Scanner.scan_lexical`: whatever a scan reports is worded as one of its faults, at an offset that
  is not behind the end of the source (`Diagnostic.IsLexical`).
* `Scanner.nthScan_lexical`: so it is of any number of scans.
* `Scanner.advance_stream` and `Scanner.lookahead_skip`: a stream is what is scanned one after the
  other.
-/

namespace SheetFormula

open Text (Symbol bytesOf)

/-- Whether a diagnostic is one that a scanner can make of a source. -/
structure Diagnostic.IsLexical (source : List UInt8) (d : Diagnostic) : Prop where
  offset_le : d.offset ≤ source.length
  worded : ∃ fault : LexicalFault, d.message = fault.message

/-! ## How faults are worded -/

/-- What the message of a fault starts with. -/
def LexicalFault.head : LexicalFault → String
  | nul | malformedBytes | illegalCharacter _ => "illegal "
  | radixPoint _ | invalidDigit _ _ => "invalid "
  | noDigits .hexadecimal | hexadecimalWithoutExponent => "hexadecimal "
  | noDigits .octal => "octal "
  | noDigits .binary => "binary "
  | noDigits .decimal | noDigits .leadingZero => "decimal "
  | exponentOfNonDecimal _ | exponentOfNonHexadecimal _ | misplacedSeparator => "'"
  | noExponentDigits => "exponent "
  | unterminatedString => "string "

/-- A message starts with the words that all messages of its sort start with. -/
theorem LexicalFault.message_eq (fault : LexicalFault) :
    ∃ tail, fault.message = fault.head ++ tail := by
  have quoted : ∀ c, ∃ tail, Text.quotedChar c = "'" ++ tail := by
    intro c
    refine ⟨String.ofList (Text.escapeChar '\'' c ++ ['\'']), ?_⟩
    rw [Text.quotedChar, ← List.singleton_append, String.ofList_append]
  match fault with
  | .nul => exact ⟨"character NUL", rfl⟩
  | .malformedBytes => exact ⟨"UTF-8 encoding", rfl⟩
  | .illegalCharacter c =>
    refine ⟨"character U+" ++ (String.ofList (Text.hexDigits4 c.toNat) ++
      (" " ++ Text.quotedChar c)), ?_⟩
    unfold message
    simp only [toString, String.append_assoc]
    rfl
  | .radixPoint radix =>
    refine ⟨"radix point in " ++ radix.literalName, ?_⟩
    rw [← String.append_assoc]
    rfl
  | .noDigits radix =>
    cases radix with
    | hexadecimal => exact ⟨"literal has no digits", rfl⟩
    | octal => exact ⟨"literal has no digits", rfl⟩
    | binary => exact ⟨"literal has no digits", rfl⟩
    | decimal => exact ⟨"literal has no digits", rfl⟩
    | leadingZero => exact ⟨"literal has no digits", rfl⟩
  | .exponentOfNonDecimal marker =>
    obtain ⟨tail, quote⟩ := quoted marker
    refine ⟨tail ++ " exponent requires decimal mantissa", ?_⟩
    show Text.quotedChar marker ++ " exponent requires decimal mantissa" = _
    rw [quote, String.append_assoc]
    rfl
  | .exponentOfNonHexadecimal marker =>
    obtain ⟨tail, quote⟩ := quoted marker
    refine ⟨tail ++ " exponent requires hexadecimal mantissa", ?_⟩
    show Text.quotedChar marker ++ " exponent requires hexadecimal mantissa" = _
    rw [quote, String.append_assoc]
    rfl
  | .noExponentDigits => exact ⟨"has no digits", rfl⟩
  | .hexadecimalWithoutExponent => exact ⟨"mantissa requires a 'p' exponent", rfl⟩
  | .invalidDigit digit radix =>
    refine ⟨"digit " ++ (Text.quotedChar digit ++ (" in " ++ radix.literalName)), ?_⟩
    unfold message
    simp only [toString, String.append_assoc]
    rfl
  | .misplacedSeparator => exact ⟨"_' must separate successive digits", rfl⟩
  | .unterminatedString => exact ⟨"literal not terminated", rfl⟩

/-- Texts do not start with some words if they start with others. -/
theorem append_ne_append {head words : String}
    (differ : ¬ (head.toList <+: words.toList ∨ words.toList <+: head.toList))
    (tail rest : String) : head ++ tail ≠ words ++ rest := by
  intro same
  have letters := congrArg String.toList same
  rw [String.toList_append, String.toList_append] at letters
  apply differ
  have first : head.toList <+: words.toList ++ rest.toList := ⟨_, letters⟩
  exact List.prefix_or_prefix_of_prefix first (List.prefix_append _ _)

/-- All that messages start with. -/
def LexicalFault.heads : List String :=
  ["illegal ", "invalid ", "hexadecimal ", "octal ", "binary ", "decimal ", "'", "exponent ",
    "string "]

/-- The list of what messages start with is complete. -/
theorem LexicalFault.head_mem_heads (fault : LexicalFault) : fault.head ∈ heads := by
  unfold head
  split <;> decide

/-- Faults with the same message start alike. -/
theorem LexicalFault.head_eq_of_message_eq {a b : LexicalFault} (same : a.message = b.message) :
    a.head = b.head := by
  have differ : ∀ first ∈ heads, ∀ second ∈ heads, first ≠ second →
      ¬ (first.toList <+: second.toList ∨ second.toList <+: first.toList) := by
    decide
  by_contra other
  obtain ⟨tail, first⟩ := a.message_eq
  obtain ⟨rest, second⟩ := b.message_eq
  apply append_ne_append (differ _ a.head_mem_heads _ b.head_mem_heads other) tail rest
  rw [← first, same, second]

/-! ## On the way -/

/-- No symbol is without a byte. -/
theorem Text.length_le_length_bytesOf (symbols : List Symbol) :
    symbols.length ≤ (bytesOf symbols).length := by
  induction symbols with
  | nil => exact Nat.le_refl _
  | cons s symbols ih =>
    have wide := s.width_pos
    rw [bytesOf_cons, List.length_append, s.length_bytes, List.length_cons]
    omega

namespace Reader.Behind

variable {source : List UInt8} {passed : List Symbol} {r : Reader}

/-- There are at least as many bytes from the reader on as symbols ahead. -/
theorem offset_add_le (stands : r.Behind source passed) :
    r.offset + r.rest.length ≤ source.length := by
  have ahead := Text.length_le_length_bytesOf r.rest
  have whole := congrArg List.length stands.source_eq
  rw [List.length_append, ← stands.offset_eq] at whole
  omega

/-- What a reader reports of the symbol in front is a fault inside the source. -/
theorem faults_lexical (stands : r.Behind source passed) :
    ∀ d ∈ r.faults, d.IsLexical source := by
  have inside := stands.offset_add_le
  intro d mem
  unfold Reader.faults at mem
  split at mem
  · obtain rfl := List.mem_singleton.mp mem
    exact ⟨by dsimp only; omega, .nul, rfl⟩
  · obtain rfl := List.mem_singleton.mp mem
    exact ⟨by dsimp only; omega, .malformedBytes, rfl⟩
  · exact absurd mem List.not_mem_nil

/-- So is what it reports on the way over several symbols. -/
theorem consume_lexical (stands : r.Behind source passed) (count : Nat) :
    ∀ d ∈ (r.consume count).2, d.IsLexical source := by
  induction count generalizing passed r with
  | zero => exact fun d mem => absurd mem List.not_mem_nil
  | succ count ih =>
    have next := stands.advance
    exact List.forall_mem_append.mpr ⟨next.faults_lexical, ih next⟩

/-- So is what it reports on the way over a token whose faults lie inside the source. -/
theorem follow_lexical (stands : r.Behind source passed) (tokenStart : Nat) {legs : List Leg}
    (inside : ∀ leg ∈ legs, ∀ fault ∈ leg.faults, tokenStart + fault.1 ≤ source.length) :
    ∀ d ∈ (r.follow tokenStart legs).2, d.IsLexical source := by
  induction legs generalizing passed r with
  | nil => exact fun d mem => absurd mem List.not_mem_nil
  | cons leg legs ih =>
    obtain ⟨here, later⟩ := List.forall_mem_cons.mp inside
    refine List.forall_mem_append.mpr ⟨List.forall_mem_append.mpr ⟨?_, ?_⟩, ?_⟩
    · exact stands.consume_lexical leg.count
    · rw [List.forall_mem_map]
      intro fault mem
      exact ⟨here fault mem, fault.2, rfl⟩
    · exact ih (stands.consume leg.count) later

end Reader.Behind

/-! ## One scan -/

/-- A string reaches no further than there are symbols. -/
theorem Quotation.count_extent_le (rest : List Symbol) : (extent rest).count ≤ rest.length := by
  fun_induction extent rest with
  | case1 => exact Nat.le_refl _
  | case2 => exact Nat.zero_le _
  | case3 => exact Nat.le_refl _
  | case4 s t rest line quote again ih =>
    simp only [Extent.behind, List.length_cons]
    omega
  | case5 => simp
  | case6 s rest line quote ih =>
    simp only [Extent.behind, List.length_cons]
    omega

/-- What ends a range is a reference behind a colon. -/
theorem Word.rangeEnd?_eq_some {rest : List Symbol} {other : List Char}
    (h : rangeEnd? rest = some other) :
    frontChar? rest = some ':' ∧ other = run rest.tail ∧ isReference other := by
  unfold rangeEnd? at h
  dsimp only at h
  split_ifs at h with colon reference
  cases h
  exact ⟨colon, rfl, reference⟩

/-- A word takes no more symbols than there are. -/
theorem Word.count_recognize_le (rest : List Symbol) : (recognize rest).count ≤ rest.length := by
  have run_le : ∀ rest, (run rest).length ≤ rest.length := fun rest =>
    (InFront.runOf Text.isWordChar rest).length_le
  have word := run_le rest
  simp only [recognize]
  split
  · rwa [Recognition.count_plain]
  split
  · split
    · next other found =>
      obtain ⟨colon, rfl, -⟩ := rangeEnd?_eq_some found
      have second := run_le (rest.drop (run rest).length).tail
      have front : rest.drop (run rest).length ≠ [] := by
        intro nothing
        rw [nothing] at colon
        cases colon
      have more := List.length_pos_iff.mpr front
      rw [List.length_tail, List.length_drop] at second
      rw [List.length_drop] at more
      rw [Recognition.count_plain]
      omega
    · rwa [Recognition.count_plain]
  · rwa [Recognition.count_plain]

section

variable {atLineStart : Bool} {rest : List Symbol} {found : Recognition}

/-- No token takes more symbols than there are ahead. -/
theorem Recognition.count_le_length (h : ofSymbols atLineStart rest = some found) :
    found.count ≤ rest.length := by
  obtain ⟨s, later, rfl⟩ := exists_cons_of_ofSymbols h
  rw [List.length_cons]
  cases kind_of_ofSymbols h with
  | word => exact Word.count_recognize_le (s :: later)
  | number =>
    rw [Numeral.count_recognition]
    exact (Numeral.inFront_text_read (s :: later)).length_le
  | string =>
    have inside := Quotation.count_extent_le later
    simp only [Quotation.recognize, count, Leg.total]
    omega
  | mark _ inside => rwa [count_plain]
  | illegal =>
    rw [count_single]
    exact Nat.le_add_left ..

/-- No fault of a token is noted further behind its start than the token has symbols. -/
theorem Recognition.fault_le (h : ofSymbols atLineStart rest = some found) :
    ∀ leg ∈ found.legs, ∀ fault ∈ leg.faults, fault.1 ≤ found.count := by
  obtain ⟨s, later, rfl⟩ := exists_cons_of_ofSymbols h
  intro leg among fault mem
  have noted : fault ∈ found.faults := List.mem_flatMap.mpr ⟨leg, among, mem⟩
  cases kind_of_ofSymbols h with
  | word => simp at noted
  | number =>
    rw [Numeral.count_recognition]
    exact Numeral.fault_le (s :: later) leg among fault mem
  | string =>
    rw [faults_string] at noted
    split at noted
    · cases noted
    · rw [List.mem_singleton.mp noted]
      exact Nat.zero_le _
  | mark => simp at noted
  | illegal =>
    rw [faults_single] at noted
    split at noted
    · rw [List.mem_singleton.mp noted]
      exact Nat.zero_le _
    · cases noted

end

/-- The lexemes of a stream are those of its scans. -/
theorem TokenStream.lexemes_eq (s : TokenStream) : s.lexemes = s.scans.map Scanned.lexeme := by
  rw [lexemes, scans, List.map_append, List.map_singleton]

namespace Scanner

variable {source : List UInt8} {passed : List Symbol} {s : Scanner}

/-- **Whatever a scan reports is a fault inside the source.** -/
theorem scan_lexical (stands : s.reader.Behind source passed) :
    ∀ d ∈ s.scan.1.reports, d.IsLexical source := by
  have gap_lexical := stands.consume_lexical (gap s.reader.rest).length
  have here := behindGap_stands stands
  simp only [scan]
  split
  · exact gap_lexical
  · next found recognized =>
    refine List.forall_mem_append.mpr ⟨gap_lexical, here.follow_lexical _ ?_⟩
    intro leg mem fault fault_mem
    have bound := Recognition.fault_le recognized leg mem fault fault_mem
    have count := Recognition.count_le_length recognized
    have inside := here.offset_add_le
    simp only [behindGap] at inside
    omega

/-- Behind a scan the reader stands somewhere in the source. -/
theorem scan_stands (stands : s.reader.Behind source passed) :
    ∃ passed', s.scan.2.reader.Behind source passed' := by
  have here := behindGap_stands stands
  cases found? : s.recognized? with
  | none =>
    rw [(scan_of_none found?).2]
    exact ⟨_, here⟩
  | some found =>
    rw [(scan_of_some found?).2]
    exact ⟨_, here.follow _ _⟩

/-! ## Scan after scan -/

/-- Whatever any scan reports is a fault inside the source. -/
theorem nthScan_lexical (stands : s.reader.Behind source passed) (n : Nat) :
    ∀ d ∈ (s.nthScan n).reports, d.IsLexical source := by
  induction n generalizing s passed with
  | zero => exact scan_lexical stands
  | succ n ih =>
    obtain ⟨passed', behind⟩ := scan_stands stands
    exact ih behind

/-- What a scan yields is what was scanned last when the next one begins. -/
theorem previous_scan (s : Scanner) : s.scan.2.previous = s.scan.1.token := by
  simp only [scan]
  split <;> rfl

/-- **Behind the first lexeme of a stream is the stream of what is scanned next.** -/
theorem advance_stream (stands : s.reader.Behind source passed) :
    s.stream.lookahead = s.scan.1 ∧ s.stream.advance = s.scan.2.stream := by
  by_cases more : s.scan.1.token = .endOfFormula
  · cases scan_lays stands with
    | tile t taken further => exact absurd more further
    | ends _ yields nothing offset =>
      have again := (scan_of_nothing nothing).1
      have last : s.scan.2.scan.1.token = .endOfFormula := by rw [again]; rfl
      rw [stream_of_eq more, stream_of_eq last, again, previous_scan, more, offset]
      constructor
      · have lexeme : (⟨s.scan.1.pos, .endOfFormula, ""⟩ : Lexeme) = s.scan.1.lexeme := by
          rw [Scanned.pos, yields]
        show Scanned.mk ⟨s.scan.1.pos, .endOfFormula, ""⟩ _ _ _ = s.scan.1
        rw [lexeme]
      · simp only [TokenStream.advance, StreamEnd.again, Scanned.pos, yields]
  · rw [stream_of_ne more]
    exact ⟨rfl, rfl⟩

/-- The scans of a stream are made one behind the other. -/
theorem scans_stream (stands : s.reader.Behind source passed) : s.stream.scans =
    s.scan.1 :: if s.scan.1.token = .endOfFormula then [] else s.scan.2.stream.scans := by
  by_cases last : s.scan.1.token = .endOfFormula
  · have front := (advance_stream stands).1
    rw [stream_of_eq last, TokenStream.lookahead] at front
    rw [if_pos last, stream_of_eq last, TokenStream.scans]
    exact congrArg (· :: []) front
  · rw [if_neg last, stream_of_ne last]
    rfl

end Scanner

/-- **A stream is what is scanned one after the other**: behind `n` lexemes, the `n`-th scan is in
front. -/
theorem Scanner.lookahead_skip {source : List UInt8} {passed : List Symbol} {s : Scanner}
    (stands : s.reader.Behind source passed) (n : Nat) :
    (s.stream.skip n).lookahead = s.nthScan n := by
  induction n generalizing s passed with
  | zero => exact (advance_stream stands).1
  | succ n ih =>
    obtain ⟨passed', behind⟩ := scan_stands stands
    rw [TokenStream.skip, (advance_stream stands).2]
    exact ih behind

end SheetFormula

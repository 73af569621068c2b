import Mathlib.Tactic.Common
import SheetFormula.Proofs.Lexeme.NumberShapes
import SheetFormula.Proofs.Lexeme.Relocation
import SheetFormula.Proofs.Lexeme.Report
import SheetFormula.Proofs.Lexeme.Respace

/-!
# How numbers are scanned

A scan in front of a number takes the parts of that number, each as long as can be, and tells its
kind by them. What it reports, beside what is wrong with the character behind the number, are the
faults of the number.

Main results:
* `Reader.reports_follow`: on the way over a token without faults nothing is reported but the fault
  of the symbol behind it.
* `Recognition.ofSymbols_of_numberAhead`: in front of a number the number is recognized, and
  `Scanner.takes_number`: a scan takes it as it is read.
* `numbers_match_grammar`: a scan takes the longest parts, and reports no fault of the number
  exactly if it is well formed.
-/

namespace SheetFormula

open NumberGrammar
open Text (Symbol bytesOf)

/-! ## Tokens without faults -/

namespace Reader

/-- Legs that take nothing lead nowhere. -/
theorem follow_of_total_eq_zero {start : Nat} {legs : List Leg} (a : Reader)
    (none : Leg.total legs = 0) : (a.follow start legs).1 = a := by
  induction legs with
  | nil => rfl
  | cons leg legs ih =>
    rw [Leg.total, Nat.add_eq_zero_iff] at none
    simp only [follow, none.1, consume]
    exact ih none.2

/-- A reader in front of symbols that have no fault reports nothing. -/
theorem faults_of_harmless {count : Nat} (a : Reader) (more : count ≠ 0)
    (harmless : ∀ s ∈ a.rest.take count, s.fault? = none) : a.faults = [] := by
  obtain ⟨count, rfl⟩ := Nat.exists_eq_succ_of_ne_zero more
  have front : frontFault? a.rest = none := by
    cases ahead : a.rest with
    | nil => rfl
    | cons s rest => exact harmless s (by rw [ahead]; exact List.mem_cons_self)
  rw [faults_eq, front]
  rfl

/-- **On the way over a token without faults, of symbols without faults, nothing is reported but the
fault of the symbol behind it.** -/
theorem reports_follow {start : Nat} {legs : List Leg} (a : Reader)
    (faultless : ∀ leg ∈ legs, leg.faults = [])
    (harmless : ∀ s ∈ a.rest.take (Leg.total legs), s.fault? = none) :
    (a.follow start legs).2 =
      if Leg.total legs = 0 then [] else (a.follow start legs).1.faults := by
  induction legs generalizing a with
  | nil => rfl
  | cons leg legs ih =>
    obtain ⟨own, others⟩ := List.forall_mem_cons.mp faultless
    rw [Leg.total, List.take_add, List.forall_mem_append, ← rest_consume] at harmless
    obtain ⟨here, behind⟩ := harmless
    simp only [follow, own, List.map_nil, List.append_nil, Leg.total, ih _ others behind,
      reports_consume a here]
    by_cases later : Leg.total legs = 0
    · by_cases nothing : leg.count = 0
      · simp [later, nothing]
      · simp [later, nothing, follow_of_total_eq_zero _ later]
    · -- What stands between two stretches has no fault, so only the last one can report anything.
      simp [later, faults_of_harmless _ later behind]

/-- What is worded like the fault of a symbol starts like one. -/
theorem head_of_mem_faults {a : Reader} {offset : Nat} {fault : LexicalFault}
    (mem : ⟨offset, fault.message⟩ ∈ a.faults) : fault.head = "illegal " := by
  rw [faults_eq] at mem
  obtain ⟨found, front, same⟩ := List.mem_map.mp mem
  obtain ⟨s, -, is⟩ := Option.bind_eq_some_iff.mp (Option.mem_toList.mp front)
  rw [← LexicalFault.head_eq_of_message_eq (Diagnostic.mk.inj same).2]
  rcases s.eq_of_fault? is with rfl | rfl
  all_goals rfl

end Reader

/-! ## What a number reports -/

namespace Numeral

/-- No fault of a number is worded like the fault of a symbol, or like that of a string. -/
theorem heads_ne_of_mem_legs (n : Numeral) : ∀ leg ∈ n.recognition.legs, ∀ fault ∈ leg.faults,
    fault.2.head ≠ "illegal " ∧ fault.2.head ≠ "string " := by
  simp only [recognition, List.forall_mem_cons, List.forall_mem_map, List.forall_mem_append]
  refine ⟨?_, ⟨?_, ?_⟩, ?_, ⟨?_, ?_⟩, by simp⟩
  all_goals
    intro fault mem
    simp only [pointFaults, mantissaFaults, markerFaults, exponentFaults, digitFaults,
      separatorFaults] at mem
    repeat' split at mem
  all_goals first
    | exact absurd mem List.not_mem_nil
    | rw [List.mem_singleton.mp mem]
      unfold LexicalFault.head
      split <;> simp_all

/-- No fault of a number is worded like the fault of a symbol. -/
theorem head_ne_of_mem_legs (n : Numeral) : ∀ leg ∈ n.recognition.legs, ∀ fault ∈ leg.faults,
    fault.2.head ≠ "illegal " :=
  fun leg mem fault noted => (n.heads_ne_of_mem_legs leg mem fault noted).1

/-- A zero byte is no part of a number. -/
theorem Regular.nul_not_mem_text {n : Numeral} (regular : n.Regular) : '\x00' ∉ n.text := by
  have run : ∀ radix : Radix, ¬ radix.inRun '\x00' := by
    intro radix
    cases radix <;> decide
  simp only [text, wholeText, fractionText_eq, exponentText_eq, List.mem_append, not_or]
  refine ⟨⟨⟨⟨?_, ?_⟩, ?_⟩, ?_⟩, ?_⟩
  · have announced := regular.announced
    cases same : n.radix
    all_goals rw [same] at announced
    case decimal =>
      rw [announced.1]
      exact List.not_mem_nil
    case leadingZero =>
      rw [show n.announcement = ['0'] from announced]
      decide
    all_goals
      obtain ⟨marker, known, is⟩ := announced
      rw [is]
      rcases ofMarker?_eq_some.mp known with ⟨-, rfl | rfl⟩ | ⟨-, rfl | rfl⟩ | ⟨-, rfl | rfl⟩
      all_goals decide
  · exact fun mem => run _ (regular.whole _ mem)
  · intro mem
    cases found : n.fraction with
    | none => simp [found] at mem
    | some digits =>
      rw [found] at mem
      rcases List.mem_cons.mp mem with is | mem
      · exact absurd is (by decide)
      · exact run _ (regular.fraction digits found _ mem)
  · intro mem
    cases found : n.exponent with
    | none => simp [found] at mem
    | some e =>
      rw [found, Option.elim_some, Exponent.text, List.mem_cons, List.mem_append] at mem
      rcases mem with is | mem | mem
      · have marker := (regular.marker e found).1
        rw [← is] at marker
        exact absurd marker (by decide)
      · exact absurd (regular.sign e found _ (Option.mem_toList.mp mem)) (by decide)
      · exact run _ (regular.exponent e found _ mem)
  · unfold suffixText
    split <;> decide

/-- The symbols of a number have no fault. -/
theorem Regular.harmless {n : Numeral} (regular : n.Regular) :
    ∀ s ∈ n.text.map Symbol.character, s.fault? = none := by
  rw [List.forall_mem_map]
  intro c mem
  apply if_neg
  rintro rfl
  exact regular.nul_not_mem_text mem

/-- A number is scanned with its text. -/
theorem keepsText_token (n : Numeral) : n.token.keepsText := by
  unfold token
  split
  · rfl
  · split <;> rfl

/-- The literal of a number is its text. -/
theorem literal_text (n : Numeral) :
    Scanner.literal n.token (n.text.map .character) = String.ofList n.text :=
  Scanner.literal_characters n.keepsText_token n.text

end Numeral

/-! ## One scan -/

/-- Whether a number is in front: a digit, or a point with a digit behind it. -/
def NumberAhead (rest : List Symbol) : Prop :=
  ∃ c, frontChar? rest = some c ∧
    (c.isDigit ∨ c = '.' ∧ ∃ d, frontChar? rest.tail = some d ∧ d.isDigit)

/-- A decimal digit is no letter. -/
theorem Text.not_isLetter_of_isDigit {c : Char} (digit : c.isDigit) : ¬ isLetter c := by
  have ascii := Numeral.isAscii_of_isDigit digit
  revert digit
  refine of_isAscii ascii ?_
  decide +kernel

/-- In front of a number the number is recognized. -/
theorem Recognition.ofSymbols_of_numberAhead {atLineStart : Bool} {rest : List Symbol}
    (ahead : NumberAhead rest) :
    ofSymbols atLineStart rest = some (Numeral.read rest).recognition := by
  obtain ⟨c, front, starts⟩ := ahead
  cases rest with
  | nil => cases front
  | cons s rest =>
    obtain rfl : s.toChar = c := Option.some.inj front
    have noLetter : ¬ Text.isLetter s.toChar := by
      rcases starts with digit | ⟨point, -⟩
      · exact Text.not_isLetter_of_isDigit digit
      · rw [point]
        decide
    have number : startsNumber s.toChar rest := by
      rcases starts with digit | ⟨point, d, behind, digit⟩
      · simp [startsNumber, digit]
      · rw [List.tail_cons] at behind
        simp [startsNumber, point, behind, digit]
    simp only [ofSymbols]
    rw [if_neg noLetter, if_pos number]

/-- The characters of a number are those that it takes. -/
theorem Numeral.take_total (n : Numeral) {rest later : List Symbol}
    (split : rest = n.text.map .character ++ later) :
    rest.take (Leg.total n.recognition.legs) = n.text.map .character := by
  have count : Leg.total n.recognition.legs = n.text.length := n.count_recognition
  rw [count, split, List.take_left' (List.length_map _)]

namespace Scanner

variable {s : Scanner} {n : Numeral}

/-- Whether a scan takes a number that stands behind the blanks in front of it: it takes the parts
of the number, yields them with their text, and reports what comes up on the way over them. -/
structure TakesNumber (s : Scanner) (n : Numeral) : Prop where
  regular : n.Regular
  taken : n.parts.Taken (s.behindGap.rest.map Symbol.toChar)
  nonempty : Leg.total n.recognition.legs ≠ 0
  split : s.behindGap.rest = n.text.map .character ++ s.scan.2.reader.rest
  lexeme_eq : s.scan.1.lexeme = ⟨.ofOffset s.behindGap.offset, n.token, String.ofList n.text⟩
  reports_eq : s.scan.1.reports = (s.behindGap.follow s.behindGap.offset n.recognition.legs).2
  reader_eq : s.scan.2.reader = (s.behindGap.follow s.behindGap.offset n.recognition.legs).1

/-- **In front of a number, a scan takes the number that is read there.** -/
theorem takes_number (s : Scanner) (ahead : NumberAhead s.behindGap.rest) :
    s.TakesNumber (Numeral.read s.behindGap.rest) := by
  have found : s.recognized? = some (Numeral.read s.behindGap.rest).recognition :=
    Recognition.ofSymbols_of_numberAhead ahead
  have reports := s.scan_reports.2
  obtain ⟨yields, leaves⟩ := scan_of_some found
  have starts : ∀ c, frontChar? s.behindGap.rest = some c → c.isDigit ∨ c = '.' := by
    obtain ⟨c, front, starts⟩ := ahead
    intro d same
    obtain rfl := Option.some.inj (front.symm.trans same)
    exact starts.imp_right And.left
  have taken := Numeral.taken_read starts
  have regular := Numeral.regular_read s.behindGap.rest
  have split := (Numeral.inFront_text_read s.behindGap.rest).eq_append
    (Numeral.isAscii_text_read s.behindGap.rest)
  have nonempty : (Numeral.read s.behindGap.rest).text.length ≠ 0 := by
    obtain ⟨c, front, -⟩ := ahead
    cases symbols : s.behindGap.rest with
    | nil => rw [symbols] at front; cases front
    | cons t rest =>
      rw [symbols] at starts
      exact Nat.pos_iff_ne_zero.mp (Numeral.text_read_length_pos (starts _ rfl))
  -- From here on only what is known of the parts counts, and no longer how they are read.
  generalize Numeral.read s.behindGap.rest = n at found yields leaves taken regular split nonempty
  have count : Leg.total n.recognition.legs = n.text.length := n.count_recognition
  have front := n.take_total split
  have behind : s.scan.2.reader.rest = s.behindGap.rest.drop n.text.length := by
    rw [leaves, Reader.rest_follow, count]
  -- What the gap reports would be about the first symbol of the number, which is harmless.
  have quiet : (s.reader.consume (gap s.reader.rest).length).2 = [] := by
    rw [Reader.reports_consume_gap, ite_eq_left_iff]
    exact fun _ => s.behindGap.faults_of_harmless (count ▸ nonempty) (front ▸ regular.harmless)
  rw [quiet, List.nil_append, found] at reports
  refine ⟨regular, taken, count ▸ nonempty, behind ▸ split, ?_, reports, leaves⟩
  rw [yields, Recognition.count, front]
  exact congrArg _ n.literal_text

/-- What is reported of a number is no more than what is wrong with the symbol behind it, exactly if
the number has no fault. -/
theorem TakesNumber.reports_iff (takes : s.TakesNumber n) :
    (∀ d ∈ s.scan.1.reports, d ∈ s.scan.2.reader.faults) ↔
      ∀ leg ∈ n.recognition.legs, leg.faults = [] := by
  rw [takes.reports_eq, takes.reader_eq]
  -- A fault of the number is worded otherwise than what the reader reports about the symbol
  -- behind the number, so none of the first kind is among the second.
  constructor
  · intro only leg mem
    rw [List.eq_nil_iff_forall_not_mem]
    intro fault noted
    apply n.head_ne_of_mem_legs leg mem fault noted
    exact Reader.head_of_mem_faults (only _ (Reader.mem_follow _ mem noted))
  · intro faultless
    have harmless := n.take_total takes.split ▸ takes.regular.harmless
    rw [Reader.reports_follow s.behindGap faultless harmless, if_neg takes.nonempty]
    exact fun d mem => mem

end Scanner

/-- **Numbers are scanned as their grammar says.** In front of a number, a scan takes the parts of
the number one behind the other, each as long as can be; they tell its kind, and their text is the
literal. What the scan reports is nothing but what is wrong with the character behind the number, if
anything is, exactly if the text is a well-formed number of that kind. -/
theorem numbers_match_grammar (s : Scanner) (ahead : NumberAhead s.behindGap.rest) :
    ∃ parts : NumberGrammar.Parts,
      parts.Taken (s.behindGap.rest.map Symbol.toChar) ∧
        s.behindGap.rest = parts.text.map .character ++ s.scan.2.reader.rest ∧
        s.scan.1.lexeme =
          ⟨.ofOffset s.behindGap.offset, parts.kind, String.ofList parts.text⟩ ∧
        ((∀ d ∈ s.scan.1.reports, d ∈ s.scan.2.reader.faults) ↔
          parts.text ∈ wellFormed parts.kind) := by
  have takes := s.takes_number ahead
  generalize Numeral.read s.behindGap.rest = n at takes
  refine ⟨n.parts, takes.taken, ?_, ?_, ?_⟩
  · rw [n.text_parts]
    exact takes.split
  · rw [n.text_parts, n.kind_parts]
    exact takes.lexeme_eq
  · rw [n.text_parts, n.kind_parts, takes.regular.mem_wellFormed_iff, ← takes.regular.faultless_iff]
    exact takes.reports_iff

/-- A number with two separators in a row: it is taken as one, and is not well formed. -/
theorem numbers_match_grammar_two_separators :
    NumberAhead (Scanner.start (Text.encoded "1__0i)")).behindGap.rest ∧
      ∃ parts : NumberGrammar.Parts,
        parts.Taken ("1__0i)".toList) ∧ parts.text = "1__0i".toList ∧
          parts.kind = .imaginary ∧ parts.text ∉ wellFormed parts.kind := by
  have ahead : NumberAhead (Scanner.start (Text.encoded "1__0i)")).behindGap.rest :=
    ⟨'1', by decide +kernel, .inl rfl⟩
  have symbols : (Scanner.start (Text.encoded "1__0i)")).behindGap.rest.map Symbol.toChar =
      "1__0i)".toList := by
    decide +kernel
  have lexeme : (Scanner.start (Text.encoded "1__0i)")).scan.1.lexeme =
      ⟨.ofOffset 0, .imaginary, "1__0i"⟩ := by
    decide +kernel
  have reported : ¬ ∀ d ∈ (Scanner.start (Text.encoded "1__0i)")).scan.1.reports,
      d ∈ (Scanner.start (Text.encoded "1__0i)")).scan.2.reader.faults := by
    decide +kernel
  obtain ⟨parts, taken, -, yields, wellFormed_iff⟩ := numbers_match_grammar _ ahead
  rw [symbols] at taken
  rw [lexeme] at yields
  obtain ⟨-, kind, text⟩ := Lexeme.mk.inj yields
  refine ⟨ahead, parts, taken, ?_, kind.symm, mt wellFormed_iff.mpr reported⟩
  rw [text, String.toList_ofList]

end SheetFormula

import Mathlib.Tactic.Common
import SheetFormula.Proofs.Lexeme.Ending
import SheetFormula.Proofs.Lexeme.Relocation

/-!
# Scanning from the middle of a source

A scanner looks back at one thing only, namely whether it stands at the start of a line, and only in
front of an equals sign. So a scanner of what is behind some bytes of a source trails one of the
whole source (`Scanner.Trails`).

Main results:
* `Recognition.ofSymbols_leading`: at the start of a line the same is recognized as elsewhere, but
  that an equals sign leads a formula.
* `Scanner.stream_trailed`: from scan to scan the one yields what the other does, so many bytes
  before.
* `Scanner.lexeme_afresh` and `Scanner.trails_afresh`: if the bytes in front end where a lexeme
  starts, the first scan yields that lexeme, and from then on the scanner trails.
* `suffix_scans_alike`: this of all lexemes of a source.
-/

namespace SheetFormula

open Text (Symbol bytesOf symbols)

/-! ## The start of a line -/

/-- Behind bytes that are not all of what precedes, a line starts exactly if it would with nothing
in front of them. -/
theorem atLineStart_append {front back : List UInt8} (more : back ≠ []) :
    AtLineStart (front ++ back) ↔ AtLineStart back := by
  simp only [AtLineStart, List.append_eq_nil_iff, more, and_false, false_or]
  rw [List.getLast?_append_of_ne_nil front more]

/-- An equals sign is no character that spells its token alone. -/
theorem Token.ofChar_ne_equal (c : Char) : ofChar c ≠ .equal := by
  unfold ofChar
  split
  all_goals exact Token.noConfusion

/-- Whether or not a token leads a formula, it is not the end of one. -/
theorem Token.lead_ne_end {t : Token} (more : t ≠ .endOfFormula) :
    (if t = .equal then Token.lead else t) ≠ .endOfFormula := by
  split
  · exact Token.noConfusion
  · exact more

namespace Recognition

variable {atLineStart : Bool} {s : Symbol} {rest : List Symbol} {found : Recognition}

/-- Whether a line starts matters only in front of an equals sign. -/
theorem ofSymbols_congr {rest : List Symbol} (other : frontChar? rest ≠ some '=')
    (atLineStart atLineStart' : Bool) :
    ofSymbols atLineStart rest = ofSymbols atLineStart' rest := by
  cases rest with
  | nil => rfl
  | cons s rest =>
    have unequal : s.toChar ≠ '=' := fun is => other (congrArg some is)
    simp only [ofSymbols, unequal, if_false]

/-- Nothing but an equals sign is recognized as one. -/
theorem token_ne_equal (other : s.toChar ≠ '=')
    (h : ofSymbols atLineStart (s :: rest) = some found) : found.token ≠ .equal := by
  intro equal
  cases outcome_of_ofSymbols h with
  | text isText =>
    rw [equal] at isText
    cases isText
  | equals is => exact other is
  | pair _ _ _ known =>
    rcases known with rfl | rfl | rfl
    all_goals cases equal
  | less => cases equal
  | greater => cases equal
  | single _ is => exact Token.ofChar_ne_equal _ (is.symm.trans equal)

/-- What is recognized at the start of a line, if `found` is recognized elsewhere. -/
def leading (found : Recognition) : Recognition :=
  ⟨if found.token = .equal then .lead else found.token, found.legs⟩

/-- **At the start of a line the same is recognized as elsewhere**, but that an equals sign leads a
formula. -/
theorem ofSymbols_leading (atLineStart : Bool) (rest : List Symbol) :
    ofSymbols true rest = (ofSymbols atLineStart rest).map leading := by
  cases rest with
  | nil => rfl
  | cons s rest =>
    by_cases equals : s.toChar = '='
    · have recognized (start : Bool) :
          ofSymbols start (s :: rest) = some (plain (if start then .lead else .equal) 1) := by
        simp only [ofSymbols, equals]
        rfl
      rw [recognized, recognized]
      cases atLineStart <;> rfl
    · have other : frontChar? (s :: rest) ≠ some '=' := fun is => equals (Option.some.inj is)
      rw [ofSymbols_congr other true atLineStart]
      cases found? : ofSymbols atLineStart (s :: rest) with
      | none => rfl
      | some found =>
        have same : found.leading = found := by
          rw [leading, if_neg (token_ne_equal equals found?)]
        rw [Option.map_some, same]

end Recognition

/-! ## Two readers in front of the same symbols -/

namespace Reader.Behind

variable {whole : List UInt8} {cut : Nat} {passed passed' : List Symbol} {a b : Reader}

/-- What a reader of a source has passed, if one of what is behind `cut` bytes has the same
ahead. -/
theorem bytes_passed (stands : a.Behind (whole.drop cut) passed)
    (stands' : b.Behind whole passed') (ahead : b.rest = a.rest) :
    bytesOf passed' = whole.take cut ++ bytesOf passed := by
  have same := stands'.source_eq.symm.trans (List.take_append_drop cut whole).symm
  rw [stands.source_eq, ahead, ← List.append_assoc] at same
  exact List.append_cancel_right same

end Reader.Behind

namespace Scanner

/-- Whether a scanner of what is behind the first `cut` bytes of a source stands where a scanner of
the whole source does. In front of all it has to scan, it must not stand before an equals sign. -/
structure Trails (whole : List UInt8) (cut : Nat) (a b : Scanner) : Prop where
  inside : cut ≤ whole.length
  stands : ∃ passed, a.reader.Behind (whole.drop cut) passed
  stands' : ∃ passed, b.reader.Behind whole passed
  rest_eq : b.reader.rest = a.reader.rest
  unled : a.reader.offset = 0 → frontChar? (symbols (whole.drop cut)) ≠ some '='

namespace Trails

variable {whole : List UInt8} {cut : Nat} {a b : Scanner}

/-- The same symbols are behind the gaps of both. -/
theorem behindGap_rest_eq (trails : Trails whole cut a b) :
    b.behindGap.rest = a.behindGap.rest := by
  simp only [behindGap, Reader.rest_consume, trails.rest_eq]

/-- Behind its gap the one is so many bytes further on. -/
theorem offset_eq (trails : Trails whole cut a b) :
    b.behindGap.offset = a.behindGap.offset + cut := by
  obtain ⟨passed, stands⟩ := trails.stands
  obtain ⟨passed', stands'⟩ := trails.stands'
  have here := behindGap_stands stands
  have here' := behindGap_stands stands'
  rw [here'.offset_eq, here.bytes_passed here' trails.behindGap_rest_eq, List.length_append,
    List.length_take_of_le trails.inside, ← here.offset_eq, Nat.add_comm]

/-- Both recognize the same. -/
theorem recognized_eq (trails : Trails whole cut a b) : b.recognized? = a.recognized? := by
  obtain ⟨passed, stands⟩ := trails.stands
  obtain ⟨passed', stands'⟩ := trails.stands'
  have here := behindGap_stands stands
  have here' := behindGap_stands stands'
  have ahead := trails.behindGap_rest_eq
  have bytes := here.bytes_passed here' ahead
  unfold recognized?
  rw [ahead]
  by_cases first : passed ++ gap a.reader.rest = []
  · have front : a.reader.offset = 0 := by
      rw [stands.offset_eq, (List.append_eq_nil_iff.mp first).1]
      rfl
    have all := here.symbols_eq
    rw [first, List.nil_append] at all
    exact Recognition.ofSymbols_congr (all ▸ trails.unled front) _ _
  · have some_ : bytesOf (passed ++ gap a.reader.rest) ≠ [] := by
      obtain ⟨s, later, row⟩ := List.exists_cons_of_ne_nil first
      simp [row, s.bytes_ne_nil]
    have line : (b.behindGap.offset = b.behindGap.lineStart) ↔
        (a.behindGap.offset = a.behindGap.lineStart) := by
      rw [here.lineStart_iff, here'.lineStart_iff, bytes, atLineStart_append some_]
    simp only [line]

/-- Both are in step. -/
theorem inStep (trails : Trails whole cut a b) :
    ∃ taken more, InStep (.shift cut) taken more more a b := by
  have ahead := trails.behindGap_rest_eq
  have offset := trails.offset_eq
  obtain ⟨count, counts⟩ : ∃ count, count ≤ a.behindGap.rest.length ∧
      ∀ found, a.recognized? = some found → found.count = count := by
    cases found? : a.recognized? with
    | none => exact ⟨0, Nat.zero_le _, fun _ is => by cases is⟩
    | some found =>
      refine ⟨found.count, ?_, fun _ is => by cases is; rfl⟩
      exact Recognition.count_le_length found?
  refine ⟨a.behindGap.rest.take count, a.behindGap.rest.drop count, ?_, ?_,
    trails.recognized_eq, ?_, rfl, ?_, ?_, ?_⟩
  · rw [trails.rest_eq]
  · rw [trails.rest_eq]
  · intro found is
    rw [counts.2 found is, List.length_take, Nat.min_eq_left counts.1]
  · rw [List.take_append_drop]
  · rw [List.take_append_drop, ahead]
  · intro d _
    refine ⟨trivial, ?_⟩
    rw [offset]
    show a.behindGap.offset + d + _ = a.behindGap.offset + _ + d
    omega

/-- **Behind a scan of each, the one still trails the other.** -/
theorem scan (trails : Trails whole cut a b) (more : a.scan.1.token ≠ .endOfFormula) :
    Trails whole cut a.scan.2 b.scan.2 := by
  obtain ⟨taken, later, step⟩ := trails.inStep
  obtain ⟨passed, stands⟩ := trails.stands
  obtain ⟨passed', stands'⟩ := trails.stands'
  have readers := (scan_moved step).2 more
  refine ⟨trails.inside, scan_stands stands, scan_stands stands', ?_, ?_⟩
  · rw [readers.ahead, readers.ahead']
  · intro front
    exact absurd front (Nat.ne_zero_of_lt (offset_scan_lt stands more))

end Trails

variable {whole : List UInt8} {cut : Nat} {passed : List Symbol} {a b s : Scanner}

/-- **A scanner that trails another one yields the same**, so many bytes before. -/
theorem stream_trailed (trails : Trails whole cut a b) :
    a.stream.Moved (.shift cut) b.stream := by
  refine stream_moved ?_ trails
  intro a b trails
  obtain ⟨taken, more, step⟩ := trails.inStep
  exact ⟨(scan_moved step).1, trails.scan⟩

/-! ## Starting with a lexeme -/

/-- The lexemes of a stream are the first one and those behind it, up to the end. -/
theorem lexemes_stream (stands : s.reader.Behind whole passed) : s.stream.lexemes =
    s.scan.1.lexeme ::
      if s.scan.1.token = .endOfFormula then [] else s.scan.2.stream.lexemes := by
  rw [TokenStream.lexemes_eq, scans_stream stands, List.map_cons]
  split
  · rfl
  · rw [TokenStream.lexemes_eq]

/-- Behind so many lexemes of a stream are those that come behind as many scans. -/
theorem lexemes_after (stands : s.reader.Behind whole passed) {n : Nat}
    (inside : n < s.stream.lexemes.length) :
    s.stream.lexemes.drop n = (s.after n).stream.lexemes := by
  induction n generalizing s passed with
  | zero => rfl
  | succ n ih =>
    obtain ⟨passed', behind⟩ := scan_stands stands
    rw [lexemes_stream stands] at inside ⊢
    split at inside
    · simp at inside
    · next more =>
      rw [if_neg more, List.drop_succ_cons]
      exact ih behind (Nat.lt_of_succ_lt_succ inside)

/-- No gap is behind a gap. -/
theorem gap_behindGap (s : Scanner) : gap s.behindGap.rest = [] := by
  cases front : s.behindGap.rest with
  | nil => rfl
  | cons t rest =>
    have behind : s.reader.rest.drop (gap s.reader.rest).length = t :: rest := by
      rw [← Reader.rest_consume]
      exact front
    simp [gap, solid_behind_gap behind]

/-- A scanner of what is behind the gap in front of another one. -/
def afresh (whole : List UInt8) (s : Scanner) : Scanner := start (whole.drop s.behindGap.offset)

/-- A scanner that starts where a lexeme does has the same symbols ahead. -/
theorem rest_afresh (stands : s.reader.Behind whole passed) :
    (afresh whole s).reader.rest = s.behindGap.rest := by
  have here := behindGap_stands stands
  rw [← here.symbols_ahead, ← here.drop_offset]
  rfl

/-- In front of a scanner that starts where a lexeme does there is no gap. -/
theorem behindGap_afresh (stands : s.reader.Behind whole passed) :
    (afresh whole s).behindGap = (afresh whole s).reader := by
  apply behindGap_of_solid
  rw [rest_afresh stands, gap_behindGap]

/-- It recognizes what the other one does, at the start of a line. -/
theorem recognized?_afresh (stands : s.reader.Behind whole passed) :
    (afresh whole s).recognized? = s.recognized?.map Recognition.leading := by
  have first : (afresh whole s).recognized? = Recognition.ofSymbols true s.behindGap.rest := by
    rw [recognized?, behindGap_afresh stands, rest_afresh stands]
    rfl
  rw [first]
  exact Recognition.ofSymbols_leading _ _

/-- **A scanner that starts where a lexeme does yields that lexeme**, in front of its source. -/
theorem lexeme_afresh (stands : s.reader.Behind whole passed) : (afresh whole s).scan.1.lexeme =
    ⟨.ofOffset 0, if s.scan.1.token = .equal then .lead else s.scan.1.token,
      s.scan.1.lexeme.literal⟩ := by
  have recognized := recognized?_afresh stands
  have offset : (afresh whole s).behindGap.offset = 0 := by
    rw [behindGap_afresh stands]
    rfl
  have ahead : (afresh whole s).behindGap.rest = s.behindGap.rest := by
    rw [behindGap_afresh stands, rest_afresh stands]
  cases found? : s.recognized? with
  | none =>
    rw [found?, Option.map_none] at recognized
    rw [Scanned.token, (scan_of_none found?).1, (scan_of_none recognized).1, offset]
    rfl
  | some found =>
    rw [found?, Option.map_some] at recognized
    rw [Scanned.token, (scan_of_some found?).1, (scan_of_some recognized).1, offset, ahead]
    congr 1
    unfold literal Recognition.leading
    by_cases equal : found.token = .equal
    · simp [equal, Token.keepsText, Token.isValue]
    · simp [equal, Recognition.count]

/-- **Behind its first scan it trails the other one.** -/
theorem trails_afresh (stands : s.reader.Behind whole passed)
    (more : s.scan.1.token ≠ .endOfFormula) :
    Trails whole s.behindGap.offset (afresh whole s).scan.2 s.scan.2 := by
  have here := behindGap_stands stands
  have begins : (afresh whole s).reader.Behind (whole.drop s.behindGap.offset) [] :=
    Reader.behind_start _
  have recognized := recognized?_afresh stands
  cases found? : s.recognized? with
  | none =>
    rw [Scanned.token, (scan_of_none found?).1] at more
    exact absurd rfl more
  | some found =>
    rw [found?, Option.map_some] at recognized
    refine ⟨?_, scan_stands begins, scan_stands stands, ?_, ?_⟩
    · have inside := here.offset_add_le
      omega
    · rw [(scan_of_some found?).2, (scan_of_some recognized).2, Reader.rest_follow,
        Reader.rest_follow, behindGap_afresh stands, rest_afresh stands]
      rfl
    · intro front
      have more' : (afresh whole s).scan.1.token ≠ .endOfFormula := by
        rw [Scanned.token, lexeme_afresh stands]
        exact Token.lead_ne_end more
      exact absurd front (Nat.ne_zero_of_lt (offset_scan_lt begins more'))

end Scanner

/-! ## Any lexeme of a source -/

/-- **Scanning is local to what is ahead.** What is behind a lexeme of a source, itself included, is
scanned as it is scanned in the source: the lexemes are those of the source from that one on, each
as many bytes before as the lexeme is behind the front of the source. They have the same kinds and
literals; only the first of them leads a formula if it is an equals sign in the source. -/
theorem suffix_scans_alike {source : List UInt8} {n : Nat} {l : Lexeme}
    (is : (lex source).lexemes[n]? = some l) :
    l.pos = .ofOffset l.pos.offset ∧ l.pos.offset ≤ source.length ∧
      ∃ later, (lex source).lexemes.drop n = l :: later.map (Lexeme.relocate (· + l.pos.offset)) ∧
        (lex (source.drop l.pos.offset)).lexemes =
          ⟨.ofOffset 0, if l.token = .equal then .lead else l.token, l.literal⟩ :: later := by
  obtain ⟨passed, stands⟩ := Scanner.stands_after source n
  have scanned := Scanner.lexeme_scan_after is
  have inside := (List.getElem?_eq_some_iff.mp is).1
  have behind : (lex source).lexemes.drop n =
      ((Scanner.start source).after n).stream.lexemes :=
    Scanner.lexemes_after (Reader.behind_start source) inside
  generalize (Scanner.start source).after n = s at stands scanned behind
  have here := Scanner.behindGap_stands stands
  have pos : l.pos = .ofOffset s.behindGap.offset := by
    rw [← scanned]
    exact s.pos_scan
  have offset : l.pos.offset = s.behindGap.offset := by rw [pos]; rfl
  have token : s.scan.1.token = l.token := congrArg Lexeme.token scanned
  have row := Scanner.lexemes_stream (s := Scanner.afresh source s) (Reader.behind_start _)
  rw [Scanned.token, Scanner.lexeme_afresh stands, token, scanned] at row
  refine ⟨pos.trans (offset ▸ rfl), ?_, ?_⟩
  · have reach := here.offset_add_le
    omega
  rw [behind, Scanner.lexemes_stream stands, scanned, token, offset]
  by_cases last : l.token = .endOfFormula
  · refine ⟨[], ?_, row.trans ?_⟩
    · rw [if_pos last]
      rfl
    · simp [last]
  · have trails := Scanner.trails_afresh stands (token ▸ last)
    refine ⟨_, ?_, row.trans (by rw [if_neg (Token.lead_ne_end last)])⟩
    rw [if_neg last, (Scanner.stream_trailed trails).lexemes_eq]
    rfl

/-- Behind the first token of a formula, an equals sign. Scanned from there on, it leads a formula;
the one on the next line does so either way. -/
theorem suffix_scans_alike_equals_sign :
    let source := Text.encoded "1 =A1\n=2"
    (lex source).lexemes[1]? = some ⟨.ofOffset 2, .equal, ""⟩ ∧
      ∃ later, later.length = 4 ∧
        (lex source).lexemes.drop 1 =
          ⟨.ofOffset 2, .equal, ""⟩ :: later.map (Lexeme.relocate (· + 2)) ∧
        (lex (source.drop 2)).lexemes = ⟨.ofOffset 0, .lead, ""⟩ :: later := by
  intro source
  have is : (lex source).lexemes[1]? = some ⟨.ofOffset 2, .equal, ""⟩ := by decide +kernel
  obtain ⟨-, -, later, here, alone⟩ := suffix_scans_alike is
  have length : (lex (source.drop 2)).lexemes.length = 5 := by decide +kernel
  refine ⟨is, later, ?_, here, alone⟩
  exact Nat.succ.inj ((congrArg List.length alone).symm.trans length)

end SheetFormula

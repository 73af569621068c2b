import Mathlib.Data.List.Basic
import Mathlib.Tactic.Common
import SheetFormula.Proofs.Lexeme.Faults

/-!
# What is illegal is reported once

Three things cannot stand in a formula at all: a zero byte, a byte that is no part of a character,
and a character that no token is made of. A zero byte and an undecodable byte may stand in the
middle of a token or of a word that is only looked at, so a report of them must not hang on the
token: it is the reader that makes it, and the account of `Reader.due` makes sure that it is made
once. An illegal character is a token of its own, and reported with that.

Main results:
* `Text.undecodable_iff` and `Text.zeros_eq`: which bytes these are, told from the bytes alone.
* `Scanner.foreign_scan`: a scan reports an illegal character exactly if it yields one.
* `worded_symbols`: the reports of symbols are the faults of all symbols, each once.
* `illegal_reported_once`: all of these reports compared with the source, byte by byte, and with the
  lexemes.
-/

namespace SheetFormula

open Text (Symbol bytesOf symbols)

/-! ## Bytes that cannot be decoded -/

/-- Going through bytes, the first of which stands at an offset, whether these are the offsets of
the bytes that cannot be decoded: where the encoding of a character is in front, that is skipped,
and otherwise the byte in front is marked and skipped. -/
inductive Text.Undecodable : (offset : Nat) → List UInt8 → (marks : List Nat) → Prop
  | nil {offset : Nat} : Undecodable offset [] []
  | skip {offset : Nat} {c : Char} {rest : List UInt8} {marks : List Nat}
      (later : Undecodable (offset + (String.utf8EncodeChar c).length) rest marks) :
    Undecodable offset (String.utf8EncodeChar c ++ rest) marks
  | mark {offset : Nat} {b : UInt8} {rest : List UInt8} {marks : List Nat}
      (stray : ∀ c, ¬ String.utf8EncodeChar c <+: b :: rest)
      (later : Undecodable (offset + 1) rest marks) :
    Undecodable offset (b :: rest) (offset :: marks)

namespace Text

/-- Among the faults of symbols, those of stray bytes. -/
theorem malformed_cons (offset : Nat) (s : Symbol) (rest : List Symbol) :
    worded (· == LexicalFault.malformedBytes.message) (symbolFaults offset (s :: rest)) =
      (match s with
        | .character _ => []
        | .stray _ => [⟨offset, LexicalFault.malformedBytes.message⟩]) ++
      worded (· == LexicalFault.malformedBytes.message) (symbolFaults (offset + s.width) rest) := by
  rw [symbolFaults, worded_append]
  congr 1
  cases s with
  | stray b => rfl
  | character c =>
    by_cases nul : c = '\x00'
    · have other : ¬ LexicalFault.nul.message == LexicalFault.malformedBytes.message := by decide
      rw [nul]
      exact worded_eq_nil_iff.mpr (List.forall_mem_singleton.mpr other)
    · simp [Symbol.fault?, nul]

/-- **The bytes that cannot be decoded are those that are read as stray bytes.** -/
theorem undecodable_iff {offset : Nat} {bytes : List UInt8} {marks : List Nat} :
    Undecodable offset bytes marks ↔
      marks = (worded (· == LexicalFault.malformedBytes.message)
        (symbolFaults offset (symbols bytes))).map Diagnostic.offset := by
  constructor
  · intro walk
    induction walk with
    | nil => simp [symbols, symbolFaults]
    | @skip offset c rest marks later ih =>
      rw [symbols_of_decodeChar? (decodeChar?_encode_append c rest),
        ← String.length_utf8EncodeChar, List.drop_left, malformed_cons, ← Symbol.length_bytes]
      exact ih
    | @mark offset b rest marks stray later ih =>
      have read : decodeChar? (b :: rest) = none := decodeChar?_eq_none_iff.mpr stray
      rw [symbols_of_decodeChar?_none read, malformed_cons, ih]
      rfl
  -- Reading characters is the walk itself, as it makes the same choice at each step.
  · rintro rfl
    fun_induction symbols bytes generalizing offset with
    | case1 => exact .nil
    | case2 b rest c width read ih =>
      obtain ⟨wide, whole⟩ := eq_encode_append_of_decodeChar? read
      have pos : 0 < width := by
        rw [(decodeChar?_eq_some_iff.mp read).1]
        exact c.utf8Size_pos
      rw [malformed_cons, ← Symbol.length_bytes, whole,
        show width = (width - 1) + 1 by omega, List.drop_succ_cons]
      exact .skip ih
    | case3 b rest read ih =>
      rw [malformed_cons]
      exact .mark (decodeChar?_eq_none_iff.mp read) ih

/-! ## Zero bytes -/

/-- **The zero bytes are those of the zero characters.** -/
theorem zeros_eq {run : List Symbol} (genuine : ∀ s ∈ run, s.Genuine) (offset : Nat) :
    (worded (· == LexicalFault.nul.message) (symbolFaults offset run)).map Diagnostic.offset =
      (bytesOf run).findIdxs (· == 0) offset := by
  induction run generalizing offset with
  | nil => rfl
  | cons s run ih =>
    obtain ⟨here, later⟩ := List.forall_mem_cons.mp genuine
    rw [symbolFaults, worded_append, List.map_append, ih later, bytesOf_cons,
      List.findIdxs_append, s.length_bytes]
    congr 1
    by_cases zero : s = .character '\x00'
    · rw [zero]
      rfl
    · have no_byte : s.bytes.findIdxs (· == 0) offset = [] := by
        rw [List.findIdxs_eq_nil_iff]
        intro b mem
        rw [beq_eq_false_iff_ne]
        rintro rfl
        exact zero (s.eq_character_of_mem_bytes here mem (by decide))
      rw [no_byte, List.map_eq_nil_iff]
      apply worded_eq_nil_iff.mpr
      rw [List.forall_mem_map]
      intro fault mem
      cases s with
      | stray b =>
        have other : ¬ LexicalFault.malformedBytes.message == LexicalFault.nul.message := by decide
        rw [List.mem_singleton.mp mem]
        exact other
      | character c =>
        have other : c ≠ '\x00' := fun is => zero (congrArg _ is)
        simp [Symbol.fault?, other] at mem

end Text

/-! ## How illegal characters are worded -/

/-- Whether a message starts with some words. -/
def startsWith (words message : String) : Bool := words.toList.isPrefixOf message.toList

/-- A message starts with the words that it is put together from. -/
theorem startsWith_append (words tail : String) : startsWith words (words ++ tail) := by
  rw [startsWith, List.isPrefixOf_iff_prefix, String.toList_append]
  exact List.prefix_append ..

/-- The words that reports of illegal characters start with. -/
def illegalCharacterWords : String := "illegal character U+"

namespace LexicalFault

/-- The report of an illegal character starts with its words. -/
theorem startsWith_illegalCharacter (c : Char) :
    startsWith illegalCharacterWords (illegalCharacter c).message := by
  have words : (illegalCharacter c).message = illegalCharacterWords ++
      (String.ofList (Text.hexDigits4 c.toNat) ++ (" " ++ Text.quotedChar c)) := by
    unfold message illegalCharacterWords
    simp only [toString, String.append_assoc]
  rw [words]
  exact startsWith_append ..

/-- Only reports of what is illegal start with these words, and not those of symbols. -/
theorem head_of_startsWith {fault : LexicalFault}
    (starts : startsWith illegalCharacterWords fault.message) :
    fault.head = "illegal " ∧ fault ≠ nul ∧ fault ≠ malformedBytes := by
  refine ⟨?_, ?_, ?_⟩
  · have differ : ∀ head ∈ heads, head ≠ "illegal " →
        ¬ (head.toList <+: illegalCharacterWords.toList ∨
          illegalCharacterWords.toList <+: head.toList) := by
      decide
    by_contra other
    obtain ⟨tail, message⟩ := fault.message_eq
    rw [startsWith, List.isPrefixOf_iff_prefix, message, String.toList_append] at starts
    exact differ _ fault.head_mem_heads other
      (List.prefix_or_prefix_of_prefix (List.prefix_append _ _) starts)
  · rintro rfl
    exact absurd starts (by decide)
  · rintro rfl
    exact absurd starts (by decide)

end LexicalFault

/-! ## Wordings that only one side has -/

namespace Scanner

/-- What is worded like the fault of a symbol is no fault of a token. -/
theorem unowned_of_fault? {t : Symbol} {fault : LexicalFault} (is : t.fault? = some fault) :
    Unowned (· == fault.message) := by
  intro t' rest found kind own mem same
  have wording := eq_of_beq same
  have symbol := t.eq_of_fault? is
  have illegal : own.2.head = "illegal " := by
    rw [LexicalFault.head_eq_of_message_eq wording]
    rcases symbol with rfl | rfl
    all_goals rfl
  obtain ⟨-, character⟩ := kind.illegal_of_head own mem illegal
  rw [character] at wording
  have starts := LexicalFault.startsWith_illegalCharacter t'.toChar
  rw [wording] at starts
  obtain ⟨-, noNul, noStray⟩ := LexicalFault.head_of_startsWith starts
  rcases symbol with rfl | rfl
  · exact noNul rfl
  · exact noStray rfl

end Scanner

/-- Whether a lexeme is a character that no token is made of, other than a zero byte and the
replacement character. -/
def Lexeme.isForeign (l : Lexeme) : Bool :=
  l.token = .illegal && l.literal ≠ "\x00" && l.literal ≠ String.singleton Text.replacement

namespace Scanner

variable {source : List UInt8} {passed : List Symbol} {s : Scanner}

/-- The literal of a character alone is that character. -/
theorem literal_illegal {t : Symbol} (genuine : t.Genuine) :
    literal .illegal [t] = String.singleton t.toChar := by
  change Text.lossyString (bytesOf [t]) = _
  rw [Text.bytesOf_cons, Text.bytesOf_nil, List.append_nil, Text.lossyString,
    t.lossy_bytes genuine, String.singleton_eq_ofList]

/-- A character alone is foreign unless it is NUL or the replacement character, which are reported
otherwise. -/
theorem isForeign_iff {pos : Pos} {c : Char} :
    Lexeme.isForeign ⟨pos, .illegal, String.singleton c⟩ ↔ c ≠ '\x00' ∧ c ≠ Text.replacement := by
  have same : ∀ d, String.singleton c = String.singleton d ↔ c = d := by
    intro d
    rw [String.singleton_eq_ofList, String.singleton_eq_ofList, String.ofList_inj]
    exact List.singleton_inj
  rw [Lexeme.isForeign, show "\x00" = String.singleton '\x00' from rfl]
  simp only [decide_true, Bool.true_and, Bool.and_eq_true, decide_eq_true_eq, ne_eq, same]

/-- No fault of a symbol is worded like an illegal character. -/
theorem not_startsWith_of_fault? (t : Symbol) (fault : LexicalFault) (is : t.fault? = some fault) :
    ¬ startsWith illegalCharacterWords fault.message := by
  intro starts
  obtain ⟨-, noNul, noStray⟩ := LexicalFault.head_of_startsWith starts
  exact (t.eq_of_fault? is).elim noNul noStray

/-- **A scan reports an illegal character exactly if it yields one**, at its offset. -/
theorem foreign_scan (stands : s.reader.Behind source passed) :
    (worded (startsWith illegalCharacterWords) s.scan.1.reports).map Diagnostic.offset =
      if s.scan.1.lexeme.isForeign then [s.scan.1.pos.offset] else [] := by
  rw [worded_scan_own not_startsWith_of_fault?, ownReports]
  cases recognized : s.recognized? with
  | none =>
    rw [(scan_of_none recognized).1]
    rfl
  | some found =>
    obtain ⟨yields, -⟩ := scan_of_some recognized
    obtain ⟨t, rest, ahead, kind⟩ := kind_of_recognized recognized
    by_cases illegal : found.token = .illegal
    · obtain ⟨rfl, unknown⟩ := kind.eq_illegal illegal
      have genuine : t.Genuine :=
        (behindGap_stands stands).genuine (ahead ▸ List.mem_cons_self)
      rw [Scanned.pos, yields, illegal, Recognition.count_single, ahead, List.take_succ_cons,
        List.take_zero, literal_illegal genuine]
      simp only [isForeign_iff, Recognition.faults_single, unknown, true_and]
      split
      · have starts := LexicalFault.startsWith_illegalCharacter t.toChar
        rw [List.map_singleton, worded_singleton, if_pos starts]
        rfl
      · rfl
    · have known : s.scan.1.lexeme.isForeign = false := by
        rw [yields]
        simp [Lexeme.isForeign, illegal]
      rw [known, List.map_eq_nil_iff.mpr]
      · rfl
      apply worded_eq_nil_iff.mpr
      rw [List.forall_mem_map]
      intro fault mem starts
      obtain ⟨head, -⟩ := LexicalFault.head_of_startsWith starts
      obtain ⟨rfl, -⟩ := kind.illegal_of_head fault mem head
      rw [Recognition.faults_single] at mem
      split at mem
      · next character => exact illegal ((Recognition.token_single _).trans character.1)
      · cases mem

/-- A run reports an illegal character for each one that it yields. -/
theorem foreign_stream (source : List UInt8) :
    (worded (startsWith illegalCharacterWords)
        ((start source).stream.scans.flatMap Scanned.reports)).map Diagnostic.offset =
      ((start source).stream.lexemes.filter Lexeme.isForeign).map fun l => l.pos.offset := by
  have each : ∀ scan ∈ (start source).stream.scans,
      (worded (startsWith illegalCharacterWords) scan.reports).map Diagnostic.offset =
        if scan.lexeme.isForeign then [scan.pos.offset] else [] := by
    intro scan mem
    obtain ⟨n, is⟩ := List.mem_iff_getElem?.mp mem
    obtain rfl := scan_after_eq (Reader.behind_start source) is
    obtain ⟨passed, stands⟩ := stands_after source n
    exact foreign_scan stands
  rw [TokenStream.lexemes_eq]
  generalize (start source).stream.scans = scans at each
  induction scans with
  | nil => rfl
  | cons scan scans ih =>
    obtain ⟨here, later⟩ := List.forall_mem_cons.mp each
    rw [List.flatMap_cons, worded_append, List.map_append, here, ih later, List.map_cons,
      List.filter_cons]
    split <;> rfl

end Scanner

/-! ## What a source is reported -/

/-- What is wrong with symbols stands in the order of offsets. -/
theorem pairwise_symbolFaults (offset : Nat) (run : List Symbol) :
    (symbolFaults offset run).Pairwise fun d e => d.offset ≤ e.offset := by
  have behind : ∀ (offset : Nat) (run : List Symbol), ∀ d ∈ symbolFaults offset run,
      offset ≤ d.offset := by
    intro offset run
    induction run generalizing offset with
    | nil => exact fun d mem => absurd mem List.not_mem_nil
    | cons s run ih =>
      refine List.forall_mem_append.mpr ⟨?_, ?_⟩
      · exact List.forall_mem_map.mpr fun fault _ => Nat.le_refl offset
      · exact fun d mem => Nat.le_trans (Nat.le_add_right ..) (ih _ d mem)
  induction run generalizing offset with
  | nil => exact .nil
  | cons s run ih =>
    refine List.pairwise_append.mpr ⟨?_, ih _, ?_⟩
    · cases s.fault? <;> simp
    · rw [List.forall_mem_map]
      intro fault _ d mem
      exact Nat.le_trans (Nat.le_add_right ..) (behind _ run d mem)

/-- Reports of one wording whose offsets ascend are sorted as they are found. -/
theorem worded_diagnostics {wording : String → Bool} {source : List UInt8} {offsets : List Nat}
    (are : (worded wording (reported source)).map Diagnostic.offset = offsets)
    (ascends : offsets.Pairwise (· ≤ ·)) :
    (worded wording (lex source).diagnostics.items).map Diagnostic.offset = offsets := by
  subst are
  exact congrArg _ ((Diagnostics.mk (reported source)).filter_sort (List.pairwise_map.mp ascends))

/-- **The reports of symbols are the faults of all symbols of a source**, each once. -/
theorem worded_symbols {wording : String → Bool} (unowned : Scanner.Unowned wording)
    (source : List UInt8) : worded wording (reported source) =
      worded wording (symbolFaults 0 (symbols source)) := by
  have run := Scanner.worded_stream_due unowned (s := .start source) (Reader.behind_start source)
  rw [reported, worded_append, run, ← worded_append]
  exact congrArg _ (Reader.start source).symbolFaults_eq.symm

/-- **What is illegal is reported once.** Among the diagnostics of any source, zero bytes are
reported at exactly their offsets, undecodable bytes at exactly theirs, and illegal characters for
exactly the illegal lexemes that are neither zero bytes nor replacement characters, at the offsets
of these; all of them once each, as no list here holds an offset twice. -/
theorem illegal_reported_once (source : List UInt8) :
    (worded (· == "illegal character NUL") (lex source).diagnostics.items).map Diagnostic.offset =
        source.findIdxs (· == 0) ∧
      (∀ marks, Text.Undecodable 0 source marks ↔
        marks = (worded (· == "illegal UTF-8 encoding")
          (lex source).diagnostics.items).map Diagnostic.offset) ∧
      (worded (startsWith "illegal character U+") (lex source).diagnostics.items).map
          Diagnostic.offset =
        ((lex source).lexemes.filter Lexeme.isForeign).map fun l => l.pos.offset := by
  have nul : Scanner.Unowned (· == LexicalFault.nul.message) :=
    Scanner.unowned_of_fault? (t := .character '\x00') rfl
  have malformed : Scanner.Unowned (· == LexicalFault.malformedBytes.message) :=
    Scanner.unowned_of_fault? (t := .stray 0xFF) rfl
  refine ⟨?_, ?_, ?_⟩
  -- The list is sorted by offset at the end: what is found in this order comes out in it.
  · apply @worded_diagnostics (· == LexicalFault.nul.message)
    · have genuine : ∀ s ∈ symbols source, s.Genuine :=
        fun s mem => Text.genuine_of_mem_symbols mem
      rw [worded_symbols nul, Text.zeros_eq genuine, Text.bytesOf_symbols]
    · exact List.pairwise_findIdxs.imp Nat.le_of_lt
  · intro marks
    rw [Text.undecodable_iff, ← worded_symbols malformed]
    have same := @worded_diagnostics (· == LexicalFault.malformedBytes.message) source _ rfl ?_
    · exact same ▸ Iff.rfl
    · rw [worded_symbols malformed]
      exact List.pairwise_map.mpr ((pairwise_symbolFaults 0 _).sublist List.filter_sublist)
  · apply @worded_diagnostics (startsWith illegalCharacterWords)
    · have opening : worded (startsWith illegalCharacterWords)
          (Scanner.openingReports source) = [] :=
        Reader.worded_faults_eq_nil _ Scanner.not_startsWith_of_fault?
      rw [reported, worded_append, opening, List.nil_append]
      exact Scanner.foreign_stream source
    · have positions := (pairwise_pos_lexemes source).sublist
        (List.filter_sublist (p := Lexeme.isForeign))
      apply List.pairwise_map.mpr (positions.imp _)
      exact fun before => Nat.sub_le_sub_right (Nat.le_of_lt before) 1

end SheetFormula

import Mathlib.Logic.Function.Iterate
import Mathlib.Tactic.Common
import SheetFormula.Proofs.Lexeme.Faults
import SheetFormula.Proofs.Lexeme.NumberParts
import SheetFormula.Proofs.Lexeme.Words
import SheetFormula.Proofs.Location.Order

/-!
# Where a scanner stands among bytes

A reader has the symbols ahead of it at hand. Whoever has only the bytes of a source keeps offsets
into them: a cursor knows the character in front, where that starts and ends, and where lines have
started. It moves by decoding the bytes at its second offset, and notes the start of a line one step
late, when it has passed the line feed (`Cursor.advance`).

Main results:
* `Reader.Behind.cursor_advance`: a reader is such a cursor; one step of it is one step of the
  cursor.
* `Scanner.reader_scan_eq`: a scan moves its reader one symbol at a time.
* `Reader.Charted.sound`: at every moment the offsets fit the bytes and each other (`Cursor.Sound`).
* `Reader.Behind.withinBounds`: no byte is taken from beyond the end of the source.
* `scanner_stays_in_bounds`: all of this at every moment, inside a scan or between two.
-/

namespace SheetFormula

open Text (Symbol bytesOf symbols)

/-! ## Bytes between offsets -/

/-- The bytes of a source from one offset up to another, unless these are in the wrong order or
beyond its end. -/
def slice? (source : List UInt8) (start stop : Nat) : Option (List UInt8) :=
  if start ≤ stop ∧ stop ≤ source.length then some ((source.take stop).drop start) else none

/-- The bytes between the lengths of what precedes and what does not follow are those in the
middle. -/
theorem slice?_append (before text after : List UInt8) :
    slice? (before ++ text ++ after) before.length (before.length + text.length) = some text := by
  have inside : before.length + text.length ≤ (before ++ text ++ after).length := by
    simp only [List.length_append]
    omega
  rw [slice?, if_pos ⟨Nat.le_add_right .., inside⟩, ← List.length_append, List.take_left,
    List.drop_left]

/-! ## Cursors -/

/-- A place among the bytes of a source. -/
structure Cursor where
  /-- The character in front, if this is not the end. -/
  current : Option Char
  /-- The offset at which that character starts. -/
  offset : Nat
  /-- The offset right behind it. -/
  next : Nat
  /-- The offset at which the line starts that the character is on. -/
  lineStart : Nat
  /-- The offsets at which lines have started so far. -/
  lineStarts : List Nat
  deriving DecidableEq, Repr

namespace Cursor

/-- Before the first character has been read. -/
def unread : Cursor := ⟨none, 0, 0, 0, [0]⟩

/-- The character that is read at an offset, if this is not the end, and the offset behind it. Where
none can be decoded, a single byte is read as the replacement character. -/
def read (source : List UInt8) (offset : Nat) : Option Char × Nat :=
  if offset < source.length then
    let (c, width) := (Text.decodeChar? (source.drop offset)).getD (Text.replacement, 1)
    (some c, offset + width)
  else (none, offset)

/-- Reads on behind the character in front. If that is a line feed, a line starts there. -/
def advance (source : List UInt8) (c : Cursor) : Cursor :=
  let offset := min c.next source.length
  let (current, next) := read source c.next
  if c.current = some '\n' then ⟨current, offset, next, offset, c.lineStarts ++ [offset]⟩
  else ⟨current, offset, next, c.lineStart, c.lineStarts⟩

/-- How a cursor fits the bytes of a source. -/
structure Sound (source : List UInt8) (c : Cursor) : Prop where
  offset_le : c.offset ≤ c.next
  next_le : c.next ≤ source.length
  current_eq_none_iff : c.current = none ↔ c.offset = source.length
  next_of_none : c.current = none → c.next = source.length
  /-- The character in front is encoded in front, or no character is. -/
  reads : ∀ ch, c.current = some ch →
    (String.utf8EncodeChar ch <+: source.drop c.offset ∧ c.next = c.offset + ch.utf8Size) ∨
    ((∀ other, ¬ String.utf8EncodeChar other <+: source.drop c.offset) ∧
      ch = Text.replacement ∧ c.next = c.offset + 1)
  ascends : c.lineStarts.Pairwise (· < ·)
  /-- Lines start at zero and behind the line feeds in front of the cursor. -/
  lineStarts_eq : c.lineStarts = 0 :: ((source.take c.offset).idxsOf lineFeed).map (· + 1)
  lineStart_last : c.lineStarts.getLast? = some c.lineStart

end Cursor

/-! ## Readers as cursors -/

/-- The character that is decoded of the bytes of a symbol, with its width. -/
def Text.Symbol.decoded? : Symbol → Option (Char × Nat)
  | .character c => some (c, c.utf8Size)
  | .stray _ => none

/-- There is no character in front if nothing is. -/
theorem frontChar?_eq_none_iff {rest : List Symbol} : frontChar? rest = none ↔ rest = [] := by
  rw [frontChar?, Option.map_eq_none_iff, List.head?_eq_none_iff]

namespace Reader

/-- The place of a reader among the bytes of its source. -/
def cursor (r : Reader) : Cursor :=
  ⟨frontChar? r.rest, r.offset, r.advance.offset, r.lineStart, r.lineStarts⟩

/-- A line starts behind a line feed and nowhere else. -/
theorem lines_advance (r : Reader) :
    r.advance.lineStart =
        (if frontChar? r.rest = some '\n' then r.advance.offset else r.lineStart) ∧
      r.advance.lineStarts =
        if frontChar? r.rest = some '\n' then r.lineStarts ++ [r.advance.offset]
        else r.lineStarts := by
  cases front : r.rest with
  | nil =>
    rw [advance_of_nil front]
    exact ⟨rfl, rfl⟩
  | cons s rest =>
    by_cases newline : s.toChar = '\n'
    · simp [advance, front, newline, lineStarts]
    · simp [advance, front, newline, lineStarts]

/-- Moving over so many symbols is moving over one so many times. -/
theorem consume_eq_iterate (r : Reader) (count : Nat) :
    (r.consume count).1 = advance^[count] r := by
  induction count generalizing r with
  | zero => rfl
  | succ count ih => exact ih r.advance

/-- Moving over a token is moving over one symbol as often as its legs count together. -/
theorem follow_eq_iterate (tokenStart : Nat) (r : Reader) (legs : List Leg) :
    (r.follow tokenStart legs).1 = advance^[Leg.total legs] r := by
  induction legs generalizing r with
  | nil => rfl
  | cons leg legs ih =>
    rw [Leg.total, Nat.add_comm, Function.iterate_add_apply, ← consume_eq_iterate r]
    exact ih _

variable {source : List UInt8} {passed : List Symbol} {r : Reader}

namespace Behind

/-- What is decoded where a reader stands is the symbol in front of it. -/
theorem decodeChar?_eq (stands : r.Behind source passed) {s : Symbol} {rest : List Symbol}
    (front : r.rest = s :: rest) :
    Text.decodeChar? (source.drop r.offset) = s.decoded? := by
  have ahead := stands.symbols_ahead
  rw [stands.drop_offset]
  cases s with
  | character c =>
    rw [front, Text.bytesOf_cons]
    exact Text.decodeChar?_encode_append c _
  | stray b => exact (Text.symbols_tail (ahead.trans front)).2 b rfl

/-- **What a cursor reads where a reader stands is the symbol in front.** -/
theorem read_eq (stands : r.Behind source passed) :
    Cursor.read source r.offset = (frontChar? r.rest, r.advance.offset) := by
  cases front : r.rest with
  | nil =>
    have last := stands.offset_eq_length_iff.mpr front
    rw [Cursor.read, if_neg (by omega), advance_of_nil front]
    rfl
  | cons s rest =>
    have more : r.offset < source.length := by
      have reach := stands.offset_add_le
      rw [front, List.length_cons] at reach
      omega
    rw [Cursor.read, if_pos more, stands.decodeChar?_eq front, offset_advance front]
    cases s <;> rfl

/-- **One step of a reader is one step of its cursor.** -/
theorem cursor_advance (stands : r.Behind source passed) :
    r.advance.cursor = r.cursor.advance source := by
  have next := stands.advance
  have inside : min r.advance.offset source.length = r.advance.offset := by
    have reach := next.offset_add_le
    omega
  unfold Cursor.advance cursor
  dsimp only
  rw [next.read_eq, inside, r.lines_advance.1, r.lines_advance.2]
  split <;> rfl

/-- Moving over so many symbols passes them, one at a time. -/
theorem iterate (stands : r.Behind source passed) (count : Nat) :
    (Reader.advance^[count] r).Behind source (passed ++ r.rest.take count) := by
  rw [← consume_eq_iterate]
  exact stands.consume count

/-- **What is passed is a slice of the source.** -/
theorem slice?_passed (stands : r.Behind source passed) (count : Nat) :
    slice? source r.offset (Reader.advance^[count] r).offset =
      some (bytesOf (r.rest.take count)) := by
  have later := stands.iterate count
  rw [later.offset_eq, later.source_eq, stands.offset_eq, Text.bytesOf_append, List.length_append]
  exact slice?_append _ _ _

end Behind

/-- A reader in front of its source has the cursor that has read the first character. -/
theorem cursor_start (source : List UInt8) :
    (start source).cursor = Cursor.unread.advance source := by
  have first := (behind_start source).read_eq
  unfold Cursor.advance cursor
  rw [show Cursor.unread.next = (start source).offset from rfl, first,
    show min (start source).offset source.length = 0 from Nat.zero_min _]
  rfl

/-- **A reader is where so many steps of a cursor lead.** -/
theorem cursor_iterate (source : List UInt8) (m : Nat) :
    (advance^[m] (start source)).cursor = (Cursor.advance source)^[m + 1] .unread := by
  induction m with
  | zero => exact cursor_start source
  | succ m ih =>
    have stands := (behind_start source).iterate m
    rw [Function.iterate_succ_apply', Function.iterate_succ_apply' _ (m + 1), ← ih]
    exact stands.cursor_advance

/-- The encoding of the character in front is in front, or no encoding is, and a single byte stands
for the replacement character. -/
theorem Behind.reads (stands : r.Behind source passed) {ch : Char}
    (is : frontChar? r.rest = some ch) :
    (String.utf8EncodeChar ch <+: source.drop r.offset ∧
      r.advance.offset = r.offset + ch.utf8Size) ∨
    ((∀ other, ¬ String.utf8EncodeChar other <+: source.drop r.offset) ∧
      ch = Text.replacement ∧ r.advance.offset = r.offset + 1) := by
  cases front : r.rest with
  | nil =>
    rw [front] at is
    cases is
  | cons s rest =>
    rw [front] at is
    obtain rfl : s.toChar = ch := Option.some.inj is
    have decoded := stands.decodeChar?_eq front
    rw [offset_advance front]
    cases s with
    | character c => exact .inl ⟨(Text.decodeChar?_eq_some_iff.mp decoded).2, rfl⟩
    | stray b => exact .inr ⟨Text.decodeChar?_eq_none_iff.mp decoded, rfl, rfl⟩

/-- **The cursor of a reader fits the bytes of its source.** -/
theorem Charted.sound (charted : r.Charted source passed) : r.cursor.Sound source where
  offset_le := by
    show r.offset ≤ r.advance.offset
    rw [charted.offset_eq, charted.toBehind.advance.offset_eq, Text.bytesOf_append,
      List.length_append]
    exact Nat.le_add_right ..
  next_le := by
    have reach := charted.toBehind.advance.offset_add_le
    show r.advance.offset ≤ source.length
    omega
  current_eq_none_iff := frontChar?_eq_none_iff.trans charted.toBehind.offset_eq_length_iff.symm
  next_of_none := by
    intro last
    have nothing := frontChar?_eq_none_iff.mp last
    show r.advance.offset = source.length
    rw [advance_of_nil nothing]
    exact charted.toBehind.offset_eq_length_iff.mpr nothing
  reads := fun _ is => charted.toBehind.reads is
  ascends := by
    show r.lineStarts.Pairwise (· < ·)
    rw [charted.lineStarts_eq]
    exact Location.pairwise_lineTable _
  lineStarts_eq := by
    have behind : bytesOf passed = source.take r.offset := by
      conv_rhs => rw [charted.source_eq, charted.offset_eq, List.take_left]
    show r.lineStarts = _
    rw [charted.lineStarts_eq, behind]
    exact Location.lineTable_eq_idxsOf _
  lineStart_last := by
    show r.lineStarts.getLast? = some r.lineStart
    rw [lineStarts, List.getLast?_reverse, List.head?_cons]

end Reader

/-! ## What is taken of a source -/

namespace Numeral

variable {n : Numeral} {index : Nat}

/-- A digit that is reported stands in the number where the report says. -/
theorem getElem?_of_mem_digitFaults {digit : Char} {radix : Radix}
    (mem : (index, .invalidDigit digit radix) ∈ n.digitFaults) : n.text[index]? = some digit := by
  unfold digitFaults at mem
  split at mem
  · split at mem
    · next found =>
      obtain ⟨i, rfl, is⟩ := getElem?_of_outOfBase? found
      cases List.mem_singleton.mp mem
      have whole : (n.announcement ++ n.whole)[n.announcement.length + i]? = some digit := by
        rwa [List.getElem?_append_right (Nat.le_add_right ..), Nat.add_sub_cancel_left]
      rw [text, wholeText, List.append_assoc, List.append_assoc]
      rw [List.getElem?_append_left (List.getElem?_eq_some_iff.mp whole).1, whole]
    · cases mem
  · cases mem

/-- A separator that is reported stands in the number where the report says. -/
theorem getElem?_of_mem_separatorFaults {fault : LexicalFault}
    (mem : (index, fault) ∈ n.separatorFaults) :
    (n.text.flatMap String.utf8EncodeChar)[index]? = some Separator.separator := by
  unfold separatorFaults at mem
  split at mem
  · next found =>
    cases List.mem_singleton.mp mem
    exact Separator.getElem?_of_misplaced? found
  · cases mem

end Numeral

namespace Reader

/-- Whatever bytes are taken of a source from a reader on, they are in the source. -/
structure WithinBounds (source : List UInt8) (r : Reader) : Prop where
  /-- All that is passed, be it a gap, a token or a part of it, is a slice. -/
  passed : ∀ count, slice? source r.offset (Reader.advance^[count] r).offset =
    some (bytesOf (r.rest.take count))
  /-- The longest word behind the character in front, which a colon makes a scan look at, is a
  slice. -/
  word : ∃ word after, Word.Stands (source.drop r.cursor.next) word after ∧
    slice? source r.cursor.next
        (r.cursor.next + (word.flatMap String.utf8EncodeChar).length) =
      some (word.flatMap String.utf8EncodeChar)
  /-- A digit that is reported in a number is the byte at the offset that is reported. -/
  digit : ∀ index digit radix,
    (index, .invalidDigit digit radix) ∈ (Numeral.read r.rest).digitFaults →
      source[r.offset + index]?.map Char.ofUInt8 = some digit
  /-- A separator that is reported in a number is the byte at the offset that is reported. -/
  separator : ∀ index fault, (index, fault) ∈ (Numeral.read r.rest).separatorFaults →
    source[r.offset + index]? = some Separator.separator

variable {source : List UInt8} {passed : List Symbol} {r : Reader}

/-- The bytes of the number in front are the next bytes of the source. -/
theorem Behind.getElem?_number (stands : r.Behind source passed) {index : Nat} {b : UInt8}
    (is : ((Numeral.read r.rest).text.flatMap String.utf8EncodeChar)[index]? = some b) :
    source[r.offset + index]? = some b := by
  have ahead := congrArg bytesOf
    ((Numeral.inFront_text_read r.rest).eq_append (Numeral.isAscii_text_read r.rest))
  rw [Text.bytesOf_append, Text.bytesOf_characters] at ahead
  rw [← List.getElem?_drop, stands.drop_offset, ahead,
    List.getElem?_append_left (List.getElem?_eq_some_iff.mp is).1, is]

/-- **A reader of a source takes no byte from beyond its end.** -/
theorem Behind.withinBounds (stands : r.Behind source passed) : r.WithinBounds source where
  passed := stands.slice?_passed
  word := by
    have inside := stands.advance.offset_add_le
    have front : (source.take r.advance.offset).length = r.advance.offset :=
      List.length_take_of_le (by omega)
    obtain ⟨word, after, stand⟩ := Word.exists_stands (source.drop r.advance.offset)
    have split := List.take_append_drop r.advance.offset source
    rw [stand.bytes_eq, ← List.append_assoc] at split
    have taken := slice?_append (source.take r.advance.offset)
      (word.flatMap String.utf8EncodeChar) after
    rw [split, front] at taken
    exact ⟨word, after, stand, taken⟩
  digit := by
    intro index digit radix mem
    have ascii := Numeral.isAscii_text_read r.rest
    have is := Numeral.getElem?_of_mem_digitFaults mem
    have small : Text.isAscii digit := ascii _ (List.mem_of_getElem? is)
    have byte : ((Numeral.read r.rest).text.flatMap String.utf8EncodeChar)[index]? =
        some (UInt8.ofNat digit.toNat) := by
      rw [Text.encode_of_isAscii ascii, Text.asciiBytes, List.getElem?_map, is, Option.map_some]
    rw [stands.getElem?_number byte, Option.map_some, Text.ofUInt8_of_isAscii small]
  separator := fun _ _ mem => stands.getElem?_number (Numeral.getElem?_of_mem_separatorFaults mem)

end Reader

/-! ## Scans -/

namespace Scanner

/-- How many symbols a scan moves over: a gap, and the token behind it if there is one. -/
def steps (s : Scanner) : Nat :=
  (gap s.reader.rest).length + s.recognized?.elim 0 Recognition.count

variable {source : List UInt8} {passed : List Symbol} {s : Scanner}

/-- **A scan moves its reader one symbol at a time.** -/
theorem reader_scan_eq (s : Scanner) : s.scan.2.reader = Reader.advance^[s.steps] s.reader := by
  have behindGap : s.behindGap = Reader.advance^[(gap s.reader.rest).length] s.reader :=
    Reader.consume_eq_iterate _ _
  unfold steps
  cases found? : s.recognized? with
  | none => exact (scan_of_none found?).2.trans behindGap
  | some found =>
    rw [(scan_of_some found?).2, Reader.follow_eq_iterate, behindGap, Nat.add_comm,
      Function.iterate_add_apply]
    rfl

/-- Behind any number of scans a reader has moved over symbols of its source one at a time. -/
theorem exists_reader_after_eq (s : Scanner) (n : Nat) :
    ∃ m, (s.after n).reader = Reader.advance^[m] s.reader := by
  induction n with
  | zero => exact ⟨0, rfl⟩
  | succ n ih =>
    obtain ⟨m, moved⟩ := ih
    refine ⟨(s.after n).steps + m, ?_⟩
    rw [after_succ, reader_scan_eq, moved, Function.iterate_add_apply]

/-- The literal of a lexeme is read of the slice that the scan has passed behind the gap. -/
theorem exists_slice?_literal (stands : s.reader.Behind source passed) :
    ∃ text, slice? source s.scan.1.pos.offset s.scan.2.reader.offset = some text ∧
      s.scan.1.lexeme.literal =
        if s.scan.1.token.keepsText then Text.lossyString text else "" := by
  have here := behindGap_stands stands
  have pos : s.scan.1.pos.offset = s.behindGap.offset := congrArg Pos.offset (pos_scan s)
  rw [pos]
  cases found? : s.recognized? with
  | none =>
    obtain ⟨yields, leaves⟩ := scan_of_none found?
    rw [Scanned.token, yields, leaves]
    exact ⟨[], here.slice?_passed 0, rfl⟩
  | some found =>
    obtain ⟨yields, leaves⟩ := scan_of_some found?
    rw [Scanned.token, yields, leaves, Reader.follow_eq_iterate]
    exact ⟨_, here.slice?_passed _, rfl⟩

/-- The reader of a scanner of a source, so many symbols behind so many scans. -/
def readerAt (source : List UInt8) (scans symbols : Nat) : Reader :=
  Reader.advance^[symbols] ((start source).after scans).reader

end Scanner

open Scanner (readerAt)

/-- **A scanner keeps to its source.** At every moment, any number of symbols behind any number of
scans, its reader is where moving over one symbol after the other from the front of the source
leads, and so its cursor is where decoding the bytes as often does; the cursor fits these bytes; and
no bytes are taken from beyond their end. A scan moves the reader in the same way, and the literal
that it yields is read of the slice from where its lexeme starts to where the reader is then. -/
theorem scanner_stays_in_bounds (source : List UInt8) (n i : Nat) :
    (∃ m, readerAt source n i = readerAt source 0 m ∧
      (readerAt source n i).cursor = (Cursor.advance source)^[m + 1] .unread) ∧
    (readerAt source n i).cursor.Sound source ∧
    (readerAt source n i).WithinBounds source ∧
    readerAt source (n + 1) 0 = readerAt source n ((Scanner.start source).after n).steps ∧
    ∃ text, slice? source ((Scanner.start source).nthScan n).pos.offset
        (readerAt source (n + 1) 0).offset = some text ∧
      ((Scanner.start source).nthScan n).lexeme.literal =
        if ((Scanner.start source).nthScan n).token.keepsText then Text.lossyString text
        else "" := by
  obtain ⟨-, passed, charted⟩ :=
    Scanner.charted_after (s := .start source) (Reader.charted_start source) n
  obtain ⟨m, moved⟩ := (Scanner.start source).exists_reader_after_eq n
  have here : (readerAt source n i).Charted source
      (passed ++ ((Scanner.start source).after n).reader.rest.take i) := by
    unfold readerAt
    rw [← Reader.consume_eq_iterate]
    exact charted.consume i
  have along : readerAt source n i = readerAt source 0 (i + m) := by
    unfold readerAt
    rw [Function.iterate_add_apply, moved]
    rfl
  have behind : readerAt source (n + 1) 0 = ((Scanner.start source).after n).scan.2.reader :=
    congrArg Scanner.reader (Scanner.after_succ _ n)
  refine ⟨⟨i + m, along, ?_⟩, here.sound, here.toBehind.withinBounds, ?_, ?_⟩
  · rw [along]
    exact Reader.cursor_iterate source (i + m)
  · rw [behind, Scanner.reader_scan_eq]
    rfl
  · rw [behind, Scanner.nthScan_eq_scan_after]
    exact Scanner.exists_slice?_literal charted.toBehind

/-- On the second line, in front of a number with a digit that its leading zero rules out. -/
theorem scanner_stays_in_bounds_invalid_digit :
    let source := Text.encoded "\n09"
    let r := readerAt source 0 1
    r.cursor = ⟨some '0', 1, 2, 1, [0, 1]⟩ ∧ r.cursor.Sound source ∧
      slice? source r.offset (Reader.advance^[2] r).offset = some (bytesOf (r.rest.take 2)) ∧
      (1, .invalidDigit '9' .leadingZero) ∈ (Numeral.read r.rest).digitFaults ∧
      source[r.offset + 1]?.map Char.ofUInt8 = some '9' := by
  intro source r
  obtain ⟨-, sound, inside, -⟩ := scanner_stays_in_bounds source 0 1
  have reported : (1, .invalidDigit '9' .leadingZero) ∈ (Numeral.read r.rest).digitFaults := by
    decide +kernel
  exact ⟨by decide +kernel, sound, inside.passed 2, reported, inside.digit 1 '9' _ reported⟩

end SheetFormula

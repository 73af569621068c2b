import Mathlib.Tactic.Common
import SheetFormula.Lexeme.Reader
import SheetFormula.Proofs.Text.Encoding

/-!
# Where a reader stands

A reader that has passed some symbols of a source knows three things about them: how many bytes they
take, which symbols are still ahead, and whether its line starts right where it stands.
`Reader.Behind` states this of a reader and the symbols that it has passed.

Main results:
* `Reader.behind_start` and `Reader.Behind.advance`: it holds at the start, and one step keeps it.
* `Reader.consume_induction` and `Reader.follow_induction`: what one step keeps every way of moving
  keeps.
* `Reader.Behind.source_eq`: the bytes of a source are those that were passed and those ahead.
-/

namespace SheetFormula

open Text (Symbol bytesOf symbols)

/-- Whether a line starts behind these bytes: they are none, or the last one is a line feed. -/
def AtLineStart (before : List UInt8) : Prop :=
  before = [] ∨ before.getLast? = some lineFeed

instance (before : List UInt8) : Decidable (AtLineStart before) :=
  inferInstanceAs (Decidable (_ ∨ _))

namespace Text

/-- Whether the last byte of a symbol is a line feed, and so the whole symbol. -/
theorem Symbol.getLast?_bytes_eq_lineFeed_iff {s : Symbol} (genuine : s.Genuine) :
    s.bytes.getLast? = some lineFeed ↔ s.toChar = '\n' := by
  constructor
  · intro last
    rw [s.eq_character_of_mem_bytes genuine (List.mem_of_getLast? last) (by decide)]
    rfl
  · intro newline
    cases s with
    | character c =>
      obtain rfl : c = '\n' := newline
      rfl
    | stray b => exact absurd (show replacement = '\n' from newline) (by decide)

/-- Every symbol has a byte. -/
theorem Symbol.bytes_ne_nil (s : Symbol) : s.bytes ≠ [] := by
  rw [← List.length_pos_iff, s.length_bytes]
  exact s.width_pos

end Text

/-- Behind one more symbol a line starts exactly if that symbol is a line feed. -/
theorem atLineStart_append_bytes_iff {before : List UInt8} {s : Symbol} (genuine : s.Genuine) :
    AtLineStart (before ++ s.bytes) ↔ s.toChar = '\n' := by
  rw [← s.getLast?_bytes_eq_lineFeed_iff genuine, AtLineStart, List.getLast?_append,
    List.getLast?_eq_some_getLast s.bytes_ne_nil]
  simp [s.bytes_ne_nil]

namespace Reader

/-- At the end nothing moves. -/
theorem advance_of_nil {r : Reader} (nothing : r.rest = []) : r.advance = r := by
  simp [advance, nothing]

/-! ## What every step keeps -/

section Induction

variable {motive : List Symbol → Reader → Prop} {passed : List Symbol} {r : Reader}

/-- What each step keeps of a reader and of the symbols that it has passed, moving over so many
symbols keeps. -/
theorem consume_induction
    (step : ∀ {passed r}, motive passed r → motive (passed ++ r.rest.take 1) r.advance)
    (h : motive passed r) (count : Nat) :
    motive (passed ++ r.rest.take count) (r.consume count).1 := by
  induction count generalizing passed r with
  | zero => simpa [Reader.consume] using h
  | succ count ih =>
    have later := ih (step h)
    rw [rest_advance, List.append_assoc] at later
    have split : r.rest.take (count + 1) = r.rest.take 1 ++ r.rest.tail.take count := by
      cases r.rest <;> simp
    rw [split]
    exact later

/-- What each step keeps, moving over the legs of a token keeps. -/
theorem follow_induction
    (step : ∀ {passed r}, motive passed r → motive (passed ++ r.rest.take 1) r.advance)
    (h : motive passed r) (tokenStart : Nat) (legs : List Leg) :
    motive (passed ++ r.rest.take (Leg.total legs)) (r.follow tokenStart legs).1 := by
  induction legs generalizing passed r with
  | nil => simpa [Reader.follow, Leg.total] using h
  | cons leg legs ih =>
    have later := ih (consume_induction step h leg.count)
    rw [rest_consume, List.append_assoc] at later
    rw [Leg.total, List.take_add]
    exact later

end Induction

/-! ## The symbols that have been passed -/

/-- The reader stands behind the first symbols `passed` of the source. -/
structure Behind (source : List UInt8) (passed : List Symbol) (r : Reader) : Prop where
  symbols_eq : symbols source = passed ++ r.rest
  offset_eq : r.offset = (bytesOf passed).length
  lineStart_le : r.lineStart ≤ r.offset
  lineStart_iff : r.offset = r.lineStart ↔ AtLineStart (bytesOf passed)

variable {source : List UInt8} {passed : List Symbol} {r : Reader}

/-- At first nothing has been passed. -/
theorem behind_start (source : List UInt8) : Behind source [] (start source) where
  symbols_eq := rfl
  offset_eq := rfl
  lineStart_le := Nat.le_refl _
  lineStart_iff := by simp [start, AtLineStart]

namespace Behind

/-- The bytes of a source are those that were passed and those ahead. -/
theorem source_eq (h : Behind source passed r) : source = bytesOf passed ++ bytesOf r.rest := by
  rw [← Text.bytesOf_append, ← h.symbols_eq, Text.bytesOf_symbols]

/-- From the offset of a reader on, the bytes of a source are those ahead. -/
theorem drop_offset (h : Behind source passed r) : source.drop r.offset = bytesOf r.rest := by
  conv_lhs => rw [h.source_eq, h.offset_eq, List.drop_left]

/-- A reader is at the end of its source exactly if nothing is ahead. -/
theorem offset_eq_length_iff (h : Behind source passed r) :
    r.offset = source.length ↔ r.rest = [] := by
  have whole := congrArg List.length h.source_eq
  rw [List.length_append, ← h.offset_eq] at whole
  cases front : r.rest with
  | nil =>
    rw [front, Text.bytesOf_nil, List.length_nil] at whole
    exact iff_of_true whole.symm rfl
  | cons s rest =>
    have wide := s.width_pos
    rw [front, Text.bytesOf_cons, List.length_append, s.length_bytes] at whole
    exact iff_of_false (by omega) (List.cons_ne_nil s rest)

/-- What is ahead is read of the bytes ahead. -/
theorem symbols_ahead (h : Behind source passed r) : Text.symbols (bytesOf r.rest) = r.rest :=
  Text.symbols_drop h.symbols_eq

/-- All symbols ahead are genuine. -/
theorem genuine (h : Behind source passed r) {s : Symbol} (ahead : s ∈ r.rest) : s.Genuine :=
  Text.genuine_of_mem_symbols (h.symbols_eq ▸ List.mem_append_right _ ahead)

/-- Moving over one symbol passes it. -/
theorem advance (h : Behind source passed r) :
    Behind source (passed ++ r.rest.take 1) r.advance := by
  cases front : r.rest with
  | nil =>
    rw [advance_of_nil front, List.take_nil, List.append_nil]
    exact h
  | cons s rest =>
    have genuine : s.Genuine := h.genuine (by simp [front])
    have ahead : symbols source = passed ++ [s] ++ rest := by rw [h.symbols_eq, front]; simp
    have wider : r.offset + s.width = (bytesOf (passed ++ [s])).length := by
      simp [h.offset_eq, s.length_bytes]
    have breaks : AtLineStart (bytesOf (passed ++ [s])) ↔ s.toChar = '\n' := by
      rw [Text.bytesOf_append]
      simpa using @atLineStart_append_bytes_iff (bytesOf passed) s genuine
    by_cases newline : s.toChar = '\n'
    · have moved : r.advance =
          ⟨r.offset + s.width, rest, r.offset + s.width, r.lineStart :: r.earlierLines⟩ := by
        simp [Reader.advance, front, newline]
      rw [moved]
      exact ⟨ahead, wider, Nat.le_refl _, iff_of_true rfl (breaks.mpr newline)⟩
    · have moved : r.advance = ⟨r.offset + s.width, rest, r.lineStart, r.earlierLines⟩ := by
        simp [Reader.advance, front, newline]
      have further := s.width_pos
      have earlier := h.lineStart_le
      rw [moved]
      refine ⟨ahead, wider, by dsimp only; omega, ?_⟩
      rw [List.take_succ_cons, List.take_zero, breaks]
      constructor
      · intro same; dsimp only at same; omega
      · exact fun is => absurd is newline

/-- Moving over so many symbols passes them. -/
theorem consume (h : Behind source passed r) (count : Nat) :
    Behind source (passed ++ r.rest.take count) (r.consume count).1 :=
  consume_induction Behind.advance h count

/-- Moving over the legs of a token passes all its symbols. -/
theorem follow (h : Behind source passed r) (tokenStart : Nat) (legs : List Leg) :
    Behind source (passed ++ r.rest.take (Leg.total legs)) (r.follow tokenStart legs).1 :=
  follow_induction Behind.advance h tokenStart legs

end Behind

end Reader

end SheetFormula

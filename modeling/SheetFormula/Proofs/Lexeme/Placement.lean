import Mathlib.Tactic.Common
import SheetFormula.Proofs.Lexeme.Tiling

/-!
# Where literals stand

In a source that is well-formed UTF-8 the literal of a lexeme is, byte for byte, the text that it
was scanned from. Where bytes are malformed this need not be so, as the replacement character is
longer than what it stands for.

Main results:
* `Scanner.scan_places`: one scan places one lexeme behind what has been passed.
* `standsIn_of_mem_lexemes`: the literal of a lexeme stands in the source at the position of the
  lexeme.
* `spaced_lexemes`: no lexeme starts before the literal of an earlier one has ended.
-/

namespace SheetFormula

open Text (Symbol bytesOf symbols)

namespace Text

/-- The bytes of a text are as many as its size says. -/
theorem length_encoded (text : String) : (encoded text).length = text.utf8ByteSize := by
  have size : text.toList.utf8Encode.size = text.utf8ByteSize := by
    rw [String.utf8Encode_toList, String.size_toByteArray]
  rwa [List.utf8Encode, List.size_toByteArray] at size

/-! ## Symbols that are characters -/

/-- Whether all symbols are well-formed characters. -/
def Legible (run : List Symbol) : Prop := ∀ s ∈ run, ∃ c, s = .character c

/-- A source in well-formed UTF-8 is legible. -/
theorem legible_symbols {source : List UInt8} (valid : source.toByteArray.IsValidUTF8) :
    Legible (symbols source) := by
  obtain ⟨text, same⟩ := valid
  obtain rfl : source = text.flatMap String.utf8EncodeChar := List.toByteArray_inj.mp same
  rw [symbols_encode]
  intro s mem
  obtain ⟨c, -, rfl⟩ := List.mem_map.mp mem
  exact ⟨c, rfl⟩

/-- Reading the bytes of characters and encoding what was read gives these bytes again. -/
theorem encoded_lossyString {run : List Symbol} (legible : Legible run) :
    encoded (lossyString (bytesOf run)) = bytesOf run := by
  rw [lossyString, encoded_ofList]
  induction run with
  | nil => simp [lossy]
  | cons s run ih =>
    obtain ⟨⟨c, rfl⟩, later⟩ := List.forall_mem_cons.mp legible
    rw [bytesOf_cons, Symbol.bytes, lossy_encode_append, List.flatMap_cons, ih later]

end Text

/-- Whether the literal of a lexeme stands in a source where the lexeme does. -/
def Lexeme.StandsIn (source : List UInt8) (l : Lexeme) : Prop :=
  Text.encoded l.literal <+: source.drop l.pos.offset

namespace Scanner

variable {source : List UInt8} {passed : List Symbol} {s : Scanner}

/-- The literal of a lexeme that was scanned from characters is these characters. -/
theorem literal_characters {token : Token} (keeps : token.keepsText) (text : List Char) :
    literal token (text.map .character) = String.ofList text := by
  rw [literal, if_pos keeps, Text.lossyString, Text.lossy_characters]

/-- The literal of a lexeme is the text that it was scanned from, or else is empty. -/
theorem encoded_literal_isPrefix {taken : List Symbol} (legible : Text.Legible taken)
    (token : Token) : Text.encoded (literal token taken) <+: bytesOf taken := by
  unfold literal
  split
  · exact ⟨[], by rw [List.append_nil, Text.encoded_lossyString legible]⟩
  · exact List.nil_prefix

/-- **One scan places one lexeme**: it starts behind what has been passed, and unless it is the end,
its literal stands in front of what is still ahead. -/
theorem scan_places (stands : s.reader.Behind source passed)
    (legible : Text.Legible (symbols source)) :
    (bytesOf passed).length < s.scan.1.lexeme.pos.index ∧ s.scan.1.lexeme.StandsIn source ∧
      (s.scan.1.token ≠ .endOfFormula → ∃ taken, s.scan.2.reader.Behind source (passed ++ taken) ∧
        s.scan.1.lexeme.pos.index + s.scan.1.lexeme.literal.utf8ByteSize ≤
          (bytesOf (passed ++ taken)).length + 1) := by
  have here := behindGap_stands stands
  have offset : (bytesOf passed).length ≤ s.behindGap.offset := by
    rw [here.offset_eq, Text.bytesOf_append, List.length_append]
    exact Nat.le_add_right ..
  have pos : s.scan.1.lexeme.pos = .ofOffset s.behindGap.offset := s.pos_scan
  refine ⟨by rw [pos]; exact Nat.lt_succ_of_le offset, ?_⟩
  cases found? : s.recognized? with
  | none =>
    rw [Scanned.token, (scan_of_none found?).1]
    exact ⟨List.nil_prefix, fun more => absurd rfl more⟩
  | some found =>
    obtain ⟨yields, leaves⟩ := scan_of_some found?
    have behind := here.follow s.behindGap.offset found.legs
    rw [← leaves, List.append_assoc] at behind
    -- A stray byte would be three bytes in the literal, hence the restriction to legible sources.
    have spelled : Text.encoded s.scan.1.lexeme.literal <+:
        bytesOf (s.behindGap.rest.take found.count) := by
      rw [yields]
      refine encoded_literal_isPrefix ?_ _
      intro t mem
      refine legible t ?_
      rw [here.symbols_eq]
      exact List.mem_append_right _ (List.mem_of_mem_take mem)
    constructor
    · have ahead := here.drop_offset
      have front : bytesOf (s.behindGap.rest.take found.count) <+: bytesOf s.behindGap.rest := by
        conv_rhs => rw [← List.take_append_drop found.count s.behindGap.rest]
        rw [Text.bytesOf_append]
        exact List.prefix_append ..
      have offset_eq : s.scan.1.lexeme.pos.offset = s.behindGap.offset := congrArg Pos.offset pos
      rw [Lexeme.StandsIn, offset_eq, ahead]
      exact spelled.trans front
    · intro _
      have size := spelled.length_le
      rw [Text.length_encoded] at size
      have index : s.scan.1.lexeme.pos.index = s.behindGap.offset + 1 := congrArg Pos.index pos
      refine ⟨_, behind, ?_⟩
      rw [← List.append_assoc, Text.bytesOf_append, List.length_append, ← here.offset_eq, index]
      have same : Leg.total found.legs = found.count := rfl
      rw [same]
      omega

/-- **A run places all lexemes**, one behind the other. -/
theorem placed_stream (stands : s.reader.Behind source passed)
    (legible : Text.Legible (symbols source)) :
    (∀ l ∈ s.stream.lexemes, (bytesOf passed).length < l.pos.index ∧ l.StandsIn source) ∧
      s.stream.lexemes.Pairwise fun l m =>
        l.pos.index + l.literal.utf8ByteSize ≤ m.pos.index := by
  induction size : s.reader.rest.length using Nat.strongRecOn generalizing s passed with
  | ind size ih =>
    obtain ⟨start, stand, more⟩ := scan_places stands legible
    cases scan_lays stands with
    | ends last yields =>
      have only : s.stream.lexemes = [s.scan.1.lexeme] := by
        rw [stream_of_eq last, yields]
        simp only [TokenStream.lexemes, StreamEnd.scanned, Scanned.pos, yields]
        rfl
      rw [only]
      exact ⟨List.forall_mem_singleton.mpr ⟨start, stand⟩, List.pairwise_singleton ..⟩
    | tile _ _ further =>
      obtain ⟨taken, behind, ends⟩ := more further
      obtain ⟨later, spaced⟩ := ih _ (size ▸ rest_scan_lt further) behind rfl
      have row : s.stream.lexemes = s.scan.1.lexeme :: s.scan.2.stream.lexemes := by
        rw [stream_of_ne further]
        rfl
      rw [row, List.forall_mem_cons, List.pairwise_cons]
      refine ⟨⟨⟨start, stand⟩, ?_⟩, ?_, spaced⟩
      · intro l mem
        obtain ⟨further, there⟩ := later l mem
        rw [Text.bytesOf_append, List.length_append] at further
        exact ⟨by omega, there⟩
      · intro m mem
        have further := (later m mem).1
        omega

end Scanner

/-! ## Lexemes of a source -/

variable {source : List UInt8}

/-- In well-formed UTF-8 the literal of each lexeme stands where the lexeme does. -/
theorem standsIn_of_mem_lexemes (valid : source.toByteArray.IsValidUTF8) {l : Lexeme}
    (mem : l ∈ (TokenStream.ofSource source).lexemes) : l.StandsIn source :=
  ((Scanner.placed_stream (s := .start source) (Reader.behind_start source)
    (Text.legible_symbols valid)).1 l mem).2

/-- In well-formed UTF-8 no lexeme starts before the literal of an earlier one has ended. -/
theorem spaced_lexemes (valid : source.toByteArray.IsValidUTF8) :
    (TokenStream.ofSource source).lexemes.Pairwise fun l m =>
      l.pos.index + l.literal.utf8ByteSize ≤ m.pos.index :=
  (Scanner.placed_stream (s := .start source) (Reader.behind_start source)
    (Text.legible_symbols valid)).2

end SheetFormula

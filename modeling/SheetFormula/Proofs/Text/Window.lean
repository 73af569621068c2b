import Mathlib.Data.Nat.Find
import Mathlib.Tactic.Common
import SheetFormula.Proofs.Text.Encoding

/-!
# Decoding through a window

No character takes more than four bytes, so the character in front of a byte sequence can be had
from the first four of them by reading these as a text. But the window may end inside a later
character, and bytes that do are no text; then as many of them as are one are read instead. Where a
character stands in front of the sequence, it stands in front of that text, and where none does, the
text is empty.

Main results:
* `isValidUTF8_iff`: bytes are a text just if they encode some characters.
* `exists_frontText?`: the text in front of some bytes is encoded by as many of them as can be.
* `decodeWindow?_eq`: the window shows what `decodeChar?` finds.
* `decoding_inverts_encoding`: what is decoded and from how many bytes, and that whole texts are
  read without any loss.
-/

namespace SheetFormula.Text

/-! ## Bytes that are a text -/

/-- How many of some bytes are a text, from the first one on, at most. -/
def validUpTo (bytes : List UInt8) : Nat :=
  Nat.findGreatest (fun n => (bytes.take n).toByteArray.IsValidUTF8) bytes.length

/-- The text that some bytes are, or else the one that as many of them as can be are. -/
def frontText? (bytes : List UInt8) : Option String :=
  match String.fromUTF8? bytes.toByteArray with
  | some text => some text
  | none => String.fromUTF8? (bytes.take (validUpTo bytes)).toByteArray

/-- The character in front of a byte sequence, with its width, as the first of the text that is read
from no more than four bytes. -/
def decodeWindow? (bytes : List UInt8) : Option (Char × Nat) :=
  (frontText? (bytes.take 4)).bind fun text => text.toList.head?.map fun c => (c, c.utf8Size)

/-- Bytes are a text just if they encode some characters. -/
theorem isValidUTF8_iff {bytes : List UInt8} :
    bytes.toByteArray.IsValidUTF8 ↔
      ∃ text : List Char, text.flatMap String.utf8EncodeChar = bytes := by
  constructor
  · rintro ⟨text, same⟩
    exact ⟨text, (List.toByteArray_inj.mp same).symm⟩
  · rintro ⟨text, rfl⟩
    exact .intro text rfl

/-- Bytes that are a text are read as the one that they encode. -/
theorem exists_fromUTF8?_of_isValidUTF8 {bytes : List UInt8}
    (valid : bytes.toByteArray.IsValidUTF8) :
    ∃ text, String.fromUTF8? bytes.toByteArray = some text ∧
      text.toList.flatMap String.utf8EncodeChar = bytes := by
  refine ⟨String.fromUTF8 bytes.toByteArray valid, dif_pos valid, ?_⟩
  have same : (String.fromUTF8 bytes.toByteArray valid).toList.utf8Encode = bytes.toByteArray :=
    String.utf8Encode_toList
  exact List.toByteArray_inj.mp same

/-- No more bytes are a text than there are. -/
theorem validUpTo_le (bytes : List UInt8) : validUpTo bytes ≤ bytes.length :=
  Nat.findGreatest_le _

/-- So many bytes are a text. There is always such a number, as zero bytes are one. -/
theorem isValidUTF8_take_validUpTo (bytes : List UInt8) :
    (bytes.take (validUpTo bytes)).toByteArray.IsValidUTF8 :=
  Nat.findGreatest_spec (P := fun n => (bytes.take n).toByteArray.IsValidUTF8) (Nat.zero_le _)
    (isValidUTF8_iff.mpr ⟨[], rfl⟩)

/-- No more bytes than that are a text. -/
theorem le_validUpTo {bytes : List UInt8} {n : Nat} (inside : n ≤ bytes.length)
    (valid : (bytes.take n).toByteArray.IsValidUTF8) : n ≤ validUpTo bytes :=
  Nat.le_findGreatest inside valid

/-- **The text in front of some bytes** is there, and encoded by as many of them as can be. -/
theorem exists_frontText? (bytes : List UInt8) :
    ∃ text, frontText? bytes = some text ∧
      text.toList.flatMap String.utf8EncodeChar = bytes.take (validUpTo bytes) := by
  unfold frontText?
  by_cases valid : bytes.toByteArray.IsValidUTF8
  · obtain ⟨text, read, same⟩ := exists_fromUTF8?_of_isValidUTF8 valid
    have all : bytes.length ≤ validUpTo bytes :=
      le_validUpTo (Nat.le_refl _) (by rwa [List.take_length])
    rw [read, List.take_of_length_le all]
    exact ⟨text, rfl, same⟩
  · rw [String.fromUTF8?, dif_neg valid]
    exact exists_fromUTF8?_of_isValidUTF8 (isValidUTF8_take_validUpTo bytes)

/-! ## The window -/

/-- A character in front of a byte sequence is among its first four bytes, so that these have a text
in front. -/
theorem validUpTo_window_pos {bytes : List UInt8} {c : Char}
    (stands : String.utf8EncodeChar c <+: bytes) : 0 < validUpTo (bytes.take 4) := by
  have size : (String.utf8EncodeChar c).length = c.utf8Size := String.length_utf8EncodeChar c
  have small : (String.utf8EncodeChar c).length ≤ 4 := size ▸ c.utf8Size_le_four
  have inside : (String.utf8EncodeChar c).length ≤ (bytes.take 4).length := by
    rw [List.length_take]
    exact Nat.le_min.mpr ⟨small, stands.length_le⟩
  have front : (bytes.take 4).take (String.utf8EncodeChar c).length = String.utf8EncodeChar c := by
    rw [List.take_take, Nat.min_eq_left small]
    exact (List.prefix_iff_eq_take.mp stands).symm
  have valid : ((bytes.take 4).take (String.utf8EncodeChar c).length).toByteArray.IsValidUTF8 := by
    rw [front]
    exact isValidUTF8_iff.mpr ⟨[c], List.flatMap_singleton ..⟩
  calc
    0 < c.utf8Size := c.utf8Size_pos
    _ = (String.utf8EncodeChar c).length := size.symm
    _ ≤ validUpTo (bytes.take 4) := le_validUpTo inside valid

/-- **Four bytes show the character in front**, also where they end inside the next one. -/
theorem decodeWindow?_eq (bytes : List UInt8) : decodeWindow? bytes = decodeChar? bytes := by
  obtain ⟨text, read, same⟩ := exists_frontText? (bytes.take 4)
  rw [decodeWindow?, read, Option.bind_some]
  cases characters : text.toList with
  | nil =>
    -- The text is empty: a character in front would have made it longer.
    rw [characters, List.flatMap_nil] at same
    have empty : validUpTo (bytes.take 4) = 0 := by
      have length := congrArg List.length same
      rw [List.length_take, Nat.min_eq_left (validUpTo_le _)] at length
      exact length.symm
    have without : decodeChar? bytes = none := by
      rw [decodeChar?_eq_none_iff]
      intro c stands
      exact absurd empty (Nat.ne_of_gt (validUpTo_window_pos stands))
    rw [without]
    rfl
  | cons c later =>
    rw [characters, List.flatMap_cons] at same
    have stands : String.utf8EncodeChar c <+: bytes := by
      have inWindow : String.utf8EncodeChar c <+: (bytes.take 4).take (validUpTo (bytes.take 4)) :=
        ⟨later.flatMap String.utf8EncodeChar, same⟩
      exact inWindow.trans ((List.take_prefix ..).trans (List.take_prefix ..))
    exact (decodeChar?_eq_some_iff.mpr ⟨rfl, stands⟩).symm

/-- The characters that a text encodes are read without loss. -/
theorem lossy_encode (text : List Char) : lossy (text.flatMap String.utf8EncodeChar) = text := by
  rw [← bytesOf_characters, lossy_characters]

/-- **Decoding inverts encoding on all bytes.** A character is decoded, with a width, just if its
encoding is that many bytes and stands in front; none is decoded just if no character's encoding
stands in front. The first four bytes show which is the case, whether or not they are whole
characters. And of bytes that are whole characters throughout, the lossy reading has these
characters and no others, so that its bytes are the ones that were read. -/
theorem decoding_inverts_encoding (bytes : List UInt8) :
    (∀ c width, decodeChar? bytes = some (c, width) ↔
      (String.utf8EncodeChar c).length = width ∧ String.utf8EncodeChar c <+: bytes) ∧
    (decodeChar? bytes = none ↔ ∀ c, ¬ String.utf8EncodeChar c <+: bytes) ∧
    decodeWindow? bytes = decodeChar? bytes ∧
    ∀ text : List Char, lossy (text.flatMap String.utf8EncodeChar) = text ∧
      (lossyString (text.flatMap String.utf8EncodeChar)).toByteArray =
        (text.flatMap String.utf8EncodeChar).toByteArray := by
  refine ⟨?_, decodeChar?_eq_none_iff, decodeWindow?_eq bytes, ?_⟩
  · intro c width
    rw [decodeChar?_eq_some_iff, String.length_utf8EncodeChar, eq_comm]
  · intro text
    refine ⟨lossy_encode text, ?_⟩
    rw [lossyString, lossy_encode, String.toByteArray_ofList, List.utf8Encode]

/-- Nothing at all, a byte that only continues a character, two characters that are broken off, two
forms that are longer than they need be, a surrogate, a code point that is too large, and a byte
that no character has. -/
example :
    [[], [0x80], [0xC3], [0xE2, 0x82], [0xC0, 0x80], [0xE0, 0x9F, 0xBF], [0xED, 0xA0, 0x80],
      [0xF4, 0x90, 0x80, 0x80], [0xFF, 0x61]].map decodeChar? = List.replicate 9 none := by
  decide

end SheetFormula.Text

/-!
# Reading UTF-8

What stands at the front of a byte sequence is either a well-formed character or a malformed part.
The part is *maximal*: it is the longest run of bytes that could still have begun a character, and
one byte if none could. `decodeChar?` asks for the character only; `lossy` reads a whole sequence
and puts one replacement character in the place of each maximal malformed part. The encoder that
reading inverts is `String.utf8EncodeChar`.
-/

namespace SheetFormula.Text

/-- The character that stands for bytes that cannot be decoded. -/
def replacement : Char := '\uFFFD'

/-- What stands at the front of a nonempty byte sequence. -/
inductive Front
  /-- A well-formed character; its width is `Char.utf8Size`. -/
  | character (c : Char)
  /-- A maximal malformed part of so many bytes. -/
  | malformed (length : Nat)
  deriving DecidableEq, Repr

/-- What a lead byte announces: the bits it contributes, how many bytes follow, and the bounds of
the first byte that follows. The bounds shut out overlong forms, surrogates and values past
U+10FFFF; all later bytes range over `0x80` to `0xBF`. -/
structure Lead where
  payload : Nat
  following : Nat
  low : UInt8
  high : UInt8
  deriving DecidableEq, Repr

/-- The announcement of a lead byte, if it is one. -/
def Lead.of? (b : UInt8) : Option Lead :=
  if b < 0x80 then some ⟨b.toNat, 0, 0x80, 0xBF⟩
  else if b < 0xC2 then none
  else if b < 0xE0 then some ⟨b.toNat - 0xC0, 1, 0x80, 0xBF⟩
  else if b < 0xF0 then
    some ⟨b.toNat - 0xE0, 2, if b = 0xE0 then 0xA0 else 0x80, if b = 0xED then 0x9F else 0xBF⟩
  else if b < 0xF5 then
    some ⟨b.toNat - 0xF0, 3, if b = 0xF0 then 0x90 else 0x80, if b = 0xF4 then 0x8F else 0xBF⟩
  else none

/-- Reads the bytes that follow a lead byte. `value` holds the bits read so far and `taken` the
number of bytes they came from; the next byte must lie between `low` and `high`. -/
def readFollowing (value : Nat) : (following : Nat) → (low high : UInt8) → (taken : Nat) →
    List UInt8 → Front
  | 0, _, _, _, _ => .character (Char.ofNat value)
  | _ + 1, _, _, taken, [] => .malformed taken
  | following + 1, low, high, taken, b :: rest =>
    if low ≤ b ∧ b ≤ high then
      readFollowing (value * 64 + (b.toNat - 0x80)) following 0x80 0xBF (taken + 1) rest
    else .malformed taken

/-- What stands at the front of the sequence `b :: rest`. -/
def front (b : UInt8) (rest : List UInt8) : Front :=
  match Lead.of? b with
  | none => .malformed 1
  | some lead => readFollowing lead.payload lead.following lead.low lead.high 1 rest

/-- The well-formed character at the front of a byte sequence, with its width in bytes. -/
def decodeChar? : List UInt8 → Option (Char × Nat)
  | [] => none
  | b :: rest =>
    match front b rest with
    | .character c => some (c, c.utf8Size)
    | .malformed _ => none

/-- Reads all bytes, with one replacement character for each maximal malformed part. -/
def lossy : List UInt8 → List Char
  | [] => []
  | b :: rest =>
    match front b rest with
    | .character c => c :: lossy (rest.drop (c.utf8Size - 1))
    | .malformed length => replacement :: lossy (rest.drop (length - 1))
termination_by bytes => bytes.length
decreasing_by all_goals simp only [List.length_cons, List.length_drop]; omega

/-- The lossy reading of a byte sequence as a string. -/
def lossyString (bytes : List UInt8) : String :=
  String.ofList (lossy bytes)

end SheetFormula.Text

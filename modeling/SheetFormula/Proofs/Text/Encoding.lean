import Mathlib.Tactic.Common
import SheetFormula.Text.Symbol

/-!
# Decoding inverts encoding

`Text.decodeChar?` is compared with the encoder `String.utf8EncodeChar`. Between the two stands the
table `Spelled` of the well-formed byte sequences of one to four bytes, in terms of the groups of
bits that each byte contributes.

Main results:
* `spelled_encode` and `encode_of_spelled`: the encoder writes what the table says.
* `front_of_spelled` and `spelled_of_front`: reading finds a character exactly where the table has
  one.
* `decodeChar?_eq_some_iff`: hence a character is decoded exactly where its encoding stands.
* `bytesOf_symbols`: the bytes of the symbols that a source is read as are the source, so scanning
  loses nothing.
* `Symbol.lossy_bytes`: the lossy reading of the bytes of one symbol is the one character that
  scanning sees in it.
* `symbols_encode` and `lossy_characters`: the bytes of a whole text are read as that text, by both
  ways of reading.
-/

namespace SheetFormula.Text

/-! ## Characters from code points -/

/-- A code point that is no surrogate and not too large is the code point of its character. -/
theorem toNat_charOfNat {n : Nat} (small : n < 0x110000) (plain : n < 0xD800 ∨ 0xDFFF < n) :
    (Char.ofNat n).toNat = n := by
  have valid : n.isValidChar := by
    rcases plain with low | high
    · exact Or.inl low
    · exact Or.inr ⟨high, small⟩
  have same : Char.ofNat n = Char.ofNatAux n valid := dif_pos valid
  rw [same]
  rfl

/-- Characters are neither surrogates nor too large. -/
theorem toNat_char_bounds (c : Char) :
    c.toNat < 0x110000 ∧ (c.toNat < 0xD800 ∨ 0xDFFF < c.toNat) := by
  rcases c.valid with low | ⟨high, small⟩
  · exact ⟨Nat.lt_trans low (by decide), Or.inl low⟩
  · exact ⟨small, Or.inr high⟩

/-! ## The table of well-formed sequences -/

/-- The byte that announces so many more bytes by `mark`, with the first bits of a code point. -/
def leadByte (mark bits : Nat) : UInt8 := UInt8.ofNat (bits + mark)

/-- A byte that follows, with six more bits. -/
def tailByte (bits : Nat) : UInt8 := UInt8.ofNat (bits + 0x80)

/-- A character and the byte sequence that spells it. The conditions on the first two groups of
bits shut out overlong forms, surrogates and values past U+10FFFF. -/
inductive Spelled : Char → List UInt8 → Prop
  | one {x : Nat} (size : x < 0x80) : Spelled (Char.ofNat x) [leadByte 0 x]
  | two {x y : Nat} (long : 2 ≤ x) (size : x < 0x20) (tail : y < 0x40) :
    Spelled (Char.ofNat (x * 64 + y)) [leadByte 0xC0 x, tailByte y]
  | three {x y z : Nat} (size : x < 0x10) (tail₁ : y < 0x40) (tail₂ : z < 0x40)
      (long : x = 0 → 0x20 ≤ y) (plain : x = 0xD → y < 0x20) :
    Spelled (Char.ofNat ((x * 64 + y) * 64 + z)) [leadByte 0xE0 x, tailByte y, tailByte z]
  | four {w x y z : Nat} (size : w < 5) (tail₁ : x < 0x40) (tail₂ : y < 0x40) (tail₃ : z < 0x40)
      (long : w = 0 → 0x10 ≤ x) (small : w = 4 → x < 0x10) :
    Spelled (Char.ofNat (((w * 64 + x) * 64 + y) * 64 + z))
      [leadByte 0xF0 w, tailByte x, tailByte y, tailByte z]

/-- The value of a lead byte is its mark and its bits. -/
theorem toNat_leadByte {mark bits : Nat} (h : bits + mark < 0x100) :
    (leadByte mark bits).toNat = bits + mark :=
  UInt8.toNat_ofNat_of_lt' h

/-- The value of a tail byte is its mark and its bits. -/
theorem toNat_tailByte {bits : Nat} (h : bits < 0x40) : (tailByte bits).toNat = bits + 0x80 :=
  UInt8.toNat_ofNat_of_lt' (show bits + 0x80 < 0x100 by omega)

/-- Every byte that follows is a tail byte. -/
theorem eq_tailByte {b : UInt8} (h : 0x80 ≤ b.toNat) : b = tailByte (b.toNat - 0x80) := by
  rw [tailByte, Nat.sub_add_cancel h, UInt8.ofNat_toNat]

/-- Every byte from `mark` on is a lead byte with that mark. -/
theorem eq_leadByte {b : UInt8} {mark : Nat} (h : mark ≤ b.toNat) :
    b = leadByte mark (b.toNat - mark) := by
  rw [leadByte, Nat.sub_add_cancel h, UInt8.ofNat_toNat]

/-- The encoder writes a character as the table spells it. -/
theorem spelled_encode (c : Char) : Spelled c (String.utf8EncodeChar c) := by
  obtain ⟨small, plain⟩ := toNat_char_bounds c
  have code : c.val.toNat = c.toNat := rfl
  have back {n : Nat} (h : n = c.toNat) : Char.ofNat n = c := by rw [h, Char.ofNat_toNat]
  unfold String.utf8EncodeChar
  simp only [code]
  split_ifs with one two three
  · have spelled := Spelled.one (x := c.toNat) (by omega)
    rwa [back rfl] at spelled
  · have spelled := Spelled.two (x := c.toNat / 64 % 0x20) (y := c.toNat % 0x40)
      (by omega) (by omega) (by omega)
    rwa [back (by omega)] at spelled
  · have spelled := Spelled.three (x := c.toNat / 4096 % 0x10) (y := c.toNat / 64 % 0x40)
      (z := c.toNat % 0x40) (by omega) (by omega) (by omega) (by omega) (by omega)
    rwa [back (by omega)] at spelled
  · have spelled := Spelled.four (w := c.toNat / 262144 % 0x08) (x := c.toNat / 4096 % 0x40)
      (y := c.toNat / 64 % 0x40) (z := c.toNat % 0x40)
      (by omega) (by omega) (by omega) (by omega) (by omega) (by omega)
    rwa [back (by omega)] at spelled

/-- What the table spells is what the encoder writes. -/
theorem encode_of_spelled {c : Char} {bytes : List UInt8} (h : Spelled c bytes) :
    String.utf8EncodeChar c = bytes := by
  have code : c.val.toNat = c.toNat := rfl
  unfold String.utf8EncodeChar
  simp only [code]
  cases h with
  | one size =>
    rw [toNat_charOfNat (by omega) (by omega), if_pos (by omega)]
    rfl
  | @two x y long size tail =>
    rw [toNat_charOfNat (by omega) (by omega), if_neg (by omega), if_pos (by omega),
      show (x * 64 + y) / 64 % 0x20 = x by omega, show (x * 64 + y) % 0x40 = y by omega]
    rfl
  | @three x y z size tail₁ tail₂ long plain =>
    rw [toNat_charOfNat (by omega) (by omega), if_neg (by omega), if_neg (by omega),
      if_pos (by omega), show ((x * 64 + y) * 64 + z) / 4096 % 0x10 = x by omega,
      show ((x * 64 + y) * 64 + z) / 64 % 0x40 = y by omega,
      show ((x * 64 + y) * 64 + z) % 0x40 = z by omega]
    rfl
  | @four w x y z size tail₁ tail₂ tail₃ long small =>
    rw [toNat_charOfNat (by omega) (by omega), if_neg (by omega), if_neg (by omega),
      if_neg (by omega),
      show (((w * 64 + x) * 64 + y) * 64 + z) / 262144 % 0x08 = w by omega,
      show (((w * 64 + x) * 64 + y) * 64 + z) / 4096 % 0x40 = x by omega,
      show (((w * 64 + x) * 64 + y) * 64 + z) / 64 % 0x40 = y by omega,
      show (((w * 64 + x) * 64 + y) * 64 + z) % 0x40 = z by omega]
    rfl

/-! ## Reading against the table -/

/-- The announcement of a lead byte, in terms of its value. -/
theorem Lead.of?_eq (b : UInt8) :
    Lead.of? b =
      if b.toNat < 0x80 then some ⟨b.toNat, 0, 0x80, 0xBF⟩
      else if b.toNat < 0xC2 then none
      else if b.toNat < 0xE0 then some ⟨b.toNat - 0xC0, 1, 0x80, 0xBF⟩
      else if b.toNat < 0xF0 then
        some ⟨b.toNat - 0xE0, 2, if b.toNat = 0xE0 then 0xA0 else 0x80,
          if b.toNat = 0xED then 0x9F else 0xBF⟩
      else if b.toNat < 0xF5 then
        some ⟨b.toNat - 0xF0, 3, if b.toNat = 0xF0 then 0x90 else 0x80,
          if b.toNat = 0xF4 then 0x8F else 0xBF⟩
      else none := by
  simp only [Lead.of?, UInt8.lt_iff_toNat_lt, ← UInt8.toNat_inj]
  rfl

/-- Following bytes are read one at a time, each between its bounds. -/
theorem readFollowing_succ_iff {value following taken : Nat} {low high : UInt8}
    {bytes : List UInt8} {c : Char} :
    readFollowing value (following + 1) low high taken bytes = .character c ↔
      ∃ b rest, bytes = b :: rest ∧ low.toNat ≤ b.toNat ∧ b.toNat ≤ high.toNat ∧
        readFollowing (value * 64 + (b.toNat - 0x80)) following 0x80 0xBF (taken + 1) rest =
          .character c := by
  cases bytes with
  | nil => simp [readFollowing]
  | cons b rest =>
    simp only [readFollowing, UInt8.le_iff_toNat_le]
    constructor
    · intro h
      split at h
      · next inside => exact ⟨b, rest, rfl, inside.1, inside.2, h⟩
      · cases h
    · rintro ⟨_, _, same, above, below, h⟩
      obtain ⟨rfl, rfl⟩ := List.cons.inj same
      rw [if_pos ⟨above, below⟩, h]

/-- With no byte to follow the character is complete. -/
theorem readFollowing_zero_iff {value taken : Nat} {low high : UInt8} {bytes : List UInt8}
    {c : Char} :
    readFollowing value 0 low high taken bytes = .character c ↔ Char.ofNat value = c := by
  cases bytes <;> simp [readFollowing]

/-- What the table spells is read as the character that it spells. -/
theorem front_of_spelled {c : Char} {b : UInt8} {following : List UInt8}
    (h : Spelled c (b :: following)) (rest : List UInt8) :
    front b (following ++ rest) = .character c := by
  simp only [front, Lead.of?_eq]
  cases h with
  | one size =>
    rw [toNat_leadByte (by omega), if_pos (by omega)]
    exact readFollowing_zero_iff.mpr rfl
  | @two x y long size tail =>
    rw [toNat_leadByte (by omega), if_neg (by omega), if_neg (by omega), if_pos (by omega)]
    refine readFollowing_succ_iff.mpr ⟨_, _, rfl, ?_, ?_, readFollowing_zero_iff.mpr ?_⟩
    · simp [toNat_tailByte tail]
    · simp only [toNat_tailByte tail, UInt8.reduceToNat]; omega
    · simp only [toNat_tailByte tail, Nat.add_sub_cancel]
  | @three x y z size tail₁ tail₂ long plain =>
    rw [toNat_leadByte (by omega), if_neg (by omega), if_neg (by omega), if_neg (by omega),
      if_pos (by omega)]
    refine readFollowing_succ_iff.mpr ⟨_, _, rfl, ?_, ?_, readFollowing_succ_iff.mpr
      ⟨_, _, rfl, ?_, ?_, readFollowing_zero_iff.mpr ?_⟩⟩
    · dsimp only
      rw [toNat_tailByte tail₁]
      split <;> simp only [UInt8.reduceToNat] <;> omega
    · dsimp only
      rw [toNat_tailByte tail₁]
      split <;> simp only [UInt8.reduceToNat] <;> omega
    · simp [toNat_tailByte tail₂]
    · simp only [toNat_tailByte tail₂, UInt8.reduceToNat]; omega
    · simp only [toNat_tailByte tail₁, toNat_tailByte tail₂, Nat.add_sub_cancel]
  | @four w x y z size tail₁ tail₂ tail₃ long small =>
    rw [toNat_leadByte (by omega), if_neg (by omega), if_neg (by omega), if_neg (by omega),
      if_neg (by omega), if_pos (by omega)]
    refine readFollowing_succ_iff.mpr ⟨_, _, rfl, ?_, ?_, readFollowing_succ_iff.mpr
      ⟨_, _, rfl, ?_, ?_, readFollowing_succ_iff.mpr
        ⟨_, _, rfl, ?_, ?_, readFollowing_zero_iff.mpr ?_⟩⟩⟩
    · dsimp only
      rw [toNat_tailByte tail₁]
      split <;> simp only [UInt8.reduceToNat] <;> omega
    · dsimp only
      rw [toNat_tailByte tail₁]
      split <;> simp only [UInt8.reduceToNat] <;> omega
    · simp [toNat_tailByte tail₂]
    · simp only [toNat_tailByte tail₂, UInt8.reduceToNat]; omega
    · simp [toNat_tailByte tail₃]
    · simp only [toNat_tailByte tail₃, UInt8.reduceToNat]; omega
    · simp only [toNat_tailByte tail₁, toNat_tailByte tail₂, toNat_tailByte tail₃,
        Nat.add_sub_cancel]

/-- Where a character is read, the table spells it. -/
theorem spelled_of_front {b : UInt8} {rest : List UInt8} {c : Char}
    (h : front b rest = .character c) :
    ∃ following more, rest = following ++ more ∧ Spelled c (b :: following) := by
  have byte := b.toNat_lt
  simp only [front, Lead.of?_eq] at h
  by_cases one : b.toNat < 0x80
  · rw [if_pos one] at h
    obtain rfl := readFollowing_zero_iff.mp h
    refine ⟨[], rest, rfl, ?_⟩
    have spelled := Spelled.one one
    rwa [show leadByte 0 b.toNat = b from (eq_leadByte (Nat.zero_le _)).symm] at spelled
  rw [if_neg one] at h
  by_cases stray : b.toNat < 0xC2
  · rw [if_pos stray] at h
    cases h
  rw [if_neg stray] at h
  by_cases two : b.toNat < 0xE0
  · rw [if_pos two] at h
    obtain ⟨b₁, more, rfl, above, below, h⟩ := readFollowing_succ_iff.mp h
    obtain rfl := readFollowing_zero_iff.mp h
    simp only [UInt8.reduceToNat] at above below
    refine ⟨[b₁], more, rfl, ?_⟩
    have spelled := Spelled.two (x := b.toNat - 0xC0) (y := b₁.toNat - 0x80)
      (by omega) (by omega) (by omega)
    rwa [← eq_leadByte (by omega), ← eq_tailByte above] at spelled
  rw [if_neg two] at h
  by_cases three : b.toNat < 0xF0
  · rw [if_pos three] at h
    obtain ⟨b₁, _, rfl, above₁, below₁, h⟩ := readFollowing_succ_iff.mp h
    obtain ⟨b₂, more, rfl, above₂, below₂, h⟩ := readFollowing_succ_iff.mp h
    obtain rfl := readFollowing_zero_iff.mp h
    simp only [UInt8.reduceToNat] at above₂ below₂
    refine ⟨[b₁, b₂], more, rfl, ?_⟩
    -- The bounds on the second byte depend on the first one: with them the number is neither
    -- spelled too long nor a surrogate.
    have second : 0x80 ≤ b₁.toNat ∧ b₁.toNat ≤ 0xBF ∧ (b.toNat = 0xE0 → 0xA0 ≤ b₁.toNat) ∧
        (b.toNat = 0xED → b₁.toNat ≤ 0x9F) := by
      dsimp only at above₁ below₁
      split_ifs at above₁ below₁ <;> simp only [UInt8.reduceToNat] at above₁ below₁ <;> omega
    have spelled := Spelled.three (x := b.toNat - 0xE0) (y := b₁.toNat - 0x80)
      (z := b₂.toNat - 0x80) (by omega) (by omega) (by omega) (by omega) (by omega)
    rwa [← eq_leadByte (by omega), ← eq_tailByte second.1, ← eq_tailByte above₂] at spelled
  rw [if_neg three] at h
  by_cases four : b.toNat < 0xF5
  · rw [if_pos four] at h
    obtain ⟨b₁, _, rfl, above₁, below₁, h⟩ := readFollowing_succ_iff.mp h
    obtain ⟨b₂, _, rfl, above₂, below₂, h⟩ := readFollowing_succ_iff.mp h
    obtain ⟨b₃, more, rfl, above₃, below₃, h⟩ := readFollowing_succ_iff.mp h
    obtain rfl := readFollowing_zero_iff.mp h
    simp only [UInt8.reduceToNat] at above₂ below₂ above₃ below₃
    refine ⟨[b₁, b₂, b₃], more, rfl, ?_⟩
    -- Here they keep it from being spelled too long and from being beyond the last character.
    have second : 0x80 ≤ b₁.toNat ∧ b₁.toNat ≤ 0xBF ∧ (b.toNat = 0xF0 → 0x90 ≤ b₁.toNat) ∧
        (b.toNat = 0xF4 → b₁.toNat ≤ 0x8F) := by
      dsimp only at above₁ below₁
      split_ifs at above₁ below₁ <;> simp only [UInt8.reduceToNat] at above₁ below₁ <;> omega
    have spelled := Spelled.four (w := b.toNat - 0xF0) (x := b₁.toNat - 0x80)
      (y := b₂.toNat - 0x80) (z := b₃.toNat - 0x80)
      (by omega) (by omega) (by omega) (by omega) (by omega) (by omega)
    rwa [← eq_leadByte (by omega), ← eq_tailByte second.1, ← eq_tailByte above₂,
      ← eq_tailByte above₃] at spelled
  · rw [if_neg four] at h
    cases h

/-! ## Characters of a byte sequence -/

/-- **Decoding inverts encoding**: a character is decoded, with its width, exactly where its
encoding stands in front. -/
theorem decodeChar?_eq_some_iff {bytes : List UInt8} {c : Char} {width : Nat} :
    decodeChar? bytes = some (c, width) ↔
      width = c.utf8Size ∧ String.utf8EncodeChar c <+: bytes := by
  cases bytes with
  | nil => simp [decodeChar?, String.utf8EncodeChar_ne_nil]
  | cons b rest =>
    constructor
    · intro h
      simp only [decodeChar?] at h
      split at h
      · next read =>
        cases h
        obtain ⟨following, more, rfl, spelled⟩ := spelled_of_front read
        exact ⟨rfl, more, by rw [encode_of_spelled spelled]; rfl⟩
      · cases h
    · rintro ⟨rfl, rest', stands⟩
      obtain ⟨lead, following, encoded⟩ := List.exists_cons_of_ne_nil
        (String.utf8EncodeChar_ne_nil (c := c))
      rw [encoded, List.cons_append] at stands
      obtain ⟨rfl, rfl⟩ := List.cons.inj stands
      have read := front_of_spelled (encoded ▸ spelled_encode c) rest'
      simp only [decodeChar?, read]

/-- No character is decoded just where none has its encoding in front. -/
theorem decodeChar?_eq_none_iff {bytes : List UInt8} :
    decodeChar? bytes = none ↔ ∀ c, ¬ String.utf8EncodeChar c <+: bytes := by
  constructor
  · intro read c stands
    rw [decodeChar?_eq_some_iff.mpr ⟨rfl, stands⟩] at read
    cases read
  · intro without
    cases decoded : decodeChar? bytes with
    | none => rfl
    | some found => exact absurd (decodeChar?_eq_some_iff.mp decoded).2 (without found.1)

/-- A character that is decoded has its encoding in front, and is as wide as that. -/
theorem eq_encode_append_of_decodeChar? {bytes : List UInt8} {c : Char} {width : Nat}
    (h : decodeChar? bytes = some (c, width)) :
    width = (String.utf8EncodeChar c).length ∧
      bytes = String.utf8EncodeChar c ++ bytes.drop width := by
  obtain ⟨rfl, rest, rfl⟩ := decodeChar?_eq_some_iff.mp h
  rw [← String.length_utf8EncodeChar, List.drop_left]
  exact ⟨rfl, rfl⟩

/-- An encoded character is decoded, whatever follows. -/
theorem decodeChar?_encode_append (c : Char) (rest : List UInt8) :
    decodeChar? (String.utf8EncodeChar c ++ rest) = some (c, c.utf8Size) :=
  decodeChar?_eq_some_iff.mpr ⟨rfl, List.prefix_append ..⟩

/-! ## Symbols of a source -/

/-- The bytes of a well-formed character and the symbols behind it. -/
theorem symbols_of_decodeChar? {bytes : List UInt8} {c : Char} {width : Nat}
    (h : decodeChar? bytes = some (c, width)) :
    symbols bytes = .character c :: symbols (bytes.drop width) := by
  cases bytes with
  | nil => cases h
  | cons b rest =>
    have wide : 0 < width := by
      rw [(decodeChar?_eq_some_iff.mp h).1]
      exact c.utf8Size_pos
    rw [symbols, h, show width = (width - 1) + 1 by omega, List.drop_succ_cons]
    rfl

/-- The symbol of a byte at which no character starts, and the symbols behind it. -/
theorem symbols_of_decodeChar?_none {b : UInt8} {rest : List UInt8}
    (h : decodeChar? (b :: rest) = none) : symbols (b :: rest) = .stray b :: symbols rest := by
  rw [symbols, h]

/-- Reading a source as symbols loses nothing. -/
theorem bytesOf_symbols (source : List UInt8) : bytesOf (symbols source) = source := by
  fun_induction symbols source with
  | case1 => rfl
  | case2 b rest c width h ih =>
    obtain ⟨wide, whole⟩ := eq_encode_append_of_decodeChar? h
    have pos : 0 < width := by
      rw [(decodeChar?_eq_some_iff.mp h).1]
      exact c.utf8Size_pos
    rw [show width = (width - 1) + 1 by omega, List.drop_succ_cons] at whole
    rw [bytesOf, List.flatMap_cons, ← bytesOf, ih]
    exact whole.symm
  | case3 b rest h ih =>
    rw [bytesOf, List.flatMap_cons, ← bytesOf, ih]
    rfl

/-- Behind the first symbol of a source, the rest of the source is read as the other symbols. A
stray byte is one at which no character starts. -/
theorem symbols_tail {source : List UInt8} {s : Symbol} {rest : List Symbol}
    (h : symbols source = s :: rest) :
    symbols (bytesOf rest) = rest ∧ (∀ b, s = .stray b → decodeChar? source = none) := by
  cases source with
  | nil => simp [symbols] at h
  | cons b bytes =>
    cases read : decodeChar? (b :: bytes) with
    | none =>
      rw [symbols_of_decodeChar?_none read] at h
      obtain ⟨rfl, rfl⟩ := List.cons.inj h
      exact ⟨by rw [bytesOf_symbols], fun _ _ => rfl⟩
    | some found =>
      rw [symbols_of_decodeChar? read] at h
      obtain ⟨rfl, rfl⟩ := List.cons.inj h
      exact ⟨by rw [bytesOf_symbols], fun _ other => by cases other⟩

/-- No symbols have no bytes. -/
@[simp] theorem bytesOf_nil : bytesOf [] = [] := rfl

/-- The bytes of the first symbol come first. -/
@[simp] theorem bytesOf_cons (s : Symbol) (rest : List Symbol) :
    bytesOf (s :: rest) = s.bytes ++ bytesOf rest := List.flatMap_cons

/-- Symbols one behind the other have their bytes so. -/
@[simp] theorem bytesOf_append (before after : List Symbol) :
    bytesOf (before ++ after) = bytesOf before ++ bytesOf after := List.flatMap_append

/-- Behind any first symbols of a source, the rest of the source is read as the other symbols. -/
theorem symbols_drop {source : List UInt8} {before after : List Symbol}
    (h : symbols source = before ++ after) : symbols (bytesOf after) = after := by
  induction before generalizing source with
  | nil => rw [← List.nil_append after, ← h, bytesOf_symbols]
  | cons s before ih => exact ih (symbols_tail h).1

/-- A symbol is as wide as its bytes. -/
theorem Symbol.length_bytes (s : Symbol) : s.bytes.length = s.width := by
  cases s with
  | character c => exact String.length_utf8EncodeChar c
  | stray b => rfl

/-- No symbol is without width. -/
theorem Symbol.width_pos (s : Symbol) : 0 < s.width := by
  cases s with
  | character c => exact c.utf8Size_pos
  | stray b => exact Nat.one_pos

/-! ## Symbols one by one -/

/-- A symbol as sources have them: a stray byte is no character by itself. -/
def Symbol.Genuine : Symbol → Prop
  | character _ => True
  | stray b => decodeChar? [b] = none

/-- At a byte at which no character starts, no character starts if nothing follows. -/
theorem decodeChar?_singleton_of_none {b : UInt8} {rest : List UInt8}
    (h : decodeChar? (b :: rest) = none) : decodeChar? [b] = none := by
  cases read : decodeChar? [b] with
  | none => rfl
  | some found =>
    obtain ⟨c, width⟩ := found
    obtain ⟨wide, stands⟩ := decodeChar?_eq_some_iff.mp read
    have longer := decodeChar?_eq_some_iff.mpr
      ⟨wide, stands.trans (show [b] <+: b :: rest from ⟨rest, rfl⟩)⟩
    rw [h] at longer
    cases longer

/-- All symbols of a source are genuine. -/
theorem genuine_of_mem_symbols {source : List UInt8} {s : Symbol} (h : s ∈ symbols source) :
    s.Genuine := by
  fun_induction symbols source with
  | case1 => cases h
  | case2 b rest c width read ih =>
    rcases List.mem_cons.mp h with rfl | later
    · trivial
    · exact ih later
  | case3 b rest read ih =>
    rcases List.mem_cons.mp h with rfl | later
    · exact decodeChar?_singleton_of_none read
    · exact ih later

/-- An ASCII byte belongs to the encoding of its own character only. -/
theorem eq_of_mem_encode {b : UInt8} {c : Char} (mem : b ∈ String.utf8EncodeChar c)
    (ascii : b.toNat < 0x80) : c = Char.ofNat b.toNat := by
  have spelled := spelled_encode c
  generalize String.utf8EncodeChar c = bytes at mem spelled
  cases spelled with
  | one size =>
    rw [List.mem_singleton.mp mem, toNat_leadByte (by omega)]
    rfl
  | two long size tail =>
    simp only [List.mem_cons, List.not_mem_nil, or_false] at mem
    rcases mem with rfl | rfl
    · rw [toNat_leadByte (by omega)] at ascii; omega
    · rw [toNat_tailByte tail] at ascii; omega
  | three size tail₁ tail₂ long plain =>
    simp only [List.mem_cons, List.not_mem_nil, or_false] at mem
    rcases mem with rfl | rfl | rfl
    · rw [toNat_leadByte (by omega)] at ascii; omega
    · rw [toNat_tailByte tail₁] at ascii; omega
    · rw [toNat_tailByte tail₂] at ascii; omega
  | four size tail₁ tail₂ tail₃ long small =>
    simp only [List.mem_cons, List.not_mem_nil, or_false] at mem
    rcases mem with rfl | rfl | rfl | rfl
    · rw [toNat_leadByte (by omega)] at ascii; omega
    · rw [toNat_tailByte tail₁] at ascii; omega
    · rw [toNat_tailByte tail₂] at ascii; omega
    · rw [toNat_tailByte tail₃] at ascii; omega

/-- An ASCII byte is the encoding of its character. -/
theorem encode_of_ascii {b : UInt8} (ascii : b.toNat < 0x80) :
    String.utf8EncodeChar (Char.ofNat b.toNat) = [b] := by
  rw [encode_of_spelled (.one ascii)]
  exact congrArg (· :: []) (eq_leadByte (Nat.zero_le _)).symm

namespace Symbol

variable {s : Symbol}

/-- An ASCII byte belongs to the symbol of its own character only. -/
theorem eq_character_of_mem_bytes (genuine : s.Genuine) {b : UInt8} (mem : b ∈ s.bytes)
    (ascii : b.toNat < 0x80) : s = .character (Char.ofNat b.toNat) := by
  cases s with
  | character c => rw [eq_of_mem_encode mem ascii]
  | stray b' =>
    obtain rfl := List.mem_singleton.mp mem
    have read := decodeChar?_encode_append (Char.ofNat b.toNat) []
    rw [List.append_nil, encode_of_ascii ascii] at read
    exact absurd (genuine.symm.trans read) (by simp)

/-- The lossy reading of one symbol is the character that scanning sees. -/
theorem lossy_bytes (genuine : s.Genuine) : lossy s.bytes = [s.toChar] := by
  cases s with
  | character c =>
    obtain ⟨b, following, encoded⟩ := List.exists_cons_of_ne_nil
      (String.utf8EncodeChar_ne_nil (c := c))
    have read := front_of_spelled (encoded ▸ spelled_encode c) []
    have wide : c.utf8Size = following.length + 1 := by
      rw [← String.length_utf8EncodeChar, encoded, List.length_cons]
    rw [List.append_nil] at read
    simp only [bytes, encoded, toChar]
    rw [lossy, read]
    simp [wide, lossy]
  | stray b =>
    simp only [Genuine, decodeChar?] at genuine
    simp only [bytes, toChar]
    rw [lossy]
    split
    · next read => simp [read] at genuine
    · simp [lossy]

end Symbol

/-- A character that is read has its encoding among the bytes, unless it stands for malformed ones.
-/
theorem encode_subset_of_mem_lossy {bytes : List UInt8} {c : Char} (mem : c ∈ lossy bytes)
    (legible : c ≠ replacement) : String.utf8EncodeChar c ⊆ bytes := by
  fun_induction lossy bytes with
  | case1 => cases mem
  | case2 b rest d read ih =>
    rcases List.mem_cons.mp mem with rfl | later
    · have found : decodeChar? (b :: rest) = some (c, c.utf8Size) := by
        rw [decodeChar?, read]
      exact (decodeChar?_eq_some_iff.mp found).2.subset
    · exact fun _ among =>
        List.mem_cons_of_mem b (List.mem_of_mem_drop (ih later among))
  | case3 b rest length read ih =>
    have later := (List.mem_cons.mp mem).resolve_left legible
    exact fun _ among => List.mem_cons_of_mem b (List.mem_of_mem_drop (ih later among))

/-! ## Texts -/

/-- Encoded characters in front are read as these characters, whatever follows. -/
theorem symbols_encode_append (text : List Char) (rest : List UInt8) :
    symbols (text.flatMap String.utf8EncodeChar ++ rest) =
      text.map .character ++ symbols rest := by
  induction text with
  | nil => rfl
  | cons c text ih =>
    have front := decodeChar?_encode_append c (text.flatMap String.utf8EncodeChar ++ rest)
    rw [List.flatMap_cons, List.append_assoc, symbols_of_decodeChar? front,
      ← String.length_utf8EncodeChar, List.drop_left, ih, List.map_cons, List.cons_append]

/-- The symbols of encoded characters are these characters. -/
theorem symbols_encode (text : List Char) :
    symbols (text.flatMap String.utf8EncodeChar) = text.map .character := by
  have nothing : symbols [] = [] := by simp [symbols]
  have front := symbols_encode_append text []
  rwa [List.append_nil, nothing, List.append_nil] at front

/-- The lossy reading of an encoded character, whatever follows. -/
theorem lossy_encode_append (c : Char) (rest : List UInt8) :
    lossy (String.utf8EncodeChar c ++ rest) = c :: lossy rest := by
  obtain ⟨b, following, encoded⟩ := List.exists_cons_of_ne_nil
    (String.utf8EncodeChar_ne_nil (c := c))
  have read := front_of_spelled (encoded ▸ spelled_encode c) rest
  have wide : c.utf8Size - 1 = following.length := by
    rw [← String.length_utf8EncodeChar, encoded, List.length_cons, Nat.add_sub_cancel]
  rw [encoded, List.cons_append, lossy, read]
  simp only [wide, List.drop_left]

/-- The bytes of characters are their encodings. -/
theorem bytesOf_characters (text : List Char) :
    bytesOf (text.map .character) = text.flatMap String.utf8EncodeChar := by
  rw [bytesOf, List.flatMap_map]
  rfl

/-- The bytes of characters are read as these characters. -/
theorem lossy_characters (text : List Char) : lossy (bytesOf (text.map .character)) = text := by
  induction text with
  | nil => simp [lossy]
  | cons c text ih => rw [List.map_cons, bytesOf_cons, Symbol.bytes, lossy_encode_append, ih]

end SheetFormula.Text

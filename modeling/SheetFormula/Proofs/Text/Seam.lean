import Mathlib.Tactic.Common
import SheetFormula.Proofs.Text.Encoding

/-!
# Reading across a seam

Where bytes are followed by others, a character that begins in the ones may go on into the others.
It cannot if these begin with an ASCII byte, as no such byte continues a character (`Severs`).

Main results:
* `symbols_append`: the reading of a byte sequence as symbols falls in two where the others begin.
* `lossy_append`: so does the lossy reading.
* `front_append`: what stands in front of bytes is there whatever follows a seam.
-/

namespace SheetFormula.Text

/-- Whether no character goes on into these bytes: they are none, or an ASCII byte is in front. -/
def Severs (after : List UInt8) : Prop := ∀ b ∈ after.head?, b.toNat < 0x80

variable {after : List UInt8}

/-- Following bytes are not looked for behind a seam. -/
theorem readFollowing_append {value following taken : Nat} {low high : UInt8}
    {bytes : List UInt8} (above : 0x80 ≤ low.toNat) (severs : Severs after) :
    readFollowing value following low high taken (bytes ++ after) =
      readFollowing value following low high taken bytes := by
  induction following generalizing value low high taken bytes with
  | zero => rfl
  | succ following ih =>
    cases bytes with
    | nil =>
      cases after with
      | nil => rfl
      | cons b after =>
        have ascii := severs b rfl
        have outside : ¬ (low ≤ b ∧ b ≤ high) := by
          rw [UInt8.le_iff_toNat_le]
          omega
        rw [List.nil_append, readFollowing, readFollowing, if_neg outside]
    | cons b bytes =>
      rw [List.cons_append, readFollowing, readFollowing, ih (by decide)]

/-- A malformed part reaches no further than there are bytes. -/
theorem le_of_readFollowing {value following taken n : Nat} {low high : UInt8}
    {bytes : List UInt8}
    (h : readFollowing value following low high taken bytes = .malformed n) :
    n ≤ taken + bytes.length := by
  induction following generalizing value low high taken bytes with
  | zero => cases h
  | succ following ih =>
    cases bytes with
    | nil =>
      cases h
      exact Nat.le_refl _
    | cons b bytes =>
      rw [readFollowing] at h
      rw [List.length_cons]
      split at h
      · have further := ih h
        omega
      · cases h
        omega

/-- What a lead byte asks of the byte behind it is not met by an ASCII byte. -/
theorem Lead.low_of? {b : UInt8} {lead : Lead} (h : Lead.of? b = some lead) :
    0x80 ≤ lead.low.toNat := by
  rw [Lead.of?_eq] at h
  split_ifs at h
  all_goals
    obtain rfl := Option.some.inj h
    simp

/-- What stands in front of bytes is there whatever follows a seam. -/
theorem front_append (b : UInt8) (rest : List UInt8) (severs : Severs after) :
    front b (rest ++ after) = front b rest := by
  unfold front
  cases announced : Lead.of? b with
  | none => rfl
  | some lead => exact readFollowing_append (Lead.low_of? announced) severs

/-- What is decoded in front of a seam does not depend on what follows it. -/
theorem decodeChar?_append {b : UInt8} {rest : List UInt8} (severs : Severs after) :
    decodeChar? (b :: rest ++ after) = decodeChar? (b :: rest) := by
  rw [List.cons_append, decodeChar?, decodeChar?, front_append b rest severs]

/-- What stands in front of bytes is no longer than they are. -/
theorem le_of_front {b : UInt8} {rest : List UInt8} :
    (∀ c, front b rest = .character c → c.utf8Size - 1 ≤ rest.length) ∧
      ∀ n, front b rest = .malformed n → n - 1 ≤ rest.length := by
  constructor
  · intro c read
    obtain ⟨following, more, rfl, spelled⟩ := spelled_of_front read
    have wide := congrArg List.length (encode_of_spelled spelled)
    rw [String.length_utf8EncodeChar, List.length_cons] at wide
    rw [List.length_append]
    omega
  · intro n read
    unfold front at read
    split at read
    · cases read
      exact Nat.zero_le _
    · have bound := le_of_readFollowing read
      omega

/-- **The symbols in front of a seam are those of the bytes in front of it.** -/
theorem symbols_append (bytes : List UInt8) (severs : Severs after) :
    symbols (bytes ++ after) = symbols bytes ++ symbols after := by
  fun_induction symbols bytes with
  | case1 => rfl
  | case2 b rest c width read ih =>
    have inside : width - 1 ≤ rest.length := by
      obtain ⟨wide, whole⟩ := eq_encode_append_of_decodeChar? read
      have length := congrArg List.length whole
      rw [List.length_append, ← wide, List.length_cons] at length
      omega
    have read' : decodeChar? (b :: (rest ++ after)) = some (c, width) :=
      (decodeChar?_append severs).trans read
    rw [List.cons_append, symbols, read']
    dsimp only
    rw [List.drop_append_of_le_length inside, ih, List.cons_append]
  | case3 b rest read ih =>
    have read' : decodeChar? (b :: (rest ++ after)) = none :=
      (decodeChar?_append severs).trans read
    rw [List.cons_append, symbols_of_decodeChar?_none read', ih, List.cons_append]

/-- An ASCII byte in front is a symbol of its own. -/
theorem symbols_cons_of_ascii {b : UInt8} (ascii : b.toNat < 0x80) (rest : List UInt8) :
    symbols (b :: rest) = .character (Char.ofNat b.toNat) :: symbols rest := by
  have read := decodeChar?_encode_append (Char.ofNat b.toNat) rest
  rw [encode_of_ascii ascii] at read
  rw [List.singleton_append] at read
  rw [symbols_of_decodeChar? read, ← String.length_utf8EncodeChar, encode_of_ascii ascii]
  rfl

/-- **The lossy reading in front of a seam is that of the bytes in front of it.** -/
theorem lossy_append (bytes : List UInt8) (severs : Severs after) :
    lossy (bytes ++ after) = lossy bytes ++ lossy after := by
  fun_induction lossy bytes with
  | case1 => rfl
  | case2 b rest c read ih =>
    rw [List.cons_append, lossy, front_append b rest severs, read]
    dsimp only
    rw [List.drop_append_of_le_length (le_of_front.1 c read), ih, List.cons_append]
  | case3 b rest length read ih =>
    rw [List.cons_append, lossy, front_append b rest severs, read]
    dsimp only
    rw [List.drop_append_of_le_length (le_of_front.2 length read), ih, List.cons_append]

/-- No bytes are read as nothing. -/
theorem lossy_ne_nil {bytes : List UInt8} (nonempty : bytes ≠ []) : lossy bytes ≠ [] := by
  cases bytes with
  | nil => exact absurd rfl nonempty
  | cons b rest =>
    rw [lossy]
    split <;> exact List.cons_ne_nil _ _

end SheetFormula.Text

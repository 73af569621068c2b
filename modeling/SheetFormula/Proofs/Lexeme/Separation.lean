import Mathlib.Tactic.Common
import SheetFormula.Lexeme.Radix
import SheetFormula.Proofs.Lexeme.NumberGrammar
import SheetFormula.Proofs.Lexeme.Numeral

/-!
# Where separators stand

Separators are looked for in one pass over a whole number, with nothing kept but what kind of byte
came last. What this pass accepts of a stretch of digits and separators is a language, one for each
kind of byte in front (`Separator.Neighbour.accepts`). Such stretches end where any other character
stands.

Main results:
* `Separator.misplacedFrom_append`: a stretch is judged by what is in front of it, and what follows
  it is judged apart.
* `Separator.misplacedFrom_break`: behind any other character the pass starts anew.
* `Separator.announced?_asciiBytes`: what the bytes of a number announce is what its characters do.

So a number is free of misplaced separators if all its stretches are.
-/

namespace SheetFormula

open NumberGrammar

/-- The bytes of characters in ASCII. -/
def Text.asciiBytes (text : List Char) : List UInt8 := text.map fun c => UInt8.ofNat c.toNat

/-- What holds of the first numbers, read as characters, holds of characters in ASCII. -/
@[elab_as_elim]
theorem Text.of_isAscii {motive : Char → Prop} {c : Char} (ascii : isAscii c)
    (all : ∀ n < 0x80, motive (Char.ofNat n)) : motive c := by
  have here := all c.toNat (of_decide_eq_true ascii)
  rwa [Char.ofNat_toNat] at here

/-- Characters in ASCII are encoded one byte each. -/
theorem Text.encode_of_isAscii {text : List Char} (ascii : ∀ c ∈ text, isAscii c) :
    text.flatMap String.utf8EncodeChar = asciiBytes text := by
  induction text with
  | nil => rfl
  | cons c text ih =>
    obtain ⟨first, others⟩ := List.forall_mem_cons.mp ascii
    have small : c.toNat < 0x80 := of_decide_eq_true first
    have byte : (UInt8.ofNat c.toNat).toNat = c.toNat := UInt8.toNat_ofNat_of_lt' (by
      show c.toNat < 256; omega)
    have one := encode_of_ascii (b := UInt8.ofNat c.toNat) (by omega)
    rw [byte, Char.ofNat_toNat] at one
    rw [List.flatMap_cons, one, ih others]
    rfl

/-- The byte of a character in ASCII stands for that character. -/
theorem Text.ofUInt8_of_isAscii {c : Char} (ascii : isAscii c) :
    Char.ofUInt8 (UInt8.ofNat c.toNat) = c := by
  refine of_isAscii ascii ?_
  decide +kernel

namespace Separator

variable {hexadecimal : Bool}

/-- The digits of a number, in base sixteen or not. -/
def digit (hexadecimal : Bool) : Char → Bool :=
  if hexadecimal then Text.isHexDigit else Char.isDigit

/-- A decimal digit is a digit in base sixteen too. -/
theorem digit_of_isDigit {c : Char} (is : c.isDigit) : digit hexadecimal c := by
  cases hexadecimal with
  | false => exact is
  | true => simp [digit, Text.isHexDigit, is]

/-- What bytes are to separators, told by characters. -/
theorem byte_iff {c : Char} (ascii : Text.isAscii c) :
    (UInt8.ofNat c.toNat = separator ↔ isSeparator c) ∧
      isDigit hexadecimal (UInt8.ofNat c.toNat) = digit hexadecimal c := by
  refine Text.of_isAscii ascii ?_
  cases hexadecimal <;> decide +kernel

/-- No separator is a digit. -/
theorem not_isSeparator_of_digit {c : Char} (is : digit hexadecimal c) : ¬ isSeparator c := by
  intro separates
  obtain rfl : c = '_' := eq_of_beq separates
  cases hexadecimal <;> exact absurd is (by decide)

/-- What may follow a byte of some kind in a stretch of digits and separators, up to its end. -/
def Neighbour.accepts (hexadecimal : Bool) : Neighbour → Language Char
  | .digit => separated (Separator.digit hexadecimal)
  | .separator => NumberGrammar.run (Separator.digit hexadecimal)
  | .other => opt (NumberGrammar.run (Separator.digit hexadecimal))

/-- Whether a stretch of digits and separators ends in front of these characters. -/
def Ends (hexadecimal : Bool) (rest : List Char) : Prop :=
  ∀ c ∈ rest.head?, ¬ isSeparator c ∧ ¬ digit hexadecimal c

/-- Whether a separator is misplaced does not depend on the number of bytes in front. -/
theorem misplacedFrom_eq_none_iff {left : Neighbour} (i j : Nat) {text : List UInt8} :
    misplacedFrom hexadecimal left i text = none ↔
      misplacedFrom hexadecimal left j text = none := by
  induction text generalizing left i j with
  | nil =>
    unfold misplacedFrom
    split <;> simp
  | cons b text ih =>
    unfold misplacedFrom
    split
    · split
      · exact ih (i + 1) (j + 1)
      · simp
    split
    · exact ih (i + 1) (j + 1)
    split
    · simp
    · exact ih (i + 1) (j + 1)

/-- **A stretch of digits and separators is judged by what is in front of it**, and what follows it
is judged apart. The induction is on the stretch, with the kind of the byte in front kept along. -/
theorem misplacedFrom_append {left : Neighbour} {i j : Nat} {stretch rest : List Char}
    (ascii : ∀ c ∈ stretch ++ rest, Text.isAscii c)
    (loose : ∀ c ∈ stretch, isSeparator c || digit hexadecimal c)
    (ends : Ends hexadecimal rest) :
    misplacedFrom hexadecimal left i (Text.asciiBytes (stretch ++ rest)) = none ↔
      stretch ∈ left.accepts hexadecimal ∧
        misplacedFrom hexadecimal .other j (Text.asciiBytes rest) = none := by
  -- The neighbour on the left changes from one character to the next, so the statement is about
  -- what each neighbour accepts.
  induction stretch generalizing left i with
  | nil =>
    rw [List.nil_append]
    cases rest with
    | nil =>
      cases left
      · simp [misplacedFrom, Text.asciiBytes, Neighbour.accepts, nil_mem_separated]
      · simp [misplacedFrom, Text.asciiBytes, Neighbour.accepts, nil_not_mem_run]
      · simp [misplacedFrom, Text.asciiBytes, Neighbour.accepts, mem_opt]
    | cons c rest =>
      obtain ⟨apart, other⟩ := ends c rfl
      obtain ⟨separates, isDigit⟩ := @byte_iff hexadecimal c (ascii c (by simp))
      have apart' : UInt8.ofNat c.toNat ≠ separator := fun is => apart (separates.mp is)
      have later := @misplacedFrom_eq_none_iff hexadecimal .other (i + 1) (j + 1)
        (Text.asciiBytes rest)
      simp only [Text.asciiBytes, List.map_cons, misplacedFrom, apart', if_false, isDigit, other]
        at later ⊢
      cases left
      · simp [Neighbour.accepts, nil_mem_separated, later]
      · simp [Neighbour.accepts, nil_not_mem_run]
      · simp [Neighbour.accepts, mem_opt, later]
  | cons c stretch ih =>
    obtain ⟨here, others⟩ := List.forall_mem_cons.mp loose
    rw [List.cons_append] at ascii
    obtain ⟨first, later⟩ := List.forall_mem_cons.mp ascii
    obtain ⟨separates, isDigit⟩ := @byte_iff hexadecimal c first
    rw [List.cons_append, Text.asciiBytes, List.map_cons, ← Text.asciiBytes, misplacedFrom]
    by_cases is : digit hexadecimal c
    · have apart : UInt8.ofNat c.toNat ≠ separator :=
        fun same => not_isSeparator_of_digit is (separates.mp same)
      rw [if_neg apart, isDigit, is, if_pos rfl, ih later others]
      have accepted : c :: stretch ∈ left.accepts hexadecimal ↔
          stretch ∈ Neighbour.digit.accepts hexadecimal := by
        cases left
        · simp [Neighbour.accepts, cons_mem_separated, is, not_isSeparator_of_digit is]
        · simp [Neighbour.accepts, cons_mem_run, is]
        · simp [Neighbour.accepts, mem_opt, cons_mem_run, is]
      rw [accepted]
    · have isSeparator : isSeparator c := by simpa [is] using here
      rw [if_pos (separates.mpr isSeparator)]
      cases left
      · rw [if_pos rfl, ih later others]
        simp [Neighbour.accepts, cons_mem_separated, is, isSeparator]
      · simp [Neighbour.accepts, cons_mem_run, is]
      · simp [Neighbour.accepts, mem_opt, cons_mem_run, is]

/-- Behind a character that is neither digit nor separator, separators are judged anew. -/
theorem misplacedFrom_break {i j : Nat} {c : Char} {rest : List Char} (ascii : Text.isAscii c)
    (apart : ¬ isSeparator c) (other : ¬ digit hexadecimal c) :
    misplacedFrom hexadecimal .other i (Text.asciiBytes (c :: rest)) = none ↔
      misplacedFrom hexadecimal .other j (Text.asciiBytes rest) = none := by
  obtain ⟨separates, same⟩ := @byte_iff hexadecimal c ascii
  rw [Text.asciiBytes, List.map_cons, ← Text.asciiBytes, misplacedFrom,
    if_neg fun is => apart (separates.mp is), same, if_neg other, if_neg (by decide)]
  exact misplacedFrom_eq_none_iff _ _

/-- What the bytes of a number announce is what its characters do. -/
theorem announced?_asciiBytes {text : List Char} (ascii : ∀ c ∈ text, Text.isAscii c) :
    announced? (Text.asciiBytes text) =
      if text.head? = some '0' then text.tail.head?.bind Radix.ofMarker? else none := by
  have byte : ∀ c ∈ text, (UInt8.ofNat c.toNat = 0x30 ↔ c = '0') ∧
      Char.ofUInt8 (UInt8.ofNat c.toNat) = c := by
    intro c mem
    refine ⟨Text.of_isAscii (ascii c mem) ?_, Text.ofUInt8_of_isAscii (ascii c mem)⟩
    decide +kernel
  unfold announced?
  rcases text with - | ⟨c, - | ⟨d, rest⟩⟩
  · rfl
  · rw [List.tail_cons, List.head?_nil, Option.bind_none, ite_self]
    split
    · next same => exact nomatch (List.cons.inj same).2
    · rfl
  · obtain ⟨zero, -⟩ := byte c (by simp)
    obtain ⟨-, marker⟩ := byte d (by simp)
    rw [Text.asciiBytes, List.map_cons, List.map_cons, List.head?_cons, List.tail_cons,
      List.head?_cons, Option.bind_some]
    split
    · next first second _ same =>
      obtain ⟨is, later⟩ := List.cons.inj same
      obtain ⟨rfl, -⟩ := List.cons.inj later
      rw [if_pos (congrArg some (zero.mp is)), marker]
    · next other =>
      rw [if_neg]
      intro is
      exact other _ _ (congrArg (· :: _) (zero.mpr (Option.some.inj is)))

end Separator

end SheetFormula

import Mathlib.Data.List.TakeWhile
import Mathlib.Tactic.Common
import SheetFormula.Lexeme.Number
import SheetFormula.Proofs.Lexeme.Misplacement
import SheetFormula.Proofs.Text.Encoding

/-!
# What a number takes

The parts of a number are read one behind the other, each from what the ones before it have left
(`InFront`).

Main results:
* `Numeral.inFront_text_read`: the text of a number is the front of what is ahead.
* `Numeral.isAscii_text_read`: all of it is in ASCII, so it has as many bytes as characters.
* `Numeral.fault_le`: no fault of a number is noted behind the end of its text.
-/

namespace SheetFormula

open Text (Symbol)

/-! ## Characters in front -/

/-- Whether these are the first characters ahead. -/
def InFront (text : List Char) (rest : List Symbol) : Prop :=
  text <+: rest.map Symbol.toChar

namespace InFront

variable {text more : List Char} {rest : List Symbol}

/-- Nothing is in front of anything. -/
theorem nil (rest : List Symbol) : InFront [] rest := List.nil_prefix

/-- What is in front of the rest stands behind what is in front. -/
theorem append (first : InFront text rest) (later : InFront more (rest.drop text.length)) :
    InFront (text ++ more) rest := by
  obtain ⟨behind, whole⟩ := first
  rw [InFront, List.map_drop, ← whole, List.drop_left] at later
  rw [InFront, ← whole]
  exact (List.prefix_append_right_inj text).mpr later

/-- There are at least as many symbols ahead as characters in front. -/
theorem length_le (front : InFront text rest) : text.length ≤ rest.length := by
  simpa using List.IsPrefix.length_le front

/-- A run is in front of what it was read from. -/
theorem runOf (inClass : Char → Bool) (rest : List Symbol) :
    InFront (runOf inClass rest) rest :=
  (List.takeWhile_prefix _).map _

/-- A character in front, and what is in front behind it. -/
theorem cons {c : Char} (first : frontChar? rest = some c) (later : InFront more rest.tail) :
    InFront (c :: more) rest := by
  cases rest with
  | nil => cases first
  | cons s rest =>
    obtain rfl : s.toChar = c := Option.some.inj first
    exact (List.prefix_cons_inj _).mpr later

end InFront

/-- The characters of a run are in its class. -/
theorem mem_runOf {inClass : Char → Bool} {rest : List Symbol} {c : Char}
    (mem : c ∈ runOf inClass rest) : inClass c := by
  obtain ⟨s, inRun, rfl⟩ := List.mem_map.mp mem
  exact List.mem_takeWhile_imp (p := fun s : Symbol => inClass s.toChar) inRun

/-- A run goes on behind a symbol of its class. -/
theorem runOf_cons {inClass : Char → Bool} {s : Symbol} (mem : inClass s.toChar)
    (rest : List Symbol) : runOf inClass (s :: rest) = s.toChar :: runOf inClass rest := by
  simp [runOf, mem]

/-- No run starts in front of what is not in its class. -/
theorem runOf_eq_nil {inClass : Char → Bool} {rest : List Symbol}
    (other : ∀ c, frontChar? rest = some c → ¬ inClass c) : runOf inClass rest = [] := by
  cases rest with
  | nil => rfl
  | cons s rest => simp [runOf, other s.toChar rfl]

/-! ## Parts of a number -/

namespace Numeral

/-- What announces a base is in front. -/
theorem inFront_readRadix (rest : List Symbol) : InFront (readRadix rest).2 rest := by
  unfold readRadix
  split
  · next zero =>
    split
    · next marker front =>
      split
      · exact .cons zero (.cons front (.nil _))
      · exact .cons zero (.nil _)
    · exact .cons zero (.nil _)
  · exact .nil rest

/-- The point and the digits behind it. -/
theorem inFront_readFraction (radix : Radix) (rest : List Symbol) :
    InFront ((readFraction radix rest).elim [] ('.' :: ·)) rest := by
  unfold readFraction
  split
  · next point => exact .cons point (.runOf _ _)
  · exact .nil rest

/-- The exponent is in front. -/
theorem inFront_readExponent (rest : List Symbol) :
    InFront ((readExponent rest).elim [] Exponent.text) rest := by
  unfold readExponent
  split
  · exact .nil rest
  · next marker found =>
    obtain ⟨front, -⟩ := Option.filter_eq_some_iff.mp found
    refine .cons front (.append ?_ (.runOf _ _))
    cases sign : (frontChar? rest.tail).filter isSign with
    | none => exact .nil _
    | some c => exact .cons (Option.filter_eq_some_iff.mp sign).1 (.nil _)

/-- How far the point and the digits behind it reach. -/
theorem length_fraction (fraction : Option (List Char)) :
    fraction.elim 0 (fun digits => digits.length + 1) =
      (fraction.elim [] ('.' :: ·)).length := by
  cases fraction <;> rfl

/-- How far an exponent reaches. -/
theorem length_exponent (exponent : Option Exponent) :
    exponent.elim 0 (fun e => e.text.length) = (exponent.elim [] Exponent.text).length := by
  cases exponent <;> rfl

/-- **The text of a number is what stands in front.** -/
theorem inFront_text_read (rest : List Symbol) : InFront (read rest).text rest := by
  have announcement := inFront_readRadix rest
  have whole := announcement.append (.runOf (readRadix rest).1.inRun _)
  have fraction := whole.append (inFront_readFraction (readRadix rest).1 _)
  have exponent := fraction.append (inFront_readExponent _)
  have suffix : ∀ rest, InFront (if frontChar? rest = some 'i' then ['i'] else []) rest := by
    intro rest
    split
    · next front => exact .cons front (.nil _)
    · exact .nil rest
  have all := exponent.append (suffix _)
  have parts : (read rest).text = (readRadix rest).2 ++ (read rest).whole ++
      (read rest).fraction.elim [] ('.' :: ·) ++ (read rest).exponent.elim [] Exponent.text ++
      (if (read rest).imaginary then ['i'] else []) := by
    rw [text, wholeText, fractionText, exponentText, suffixText]
    cases (read rest).fraction <;> cases (read rest).exponent <;> rfl
  rw [parts]
  simp only [read, length_fraction, length_exponent, List.drop_drop, decide_eq_true_eq] at all ⊢
  simpa [List.length_append, Nat.add_assoc] using all

/-! ## Numbers are in ASCII -/

/-- Decimal digits are in ASCII. -/
theorem isAscii_of_isDigit {c : Char} (digit : c.isDigit) : Text.isAscii c := by
  simp only [Char.isDigit, Bool.and_eq_true, decide_eq_true_eq] at digit
  have bound : c.toNat ≤ 57 := digit.2
  exact decide_eq_true (by omega)

/-- What may stand in a run of digits is in ASCII. -/
theorem isAscii_of_inRun {radix : Radix} {c : Char} (digit : radix.inRun c) : Text.isAscii c := by
  have upTo : ∀ last : Char, last.toNat < 0x80 → c ≤ last → Text.isAscii c := by
    intro last ascii le
    have bound : c.toNat ≤ last.toNat := le
    exact decide_eq_true (by omega)
  simp only [Radix.inRun, Bool.or_eq_true, beq_iff_eq] at digit
  rcases digit with rfl | digit
  · rfl
  split at digit
  · simp only [Text.isHexDigit, Bool.or_eq_true, Bool.and_eq_true, decide_eq_true_eq] at digit
    rcases digit with (digit | ⟨-, le⟩) | ⟨-, le⟩
    · exact isAscii_of_isDigit digit
    · exact upTo 'f' (by decide) le
    · exact upTo 'F' (by decide) le
  · exact isAscii_of_isDigit digit

/-- What announces a base is in ASCII. -/
theorem isAscii_readRadix (rest : List Symbol) : ∀ c ∈ (readRadix rest).2, Text.isAscii c := by
  have marker_ascii : ∀ marker radix, Radix.ofMarker? marker = some radix →
      Text.isAscii marker := by
    intro marker radix announced
    unfold Radix.ofMarker? at announced
    split at announced
    all_goals first
      | rfl
      | cases announced
  unfold readRadix
  split
  · split
    · split
      · next marker _ radix announced =>
        simp only [List.forall_mem_cons]
        exact ⟨rfl, marker_ascii _ _ announced, by simp⟩
      · simp only [List.forall_mem_cons]
        exact ⟨rfl, by simp⟩
    · simp only [List.forall_mem_cons]
      exact ⟨rfl, by simp⟩
  · simp

/-- An exponent is in ASCII. -/
theorem isAscii_readExponent {rest : List Symbol} {e : Exponent}
    (found : readExponent rest = some e) : ∀ c ∈ e.text, Text.isAscii c := by
  unfold readExponent at found
  split at found
  · cases found
  · next marker front =>
    cases found
    obtain ⟨-, isMarker⟩ := Option.filter_eq_some_iff.mp front
    simp only [Exponent.text, List.forall_mem_cons, List.forall_mem_append]
    refine ⟨?_, ?_, fun c mem => isAscii_of_inRun (mem_runOf mem)⟩
    · simp only [isExponentMarker, Bool.or_eq_true, beq_iff_eq] at isMarker
      rcases isMarker with ((rfl | rfl) | rfl) | rfl <;> rfl
    · intro c mem
      obtain ⟨-, sign⟩ := Option.filter_eq_some_iff.mp (Option.mem_toList.mp mem)
      simp only [isSign, Bool.or_eq_true, beq_iff_eq] at sign
      rcases sign with rfl | rfl <;> rfl

/-- **A number is in ASCII.** -/
theorem isAscii_text_read (rest : List Symbol) : ∀ c ∈ (read rest).text, Text.isAscii c := by
  simp only [text, wholeText, List.forall_mem_append]
  refine ⟨⟨⟨⟨isAscii_readRadix rest, fun c mem => isAscii_of_inRun (mem_runOf mem)⟩, ?_⟩, ?_⟩, ?_⟩
  · unfold fractionText
    split
    · next digits found =>
      simp only [read, readFraction, Option.ite_none_right_eq_some] at found
      obtain ⟨-, run⟩ := found
      cases run
      simp only [List.forall_mem_cons]
      exact ⟨rfl, fun c mem => isAscii_of_inRun (mem_runOf mem)⟩
    · simp
  · unfold exponentText
    split
    · next e found => exact isAscii_readExponent found
    · simp
  · unfold suffixText
    split
    · simp only [List.forall_mem_cons]
      exact ⟨rfl, by simp⟩
    · simp

/-! ## Where faults are noted -/

/-- The digit that is too large is one of the digits. -/
theorem getElem?_of_outOfBase? {base index i : Nat} {digits : List Char} {digit : Char}
    (found : outOfBase? base index digits = some (i, digit)) :
    ∃ n, i = index + n ∧ digits[n]? = some digit := by
  induction digits generalizing index with
  | nil => cases found
  | cons c digits ih =>
    unfold outOfBase? at found
    split at found
    · cases found
      exact ⟨0, rfl, rfl⟩
    · obtain ⟨n, rfl, is⟩ := ih found
      exact ⟨n + 1, by omega, is⟩

end Numeral

/-- Text in ASCII takes one byte for each character. -/
theorem Text.length_encode_of_isAscii {text : List Char} (ascii : ∀ c ∈ text, isAscii c) :
    (text.flatMap String.utf8EncodeChar).length = text.length := by
  induction text with
  | nil => rfl
  | cons c text ih =>
    obtain ⟨first, others⟩ := List.forall_mem_cons.mp ascii
    have one : c.utf8Size = 1 := by
      have small : c.toNat < 0x80 := of_decide_eq_true first
      rw [Char.utf8Size_eq_one_iff]
      show c.toNat ≤ 127
      omega
    rw [List.flatMap_cons, List.length_append, String.length_utf8EncodeChar, one, ih others,
      List.length_cons, Nat.add_comm]

namespace Numeral

/-- **No fault of a number is noted behind its text.** Each is noted at the start, at a byte of one
of the parts, or at a separator. -/
theorem fault_le (rest : List Symbol) : ∀ leg ∈ (read rest).recognition.legs,
    ∀ fault ∈ leg.faults, fault.1 ≤ (read rest).text.length := by
  have ascii := isAscii_text_read rest
  generalize read rest = n at ascii
  have whole : n.text.length = n.announcement.length + n.whole.length + n.fractionText.length +
      n.exponentText.length + n.suffixText.length := by
    simp [text, wholeText, Nat.add_assoc]
  simp only [recognition, List.forall_mem_cons, List.forall_mem_map]
  refine ⟨?_, ?_, ?_, ?_, by simp⟩
  · intro fault _
    simp only [wholeText, List.length_append]
    omega
  · intro fault _
    simp only [wholeText, List.length_append]
    omega
  · intro fault _
    simp only [wholeText, List.length_append]
    omega
  · rw [List.forall_mem_append]
    constructor
    · intro fault mem
      unfold digitFaults at mem
      split at mem
      · split at mem
        · next index digit found =>
          obtain rfl := List.mem_singleton.mp mem
          obtain ⟨i, rfl, is⟩ := getElem?_of_outOfBase? found
          have inside := (List.getElem?_eq_some_iff.mp is).1
          dsimp only
          omega
        · cases mem
      · cases mem
    · intro fault mem
      unfold separatorFaults at mem
      split at mem
      · next index found =>
        obtain rfl := List.mem_singleton.mp mem
        have is := Separator.getElem?_of_misplaced? found
        have inside := (List.getElem?_eq_some_iff.mp is).1
        rw [Text.length_encode_of_isAscii ascii] at inside
        exact inside.le
      · cases mem

end Numeral

end SheetFormula

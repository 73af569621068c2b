import Mathlib.Tactic.Common
import SheetFormula.Proofs.Lexeme.NumberParts

/-!
# Numbers without faults

The faults of a number are found in several ways: some by the parts that it has, some by the digits
in them, and those of its separators by the bytes of the whole text. `Numeral.Proper` and
`Numeral.InRange` say the same part by part.

Main results:
* `Numeral.Regular.separatorFaults_eq_nil_iff`: no separator of a regular number is misplaced
  exactly if the stretches between its point and its marker are runs of digits.
* `Numeral.Regular.faultless_iff`: a regular number is free of faults exactly if it is proper and in
  range.

The other faults have one lemma each, which says when there is none of its sort; the main result
puts them together.
-/

namespace SheetFormula

open NumberGrammar
open Text (Symbol)

namespace Numeral

/-! ## Parts of a number, less its mark -/

/-- What announces a base other than ten. A bare leading zero does not. -/
def mark (n : Numeral) : List Char :=
  if n.radix = .decimal ∨ n.radix = .leadingZero then [] else n.announcement

/-- The digits in front of the point. A bare leading zero is one of them. -/
def lead (n : Numeral) : List Char :=
  if n.radix = .leadingZero then n.announcement ++ n.whole else n.whole

/-- The digits that may stand in front of the exponent. -/
def digit (n : Numeral) : Char → Bool := Separator.digit (n.radix = .hexadecimal)

/-- What follows the digits in front of the point. -/
def tail (n : Numeral) : List Char := n.fractionText ++ (n.exponentText ++ n.suffixText)

namespace Regular

variable {n : Numeral}

/-- Up to the point a regular number is its mark and the digits behind that. -/
theorem wholeText_eq (regular : n.Regular) : n.wholeText = n.mark ++ n.lead := by
  have announced := regular.announced
  unfold wholeText mark lead
  cases same : n.radix
  case decimal =>
    rw [same] at announced
    rw [announced.1]
    rfl
  all_goals rfl

/-- A regular number is its mark, the digits in front of the point, and what follows them. -/
theorem text_eq (regular : n.Regular) : n.text = n.mark ++ (n.lead ++ n.tail) := by
  rw [text, regular.wholeText_eq, tail]
  simp only [List.append_assoc]

/-- A regular number is in ASCII. -/
theorem isAscii_text (regular : n.Regular) : ∀ c ∈ n.text, Text.isAscii c := by
  have ascii := isAscii_text_read (n.text.map .character)
  rwa [regular.read_text] at ascii

/-- The digits in front of the point are in the class of their base. -/
theorem loose_lead (regular : n.Regular) : ∀ c ∈ n.lead, isSeparator c || n.digit c := by
  have announced := regular.announced
  have whole : ∀ c ∈ n.whole, isSeparator c || n.digit c := by
    intro c mem
    rw [digit, ← inRun_eq]
    exact regular.whole c mem
  unfold lead
  split
  · next zero =>
    rw [zero] at announced
    rw [show n.announcement = ['0'] from announced, List.forall_mem_append]
    refine ⟨?_, whole⟩
    rw [List.forall_mem_singleton, digit, zero]
    rfl
  · exact whole

/-- What the bytes of a regular number announce. -/
theorem announced?_text (regular : n.Regular) :
    Separator.announced? (Text.asciiBytes n.text) =
      if n.radix = .decimal ∨ n.radix = .leadingZero then none else some n.radix := by
  rw [Separator.announced?_asciiBytes regular.isAscii_text, ← frontChar?_characters,
    ← frontChar?_characters n.text.tail, List.map_tail]
  have radix := congrArg Prod.fst regular.readRadix_text
  dsimp only at radix
  rcases readRadix_cases (n.text.map .character) with ⟨other, is⟩ | ⟨zero, bare, is⟩ |
    ⟨marker, base, zero, front, known, is⟩
  · rw [is] at radix
    rw [if_neg other, ← radix]
    rfl
  · rw [is] at radix
    rw [if_pos zero, ← radix]
    exact Option.bind_eq_none_iff.mpr fun c mem => bare c mem
  · rw [is] at radix
    rw [if_pos zero, front, Option.bind_some, known, ← radix]
    rcases ofMarker?_eq_some.mp known with ⟨rfl, -⟩ | ⟨rfl, -⟩ | ⟨rfl, -⟩ <;> rfl

/-- The separators of a regular number are looked for behind its mark. -/
theorem misplaced?_text (regular : n.Regular) :
    Separator.misplaced? (Text.asciiBytes n.text) = none ↔
      Separator.misplacedFrom (n.radix = .hexadecimal) .other 0
        (Text.asciiBytes (n.lead ++ n.tail)) = none := by
  have announced := regular.announced
  unfold Separator.misplaced?
  rw [regular.announced?_text, regular.text_eq]
  unfold mark
  by_cases plain : n.radix = .decimal ∨ n.radix = .leadingZero
  · rw [if_pos plain, if_pos plain, List.nil_append]
    rcases plain with same | same
    all_goals
      rw [same]
      rfl
  · rw [if_neg plain, if_neg plain]
    obtain ⟨marker, same⟩ : ∃ marker, n.announcement = ['0', marker] := by
      cases same : n.radix
      case decimal => exact absurd (.inl same) plain
      case leadingZero => exact absurd (.inr same) plain
      all_goals
        rw [same] at announced
        obtain ⟨marker, -, is⟩ := announced
        exact ⟨marker, is⟩
    rw [same]
    exact Separator.misplacedFrom_eq_none_iff 2 0

/-- A stretch of digits ends in front of what is not in the class of their base. -/
theorem ends_of_not_inRun {rest : List Char} (ends : ∀ c ∈ rest.head?, ¬ n.radix.inRun c) :
    Separator.Ends (n.radix = .hexadecimal) rest := by
  intro c mem
  have other := ends c mem
  rw [inRun_eq, Bool.or_eq_true, not_or] at other
  exact other

/-- Behind what is neither a digit nor a separator, only a run of digits is without a misplaced
separator, or nothing. -/
theorem accepts_other (n : Numeral) :
    Separator.Neighbour.accepts (n.radix = .hexadecimal) .other = opt (run n.digit) := rfl

/-- No separator is misplaced in a suffix. -/
theorem separated_suffix (n : Numeral) (i : Nat) :
    Separator.misplacedFrom (n.radix = .hexadecimal) .other i (Text.asciiBytes n.suffixText) =
      none := by
  unfold suffixText
  cases n.imaginary with
  | false => rfl
  | true =>
    apply (Separator.misplacedFrom_break (j := 0) (by decide) (by decide) _).mpr
    · rfl
    · cases n.radix <;> decide

/-- No separator is misplaced from the exponent on exactly if the exponent has a run of digits, or
none. -/
theorem separated_exponent (regular : n.Regular) (i : Nat) :
    Separator.misplacedFrom (n.radix = .hexadecimal) .other i
        (Text.asciiBytes (n.exponentText ++ n.suffixText)) = none ↔
      ∀ e ∈ n.exponent, e.digits ∈ opt (run n.digit) := by
  have ascii := regular.isAscii_text
  have ends : Separator.Ends (n.radix = .hexadecimal) n.suffixText := by
    apply ends_of_not_inRun
    intro c mem
    rw [regular.front_of_tail.1 c mem]
    cases n.radix <;> decide
  rw [text, List.forall_mem_append, List.forall_mem_append, exponentText_eq] at ascii
  rw [exponentText_eq]
  cases found : n.exponent with
  | none => simpa using separated_suffix n i
  | some e =>
    obtain ⟨isMarker, other⟩ := regular.marker e found
    have signs := regular.sign e found
    have all := regular.exponent e found
    rw [found] at ascii
    obtain ⟨⟨-, exponent⟩, suffix⟩ := ascii
    rw [Option.elim_some, Exponent.text, List.forall_mem_cons, List.forall_mem_append] at exponent
    obtain ⟨marker, sign, digits⟩ := exponent
    rw [inRun_eq, Bool.or_eq_true, not_or] at other
    have loose : ∀ c ∈ e.digits, isSeparator c || n.digit c := by
      intro c mem
      have here := all c mem
      rw [inRun_eq, Bool.or_eq_true] at here
      rw [Bool.or_eq_true]
      exact here.imp_right fun is => Separator.digit_of_isDigit is
    -- Neither the marker nor a sign is a digit or a separator, so that the loop forgets what was in
    -- front, and the digits are judged as if they stood at the beginning.
    rw [Option.elim_some, Exponent.text, List.cons_append, List.append_assoc,
      Separator.misplacedFrom_break (j := 0) marker other.1 other.2]
    have judged := @Separator.misplacedFrom_append _ .other 0 0 _ _
      (List.forall_mem_append.mpr ⟨digits, suffix⟩) loose ends
    rw [eq_true (separated_suffix n 0), and_true, accepts_other] at judged
    cases present : e.sign with
    | none => simpa using judged
    | some c =>
      have breaks : ¬ isSeparator c ∧ ¬ Separator.digit (n.radix = .hexadecimal) c := by
        have is := signs c present
        simp only [isSign, Bool.or_eq_true, beq_iff_eq] at is
        rcases is with rfl | rfl
        all_goals cases n.radix <;> decide
      rw [Option.toList_some, List.singleton_append, Separator.misplacedFrom_break (j := 0)
        (sign c (by rw [present]; exact List.mem_singleton_self c)) breaks.1 breaks.2]
      simpa using judged

/-- No separator is misplaced from the point on exactly if there are runs of digits, or none, behind
the point and in the exponent. -/
theorem separated_tail (regular : n.Regular) (i : Nat) :
    Separator.misplacedFrom (n.radix = .hexadecimal) .other i (Text.asciiBytes n.tail) = none ↔
      (∀ digits ∈ n.fraction, digits ∈ opt (run n.digit)) ∧
        ∀ e ∈ n.exponent, e.digits ∈ opt (run n.digit) := by
  have ascii := regular.isAscii_text
  rw [regular.text_eq, List.forall_mem_append, List.forall_mem_append, tail, fractionText_eq]
    at ascii
  rw [tail, fractionText_eq]
  cases found : n.fraction with
  | none => simpa using regular.separated_exponent i
  | some digits =>
    rw [found] at ascii
    obtain ⟨-, -, behind⟩ := ascii
    obtain ⟨-, digits_ascii⟩ := List.forall_mem_cons.mp behind
    have loose : ∀ c ∈ digits, isSeparator c || n.digit c := by
      intro c mem
      rw [digit, ← inRun_eq]
      exact regular.fraction digits found c mem
    have point : ¬ Separator.digit (n.radix = .hexadecimal) '.' := by
      cases n.radix <;> decide
    rw [Option.elim_some, List.cons_append,
      Separator.misplacedFrom_break (j := 0) (by decide) (by decide) point,
      Separator.misplacedFrom_append (j := 0) digits_ascii loose
        (ends_of_not_inRun regular.ends_fraction), regular.separated_exponent]
    simp [accepts_other]

/-- **No separator of a regular number is misplaced** if all that is in front of the point, behind
it and in the exponent are runs of digits. The pass over the bytes is cut at the point and at the
marker, where no separator can be left open. -/
theorem separatorFaults_eq_nil_iff (regular : n.Regular) :
    n.separatorFaults = [] ↔ n.lead ∈ opt (run n.digit) ∧
      (∀ digits ∈ n.fraction, digits ∈ opt (run n.digit)) ∧
      ∀ e ∈ n.exponent, e.digits ∈ opt (run n.digit) := by
  have ascii := regular.isAscii_text
  have none : n.separatorFaults = [] ↔ Separator.misplaced? (Text.asciiBytes n.text) = none := by
    unfold separatorFaults
    rw [Text.encode_of_isAscii ascii]
    cases Separator.misplaced? (Text.asciiBytes n.text) <;> simp
  rw [regular.text_eq, List.forall_mem_append] at ascii
  rw [none, regular.misplaced?_text, Separator.misplacedFrom_append (j := 0) ascii.2
    regular.loose_lead (ends_of_not_inRun regular.ends_whole), regular.separated_tail]
  rfl

end Regular
end Numeral

/-! ## Part by part -/

/-- Whether an exponent goes with this base. -/
def Exponent.Fits (e : Exponent) (radix : Radix) : Prop :=
  (e.marker = 'e' ∨ e.marker = 'E') ∧ (radix = .decimal ∨ radix = .leadingZero) ∨
    (e.marker = 'p' ∨ e.marker = 'P') ∧ radix = .hexadecimal

namespace Numeral

/-- Whether a digit, if it is one, lies in a base. -/
def InBase (base : Nat) (c : Char) : Prop := c.isDigit → c.toNat - '0'.toNat < base

/-- Whether the digits of an integer lie in its base. Other numbers are free of this rule. -/
def InRange (n : Numeral) : Prop := n.token = .integer → ∀ c ∈ n.whole, InBase n.radix.base c

/-- Whether there are digits in front of the point, or behind it, and separators between digits
only. -/
structure Mantissa (digit : Char → Bool) (lead : List Char) (fraction : Option (List Char)) :
    Prop where
  front : lead ∈ opt (run digit)
  behind : ∀ digits ∈ fraction, digits ∈ opt (run digit)
  nonempty : lead ≠ [] ∨ ∃ digits ∈ fraction, digits ≠ []

/-- Whether the parts of a number fit together and each of them is well formed. -/
structure Proper (n : Numeral) : Prop where
  mantissa : Mantissa n.digit n.lead n.fraction
  exponent : ∀ e ∈ n.exponent, e.digits ∈ run Char.isDigit
  marker : ∀ e ∈ n.exponent, e.Fits n.radix
  point : n.fraction.isSome → n.radix ≠ .octal ∧ n.radix ≠ .binary
  needed : n.radix = .hexadecimal → n.fraction.isSome → n.exponent.isSome

/-- Whether nothing is wrong with a number. -/
def Faultless (n : Numeral) : Prop := ∀ leg ∈ n.recognition.legs, leg.faults = []

/-- Nothing is wrong with a number exactly if it has no fault of any of the six sorts. -/
theorem faultless_iff_faults (n : Numeral) : n.Faultless ↔
    n.pointFaults = [] ∧ (n.mantissaFaults = [] ∧ n.markerFaults = []) ∧ n.exponentFaults = [] ∧
      n.digitFaults = [] ∧ n.separatorFaults = [] := by
  simp only [Faultless, recognition, List.forall_mem_cons, List.map_eq_nil_iff,
    List.append_eq_nil_iff, List.not_mem_nil, false_implies, implies_true, and_true]

/-- The point is no fault exactly if a number in base eight or two has none. -/
theorem pointFaults_eq_nil_iff (n : Numeral) :
    n.pointFaults = [] ↔ (n.fraction.isSome → n.radix ≠ .octal ∧ n.radix ≠ .binary) := by
  unfold pointFaults
  cases n.fraction <;> cases n.radix <;> simp

/-- A run of digits that is not empty has a digit in it. -/
theorem hasDigit_iff {hexadecimal : Bool} {w : List Char}
    (mem : w ∈ opt (run (Separator.digit hexadecimal))) : hasDigit w ↔ w ≠ [] := by
  rcases mem_opt.mp mem with rfl | mem
  · simp [hasDigit]
  · cases w with
    | nil => exact absurd mem nil_not_mem_run
    | cons c w =>
      have other := Separator.not_isSeparator_of_digit (cons_mem_run.mp mem).1
      have first : (c != '_') = true := by simpa [isSeparator] using other
      simp [hasDigit, first]

/-- Digits are not missing exactly if there are some in front of the point or behind it. -/
theorem Regular.mantissaFaults_eq_nil_iff {n : Numeral} (regular : n.Regular)
    (lead : n.lead ∈ opt (run n.digit))
    (fraction : ∀ digits ∈ n.fraction, digits ∈ opt (run n.digit)) :
    n.mantissaFaults = [] ↔ (n.lead ≠ [] ∨ ∃ digits ∈ n.fraction, digits ≠ []) := by
  have behind : hasDigit (n.fraction.getD []) ↔ ∃ digits ∈ n.fraction, digits ≠ [] := by
    cases found : n.fraction with
    | none => simp [hasDigit]
    | some digits => simpa using hasDigit_iff (fraction digits found)
  have front : (n.radix = .leadingZero ∨ hasDigit n.whole) ↔ n.lead ≠ [] := by
    have announced := regular.announced
    unfold Numeral.lead at lead ⊢
    by_cases zero : n.radix = .leadingZero
    · rw [zero] at announced
      rw [if_pos zero, show n.announcement = ['0'] from announced]
      simp [zero]
    · rw [if_neg zero] at lead ⊢
      rw [← hasDigit_iff lead]
      simp [zero]
  have whole : n.hasMantissa ↔
      (n.radix = .leadingZero ∨ hasDigit n.whole) ∨ hasDigit (n.fraction.getD []) := by
    simp [hasMantissa]
  rw [mantissaFaults, ite_eq_left_iff, ← front, ← behind, ← whole]
  simp

/-- The marker of an exponent is no fault exactly if it goes with the base, and is there where it
has to be. -/
theorem markerFaults_eq_nil_iff {n : Numeral}
    (markers : ∀ e ∈ n.exponent, isExponentMarker e.marker) :
    n.markerFaults = [] ↔ (∀ e ∈ n.exponent, e.Fits n.radix) ∧
      (n.radix = .hexadecimal → n.fraction.isSome → n.exponent.isSome) := by
  unfold markerFaults
  cases found : n.exponent with
  | none => simp
  | some e =>
    have isMarker := markers e found
    simp only [isExponentMarker, Bool.or_eq_true, beq_iff_eq, or_assoc] at isMarker
    have apart : ¬ ((e.marker = 'e' ∨ e.marker = 'E') ∧ (e.marker = 'p' ∨ e.marker = 'P')) := by
      rintro ⟨is | is, same | same⟩
      all_goals exact absurd (is.symm.trans same) (by decide)
    simp only [Option.mem_some_iff, forall_eq', Exponent.Fits]
    by_cases decimal : e.marker = 'e' ∨ e.marker = 'E'
    · have other : ¬ (e.marker = 'p' ∨ e.marker = 'P') := fun is => apart ⟨decimal, is⟩
      simp [decimal, other, or_iff_not_imp_left]
    · have is : e.marker = 'p' ∨ e.marker = 'P' := (or_assoc.mpr isMarker).resolve_left decimal
      simp [decimal, is]

/-- No digit is too large exactly if all of them lie in the base. -/
theorem outOfBase?_eq_none_iff {base i : Nat} {digits : List Char} :
    outOfBase? base i digits = none ↔ ∀ c ∈ digits, InBase base c := by
  induction digits generalizing i with
  | nil => simp [outOfBase?]
  | cons c digits ih =>
    unfold outOfBase?
    rw [List.forall_mem_cons, ← ih (i := i + 1), InBase]
    split
    · next large =>
      simp only [reduceCtorEq, false_iff]
      rintro ⟨small, -⟩
      exact absurd (small large.1) (Nat.not_lt.mpr large.2)
    · next small =>
      refine (and_iff_right ?_).symm
      intro is
      exact Nat.lt_of_not_le fun large => small ⟨is, large⟩

/-- The digits are no fault exactly if those of an integer lie in its base. -/
theorem digitFaults_eq_nil_iff (n : Numeral) : n.digitFaults = [] ↔ n.InRange := by
  rw [InRange, ← outOfBase?_eq_none_iff (i := n.announcement.length)]
  unfold digitFaults
  split
  · next integer =>
    rw [eq_true integer, true_implies]
    cases outOfBase? n.radix.base n.announcement.length n.whole <;> simp
  · next other => simp [other]

/-- The exponent is no fault exactly if it has a digit. -/
theorem exponentFaults_eq_nil_iff (n : Numeral) :
    n.exponentFaults = [] ↔ ∀ e ∈ n.exponent, hasDigit e.digits := by
  unfold exponentFaults
  cases n.exponent <;> simp

/-- In the exponent, digits in base sixteen are decimal ones. -/
theorem Regular.run_exponent {n : Numeral} (regular : n.Regular) :
    ∀ e ∈ n.exponent, (e.digits ∈ run n.digit ↔ e.digits ∈ run Char.isDigit) := by
  intro e found
  apply run_congr
  intro c mem
  have here := regular.exponent e found c mem
  rw [inRun_eq, Bool.or_eq_true] at here
  unfold digit
  rcases here with separates | is
  · rw [eq_of_beq separates]
    cases n.radix <;> rfl
  · have is : c.isDigit := is
    rw [is, Separator.digit_of_isDigit is]

/-- **A regular number has no fault exactly if it is proper and its digits lie in its base.** -/
theorem Regular.faultless_iff {n : Numeral} (regular : n.Regular) :
    n.Faultless ↔ n.Proper ∧ n.InRange := by
  have fits := markerFaults_eq_nil_iff fun e found => (regular.marker e found).1
  rw [faultless_iff_faults, pointFaults_eq_nil_iff, fits, exponentFaults_eq_nil_iff,
    digitFaults_eq_nil_iff, regular.separatorFaults_eq_nil_iff]
  constructor
  · rintro ⟨point, ⟨nonempty, marker, needed⟩, someDigit, inRange, lead, fraction, exponent⟩
    have mantissa := (regular.mantissaFaults_eq_nil_iff lead fraction).mp nonempty
    refine ⟨⟨⟨lead, fraction, mantissa⟩, ?_, marker, point, needed⟩, inRange⟩
    intro e found
    rw [← regular.run_exponent e found]
    have nonempty := (hasDigit_iff (exponent e found)).mp (someDigit e found)
    exact (mem_opt.mp (exponent e found)).resolve_left nonempty
  · rintro ⟨⟨⟨lead, fraction, nonempty⟩, digits, marker, point, needed⟩, inRange⟩
    have exponent : ∀ e ∈ n.exponent, e.digits ∈ run n.digit := fun e found =>
      (regular.run_exponent e found).mpr (digits e found)
    refine ⟨point, ⟨?_, marker, needed⟩, ?_, inRange, lead, fraction,
      fun e found => .inr (exponent e found)⟩
    · exact (regular.mantissaFaults_eq_nil_iff lead fraction).mpr nonempty
    · intro e found
      rw [hasDigit_iff (.inr (exponent e found))]
      intro nothing
      have none := exponent e found
      rw [nothing] at none
      exact nil_not_mem_run none

end Numeral

end SheetFormula

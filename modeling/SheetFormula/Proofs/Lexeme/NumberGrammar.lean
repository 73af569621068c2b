import Mathlib.Computability.Language
import Mathlib.Tactic.Common
import SheetFormula.Text.Character
import SheetFormula.Token

/-!
# The grammar of numbers

What numbers look like, as languages over characters and without regard to how they are read. In
well-formed numbers a separator stands between two digits: `run digit` is the language of digits
with at most one separator between one and the next, and `separated digit` that of what may follow a
digit.

Two levels are kept apart:
* Scanning is lenient. It takes, one behind the other, the longest `wholePart`, the longest
  `fractionPart`, the longest `exponentPart` and the longest `suffixPart` (`Parts.Taken`).
* Of what is taken only some is well formed (`wellFormed`), which depends on the kind of number
  (`integer`, `float`, `imaginary`).

The lemmas in between say what the words of the building blocks are, so that no later proof has to
open a product of languages.
-/

namespace SheetFormula.NumberGrammar

open scoped Computability

/-! ## Building blocks -/

/-- One character of a class. -/
def one (p : Char → Bool) : Language Char := {w | ∃ c, p c ∧ w = [c]}

/-- This one character. -/
def this (c : Char) : Language Char := one (· == c)

/-- One of two characters. -/
def either (c d : Char) : Language Char := one fun a => a == c || a == d

/-- Something or nothing. -/
def opt (l : Language Char) : Language Char := 1 + l

section Membership

variable {p : Char → Bool} {l : Language Char} {c d : Char} {w : List Char}

/-- A word of one class is one character of it. -/
theorem mem_one : w ∈ one p ↔ ∃ c, p c ∧ w = [c] := Iff.rfl

/-- A word begins with a character of a class if it is one such character and a word behind it. -/
theorem mem_one_mul : w ∈ one p * l ↔ ∃ c v, p c ∧ v ∈ l ∧ w = c :: v := by
  rw [Language.mem_mul]
  constructor
  · rintro ⟨_, ⟨c, is, rfl⟩, v, mem, rfl⟩
    exact ⟨c, v, is, mem, rfl⟩
  · rintro ⟨c, v, is, mem, rfl⟩
    exact ⟨[c], ⟨c, is, rfl⟩, v, mem, rfl⟩

/-- The first character is in the class, and the others make a word of what follows. -/
@[simp] theorem cons_mem_one_mul : c :: w ∈ one p * l ↔ p c ∧ w ∈ l := by
  rw [mem_one_mul]
  constructor
  · rintro ⟨c, v, is, mem, same⟩
    obtain ⟨rfl, rfl⟩ := List.cons.inj same
    exact ⟨is, mem⟩
  · rintro ⟨is, mem⟩
    exact ⟨c, w, is, mem, rfl⟩

/-- Nothing does not begin with a character. -/
@[simp] theorem nil_mem_one_mul : [] ∉ one p * l := by
  rw [mem_one_mul]
  rintro ⟨c, v, -, -, same⟩
  cases same

/-- A word that begins with this character has it in front of a word of what follows. -/
theorem mem_this_mul : w ∈ this c * l ↔ ∃ v ∈ l, w = c :: v := by
  rw [this, mem_one_mul]
  simp

/-- A word of two characters' choice is one of the two. -/
theorem mem_either : w ∈ either c d ↔ w = [c] ∨ w = [d] := by
  rw [either, mem_one]
  simp [or_and_right, exists_or]

/-- A mark is one character in front of one of two. -/
theorem mem_mark {a : Char} : w ∈ this a * either c d ↔ w = [a, c] ∨ w = [a, d] := by
  rw [mem_this_mul]
  simp [mem_either, or_and_right, exists_or]

/-- Two characters that announce something, and what follows them. -/
theorem mem_mark_mul {a : Char} :
    w ∈ this a * either c d * l ↔ ∃ m v, (m = c ∨ m = d) ∧ v ∈ l ∧ w = a :: m :: v := by
  rw [mul_assoc, mem_this_mul]
  constructor
  · rintro ⟨u, marked, rfl⟩
    obtain ⟨m, v, is, mem, rfl⟩ := mem_one_mul.mp marked
    exact ⟨m, v, by simpa using is, mem, rfl⟩
  · rintro ⟨m, v, is, mem, rfl⟩
    exact ⟨m :: v, cons_mem_one_mul.mpr ⟨by simpa using is, mem⟩, rfl⟩

/-- A word that ends with this character has it behind a word of what precedes. -/
theorem mem_mul_this : w ∈ l * this c ↔ ∃ v ∈ l, w = v ++ [c] := by
  rw [Language.mem_mul]
  constructor
  · rintro ⟨v, mem, _, ⟨d, is, rfl⟩, rfl⟩
    rw [eq_of_beq is]
    exact ⟨v, mem, rfl⟩
  · rintro ⟨v, mem, rfl⟩
    exact ⟨v, mem, [c], ⟨c, beq_self_eq_true c, rfl⟩, rfl⟩

/-- Something or nothing is a word of something, or empty. -/
theorem mem_opt : w ∈ opt l ↔ w = [] ∨ w ∈ l := Iff.rfl

/-- What may be in front is in front, or it is missing. -/
theorem mem_opt_mul {m : Language Char} : w ∈ opt l * m ↔ w ∈ m ∨ w ∈ l * m := by
  rw [opt, add_mul, one_mul, Language.mem_add]

/-- What may follow follows, or it is missing. -/
theorem mem_mul_opt {m : Language Char} : w ∈ m * opt l ↔ w ∈ m ∨ w ∈ m * l := by
  rw [opt, mul_add, mul_one, Language.mem_add]

/-- A repetition is empty, or begins with one turn. -/
theorem mem_kstar : w ∈ l∗ ↔ w = [] ∨ w ∈ l * l∗ := by
  conv_lhs => rw [← Language.one_add_self_mul_kstar_eq_kstar]
  rfl

/-- Characters of a class, one after the other. -/
theorem mem_kstar_one : w ∈ (one p)∗ ↔ ∀ c ∈ w, p c := by
  induction w with
  | nil => simp [Language.nil_mem_kstar]
  | cons c w ih => rw [mem_kstar, cons_mem_one_mul, ih, List.forall_mem_cons]; simp

end Membership

/-! ## Digits -/

/-- Whether `c` is the character that separates digits. -/
def isSeparator (c : Char) : Bool := c == '_'

/-- What may follow a digit: digits, with a separator in front of each or not. -/
def separated (digit : Char → Bool) : Language Char := (opt (one isSeparator) * one digit)∗

/-- A digit and what may follow it. -/
def run (digit : Char → Bool) : Language Char := one digit * separated digit

/-- Digits and separators in any order. -/
def loose (digit : Char → Bool) : Language Char := (one fun c => isSeparator c || digit c)∗

/-- Whether `c` is a digit in base eight. -/
def isOctalDigit (c : Char) : Bool := '0' ≤ c && c ≤ '7'

/-- Whether `c` is a digit in base two. -/
def isBinaryDigit (c : Char) : Bool := c == '0' || c == '1'

/-- Whether `c` is a digit other than zero. -/
def isLeadingDigit (c : Char) : Bool := '1' ≤ c && c ≤ '9'

section Digits

variable {digit : Char → Bool} {c : Char} {w : List Char}

/-- Nothing need follow a digit. -/
theorem nil_mem_separated : [] ∈ separated digit := Language.nil_mem_kstar _

/-- A run begins with a digit. -/
theorem cons_mem_run : c :: w ∈ run digit ↔ digit c ∧ w ∈ separated digit := cons_mem_one_mul

/-- A run is not empty. -/
theorem nil_not_mem_run : [] ∉ run digit := nil_mem_one_mul

/-- A digit is followed by a digit, or by a separator with a run behind it. -/
theorem cons_mem_separated :
    c :: w ∈ separated digit ↔
      (digit c ∧ w ∈ separated digit) ∨ (isSeparator c ∧ w ∈ run digit) := by
  conv_lhs => rw [separated, mem_kstar]
  rw [mul_assoc, mem_opt_mul, cons_mem_one_mul, cons_mem_one_mul]
  simp only [reduceCtorEq, false_or]
  rfl

/-- All characters of separated digits are digits or separators. -/
theorem loose_of_separated (mem : w ∈ separated digit) : ∀ c ∈ w, isSeparator c || digit c := by
  induction w with
  | nil => simp
  | cons c w ih =>
    rw [List.forall_mem_cons]
    rcases cons_mem_separated.mp mem with ⟨is, later⟩ | ⟨is, later⟩
    · exact ⟨by simp [is], ih later⟩
    · refine ⟨by simp [is], ih ?_⟩
      cases w with
      | nil => exact nil_mem_separated
      | cons d w => exact cons_mem_separated.mpr (.inl (cons_mem_run.mp later))

/-- A run may follow a digit. -/
theorem separated_of_run (mem : w ∈ run digit) : w ∈ separated digit := by
  cases w with
  | nil => exact nil_mem_separated
  | cons c w => exact cons_mem_separated.mpr (.inl (cons_mem_run.mp mem))

/-- Classes with the same digits among these characters have the same runs of them. -/
theorem separated_congr {digit' : Char → Bool} (same : ∀ c ∈ w, digit c = digit' c) :
    (w ∈ separated digit ↔ w ∈ separated digit') ∧ (w ∈ run digit ↔ w ∈ run digit') := by
  induction w with
  | nil => simp [nil_mem_separated, nil_not_mem_run]
  | cons c w ih =>
    obtain ⟨first, others⟩ := List.forall_mem_cons.mp same
    obtain ⟨later, behind⟩ := ih others
    rw [cons_mem_separated, cons_mem_separated, cons_mem_run, cons_mem_run, first, later, behind]
    exact ⟨Iff.rfl, Iff.rfl⟩

/-- Classes with the same digits among these characters have the same runs of them. -/
theorem run_congr {digit' : Char → Bool} (same : ∀ c ∈ w, digit c = digit' c) :
    w ∈ run digit ↔ w ∈ run digit' :=
  (separated_congr same).2

/-- A run has nothing but digits and separators in it. -/
theorem loose_of_run (mem : w ∈ opt (run digit)) : ∀ c ∈ w, isSeparator c || digit c := by
  rcases mem_opt.mp mem with rfl | mem
  · simp
  · exact loose_of_separated (separated_of_run mem)

end Digits

/-! ## What scanning takes -/

/-- The characters that announce base sixteen. -/
def hexMark : Language Char := this '0' * either 'x' 'X'

/-- The characters that announce base eight. -/
def octalMark : Language Char := this '0' * either 'o' 'O'

/-- The characters that announce base two. -/
def binaryMark : Language Char := this '0' * either 'b' 'B'

/-- A number up to its point. It is empty if the point is in front. -/
def wholePart : Language Char :=
  hexMark * loose Text.isHexDigit + octalMark * loose Char.isDigit +
    binaryMark * loose Char.isDigit + one Char.isDigit * loose Char.isDigit + 1

/-- The digits of a number that has this in front of its point. -/
def digitOf : List Char → Char → Bool
  | '0' :: 'x' :: _ | '0' :: 'X' :: _ => Text.isHexDigit
  | _ => Char.isDigit

/-- A point, and the digits behind it. -/
def fractionPart (digit : Char → Bool) : Language Char := opt (this '.' * loose digit)

/-- The sign of an exponent. -/
def sign : Language Char := either '+' '-'

/-- An exponent of either sort. -/
def exponentPart : Language Char :=
  opt ((either 'e' 'E' + either 'p' 'P') * opt sign * loose Char.isDigit)

/-- A marker, a sign that may be missing, and what follows them. -/
theorem mem_marker_mul {marker l : Language Char} {w : List Char} :
    w ∈ marker * opt sign * l ↔ ∃ m ∈ marker, ∃ s : Option Char, (∀ c ∈ s, c = '+' ∨ c = '-') ∧
      ∃ v ∈ l, w = m ++ (s.toList ++ v) := by
  rw [mul_assoc, Language.mem_mul]
  constructor
  · rintro ⟨m, mem, u, later, rfl⟩
    refine ⟨m, mem, ?_⟩
    rcases mem_opt_mul.mp later with bare | signed
    · exact ⟨none, by simp, u, bare, rfl⟩
    · obtain ⟨c, v, is, mem, rfl⟩ := mem_one_mul.mp signed
      exact ⟨some c, by simpa using is, v, mem, rfl⟩
  · rintro ⟨m, mem, s, signs, v, later, rfl⟩
    refine ⟨m, mem, _, mem_opt_mul.mpr ?_, rfl⟩
    cases s with
    | none => exact .inl later
    | some c => exact .inr (cons_mem_one_mul.mpr ⟨by simpa using signs c rfl, later⟩)

/-- The mark of an imaginary number. -/
def suffixPart : Language Char := opt (this 'i')

/-- Whether `taken` is the longest word of a language that is in front. -/
structure Longest (l : Language Char) (ahead taken : List Char) : Prop where
  mem : taken ∈ l
  front : taken <+: ahead
  longest : ∀ w ∈ l, w <+: ahead → w.length ≤ taken.length

/-- The parts of a number. -/
structure Parts where
  whole : List Char
  fraction : List Char
  exponent : List Char
  suffix : List Char

namespace Parts

/-- The parts one behind the other. -/
def text (parts : Parts) : List Char :=
  parts.whole ++ (parts.fraction ++ (parts.exponent ++ parts.suffix))

/-- The kind of a number with these parts. -/
def kind (parts : Parts) : Token :=
  if parts.suffix ≠ [] then .imaginary
  else if parts.fraction ≠ [] ∨ parts.exponent ≠ [] then .float
  else .integer

/-- Whether these parts are taken one behind the other, each as long as can be. -/
structure Taken (ahead : List Char) (parts : Parts) : Prop where
  whole : Longest wholePart ahead parts.whole
  fraction : Longest (fractionPart (digitOf parts.whole)) (ahead.drop parts.whole.length)
    parts.fraction
  exponent : Longest exponentPart (ahead.drop (parts.whole ++ parts.fraction).length) parts.exponent
  suffix : Longest suffixPart
    (ahead.drop (parts.whole ++ parts.fraction ++ parts.exponent).length) parts.suffix

end Parts

/-! ## What is well formed -/

/-- A well-formed integer. -/
def integer : Language Char :=
  one isLeadingDigit * separated Char.isDigit + this '0' * separated isOctalDigit +
    hexMark * run Text.isHexDigit + octalMark * run isOctalDigit + binaryMark * run isBinaryDigit

/-- A decimal exponent. -/
def decimalExponent : Language Char := either 'e' 'E' * opt sign * run Char.isDigit

/-- A binary exponent. -/
def binaryExponent : Language Char := either 'p' 'P' * opt sign * run Char.isDigit

/-- Digits with a point among them or at one of their ends. -/
def pointed (digit : Char → Bool) : Language Char :=
  run digit * this '.' * run digit + run digit * this '.' + this '.' * run digit

/-- A point has digits on one side at least. -/
theorem mem_pointed {digit : Char → Bool} {w : List Char} : w ∈ pointed digit ↔
    ∃ a ∈ opt (run digit), ∃ b ∈ opt (run digit), (a ≠ [] ∨ b ≠ []) ∧ w = a ++ '.' :: b := by
  have point : ∀ l : Language Char, w ∈ run digit * this '.' * l ↔
      ∃ a ∈ run digit, ∃ b ∈ l, w = a ++ '.' :: b := by
    intro l
    rw [mul_assoc, Language.mem_mul]
    constructor
    · rintro ⟨a, first, _, later, rfl⟩
      obtain ⟨b, second, rfl⟩ := mem_this_mul.mp later
      exact ⟨a, first, b, second, rfl⟩
    · rintro ⟨a, first, b, second, rfl⟩
      exact ⟨a, first, _, mem_this_mul.mpr ⟨b, second, rfl⟩, rfl⟩
  have nonempty : ∀ a ∈ run digit, a ≠ [] := by
    rintro _ mem rfl
    exact nil_not_mem_run mem
  have only := point 1
  rw [mul_one] at only
  rw [pointed, Language.mem_add, Language.mem_add, point, only, mem_this_mul]
  constructor
  · rintro ((⟨a, first, b, second, rfl⟩ | ⟨a, first, b, rfl, rfl⟩) | ⟨b, second, rfl⟩)
    · exact ⟨a, .inr first, b, .inr second, .inl (nonempty a first), rfl⟩
    · exact ⟨a, .inr first, [], .inl rfl, .inl (nonempty a first), rfl⟩
    · exact ⟨[], .inl rfl, b, .inr second, .inr (nonempty b second), rfl⟩
  · rintro ⟨a, first, b, second, some, rfl⟩
    rcases mem_opt.mp first with rfl | first
    · rcases mem_opt.mp second with rfl | second
      · exact absurd some (by simp)
      · exact .inr ⟨b, second, rfl⟩
    · rcases mem_opt.mp second with rfl | second
      · exact .inl (.inr ⟨a, first, [], rfl, rfl⟩)
      · exact .inl (.inl ⟨a, first, b, second, rfl⟩)

/-- A well-formed number with a point or an exponent. -/
def float : Language Char :=
  pointed Char.isDigit * opt decimalExponent + run Char.isDigit * decimalExponent +
    hexMark * (run Text.isHexDigit + pointed Text.isHexDigit) * binaryExponent

/-- Digits in any base. They need not lie in it. -/
def whole : Language Char :=
  run Char.isDigit + hexMark * run Text.isHexDigit + octalMark * run Char.isDigit +
    binaryMark * run Char.isDigit

/-- A well-formed imaginary number. -/
def imaginary : Language Char := (float + whole) * this 'i'

/-- The well-formed numbers of a kind. -/
def wellFormed : Token → Language Char
  | .integer => integer
  | .float => float
  | .imaginary => imaginary
  | _ => 0

end SheetFormula.NumberGrammar

import Mathlib.Tactic.Common
import SheetFormula.Proofs.Lexeme.NumberFaults

/-!
# The shapes of proper numbers

The text of a regular number is well formed exactly if the number is proper and in range. One way
the parts of the number are put together. The other way a well-formed text is taken apart into an
outline (`Numeral.Outline`), which leaves a leading zero among the other digits; the regular number
that an outline stands for has the same text, and no other regular number has.

Main results:
* `Numeral.Regular.text_mem_wellFormed`: a proper number in range is well formed.
* `Numeral.Outline.exists_regular`: an outline stands for a regular number with the same text.
* `Numeral.exists_of_mem_wellFormed`: a well-formed text is that of a regular number, proper and in
  range.
* `Numeral.Regular.mem_wellFormed_iff`: both ways together.
-/

namespace SheetFormula

open NumberGrammar

/-- What announces a base. -/
def Radix.marks : Radix → Language Char
  | .decimal | .leadingZero => 1
  | .hexadecimal => hexMark
  | .octal => octalMark
  | .binary => binaryMark

/-- What announces a base other than ten is a zero and its letter. -/
theorem Radix.mem_marks {radix : Radix} (plain : radix ≠ .decimal ∧ radix ≠ .leadingZero)
    {w : List Char} :
    w ∈ radix.marks ↔ ∃ marker, Radix.ofMarker? marker = some radix ∧ w = ['0', marker] := by
  simp only [Numeral.ofMarker?_eq_some]
  cases radix
  case decimal => exact absurd rfl plain.1
  case leadingZero => exact absurd rfl plain.2
  all_goals
    rw [Radix.marks]
    simp [hexMark, octalMark, binaryMark, mem_mark, or_and_right, exists_or]

namespace Numeral

/-! ## Parts as text -/

/-- Without a point the digits are a run. -/
theorem mantissa_none {digit : Char → Bool} {lead : List Char} :
    Mantissa digit lead none ↔ lead ∈ run digit := by
  constructor
  · rintro ⟨front, -, nonempty⟩
    exact (mem_opt.mp front).resolve_left (nonempty.resolve_right (by simp))
  · intro mem
    refine ⟨.inr mem, by simp, .inl ?_⟩
    rintro rfl
    exact nil_not_mem_run mem

/-- With a point the digits are those of a mantissa. -/
theorem mem_pointed_iff {digit : Char → Bool} {w : List Char} :
    w ∈ pointed digit ↔ ∃ lead behind, Mantissa digit lead (some behind) ∧
      w = lead ++ '.' :: behind := by
  rw [mem_pointed]
  constructor
  · rintro ⟨a, first, b, second, some, rfl⟩
    exact ⟨a, b, ⟨first, by simpa using second, by simpa using some⟩, rfl⟩
  · rintro ⟨a, b, ⟨first, second, some⟩, rfl⟩
    exact ⟨a, first, b, second b rfl, by simpa using some, rfl⟩

/-- An exponent with one of two markers. -/
theorem mem_exponent {a b : Char} {w : List Char} :
    w ∈ either a b * opt sign * run Char.isDigit ↔ ∃ e : Exponent, (e.marker = a ∨ e.marker = b) ∧
      (∀ c ∈ e.sign, isSign c) ∧ e.digits ∈ run Char.isDigit ∧ w = e.text := by
  have signs : ∀ s : Option Char, (∀ c ∈ s, c = '+' ∨ c = '-') ↔ ∀ c ∈ s, isSign c := by
    simp [isSign]
  rw [mem_marker_mul]
  constructor
  · rintro ⟨_, marker, sign, is, digits, mem, rfl⟩
    rcases mem_either.mp marker with rfl | rfl
    · exact ⟨⟨a, sign, digits⟩, .inl rfl, (signs sign).mp is, mem, rfl⟩
    · exact ⟨⟨b, sign, digits⟩, .inr rfl, (signs sign).mp is, mem, rfl⟩
  · rintro ⟨e, marker, is, mem, rfl⟩
    refine ⟨[e.marker], mem_either.mpr ?_, e.sign, (signs e.sign).mpr is, e.digits, mem, rfl⟩
    exact marker.imp (congrArg ([·])) (congrArg ([·]))

/-- An exponent with one of two markers, or none. -/
theorem mem_opt_exponent {a b : Char} {w : List Char}
    (mem : w ∈ opt (either a b * opt sign * run Char.isDigit)) :
    ∃ exponent : Option Exponent, (∀ e ∈ exponent, (e.marker = a ∨ e.marker = b) ∧
      (∀ c ∈ e.sign, isSign c) ∧ e.digits ∈ run Char.isDigit) ∧
      w = exponent.elim [] Exponent.text := by
  rcases mem_opt.mp mem with rfl | mem
  · exact ⟨none, by simp, rfl⟩
  · obtain ⟨e, marker, signs, digits, rfl⟩ := mem_exponent.mp mem
    refine ⟨some e, ?_, rfl⟩
    rintro _ ⟨⟩
    exact ⟨marker, signs, digits⟩

/-- Behind digits that are not in base sixteen an exponent is decimal. -/
theorem mem_decimalExponent {e : Exponent} {radix : Radix} (fits : e.Fits radix)
    (other : radix ≠ .hexadecimal) (signs : ∀ c ∈ e.sign, isSign c)
    (digits : e.digits ∈ run Char.isDigit) : e.text ∈ decimalExponent := by
  rcases fits with ⟨marker, -⟩ | ⟨-, is⟩
  · exact mem_exponent.mpr ⟨e, marker, signs, digits, rfl⟩
  · exact absurd is other

/-- Behind digits in base sixteen an exponent is binary. -/
theorem mem_binaryExponent {e : Exponent} (fits : e.Fits .hexadecimal)
    (signs : ∀ c ∈ e.sign, isSign c) (digits : e.digits ∈ run Char.isDigit) :
    e.text ∈ binaryExponent := by
  rcases fits with ⟨-, is⟩ | ⟨marker, -⟩
  · exact absurd is (by decide)
  · exact mem_exponent.mpr ⟨e, marker, signs, digits, rfl⟩

/-- The number less its suffix. -/
def body (n : Numeral) : List Char := n.wholeText ++ n.fractionText ++ n.exponentText

/-! ## Digits in their base -/

/-- The decimal digits by their code points. -/
theorem isDigit_iff {c : Char} : c.isDigit ↔ 48 ≤ c.toNat ∧ c.toNat ≤ 57 := by
  simp only [Char.isDigit, Bool.and_eq_true, decide_eq_true_eq, UInt32.le_iff_toNat_le]
  rfl

/-- The octal digits are the decimal ones that lie in base eight. -/
theorem isOctalDigit_iff {c : Char} :
    isOctalDigit c ↔ c.isDigit ∧ c.toNat - '0'.toNat < Radix.octal.base := by
  have bounds : isOctalDigit c ↔ 48 ≤ c.toNat ∧ c.toNat ≤ 55 := by
    simp only [isOctalDigit, Bool.and_eq_true, decide_eq_true_eq]
    rfl
  rw [bounds, isDigit_iff, show '0'.toNat = 48 from rfl, Radix.base]
  omega

/-- The binary digits are the decimal ones that lie in base two. -/
theorem isBinaryDigit_iff {c : Char} :
    isBinaryDigit c ↔ c.isDigit ∧ c.toNat - '0'.toNat < Radix.binary.base := by
  rw [isBinaryDigit, Bool.or_eq_true, beq_iff_eq, beq_iff_eq, ← Char.toNat_inj, ← Char.toNat_inj,
    isDigit_iff, show '0'.toNat = 48 from rfl, show '1'.toNat = 49 from rfl, Radix.base]
  omega

/-- A number in base ten begins with any decimal digit but zero. -/
theorem isLeadingDigit_iff {c : Char} : isLeadingDigit c ↔ c.isDigit ∧ c ≠ '0' := by
  have bounds : isLeadingDigit c ↔ 49 ≤ c.toNat ∧ c.toNat ≤ 57 := by
    simp only [isLeadingDigit, Bool.and_eq_true, decide_eq_true_eq]
    rfl
  rw [bounds, isDigit_iff, Ne, ← Char.toNat_inj, show '0'.toNat = 48 from rfl]
  omega

/-- In base ten and above every decimal digit lies in the base. -/
theorem inBase_of_le {base : Nat} (large : 10 ≤ base) (c : Char) : InBase base c := by
  intro digit
  have bounds := isDigit_iff.mp digit
  rw [show '0'.toNat = 48 from rfl]
  omega

/-- What may follow digits of a smaller base is what may follow digits, if all of it lies in that
base. -/
theorem separated_inBase {base : Nat} {p : Char → Bool}
    (is : ∀ {c}, p c ↔ c.isDigit ∧ c.toNat - '0'.toNat < base) {w : List Char} :
    (w ∈ separated p ↔ w ∈ separated Char.isDigit ∧ ∀ c ∈ w, InBase base c) ∧
      (w ∈ run p ↔ w ∈ run Char.isDigit ∧ ∀ c ∈ w, InBase base c) := by
  have same : (∀ c ∈ w, InBase base c) → ∀ c ∈ w, p c = c.isDigit := by
    intro inBase c mem
    rw [Bool.eq_iff_iff, is]
    exact and_iff_left_of_imp (inBase c mem)
  have inBase : w ∈ separated p → ∀ c ∈ w, InBase base c := by
    intro mem c at_c digit
    rcases Bool.or_eq_true _ _ ▸ loose_of_separated mem c at_c with separates | here
    · rw [eq_of_beq separates] at digit
      exact absurd digit (by decide)
    · exact (is.mp here).2
  constructor
  · constructor
    · exact fun mem => ⟨(separated_congr (same (inBase mem))).1.mp mem, inBase mem⟩
    · exact fun ⟨mem, inBase⟩ => (separated_congr (same inBase)).1.mpr mem
  · constructor
    · intro mem
      have inBase := inBase (separated_of_run mem)
      exact ⟨(run_congr (same inBase)).mp mem, inBase⟩
    · exact fun ⟨mem, inBase⟩ => (run_congr (same inBase)).mpr mem

/-! ## Putting a number together -/

namespace Regular

variable {n : Numeral}

/-- The mark of a regular number announces its base. -/
theorem mark_mem (regular : n.Regular) : n.mark ∈ n.radix.marks := by
  have announced := regular.announced
  unfold mark
  cases same : n.radix
  case decimal => exact rfl
  case leadingZero => exact rfl
  all_goals
    rw [same] at announced
    rw [if_neg (by decide)]
    exact (Radix.mem_marks (by decide)).mpr announced

/-- The body of a regular number is its mark, its digits, its fraction and its exponent. -/
theorem body_eq (regular : n.Regular) : n.body =
    n.mark ++ n.lead ++ n.fraction.elim [] ('.' :: ·) ++ n.exponent.elim [] Exponent.text := by
  rw [body, regular.wholeText_eq, fractionText_eq, exponentText_eq]

/-- Only numbers in base ten and sixteen have a point or an exponent. -/
theorem inTen_of_proper (proper : n.Proper) (other : n.radix ≠ .hexadecimal)
    (more : n.fraction.isSome ∨ n.exponent.isSome) :
    n.radix = .decimal ∨ n.radix = .leadingZero := by
  rcases more with point | exponent
  · obtain ⟨octal, binary⟩ := proper.point point
    cases same : n.radix <;> simp_all
  · obtain ⟨e, found⟩ := Option.isSome_iff_exists.mp exponent
    rcases proper.marker e found with ⟨-, is⟩ | ⟨-, is⟩
    · exact is
    · exact absurd is other

/-- With a point or an exponent, the body of a proper number is a float. -/
theorem body_mem_float (regular : n.Regular) (proper : n.Proper)
    (more : n.fraction.isSome ∨ n.exponent.isSome) : n.body ∈ float := by
  have marked := regular.mark_mem
  have signs := regular.sign
  have inTen := inTen_of_proper proper
  obtain ⟨mantissa, digits, marker, point, needed⟩ := proper
  rw [regular.body_eq]
  unfold digit at mantissa
  -- With radix sixteen an exponent is needed, with radix ten it may be left out behind a point, and
  -- the grammar has one language for each of the three forms.
  by_cases sixteen : n.radix = .hexadecimal
  · rw [sixteen] at mantissa marked marker
    obtain ⟨e, found⟩ := Option.isSome_iff_exists.mp (more.elim (needed sixteen) id)
    have exponent := mem_binaryExponent (marker e found) (signs e found) (digits e found)
    rw [found]
    refine .inr (Language.mem_mul.mpr ⟨_, ?_, e.text, exponent, rfl⟩)
    rw [List.append_assoc]
    refine Language.mem_mul.mpr ⟨n.mark, marked, _, ?_, rfl⟩
    cases behind : n.fraction with
    | none =>
      rw [behind] at mantissa
      rw [Option.elim_none, List.append_nil]
      exact .inl (mantissa_none.mp mantissa)
    | some b =>
      rw [behind] at mantissa
      exact .inr (mem_pointed_iff.mpr ⟨_, b, mantissa, rfl⟩)
  · have ten := inTen sixteen more
    have bare : n.mark = [] := by rw [mark, if_pos ten]
    have decimal : Separator.digit (n.radix = .hexadecimal) = Char.isDigit := by
      rw [decide_eq_false sixteen]
      rfl
    have exponent : ∀ e ∈ n.exponent, e.text ∈ decimalExponent := fun e found =>
      mem_decimalExponent (marker e found) sixteen (signs e found) (digits e found)
    rw [decimal] at mantissa
    rw [bare, List.nil_append]
    cases behind : n.fraction with
    | none =>
      rw [behind] at mantissa more
      obtain ⟨e, found⟩ := Option.isSome_iff_exists.mp (more.resolve_left (by decide))
      rw [found, Option.elim_none, List.append_nil]
      exact .inl (.inr (Language.mem_mul.mpr
        ⟨_, mantissa_none.mp mantissa, e.text, exponent e found, rfl⟩))
    | some b =>
      rw [behind] at mantissa
      have front := mem_pointed_iff.mpr ⟨_, b, mantissa, rfl⟩
      refine .inl (.inl (mem_mul_opt.mpr ?_))
      cases found : n.exponent with
      | none =>
        rw [Option.elim_none, List.append_nil]
        exact .inl front
      | some e => exact .inr (Language.mem_mul.mpr ⟨_, front, e.text, exponent e found, rfl⟩)

/-- A proper number without a point and an exponent is digits behind what announces their base. -/
theorem body_eq_digits (regular : n.Regular) (proper : n.Proper)
    (none : n.fraction = none ∧ n.exponent = none) :
    n.lead ∈ run n.digit ∧ n.body = n.mark ++ n.lead := by
  have mantissa := proper.mantissa
  rw [none.1] at mantissa
  rw [regular.body_eq, none.1, none.2]
  exact ⟨mantissa_none.mp mantissa, by simp⟩

/-- With neither, the body of a proper number is digits in some base. -/
theorem body_mem_whole (regular : n.Regular) (proper : n.Proper)
    (none : n.fraction = none ∧ n.exponent = none) : n.body ∈ NumberGrammar.whole := by
  have marked := regular.mark_mem
  obtain ⟨digits, body⟩ := regular.body_eq_digits proper none
  unfold digit at digits
  rw [body]
  cases same : n.radix
  all_goals rw [same] at marked digits
  case decimal =>
    rw [show n.mark = [] from marked]
    exact .inl (.inl (.inl digits))
  case leadingZero =>
    rw [show n.mark = [] from marked]
    exact .inl (.inl (.inl digits))
  case hexadecimal =>
    exact .inl (.inl (.inr (Language.mem_mul.mpr ⟨_, marked, _, digits, rfl⟩)))
  case octal => exact .inl (.inr (Language.mem_mul.mpr ⟨_, marked, _, digits, rfl⟩))
  case binary => exact .inr (Language.mem_mul.mpr ⟨_, marked, _, digits, rfl⟩)

/-- If these lie in their base, it is an integer. -/
theorem body_mem_integer (regular : n.Regular) (proper : n.Proper)
    (none : n.fraction = none ∧ n.exponent = none) (inBase : ∀ c ∈ n.whole, InBase n.radix.base c) :
    n.body ∈ integer := by
  have marked := regular.mark_mem
  have announced := regular.announced
  obtain ⟨digits, body⟩ := regular.body_eq_digits proper none
  unfold digit lead at digits
  rw [body]
  unfold lead
  cases same : n.radix
  all_goals rw [same] at marked digits inBase announced
  case decimal =>
    obtain ⟨-, noZero⟩ := announced
    rw [show n.mark = [] from marked, if_neg (by decide)]
    cases front : n.whole with
    | nil =>
      rw [if_neg (by decide), front] at digits
      exact absurd digits nil_not_mem_run
    | cons c rest =>
      rw [if_neg (by decide), front] at digits
      rw [front] at noZero
      obtain ⟨digit, later⟩ := cons_mem_run.mp digits
      have leading : isLeadingDigit c :=
        isLeadingDigit_iff.mpr ⟨digit, fun zero => noZero (congrArg some zero)⟩
      exact .inl (.inl (.inl (.inl (cons_mem_one_mul.mpr ⟨leading, later⟩))))
  case leadingZero =>
    rw [if_pos rfl, show n.announcement = ['0'] from announced] at digits
    rw [show n.mark = [] from marked, if_pos rfl, show n.announcement = ['0'] from announced]
    have later := (separated_inBase @isOctalDigit_iff).1.mpr
      ⟨(cons_mem_run.mp digits).2, inBase⟩
    exact .inl (.inl (.inl (.inr (mem_this_mul.mpr ⟨_, later, rfl⟩))))
  case hexadecimal =>
    exact .inl (.inl (.inr (Language.mem_mul.mpr ⟨_, marked, _, digits, rfl⟩)))
  case octal =>
    have octal := (separated_inBase @isOctalDigit_iff).2.mpr ⟨digits, inBase⟩
    exact .inl (.inr (Language.mem_mul.mpr ⟨_, marked, _, octal, rfl⟩))
  case binary =>
    have binary := (separated_inBase @isBinaryDigit_iff).2.mpr ⟨digits, inBase⟩
    exact .inr (Language.mem_mul.mpr ⟨_, marked, _, binary, rfl⟩)

/-- **A proper number in range is well formed.** -/
theorem text_mem_wellFormed (regular : n.Regular) (proper : n.Proper) (inRange : n.InRange) :
    n.text ∈ wellFormed n.token := by
  have text : n.text = n.body ++ n.suffixText := rfl
  have none_or : n.fraction = none ∧ n.exponent = none ∨ n.fraction.isSome ∨ n.exponent.isSome := by
    cases n.fraction <;> cases n.exponent <;> simp
  unfold InRange at inRange
  rw [text, suffixText]
  unfold token at inRange ⊢
  cases imaginary : n.imaginary with
  | true =>
    refine mem_mul_this.mpr ⟨n.body, ?_, rfl⟩
    rcases none_or with none | more
    · exact .inr (regular.body_mem_whole proper none)
    · exact .inl (regular.body_mem_float proper more)
  | false =>
    rw [if_neg Bool.false_ne_true, if_neg Bool.false_ne_true, List.append_nil]
    rw [imaginary, if_neg Bool.false_ne_true] at inRange
    rcases none_or with none | more
    · rw [none.1, none.2] at inRange ⊢
      exact regular.body_mem_integer proper none (inRange rfl)
    · rw [if_pos (Bool.or_eq_true_iff.mpr more)]
      exact regular.body_mem_float proper more

end Regular

/-! ## Taking a number apart -/

/-- Whether this is a proper number, except that a leading zero is among its other digits. -/
structure Outline (m : Numeral) : Prop where
  plain : m.radix ≠ .leadingZero
  marked : m.announcement ∈ m.radix.marks
  sign : ∀ e ∈ m.exponent, ∀ c ∈ e.sign, isSign c
  proper : m.Proper

/-- A proper number is regular if its base is announced. -/
theorem Proper.regular {n : Numeral} (proper : n.Proper)
    (announced : Announces n.radix n.announcement n.whole)
    (signs : ∀ e ∈ n.exponent, ∀ c ∈ e.sign, isSign c) : n.Regular := by
  obtain ⟨mantissa, digits, marker, -, -⟩ := proper
  refine ⟨announced, ?_, ?_, ?_, signs, ?_⟩
  · intro c mem
    rw [inRun_eq]
    apply loose_of_run mantissa.front
    unfold lead
    split
    · exact List.mem_append_right _ mem
    · exact mem
  · intro behind found c mem
    rw [inRun_eq]
    exact loose_of_run (mantissa.behind behind found) c mem
  · intro e found
    rcases marker e found with ⟨is, radix⟩ | ⟨is, radix⟩
    · rcases radix with radix | radix
      all_goals
        rw [radix]
        rcases is with is | is
        all_goals
          rw [is]
          decide
    · rw [radix]
      rcases is with is | is
      all_goals
        rw [is]
        decide
  · intro e found c mem
    rw [inRun_eq]
    exact loose_of_run (.inr (digits e found)) c mem

/-- **An outline stands for a regular number with the same text.** -/
theorem Outline.exists_regular {m : Numeral} (outline : m.Outline) :
    ∃ n : Numeral, n.Regular ∧ n.Proper ∧ n.text = m.text ∧ n.token = m.token ∧
      (n = m ∨ n.radix = .leadingZero ∧ m.radix = .decimal ∧ m.whole = '0' :: n.whole) := by
  obtain ⟨radix, mark, lead, fraction, exponent, imaginary⟩ := m
  obtain ⟨plain, marked, signs, proper⟩ := outline
  dsimp only at plain marked signs
  by_cases zero : radix = .decimal ∧ lead.head? = some '0'
  · -- A leading zero announces a base of its own, and the other digits follow it.
    obtain ⟨rfl, front⟩ := zero
    obtain rfl : mark = [] := marked
    obtain ⟨rest, rfl⟩ : ∃ rest, lead = '0' :: rest := by
      cases lead with
      | nil => cases front
      | cons c rest => exact ⟨rest, congrArg (· :: rest) (Option.some.inj front)⟩
    have proper' :
        (⟨.leadingZero, ['0'], rest, fraction, exponent, imaginary⟩ : Numeral).Proper := by
      obtain ⟨mantissa, digits, marker, -, -⟩ := proper
      refine ⟨mantissa, digits, ?_, fun _ => ⟨nofun, nofun⟩, nofun⟩
      intro e found
      rcases marker e found with ⟨is, -⟩ | ⟨-, is⟩
      · exact .inl ⟨is, .inr rfl⟩
      · cases is
    exact ⟨_, proper'.regular rfl signs, proper', rfl, rfl, .inr ⟨rfl, rfl, rfl⟩⟩
  · refine ⟨_, proper.regular ?_ signs, proper, rfl, rfl, .inl rfl⟩
    dsimp only
    cases radix
    case decimal => exact ⟨marked, fun front => zero ⟨rfl, front⟩⟩
    case leadingZero => exact absurd rfl plain
    all_goals exact (Radix.mem_marks (by decide)).mp marked

/-- Digits, behind what announces their base if it is not ten. -/
theorem outline_digits {radix : Radix} (plain : radix ≠ .leadingZero) {mark digits : List Char}
    (marked : mark ∈ radix.marks) (mem : digits ∈ run (Separator.digit (radix = .hexadecimal)))
    (imaginary : Bool) : (⟨radix, mark, digits, none, none, imaginary⟩ : Numeral).Outline := by
  refine ⟨plain, marked, by simp, ⟨?_, by simp, by simp, by simp, by simp⟩⟩
  rw [lead, if_neg plain]
  exact mantissa_none.mpr mem

/-- Decimal digits with a fraction or an exponent have an outline in base ten. -/
theorem outline_decimal {lead : List Char} {fraction : Option (List Char)}
    {exponent : Option Exponent} (mantissa : Mantissa Char.isDigit lead fraction)
    (exponents : ∀ e ∈ exponent, (e.marker = 'e' ∨ e.marker = 'E') ∧ (∀ c ∈ e.sign, isSign c) ∧
      e.digits ∈ run Char.isDigit) (imaginary : Bool) :
    (⟨.decimal, [], lead, fraction, exponent, imaginary⟩ : Numeral).Outline := by
  refine ⟨nofun, rfl, fun e found => (exponents e found).2.1, mantissa, ?_, ?_, ?_, nofun⟩
  · exact fun e found => (exponents e found).2.2
  · exact fun e found => .inl ⟨(exponents e found).1, .inl rfl⟩
  · exact fun _ => ⟨nofun, nofun⟩

/-- Hexadecimal digits with a binary exponent have an outline in base sixteen. -/
theorem outline_hexadecimal {mark lead : List Char} {fraction : Option (List Char)} {e : Exponent}
    (marked : mark ∈ hexMark) (mantissa : Mantissa Text.isHexDigit lead fraction)
    (marker : e.marker = 'p' ∨ e.marker = 'P') (signs : ∀ c ∈ e.sign, isSign c)
    (digits : e.digits ∈ run Char.isDigit) (imaginary : Bool) :
    (⟨.hexadecimal, mark, lead, fraction, some e, imaginary⟩ : Numeral).Outline := by
  refine ⟨nofun, marked, ?_, mantissa, ?_, ?_, fun _ => ⟨nofun, nofun⟩, fun _ _ => rfl⟩
  · rintro _ ⟨⟩
    exact signs
  · rintro _ ⟨⟩
    exact digits
  · rintro _ ⟨⟩
    exact .inr ⟨marker, rfl⟩

/-- The body of any number is made of its parts. -/
theorem body_eq_parts (m : Numeral) : m.body = m.announcement ++ m.whole ++
    m.fraction.elim [] ('.' :: ·) ++ m.exponent.elim [] Exponent.text := by
  rw [body, wholeText, fractionText_eq, exponentText_eq]

/-- The body of digits alone is these, behind their mark. -/
theorem body_digits (radix : Radix) (mark digits : List Char) (imaginary : Bool) :
    (⟨radix, mark, digits, none, none, imaginary⟩ : Numeral).body = mark ++ digits := by
  simp [body_eq_parts]

/-- A number with a point or an exponent has an outline. -/
theorem exists_outline_float {w : List Char} (mem : w ∈ float) (imaginary : Bool) :
    ∃ m : Numeral, m.Outline ∧ m.body = w ∧ m.imaginary = imaginary ∧
      (m.fraction.isSome ∨ m.exponent.isSome) := by
  rcases mem with (mem | mem) | mem
  · obtain ⟨_, front, _, behind, rfl⟩ := Language.mem_mul.mp mem
    obtain ⟨a, b, mantissa, rfl⟩ := mem_pointed_iff.mp front
    obtain ⟨exponent, exponents, rfl⟩ := mem_opt_exponent behind
    refine ⟨_, outline_decimal mantissa exponents imaginary, ?_, rfl, .inl rfl⟩
    rw [body_eq_parts]
    rfl
  · obtain ⟨a, front, _, behind, rfl⟩ := Language.mem_mul.mp mem
    obtain ⟨e, marker, signs, digits, rfl⟩ := mem_exponent.mp behind
    have exponents : ∀ x ∈ some e, (x.marker = 'e' ∨ x.marker = 'E') ∧ (∀ c ∈ x.sign, isSign c) ∧
        x.digits ∈ run Char.isDigit := by
      rintro _ ⟨⟩
      exact ⟨marker, signs, digits⟩
    refine ⟨_, outline_decimal (mantissa_none.mpr front) exponents imaginary, ?_, rfl, .inr rfl⟩
    rw [body_eq_parts]
    simp
  · obtain ⟨_, front, _, behind, rfl⟩ := Language.mem_mul.mp mem
    obtain ⟨mark, marked, _, digits_or, rfl⟩ := Language.mem_mul.mp front
    obtain ⟨e, marker, signs, digits, rfl⟩ := mem_exponent.mp behind
    rcases digits_or with mem | mem
    · refine ⟨_, outline_hexadecimal marked (mantissa_none.mpr mem) marker signs digits imaginary,
        ?_, rfl, .inr rfl⟩
      rw [body_eq_parts]
      simp
    · obtain ⟨a, b, mantissa, rfl⟩ := mem_pointed_iff.mp mem
      refine ⟨_, outline_hexadecimal marked mantissa marker signs digits imaginary, ?_, rfl,
        .inr rfl⟩
      rw [body_eq_parts]
      simp

/-- Digits in any base have an outline. -/
theorem exists_outline_whole {w : List Char} (mem : w ∈ NumberGrammar.whole) (imaginary : Bool) :
    ∃ m : Numeral, m.Outline ∧ m.body = w ∧ m.imaginary = imaginary := by
  rcases mem with ((mem | mem) | mem) | mem
  · exact ⟨_, @outline_digits .decimal nofun [] _ rfl mem imaginary, body_digits .., rfl⟩
  · obtain ⟨mark, marked, w, digits, rfl⟩ := Language.mem_mul.mp mem
    exact ⟨_, @outline_digits .hexadecimal nofun _ _ marked digits imaginary, body_digits ..,
      rfl⟩
  · obtain ⟨mark, marked, w, digits, rfl⟩ := Language.mem_mul.mp mem
    exact ⟨_, @outline_digits .octal nofun _ _ marked digits imaginary, body_digits ..,
      rfl⟩
  · obtain ⟨mark, marked, w, digits, rfl⟩ := Language.mem_mul.mp mem
    exact ⟨_, @outline_digits .binary nofun _ _ marked digits imaginary, body_digits ..,
      rfl⟩

/-- An integer has an outline with digits that lie in its base, which is eight if there is a leading
zero. -/
theorem exists_outline_integer {w : List Char} (mem : w ∈ integer) :
    ∃ m : Numeral, m.Outline ∧ m.body = w ∧ m.imaginary = false ∧
      (∀ c ∈ m.whole, InBase m.radix.base c) ∧ ∀ rest, m.radix = .decimal → m.whole = '0' :: rest →
        ∀ c ∈ rest, InBase Radix.leadingZero.base c := by
  rcases mem with (((mem | mem) | mem) | mem) | mem
  · obtain ⟨c, rest, leading, later, rfl⟩ := mem_one_mul.mp mem
    obtain ⟨digit, noZero⟩ := isLeadingDigit_iff.mp leading
    refine ⟨_, @outline_digits .decimal nofun [] _ rfl (cons_mem_run.mpr ⟨digit, later⟩) false,
      body_digits .., rfl, fun c _ => inBase_of_le (Nat.le_refl 10) c, ?_⟩
    rintro rest - same
    exact absurd (List.cons.inj same).1 noZero
  · obtain ⟨rest, later, rfl⟩ := mem_this_mul.mp mem
    obtain ⟨digits, inBase⟩ := (separated_inBase @isOctalDigit_iff).1.mp later
    have zero : '0' :: rest ∈ run Char.isDigit := cons_mem_run.mpr ⟨rfl, digits⟩
    refine ⟨_, @outline_digits .decimal nofun [] _ rfl zero false, body_digits .., rfl,
      fun c _ => inBase_of_le (Nat.le_refl 10) c, ?_⟩
    rintro _ - ⟨⟩
    exact inBase
  · obtain ⟨mark, marked, w, digits, rfl⟩ := Language.mem_mul.mp mem
    exact ⟨_, @outline_digits .hexadecimal nofun _ _ marked digits false, body_digits .., rfl,
      fun c _ => inBase_of_le (Nat.le_add_right 10 6) c, nofun⟩
  · obtain ⟨mark, marked, w, digits, rfl⟩ := Language.mem_mul.mp mem
    obtain ⟨digits, inBase⟩ := (separated_inBase @isOctalDigit_iff).2.mp digits
    exact ⟨_, @outline_digits .octal nofun _ _ marked digits false, body_digits .., rfl, inBase,
      nofun⟩
  · obtain ⟨mark, marked, w, digits, rfl⟩ := Language.mem_mul.mp mem
    obtain ⟨digits, inBase⟩ := (separated_inBase @isBinaryDigit_iff).2.mp digits
    exact ⟨_, @outline_digits .binary nofun _ _ marked digits false, body_digits .., rfl, inBase,
      nofun⟩

/-- **A well-formed text is that of a regular number, proper and in range.** Its outline depends on
the kind: integers, floats, and both with the suffix. -/
theorem exists_of_mem_wellFormed {kind : Token} {w : List Char} (mem : w ∈ wellFormed kind) :
    ∃ n : Numeral, n.Regular ∧ n.Proper ∧ n.InRange ∧ n.text = w := by
  have text : ∀ m : Numeral, m.text = m.body ++ m.suffixText := fun _ => rfl
  unfold wellFormed at mem
  split at mem
  · obtain ⟨m, outline, rfl, imaginary, inBase, leading⟩ := exists_outline_integer mem
    obtain ⟨n, regular, proper, same, -, is⟩ := outline.exists_regular
    refine ⟨n, regular, proper, fun _ => ?_, ?_⟩
    · rcases is with rfl | ⟨zero, decimal, whole⟩
      · exact inBase
      · rw [zero]
        exact leading n.whole decimal whole
    · rw [same, text, suffixText, imaginary]
      simp
  · obtain ⟨m, outline, rfl, imaginary, more⟩ := exists_outline_float mem false
    obtain ⟨n, regular, proper, same, token, -⟩ := outline.exists_regular
    refine ⟨n, regular, proper, ?_, ?_⟩
    · intro integer
      rw [token, Numeral.token, imaginary, if_neg Bool.false_ne_true,
        if_pos (Bool.or_eq_true_iff.mpr more)] at integer
      cases integer
    · rw [same, text, suffixText, imaginary]
      simp
  · obtain ⟨v, front, rfl⟩ := mem_mul_this.mp mem
    obtain ⟨m, outline, rfl, imaginary⟩ :
        ∃ m : Numeral, m.Outline ∧ m.body = v ∧ m.imaginary = true := by
      rcases front with mem | mem
      · obtain ⟨m, outline, body, imaginary, -⟩ := exists_outline_float mem true
        exact ⟨m, outline, body, imaginary⟩
      · exact exists_outline_whole mem true
    obtain ⟨n, regular, proper, same, token, -⟩ := outline.exists_regular
    refine ⟨n, regular, proper, ?_, ?_⟩
    · intro integer
      rw [token, Numeral.token, imaginary, if_pos rfl] at integer
      cases integer
    · rw [same, text, suffixText, imaginary]
      rfl
  · exact absurd mem (Language.notMem_zero w)

/-- **A regular number is proper and in range exactly if its text is well formed.** -/
theorem Regular.mem_wellFormed_iff {n : Numeral} (regular : n.Regular) :
    n.text ∈ wellFormed n.token ↔ n.Proper ∧ n.InRange := by
  constructor
  · intro mem
    -- The number that is found for the text need not be this one by its making, but regular
    -- numbers are told by their text.
    obtain ⟨m, regular', proper, inRange, same⟩ := exists_of_mem_wellFormed mem
    obtain rfl := regular'.text_inj regular same
    exact ⟨proper, inRange⟩
  · rintro ⟨proper, inRange⟩
    exact regular.text_mem_wellFormed proper inRange

end Numeral

end SheetFormula

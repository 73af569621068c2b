import Mathlib.Tactic.Common
import SheetFormula.Proofs.Lexeme.Accord
import SheetFormula.Proofs.Lexeme.Separation

/-!
# The parts of a number

A number is read part by part: what is in front of the point, the point and what is behind it, the
exponent, and the suffix. What is read is regular (`Numeral.Regular`): no part has characters that
would have gone to the part in front of it.

Main results:
* `Numeral.taken_read`: each part is the longest that can be taken from what the parts in front of
  it have left.
* `Numeral.regular_read`: what is read is regular.
* `Numeral.Regular.read_text`: a regular number is what is read of its own text.
* `Numeral.Regular.text_inj`: two regular numbers with the same text are the same.
-/

namespace SheetFormula

open NumberGrammar
open Text (Symbol)

/-! ## Runs -/

/-- A run is not longer than can be. -/
theorem length_le_runOf {inClass : Char → Bool} {taken : List Char} {rest : List Symbol}
    (all : ∀ c ∈ taken, inClass c) (front : InFront taken rest) :
    taken.length ≤ (runOf inClass rest).length := by
  induction taken generalizing rest with
  | nil => exact Nat.zero_le _
  | cons c taken ih =>
    obtain ⟨first, later⟩ := List.forall_mem_cons.mp all
    cases rest with
    | nil => exact absurd front.length_le (by simp)
    | cons s rest =>
      obtain ⟨rfl, front'⟩ := List.cons_prefix_cons.mp front
      rw [runOf_cons first]
      exact Nat.succ_le_succ (ih later front')

/-- Behind a run stands what is not in its class. -/
theorem not_inClass_behind_run {inClass : Char → Bool} {rest : List Symbol} {c : Char}
    (front : frontChar? (rest.drop (runOf inClass rest).length) = some c) : ¬ inClass c := by
  induction rest with
  | nil => cases front
  | cons s rest ih =>
    by_cases inRun : inClass s.toChar
    · rw [runOf_cons inRun] at front
      exact ih front
    · have nothing : runOf inClass (s :: rest) = [] := by simp [runOf, inRun]
      rw [nothing] at front
      obtain rfl : s.toChar = c := Option.some.inj front
      exact inRun

/-- A run in front of what does not go on with it. -/
theorem runOf_append_of_ends {inClass : Char → Bool} {run : List Char} {rest : List Symbol}
    (all : ∀ c ∈ run, inClass c) (ends : ∀ c, frontChar? rest = some c → ¬ inClass c) :
    runOf inClass (run.map .character ++ rest) = run := by
  induction run with
  | nil => exact runOf_eq_nil ends
  | cons c run ih =>
    obtain ⟨first, later⟩ := List.forall_mem_cons.mp all
    rw [List.map_cons, List.cons_append, runOf_cons first, ih later]
    rfl

/-- A run in front of a character that is not in its class, read from characters. -/
theorem runOf_characters {inClass : Char → Bool} {run rest : List Char}
    (all : ∀ c ∈ run, inClass c) (ends : ∀ c ∈ rest.head?, ¬ inClass c) :
    runOf inClass ((run ++ rest).map .character) = run := by
  rw [List.map_append]
  apply runOf_append_of_ends all
  intro c front
  apply ends c
  cases rest with
  | nil => cases front
  | cons d rest => exact front

/-- The character in front of characters is the first of them. -/
theorem frontChar?_characters (text : List Char) :
    frontChar? (text.map .character) = text.head? := by
  cases text <;> rfl

/-- Characters in front are symbols of their own, unless a stray byte looks like one of them. -/
theorem InFront.eq_append_of_legible {text : List Char} {rest : List Symbol}
    (front : InFront text rest) (legible : Text.replacement ∉ text) :
    rest = text.map .character ++ rest.drop text.length := by
  induction text generalizing rest with
  | nil => rfl
  | cons c text ih =>
    obtain ⟨first, later⟩ := not_or.mp (mt List.mem_cons.mpr legible)
    cases rest with
    | nil => exact absurd front.length_le (by simp)
    | cons s rest =>
      obtain ⟨rfl, front'⟩ := List.cons_prefix_cons.mp front
      have same := ih front' later
      rw [List.map_cons, List.cons_append, List.length_cons, List.drop_succ_cons, ← same,
        ← Text.Symbol.eq_character_of_toChar (Ne.symm first)]

/-- Characters in ASCII that are in front are symbols of their own. -/
theorem InFront.eq_append {text : List Char} {rest : List Symbol} (front : InFront text rest)
    (ascii : ∀ c ∈ text, Text.isAscii c) :
    rest = text.map .character ++ rest.drop text.length := by
  apply front.eq_append_of_legible
  intro mem
  exact absurd (ascii _ mem) (by decide)

namespace Numeral

/-! ## Regular numbers -/

/-- Which letters announce which base. -/
theorem ofMarker?_eq_some {marker : Char} {radix : Radix} :
    Radix.ofMarker? marker = some radix ↔
      (radix = .hexadecimal ∧ (marker = 'x' ∨ marker = 'X')) ∨
      (radix = .octal ∧ (marker = 'o' ∨ marker = 'O')) ∨
      (radix = .binary ∧ (marker = 'b' ∨ marker = 'B')) := by
  constructor
  · intro announced
    unfold Radix.ofMarker? at announced
    split at announced
    all_goals first
      | cases announced; simp
      | cases announced
  · rintro (⟨rfl, rfl | rfl⟩ | ⟨rfl, rfl | rfl⟩ | ⟨rfl, rfl | rfl⟩) <;> rfl

/-- No letter that announces a base stands among decimal digits. -/
theorem ofMarker?_eq_none {c : Char} (inRun : Radix.decimal.inRun c) :
    Radix.ofMarker? c = none := by
  rw [Option.eq_none_iff_forall_ne_some]
  intro radix known
  rcases ofMarker?_eq_some.mp known with ⟨-, rfl | rfl⟩ | ⟨-, rfl | rfl⟩ | ⟨-, rfl | rfl⟩
  all_goals exact absurd inRun (by decide)

/-- Whether a base is announced by these characters, in front of these digits. -/
def Announces : Radix → (announcement whole : List Char) → Prop
  | .decimal, announcement, whole => announcement = [] ∧ whole.head? ≠ some '0'
  | .leadingZero, announcement, _ => announcement = ['0']
  | radix, announcement, _ =>
    ∃ marker, Radix.ofMarker? marker = some radix ∧ announcement = ['0', marker]

/-- Whether no part of a number has characters that belong to the part in front of it. -/
structure Regular (n : Numeral) : Prop where
  announced : Announces n.radix n.announcement n.whole
  whole : ∀ c ∈ n.whole, n.radix.inRun c
  fraction : ∀ digits ∈ n.fraction, ∀ c ∈ digits, n.radix.inRun c
  marker : ∀ e ∈ n.exponent, isExponentMarker e.marker ∧ ¬ n.radix.inRun e.marker
  sign : ∀ e ∈ n.exponent, ∀ c ∈ e.sign, isSign c
  exponent : ∀ e ∈ n.exponent, ∀ c ∈ e.digits, Radix.decimal.inRun c

/-- The text of the fraction is the point and its digits, or nothing. -/
theorem fractionText_eq (n : Numeral) : n.fractionText = n.fraction.elim [] ('.' :: ·) := by
  unfold fractionText
  cases n.fraction <;> rfl

/-- The text of the exponent is that of the exponent there is, or nothing. -/
theorem exponentText_eq (n : Numeral) : n.exponentText = n.exponent.elim [] Exponent.text := by
  unfold exponentText
  cases n.exponent <;> rfl

/-- What is in front of the point, the exponent and the suffix of a number that is read. -/
theorem read_parts (rest : List Symbol) :
    (read rest).fraction =
        readFraction (read rest).radix (rest.drop (read rest).wholeText.length) ∧
      (read rest).exponent =
        readExponent (rest.drop ((read rest).wholeText ++ (read rest).fractionText).length) ∧
      (read rest).imaginary = decide (frontChar? (rest.drop
        ((read rest).wholeText ++ (read rest).fractionText ++ (read rest).exponentText).length) =
          some 'i') := by
  simp only [fractionText_eq, exponentText_eq, List.length_append, ← length_fraction,
    ← length_exponent, wholeText]
  simp only [read, List.drop_drop, and_self]

/-- Of the base, what is in front tells whether there is a zero and what it announces. -/
theorem readRadix_cases (rest : List Symbol) :
    (frontChar? rest ≠ some '0' ∧ readRadix rest = (.decimal, [])) ∨
    (frontChar? rest = some '0' ∧ (∀ c, frontChar? rest.tail = some c → Radix.ofMarker? c = none) ∧
      readRadix rest = (.leadingZero, ['0'])) ∨
    ∃ marker radix, frontChar? rest = some '0' ∧ frontChar? rest.tail = some marker ∧
      Radix.ofMarker? marker = some radix ∧ readRadix rest = (radix, ['0', marker]) := by
  unfold readRadix
  by_cases zero : frontChar? rest = some '0'
  · rw [if_pos zero]
    right
    cases front : frontChar? rest.tail with
    | none => exact .inl ⟨zero, by simp, rfl⟩
    | some marker =>
      cases announced : Radix.ofMarker? marker with
      | none =>
        refine .inl ⟨zero, ?_, by simp only [announced]⟩
        intro c is
        rwa [← Option.some.inj is]
      | some radix => exact .inr ⟨marker, radix, zero, rfl, announced, by simp only [announced]⟩
  · rw [if_neg zero]
    exact .inl ⟨zero, rfl⟩

/-- The base of what is read is announced by what is read of it. -/
theorem announces_read (rest : List Symbol) :
    Announces (read rest).radix (read rest).announcement (read rest).whole := by
  show Announces (readRadix rest).1 (readRadix rest).2
    (runOf (readRadix rest).1.inRun (rest.drop (readRadix rest).2.length))
  rcases readRadix_cases rest with ⟨other, is⟩ | ⟨-, -, is⟩ | ⟨marker, radix, -, -, known, is⟩
  · rw [is]
    refine ⟨rfl, ?_⟩
    intro zero
    cases rest with
    | nil => cases zero
    | cons s rest =>
      apply other
      by_cases inRun : Radix.decimal.inRun s.toChar
      · rw [List.length_nil, List.drop_zero, runOf_cons inRun] at zero
        exact zero
      · simp [runOf, inRun] at zero
  · rw [is]
    rfl
  · rw [is]
    rcases ofMarker?_eq_some.mp known with ⟨rfl, -⟩ | ⟨rfl, -⟩ | ⟨rfl, -⟩
    all_goals exact ⟨marker, known, rfl⟩

/-- Digits are read behind a point: the whole run of them. -/
theorem readFraction_eq_some {radix : Radix} {rest : List Symbol} {digits : List Char} :
    readFraction radix rest = some digits ↔
      frontChar? rest = some '.' ∧ digits = runOf radix.inRun rest.tail := by
  unfold readFraction
  rw [Option.ite_none_right_eq_some, Option.some.injEq, eq_comm (a := digits)]

/-- An exponent is read behind a marker, with a sign if there is one and the whole run of digits
behind that. -/
theorem readExponent_eq_some {rest : List Symbol} {e : Exponent} (h : readExponent rest = some e) :
    frontChar? rest = some e.marker ∧ isExponentMarker e.marker ∧
      e.sign = (frontChar? rest.tail).filter isSign ∧
      e.digits = runOf Radix.decimal.inRun (rest.tail.drop e.sign.toList.length) := by
  unfold readExponent at h
  split at h
  · cases h
  · next marker found =>
    obtain rfl := Option.some.inj h
    obtain ⟨front, isMarker⟩ := Option.filter_eq_some_iff.mp found
    exact ⟨front, isMarker, rfl, rfl⟩

/-- Behind the point and its digits stands no digit. -/
theorem not_inRun_behind_fraction {radix : Radix} {rest : List Symbol} {c : Char}
    (point : (readFraction radix rest).isSome)
    (front :
      frontChar? (rest.drop ((readFraction radix rest).elim [] ('.' :: ·)).length) = some c) :
    ¬ radix.inRun c := by
  obtain ⟨digits, is⟩ := Option.isSome_iff_exists.mp point
  obtain ⟨-, same⟩ := readFraction_eq_some.mp is
  rw [is, same] at front
  cases rest with
  | nil => cases front
  | cons s rest => exact not_inClass_behind_run front

/-- **What is read is regular.** -/
theorem regular_read (rest : List Symbol) : (read rest).Regular := by
  obtain ⟨fraction, exponent, -⟩ := read_parts rest
  have found : ∀ e ∈ (read rest).exponent, _ := fun e is =>
    readExponent_eq_some (exponent.symm.trans is)
  refine ⟨announces_read rest, fun c mem => mem_runOf mem, ?_, ?_, ?_, ?_⟩
  · intro digits is c mem
    obtain ⟨-, rfl⟩ := readFraction_eq_some.mp (fraction.symm.trans is)
    exact mem_runOf mem
  · intro e is
    obtain ⟨front, isMarker, -⟩ := found e is
    refine ⟨isMarker, ?_⟩
    rw [List.length_append, ← List.drop_drop] at front
    unfold fractionText at front
    rw [fraction] at front
    cases point : readFraction (read rest).radix (rest.drop (read rest).wholeText.length) with
    | none =>
      rw [point, wholeText, List.length_append, ← List.drop_drop] at front
      exact not_inClass_behind_run front
    | some digits =>
      apply @not_inRun_behind_fraction _ (rest.drop (read rest).wholeText.length)
      · rw [point]
        rfl
      · rw [point] at front ⊢
        exact front
  · intro e is c mem
    obtain ⟨-, -, sign, -⟩ := found e is
    rw [sign] at mem
    exact (Option.filter_eq_some_iff.mp mem).2
  · intro e is c mem
    obtain ⟨-, -, -, digits⟩ := found e is
    rw [digits] at mem
    exact mem_runOf mem

/-! ## What is read is what is taken -/

/-- What may stand in a run are separators and the digits of the base. -/
theorem inRun_eq (radix : Radix) (c : Char) :
    radix.inRun c = (isSeparator c || Separator.digit (radix = .hexadecimal) c) := by
  cases radix <;> rfl

/-- Loose digits of a base are what may stand in a run of it. -/
theorem mem_loose_iff (radix : Radix) {w : List Char} :
    w ∈ loose (Separator.digit (radix = .hexadecimal)) ↔ ∀ c ∈ w, radix.inRun c := by
  rw [loose, mem_kstar_one]
  simp only [inRun_eq]

/-- A number up to its point has a mark in front of its digits, or begins with one of them, or is
empty. -/
theorem mem_wholePart {w : List Char} : w ∈ wholePart ↔
    (∃ marker radix v, Radix.ofMarker? marker = some radix ∧ (∀ c ∈ v, radix.inRun c) ∧
      w = '0' :: marker :: v) ∨
    (∃ c v, c.isDigit ∧ (∀ c ∈ v, Radix.decimal.inRun c) ∧ w = c :: v) ∨ w = [] := by
  have hexadecimal := fun v => @mem_loose_iff .hexadecimal v
  have octal := fun v => @mem_loose_iff .octal v
  have binary := fun v => @mem_loose_iff .binary v
  have decimal := fun v => @mem_loose_iff .decimal v
  simp only [wholePart, hexMark, octalMark, binaryMark, Language.mem_add, Language.mem_one,
    mem_mark_mul, mem_one_mul]
  constructor
  · rintro ((((⟨m, v, is, mem, rfl⟩ | ⟨m, v, is, mem, rfl⟩) | ⟨m, v, is, mem, rfl⟩) |
      ⟨c, v, is, mem, rfl⟩) | rfl)
    · exact .inl ⟨m, .hexadecimal, v, ofMarker?_eq_some.mpr (.inl ⟨rfl, is⟩),
        (hexadecimal v).mp mem, rfl⟩
    · exact .inl ⟨m, .octal, v, ofMarker?_eq_some.mpr (.inr (.inl ⟨rfl, is⟩)), (octal v).mp mem,
        rfl⟩
    · exact .inl ⟨m, .binary, v, ofMarker?_eq_some.mpr (.inr (.inr ⟨rfl, is⟩)), (binary v).mp mem,
        rfl⟩
    · exact .inr (.inl ⟨c, v, is, (decimal v).mp mem, rfl⟩)
    · exact .inr (.inr rfl)
  · rintro (⟨m, radix, v, announced, all, rfl⟩ | ⟨c, v, is, all, rfl⟩ | rfl)
    · rcases ofMarker?_eq_some.mp announced with ⟨rfl, is⟩ | ⟨rfl, is⟩ | ⟨rfl, is⟩
      · exact .inl (.inl (.inl (.inl ⟨m, v, is, (hexadecimal v).mpr all, rfl⟩)))
      · exact .inl (.inl (.inl (.inr ⟨m, v, is, (octal v).mpr all, rfl⟩)))
      · exact .inl (.inl (.inr ⟨m, v, is, (binary v).mpr all, rfl⟩))
    · exact .inl (.inr ⟨c, v, is, (decimal v).mpr all, rfl⟩)
    · exact .inr rfl

/-- Up to the point what is read is the mark and the run behind it. -/
theorem wholeText_read (rest : List Symbol) : (read rest).wholeText = (readRadix rest).2 ++
    runOf (readRadix rest).1.inRun (rest.drop (readRadix rest).2.length) := rfl

/-- In front of a digit or a point, what is read up to the point is a whole part of the grammar. -/
theorem wholeText_mem {rest : List Symbol}
    (starts : ∀ c, frontChar? rest = some c → c.isDigit ∨ c = '.') :
    (read rest).wholeText ∈ wholePart := by
  rw [mem_wholePart, wholeText_read]
  rcases readRadix_cases rest with ⟨other, is⟩ | ⟨-, -, is⟩ | ⟨marker, radix, -, -, known, is⟩
  · rw [is]
    right
    cases rest with
    | nil => exact .inr rfl
    | cons s rest =>
      rw [List.nil_append, List.length_nil, List.drop_zero]
      rcases starts s.toChar rfl with digit | point
      · rw [runOf_cons (by simp [Radix.inRun, digit])]
        exact .inl ⟨_, _, digit, fun c mem => mem_runOf mem, rfl⟩
      · simp [runOf, Radix.inRun, point]
  · rw [is]
    exact .inr (.inl ⟨'0', _, by decide, fun c mem => mem_runOf mem, rfl⟩)
  · rw [is]
    exact .inl ⟨marker, radix, _, known, fun c mem => mem_runOf mem, rfl⟩

/-- What could be the front of a number up to its point is not longer than what is read. -/
theorem length_le_wholeText {rest : List Symbol} {w : List Char} (mem : w ∈ wholePart)
    (front : InFront w rest) : w.length ≤ (read rest).wholeText.length := by
  rw [wholeText_read]
  rcases mem_wholePart.mp mem with ⟨marker, radix, v, known, all, rfl⟩ | ⟨c, v, digit, all, rfl⟩ |
    rfl
  · -- What announces a base in front is what has been read as such.
    rcases rest with - | ⟨s, - | ⟨t, rest⟩⟩
    · exact absurd front.length_le (by simp)
    · exact absurd front.length_le (by simp)
    obtain ⟨zero, next⟩ := List.cons_prefix_cons.mp front
    obtain ⟨rfl, behind⟩ := List.cons_prefix_cons.mp next
    have is : readRadix (s :: t :: rest) = (radix, ['0', t.toChar]) := by
      simp [readRadix, ← zero, known]
    rw [is]
    exact Nat.succ_le_succ (Nat.succ_le_succ (length_le_runOf all behind))
  · cases rest with
    | nil => exact absurd front.length_le (by simp)
    | cons s rest =>
      obtain ⟨rfl, behind⟩ := List.cons_prefix_cons.mp front
      rcases readRadix_cases (s :: rest) with ⟨-, is⟩ | ⟨-, -, is⟩ |
        ⟨marker, radix, -, next, known, is⟩
      · rw [is]
        apply length_le_runOf _ front
        rw [List.forall_mem_cons]
        exact ⟨by simp [Radix.inRun, digit], all⟩
      · rw [is]
        exact Nat.succ_le_succ (length_le_runOf all behind)
      · rw [is]
        -- The letter that announces a base cannot be among the digits that follow the zero.
        cases v with
        | nil => simp
        | cons d v =>
          cases rest with
          | nil => cases next
          | cons t rest =>
            obtain ⟨rfl, -⟩ := List.cons_prefix_cons.mp behind
            obtain rfl := Option.some.inj next
            rw [ofMarker?_eq_none (all _ List.mem_cons_self)] at known
            cases known
  · exact Nat.zero_le _

/-- It is the longest one: any other in front is a mark with loose digits, or loose digits, and the
run has all of them. -/
theorem longest_whole {rest : List Symbol}
    (starts : ∀ c, frontChar? rest = some c → c.isDigit ∨ c = '.') :
    Longest wholePart (rest.map Symbol.toChar) (read rest).wholeText :=
  ⟨wholeText_mem starts, (inFront_readRadix rest).append (.runOf _ _),
    fun _ mem front => length_le_wholeText mem front⟩

/-- What is read of the fraction is the longest there is. -/
theorem longest_fraction (radix : Radix) (rest : List Symbol) :
    Longest (fractionPart (Separator.digit (radix = .hexadecimal))) (rest.map Symbol.toChar)
      ((readFraction radix rest).elim [] ('.' :: ·)) := by
  refine ⟨?_, inFront_readFraction radix rest, ?_⟩
  · rw [fractionPart, mem_opt]
    cases found : readFraction radix rest with
    | none => exact .inl rfl
    | some digits =>
      obtain ⟨-, rfl⟩ := readFraction_eq_some.mp found
      refine .inr (mem_this_mul.mpr ⟨_, ?_, rfl⟩)
      exact (mem_loose_iff radix).mpr fun c mem => mem_runOf mem
  · intro w mem front
    rcases mem_opt.mp mem with rfl | mem
    · exact Nat.zero_le _
    · obtain ⟨v, all, rfl⟩ := mem_this_mul.mp mem
      cases rest with
      | nil => exact absurd front (by simp)
      | cons s rest =>
        obtain ⟨point, behind⟩ := List.cons_prefix_cons.mp front
        have found : readFraction radix (s :: rest) = some (runOf radix.inRun rest) :=
          readFraction_eq_some.mpr ⟨congrArg some point.symm, rfl⟩
        rw [found]
        exact Nat.succ_le_succ (length_le_runOf ((mem_loose_iff radix).mp all) behind)

/-- No sign stands in a run. -/
theorem inRun_of_isSign {c : Char} (is : isSign c) : ¬ Radix.decimal.inRun c := by
  simp only [isSign, Bool.or_eq_true, beq_iff_eq] at is
  rcases is with rfl | rfl <;> decide

/-- A sign and digits that are in front are not longer than those that are read. -/
theorem length_le_signed {sign : Option Char} {digits : List Char} {rest : List Symbol}
    (signs : ∀ c ∈ sign, c = '+' ∨ c = '-') (all : ∀ c ∈ digits, Radix.decimal.inRun c)
    (front : InFront (sign.toList ++ digits) rest) :
    (sign.toList ++ digits).length ≤ (((frontChar? rest).filter isSign).toList ++
      runOf Radix.decimal.inRun
        (rest.drop ((frontChar? rest).filter isSign).toList.length)).length := by
  cases sign with
  | some c =>
    have is : isSign c := by simpa [isSign] using signs c rfl
    cases rest with
    | nil => exact absurd front.length_le (by simp)
    | cons s rest =>
      obtain ⟨rfl, behind⟩ := List.cons_prefix_cons.mp front
      have found : (frontChar? (s :: rest)).filter isSign = some s.toChar := by
        simp [Option.filter, is]
      rw [found]
      exact Nat.succ_le_succ (length_le_runOf all behind)
  | none =>
    cases found : (frontChar? rest).filter isSign with
    | none => exact length_le_runOf all front
    | some c =>
      obtain ⟨here, is⟩ := Option.filter_eq_some_iff.mp found
      cases digits with
      | nil => exact Nat.zero_le _
      | cons d digits =>
        cases rest with
        | nil => cases here
        | cons s rest =>
          obtain ⟨rfl, -⟩ := List.cons_prefix_cons.mp front
          obtain rfl := Option.some.inj here
          exact absurd (all _ List.mem_cons_self) (inRun_of_isSign is)

/-- What marks an exponent. -/
theorem mem_exponentMarker {w : List Char} :
    w ∈ either 'e' 'E' + either 'p' 'P' ↔ ∃ c, isExponentMarker c ∧ w = [c] := by
  rw [Language.mem_add, mem_either, mem_either]
  simp [isExponentMarker, or_and_right, exists_or, or_assoc]

/-- What is read of the exponent is the longest there is. -/
theorem longest_exponent (rest : List Symbol) :
    Longest exponentPart (rest.map Symbol.toChar) ((readExponent rest).elim [] Exponent.text) := by
  refine ⟨?_, inFront_readExponent rest, ?_⟩
  · cases found : readExponent rest with
    | none => exact .inl rfl
    | some e =>
      obtain ⟨-, isMarker, sign, digits⟩ := readExponent_eq_some found
      refine .inr (mem_marker_mul.mpr ⟨[e.marker], mem_exponentMarker.mpr ⟨_, isMarker, rfl⟩,
        e.sign, ?_, e.digits, ?_, rfl⟩)
      · intro c mem
        rw [sign] at mem
        simpa [isSign] using (Option.filter_eq_some_iff.mp mem).2
      · rw [digits]
        exact (mem_loose_iff .decimal).mpr fun c mem => mem_runOf mem
  · intro w mem front
    rcases mem_opt.mp mem with rfl | mem
    · exact Nat.zero_le _
    obtain ⟨_, marker, sign, signs, v, all, rfl⟩ := mem_marker_mul.mp mem
    obtain ⟨c, isMarker, rfl⟩ := mem_exponentMarker.mp marker
    have all := (mem_loose_iff .decimal).mp all
    cases rest with
    | nil => exact absurd front (by simp)
    | cons s rest =>
      obtain ⟨rfl, behind⟩ := List.cons_prefix_cons.mp front
      have found : readExponent (s :: rest) = some ⟨s.toChar, (frontChar? rest).filter isSign,
          runOf Radix.decimal.inRun
            (rest.drop ((frontChar? rest).filter isSign).toList.length)⟩ := by
        simp [readExponent, Option.filter, isMarker]
      rw [found]
      exact Nat.succ_le_succ (length_le_signed signs all behind)

/-- What is read of the suffix is the longest there is. -/
theorem longest_suffix (rest : List Symbol) :
    Longest suffixPart (rest.map Symbol.toChar)
      (if frontChar? rest = some 'i' then ['i'] else []) := by
  cases rest with
  | nil =>
    refine ⟨.inl rfl, List.nil_prefix, ?_⟩
    intro w mem front
    simp [List.prefix_nil.mp front]
  | cons s rest =>
    rw [frontChar?_cons]
    split
    · next is =>
      refine ⟨.inr ⟨'i', rfl, rfl⟩, ?_, ?_⟩
      · rw [List.map_cons, Option.some.inj is]
        exact List.cons_prefix_cons.mpr ⟨rfl, List.nil_prefix⟩
      · rintro w (rfl | ⟨c, -, rfl⟩) front <;> simp
    · next other =>
      refine ⟨.inl rfl, List.nil_prefix, ?_⟩
      rintro w (rfl | ⟨c, is, rfl⟩) front
      · exact Nat.le_refl _
      · obtain ⟨same, -⟩ := List.cons_prefix_cons.mp front
        exact absurd (congrArg some (same.symm.trans (eq_of_beq is))) other

/-- The parts of a number as text. -/
def parts (n : Numeral) : Parts := ⟨n.wholeText, n.fractionText, n.exponentText, n.suffixText⟩

/-- The parts of a number make its text. -/
theorem text_parts (n : Numeral) : n.parts.text = n.text := by
  simp only [parts, Parts.text, text, List.append_assoc]

/-- The parts of a number tell its kind. -/
theorem kind_parts (n : Numeral) : n.parts.kind = n.token := by
  unfold Parts.kind token parts suffixText fractionText exponentText
  cases n.imaginary <;> cases n.fraction <;> cases n.exponent <;> simp [Exponent.text]

/-- The digits of a number are those that its text up to the point tells. -/
theorem Regular.digitOf_wholeText {n : Numeral} (regular : n.Regular) :
    digitOf n.wholeText = Separator.digit (n.radix = .hexadecimal) := by
  obtain ⟨radix, announcement, whole, fraction, exponent, imaginary⟩ := n
  have announced := regular.announced
  have all := regular.whole
  dsimp only at announced all
  cases radix
  case decimal =>
    obtain ⟨rfl, other⟩ := announced
    simp only [wholeText, List.nil_append]
    unfold digitOf
    split <;> simp_all [Separator.digit]
  case leadingZero =>
    obtain rfl : announcement = ['0'] := announced
    simp only [wholeText, List.singleton_append]
    unfold digitOf
    split
    · next same =>
      obtain ⟨-, rfl⟩ := List.cons.inj same
      exact absurd (all 'x' List.mem_cons_self) (by decide)
    · next same =>
      obtain ⟨-, rfl⟩ := List.cons.inj same
      exact absurd (all 'X' List.mem_cons_self) (by decide)
    · rfl
  all_goals
    obtain ⟨marker, known, rfl⟩ := announced
    rcases ofMarker?_eq_some.mp known with ⟨same, rfl | rfl⟩ | ⟨same, rfl | rfl⟩ |
      ⟨same, rfl | rfl⟩
    all_goals first
      | rfl
      | cases same

/-- **What is read of a number is what is taken**, part by part. Each part is the longest in front
of what the others have left. -/
theorem taken_read {rest : List Symbol}
    (starts : ∀ c, frontChar? rest = some c → c.isDigit ∨ c = '.') :
    (read rest).parts.Taken (rest.map Symbol.toChar) := by
  obtain ⟨fraction, exponent, imaginary⟩ := read_parts rest
  refine ⟨longest_whole starts, ?_, ?_, ?_⟩
  · have found := longest_fraction (read rest).radix
      (rest.drop (read rest).wholeText.length)
    rw [← fraction, ← fractionText_eq, List.map_drop] at found
    rwa [parts, (regular_read rest).digitOf_wholeText]
  · have found := longest_exponent
      (rest.drop ((read rest).wholeText ++ (read rest).fractionText).length)
    rwa [← exponent, ← exponentText_eq, List.map_drop] at found
  · have found := longest_suffix (rest.drop
      ((read rest).wholeText ++ (read rest).fractionText ++ (read rest).exponentText).length)
    rw [List.map_drop] at found
    rw [parts, suffixText, imaginary]
    simpa only [decide_eq_true_eq] using found

/-! ## Regular numbers are read as they are -/

namespace Regular

variable {n : Numeral}

/-- What a suffix, or an exponent, or a point begins with: none of it is a digit, a separator, a
zero or what announces a base. -/
theorem front_of_tail (regular : n.Regular) :
    (∀ c ∈ n.suffixText.head?, c = 'i') ∧
      (∀ c ∈ (n.exponentText ++ n.suffixText).head?,
        c = 'i' ∨ isExponentMarker c ∧ ¬ n.radix.inRun c) ∧
      ∀ c ∈ (n.fractionText ++ (n.exponentText ++ n.suffixText)).head?,
        c = '.' ∨ c = 'i' ∨ isExponentMarker c ∧ ¬ n.radix.inRun c := by
  have suffix : ∀ c ∈ n.suffixText.head?, c = 'i' := by
    unfold suffixText
    split
    · rintro c ⟨⟩
      rfl
    · rintro c ⟨⟩
  have exponent : ∀ c ∈ (n.exponentText ++ n.suffixText).head?,
      c = 'i' ∨ isExponentMarker c ∧ ¬ n.radix.inRun c := by
    rw [exponentText_eq]
    cases found : n.exponent with
    | none => exact fun c mem => .inl (suffix c mem)
    | some e =>
      rintro c ⟨⟩
      exact .inr (regular.marker e found)
  refine ⟨suffix, exponent, ?_⟩
  rw [fractionText_eq]
  cases n.fraction with
  | none => exact fun c mem => .inr (exponent c mem)
  | some digits =>
    rintro c ⟨⟩
    exact .inl rfl

/-- What follows the digits in front of the point does not go on with them. -/
theorem ends_whole (regular : n.Regular) :
    ∀ c ∈ (n.fractionText ++ (n.exponentText ++ n.suffixText)).head?, ¬ n.radix.inRun c := by
  intro c mem
  rcases regular.front_of_tail.2.2 c mem with rfl | rfl | ⟨-, other⟩
  · cases n.radix <;> decide
  · cases n.radix <;> decide
  · exact other

/-- What follows the digits behind the point does not go on with them. -/
theorem ends_fraction (regular : n.Regular) :
    ∀ c ∈ (n.exponentText ++ n.suffixText).head?, ¬ n.radix.inRun c := by
  intro c mem
  rcases regular.front_of_tail.2.1 c mem with rfl | ⟨-, other⟩
  · cases n.radix <;> decide
  · exact other

/-- Neither a zero nor what announces a base stands behind the digits in front of the point. -/
theorem plain_tail (regular : n.Regular) :
    ∀ c ∈ (n.fractionText ++ (n.exponentText ++ n.suffixText)).head?,
      c ≠ '0' ∧ Radix.ofMarker? c = none := by
  intro c mem
  rcases regular.front_of_tail.2.2 c mem with rfl | rfl | ⟨isMarker, -⟩
  · decide
  · decide
  · simp only [isExponentMarker, Bool.or_eq_true, beq_iff_eq] at isMarker
    rcases isMarker with ((rfl | rfl) | rfl) | rfl <;> decide

/-- The base of a regular number is read from its text. -/
theorem readRadix_text (regular : n.Regular) :
    readRadix (n.text.map .character) = (n.radix, n.announcement) := by
  have plain := regular.plain_tail
  have announced := regular.announced
  have all := regular.whole
  simp only [text, wholeText, List.append_assoc]
  generalize n.fractionText ++ (n.exponentText ++ n.suffixText) = tail at plain
  generalize n.radix = radix, n.announcement = announcement, n.whole = whole at announced all
  unfold readRadix
  cases radix
  case decimal =>
    obtain ⟨rfl, other⟩ := announced
    rw [List.nil_append, frontChar?_characters, if_neg]
    intro zero
    cases whole with
    | nil => exact (plain '0' zero).1 rfl
    | cons c whole => exact other zero
  case leadingZero =>
    obtain rfl : announcement = ['0'] := announced
    have bare : ∀ c, frontChar? ((whole ++ tail).map .character) = some c →
        Radix.ofMarker? c = none := by
      intro c front
      rw [frontChar?_characters] at front
      cases whole with
      | nil => exact (plain c front).2
      | cons d whole =>
        obtain rfl : d = c := Option.some.inj front
        exact ofMarker?_eq_none (all d List.mem_cons_self)
    have zero : frontChar? (Symbol.character '0' :: (whole ++ tail).map .character) =
        some '0' := rfl
    rw [List.cons_append, List.nil_append, List.map_cons, if_pos zero, List.tail_cons]
    split
    · next marker front => rw [bare marker front]
    · rfl
  all_goals
    obtain ⟨marker, known, rfl⟩ := announced
    simp [known, Symbol.toChar]

/-- The fraction of a regular number is read from its text. -/
theorem readFraction_text (regular : n.Regular) :
    readFraction n.radix ((n.fractionText ++ (n.exponentText ++ n.suffixText)).map .character) =
      n.fraction := by
  have front := regular.front_of_tail.2.1
  have ends := regular.ends_fraction
  generalize n.exponentText ++ n.suffixText = tail at front ends
  rw [fractionText_eq]
  unfold readFraction
  cases found : n.fraction with
  | none =>
    rw [Option.elim_none, List.nil_append, frontChar?_characters, if_neg]
    intro point
    rcases front '.' point with is | ⟨is, -⟩
    · exact absurd is (by decide)
    · exact absurd is (by decide)
  | some digits =>
    have run := runOf_characters (regular.fraction digits found) ends
    rw [Option.elim_some, List.cons_append, List.map_cons, List.tail_cons, run]
    exact if_pos rfl

/-- The exponent of a regular number is read from its text. -/
theorem readExponent_text (regular : n.Regular) :
    readExponent ((n.exponentText ++ n.suffixText).map .character) = n.exponent := by
  have suffix := regular.front_of_tail.1
  generalize n.suffixText = tail at suffix
  rw [exponentText_eq]
  unfold readExponent
  cases found : n.exponent with
  | none =>
    rw [Option.elim_none, List.nil_append, frontChar?_characters]
    have other : tail.head?.filter isExponentMarker = none := by
      rw [Option.filter_eq_none_iff]
      intro c mem
      rw [suffix c mem]
      decide
    rw [other]
  | some e =>
    obtain ⟨marker, sign, digits⟩ := e
    have isMarker := (regular.marker _ found).1
    have signs := regular.sign _ found
    have all := regular.exponent _ found
    dsimp only at isMarker signs all
    have ends : ∀ c ∈ tail.head?, ¬ Radix.decimal.inRun c := by
      intro c mem
      rw [suffix c mem]
      decide
    -- Without a sign, the first digit or the suffix is in front, and neither is taken for one.
    have here : (frontChar? ((sign.toList ++ (digits ++ tail)).map .character)).filter isSign =
        sign := by
      rw [frontChar?_characters]
      cases sign with
      | some c => exact Option.filter_some_pos (signs c rfl)
      | none =>
        rw [Option.filter_eq_none_iff]
        intro c mem is
        cases digits with
        | nil =>
          rw [suffix c mem] at is
          exact absurd is (by decide)
        | cons d digits =>
          obtain rfl : d = c := Option.some.inj mem
          exact inRun_of_isSign is (all d List.mem_cons_self)
    have front : (frontChar? ((Symbol.character marker) ::
        (sign.toList ++ (digits ++ tail)).map .character)).filter isExponentMarker = some marker :=
      Option.filter_some_pos isMarker
    rw [Option.elim_some, Exponent.text, List.cons_append, List.append_assoc, List.map_cons, front,
      List.tail_cons]
    dsimp only
    rw [here, ← List.map_drop, List.drop_left, runOf_characters all ends]

/-- **A regular number is what is read of its text.** Each part is read as it is, since what follows
it does not go on with it. -/
theorem read_text (regular : n.Regular) : read (n.text.map .character) = n := by
  have radix := regular.readRadix_text
  have whole := runOf_characters regular.whole regular.ends_whole
  have fraction := regular.readFraction_text
  have exponent := regular.readExponent_text
  have imaginary : frontChar? (n.suffixText.map .character) = some 'i' ↔ n.imaginary := by
    unfold suffixText
    cases n.imaginary <;> simp [frontChar?, Symbol.toChar]
  have text : n.text =
      n.announcement ++ (n.whole ++ (n.fractionText ++ (n.exponentText ++ n.suffixText))) := by
    simp only [text, wholeText, List.append_assoc]
  unfold read
  rw [radix, text]
  dsimp only
  rw [← List.map_drop, List.drop_left, whole, ← List.map_drop, List.drop_left, fraction,
    length_fraction, ← fractionText_eq, ← List.map_drop, List.drop_left, exponent,
    length_exponent, ← exponentText_eq, ← List.map_drop, List.drop_left]
  simp only [imaginary, Bool.decide_eq_true]

/-- **Regular numbers with the same text are the same.** -/
theorem text_inj {m : Numeral} (first : m.Regular) (second : n.Regular) (same : m.text = n.text) :
    m = n := by
  rw [← first.read_text, same, second.read_text]

end Regular

end Numeral

end SheetFormula

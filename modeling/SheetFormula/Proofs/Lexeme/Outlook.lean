import Mathlib.Tactic.Common
import SheetFormula.Proofs.Lexeme.Numeral
import SheetFormula.Proofs.Lexeme.Report

/-!
# How far a scanner looks ahead

To find out which token is in front, a scanner looks at symbols behind that token, but never past a
blank: a blank continues no word and no number, and it makes no difference whether a blank follows
or nothing does (`AtPause`). The exception are strings, which run over blanks; but a string that is
closed has been seen to its end.

Main results:
* `Word.recognize_append`, `Numeral.read_append` and `Recognition.ofSymbols_append`: anything but a
  string is recognized as if nothing followed the pause.
* `Quotation.extent_append`: a string that is closed is closed there, whatever follows.
* `Recognition.ofSymbols_swap`: what has been recognized in front of a pause remains when something
  else stands behind it there.
-/

namespace SheetFormula

open Text (Symbol)

/-- Whether a blank stands in front, or nothing at all. -/
def AtPause (rest : List Symbol) : Prop := ∀ c, frontChar? rest = some c → Text.isBlank c

variable {ahead later later' : List Symbol}

/-! ## In front of a pause -/

/-- What holds of no blank, told blank by blank. -/
theorem not_of_isBlank {p : Char → Bool}
    (solid : p ' ' = false ∧ p '\t' = false ∧ p '\n' = false ∧ p '\r' = false) {c : Char}
    (blank : Text.isBlank c) : ¬ p c := by
  simp only [Text.isBlank, Bool.or_eq_true, beq_iff_eq] at blank
  rcases blank with ((rfl | rfl) | rfl) | rfl <;> simp [solid]

namespace AtPause

/-- No character that is not blank stands in front where a pause is. -/
theorem front_ne (pause : AtPause later) {c : Char} (solid : ¬ Text.isBlank c) :
    frontChar? later ≠ some c :=
  fun front => solid (pause c front)

/-- What stands in front of a pause belongs to no class without blanks. -/
theorem front_filter (pause : AtPause later) {p : Char → Bool}
    (solid : ∀ c, Text.isBlank c → ¬ p c) : (frontChar? later).filter p = none := by
  rw [Option.filter_eq_none_iff]
  exact fun c front => solid c (pause c front)

/-- A character that is not blank stands in front of a pause only if it does without it. -/
theorem front_append_iff (pause : AtPause later) {c : Char} (solid : ¬ Text.isBlank c) :
    frontChar? (ahead ++ later) = some c ↔ frontChar? ahead = some c := by
  cases ahead with
  | nil => exact iff_of_false (pause.front_ne solid) (by rintro ⟨⟩)
  | cons s ahead => rfl

/-- A run of characters that are not blank ends at a pause. -/
theorem runOf_append (pause : AtPause later) {inClass : Char → Bool}
    (solid : ∀ c, Text.isBlank c → ¬ inClass c) (ahead : List Symbol) :
    runOf inClass (ahead ++ later) = runOf inClass ahead := by
  induction ahead with
  | nil => exact runOf_eq_nil fun c front => solid c (pause c front)
  | cons s ahead ih =>
    by_cases inRun : inClass s.toChar
    · rw [List.cons_append, runOf_cons inRun, runOf_cons inRun, ih]
    · have other : ∀ rest c, frontChar? (s :: rest) = some c → ¬ inClass c := by
        rintro rest c ⟨⟩
        exact inRun
      rw [List.cons_append, runOf_eq_nil (other _), runOf_eq_nil (other _)]

end AtPause

/-! ## Words -/

namespace Word

/-- The word in front ends at a pause. -/
theorem run_append (pause : AtPause later) (ahead : List Symbol) :
    run (ahead ++ later) = run ahead :=
  pause.runOf_append (fun _ => not_of_isBlank (by decide)) ahead

/-- The second half of a range is looked for up to a pause only. -/
theorem rangeEnd?_append (pause : AtPause later) (ahead : List Symbol) :
    rangeEnd? (ahead ++ later) = rangeEnd? ahead := by
  unfold rangeEnd?
  cases ahead with
  | nil => exact if_neg (pause.front_ne (by decide))
  | cons s ahead =>
    simp only [List.cons_append, frontChar?_cons, List.tail_cons, run_append pause]
    rfl

/-- **A word and what it is are the same in front of a pause.** -/
theorem recognize_append (pause : AtPause later) (ahead : List Symbol) :
    recognize (ahead ++ later) = recognize ahead := by
  have inside : (run ahead).length ≤ ahead.length := (InFront.runOf _ ahead).length_le
  unfold recognize
  simp only [run_append pause, List.drop_append_of_le_length inside, rangeEnd?_append pause,
    pause.front_append_iff (by decide : ¬ Text.isBlank '(')]

end Word

/-! ## Numbers -/

namespace Numeral

/-- The base of a number is read up to a pause only. -/
theorem readRadix_append (pause : AtPause later) (ahead : List Symbol) :
    readRadix (ahead ++ later) = readRadix ahead := by
  unfold readRadix
  cases ahead with
  | nil => exact if_neg (pause.front_ne (by decide))
  | cons s ahead =>
    cases ahead with
    | cons t ahead => rfl
    | nil =>
      simp only [List.cons_append, List.nil_append, frontChar?_cons, List.tail_cons]
      cases front : frontChar? later with
      | none => rfl
      | some c =>
        -- A blank announces no base, and so it is as if nothing followed the first digit.
        have blank := pause c front
        simp only [Text.isBlank, Bool.or_eq_true, beq_iff_eq] at blank
        rcases blank with ((rfl | rfl) | rfl) | rfl <;> rfl

/-- A blank stands in no run of digits. -/
theorem inRun_of_isBlank (radix : Radix) (c : Char) (blank : Text.isBlank c) :
    ¬ radix.inRun c := by
  cases radix <;> exact not_of_isBlank (by decide) blank

/-- The fraction of a number is read up to a pause only. -/
theorem readFraction_append (pause : AtPause later) (radix : Radix) (ahead : List Symbol) :
    readFraction radix (ahead ++ later) = readFraction radix ahead := by
  unfold readFraction
  cases ahead with
  | nil => exact if_neg (pause.front_ne (by decide))
  | cons s ahead =>
    simp only [List.cons_append, frontChar?_cons, List.tail_cons,
      pause.runOf_append (inRun_of_isBlank radix)]
    rfl

/-- The exponent of a number is read up to a pause only. -/
theorem readExponent_append (pause : AtPause later) (ahead : List Symbol) :
    readExponent (ahead ++ later) = readExponent ahead := by
  have marker : (frontChar? later).filter isExponentMarker = none :=
    pause.front_filter fun _ => not_of_isBlank (by decide)
  have sign : (frontChar? later).filter isSign = none :=
    pause.front_filter fun _ => not_of_isBlank (by decide)
  have run := pause.runOf_append (inRun_of_isBlank .decimal)
  unfold readExponent
  rcases ahead with - | ⟨s, - | ⟨t, ahead⟩⟩
  · rw [List.nil_append, marker]
    rfl
  · simp only [List.cons_append, List.nil_append, frontChar?_cons, List.tail_cons, sign]
    have nothing := run []
    rw [List.nil_append] at nothing
    cases (some s.toChar).filter isExponentMarker with
    | none => rfl
    | some marker =>
      exact congrArg (fun digits => some (Exponent.mk marker none digits)) nothing
  · simp only [List.cons_append, frontChar?_cons, List.tail_cons]
    cases (some t.toChar).filter isSign with
    | none =>
      have behind := run (t :: ahead)
      simp only [List.cons_append] at behind
      simp only [Option.toList_none, List.length_nil, List.drop_zero, behind]
    | some c =>
      simp only [Option.toList_some, List.length_singleton, List.drop_succ_cons, List.drop_zero,
        run]

/-- **A number is the same in front of a pause.** -/
theorem read_append (pause : AtPause later) (ahead : List Symbol) :
    read (ahead ++ later) = read ahead := by
  have announcement := (inFront_readRadix ahead).length_le
  unfold read
  simp only [readRadix_append pause, List.drop_append_of_le_length announcement,
    pause.runOf_append (inRun_of_isBlank _)]
  generalize readRadix ahead = start
  generalize ahead.drop start.2.length = ahead
  have whole := (InFront.runOf start.1.inRun ahead).length_le
  simp only [List.drop_append_of_le_length whole, readFraction_append pause]
  generalize runOf start.1.inRun ahead = digits
  generalize ahead.drop digits.length = ahead
  have fraction := (inFront_readFraction start.1 ahead).length_le
  rw [← length_fraction] at fraction
  simp only [List.drop_append_of_le_length fraction, readExponent_append pause]
  generalize readFraction start.1 ahead = fraction
  generalize ahead.drop _ = ahead
  have exponent := (inFront_readExponent ahead).length_le
  rw [← length_exponent] at exponent
  simp only [List.drop_append_of_le_length exponent,
    pause.front_append_iff (by decide : ¬ Text.isBlank 'i')]

end Numeral

/-! ## Strings -/

namespace Quotation

variable {s t : Symbol} {rest : List Symbol}

/-- A string ends in front of a line feed, unclosed. -/
theorem extent_line (line : s.toChar = '\n') : extent (s :: rest) = ⟨0, false⟩ := by
  cases rest <;> simp [extent, line]

/-- A single quote closes a string. -/
theorem extent_quote (quote : s.toChar = '"') (apart : frontChar? rest ≠ some '"') :
    extent (s :: rest) = ⟨1, true⟩ := by
  cases rest with
  | nil => simp [extent, quote]
  | cons t rest =>
    have other : t.toChar ≠ '"' := fun same => apart (congrArg some same)
    simp [extent, quote, other]

/-- Two quotes in a row are part of a string, which goes on behind them. -/
theorem extent_doubled (quote : s.toChar = '"') (again : t.toChar = '"') :
    extent (s :: t :: rest) = (extent rest).behind 2 := by
  simp [extent, quote, again]

/-- Any other symbol is part of a string. -/
theorem extent_other (line : s.toChar ≠ '\n') (quote : s.toChar ≠ '"') :
    extent (s :: rest) = (extent rest).behind 1 := by
  cases rest <;> simp [extent, line, quote]

/-- A string that is closed takes the quote that closes it. -/
theorem count_pos_of_closed (closed : (extent rest).closed) : 0 < (extent rest).count := by
  fun_cases extent rest with
  | case1 => cases closed
  | case2 s rest line =>
    rw [extent_line line] at closed
    cases closed
  | case3 => exact Nat.one_pos
  | case4 => exact Nat.succ_pos _
  | case5 => exact Nat.one_pos
  | case6 => exact Nat.succ_pos _

/-- **A string that is closed in front of something is closed there, whatever it is**, if no quote
comes first. -/
theorem extent_append {ahead : List Symbol} (apart : frontChar? later ≠ some '"')
    (apart' : frontChar? later' ≠ some '"') (closed : (extent (ahead ++ later)).closed)
    (inside : (extent (ahead ++ later)).count ≤ ahead.length) :
    extent (ahead ++ later') = extent (ahead ++ later) := by
  fun_induction extent ahead with
  | case1 => exact absurd inside (Nat.not_le.mpr (count_pos_of_closed closed))
  | case2 s rest line => rw [List.cons_append, List.cons_append, extent_line line, extent_line line]
  | case3 s line quote =>
    rw [List.cons_append, List.cons_append]
    exact (extent_quote quote apart').trans (extent_quote quote apart).symm
  | case4 s line quote t rest again ih =>
    simp only [List.cons_append, extent_doubled quote again, Extent.behind] at closed inside ⊢
    rw [ih closed (Nat.le_of_add_le_add_right inside)]
  | case5 s line quote t rest other =>
    have apart : ∀ later, frontChar? (t :: (rest ++ later)) ≠ some '"' :=
      fun later same => other (Option.some.inj same)
    simp only [List.cons_append]
    rw [extent_quote quote (apart _), extent_quote quote (apart _)]
  | case6 s rest line quote ih =>
    simp only [List.cons_append, extent_other line quote, Extent.behind] at closed inside ⊢
    rw [ih closed (Nat.le_of_add_le_add_right inside)]

end Quotation

/-! ## All that is recognized -/

namespace Recognition

/-- A comparison is the same in front of a pause, since its second character is no blank. -/
theorem comparison_append (pause : AtPause later) {alone : Token} {pairs : List (Char × Token)}
    (solid : ∀ pair ∈ pairs, ¬ Text.isBlank pair.1) (ahead : List Symbol) :
    comparison (ahead ++ later) alone pairs = comparison ahead alone pairs := by
  cases ahead with
  | cons s ahead => rfl
  | nil =>
    have other : (frontChar? later).bind (List.lookup · pairs) = none := by
      rw [Option.bind_eq_none_iff]
      intro c front
      rw [List.lookup_eq_none_iff]
      intro pair mem
      have distinct : c ≠ pair.1 := by
        rintro rfl
        exact solid pair mem (pause _ front)
      simpa using distinct
    unfold comparison
    rw [List.nil_append, other]
    rfl

/-- **Anything but a string is recognized as if nothing followed the pause.** -/
theorem ofSymbols_append (pause : AtPause later) {s : Symbol} (plain : s.toChar ≠ '"')
    (atLineStart : Bool) (ahead : List Symbol) :
    ofSymbols atLineStart (s :: ahead ++ later) = ofSymbols atLineStart (s :: ahead) := by
  have number : startsNumber s.toChar (ahead ++ later) = startsNumber s.toChar ahead := by
    unfold startsNumber
    cases ahead with
    | cons t ahead => rfl
    | nil =>
      have blank : (frontChar? later).any Char.isDigit = false := by
        cases front : frontChar? later with
        | none => rfl
        | some c => simpa using not_of_isBlank (p := Char.isDigit) (by decide) (pause c front)
      rw [List.nil_append, blank]
      rfl
  have word := Word.recognize_append pause (s :: ahead)
  have numeral := Numeral.read_append pause (s :: ahead)
  rw [List.cons_append] at word numeral ⊢
  simp only [ofSymbols, word, number, numeral, plain, if_false,
    comparison_append pause (by decide : ∀ pair ∈ [('=', Token.lessEqual), ('>', .notEqual)],
      ¬ Text.isBlank pair.1),
    comparison_append pause (by decide : ∀ pair ∈ [('=', Token.greaterEqual)],
      ¬ Text.isBlank pair.1)]

/-- **What is recognized in front of a pause remains** when something else stands behind it there,
unless it is a string that is not closed. -/
theorem ofSymbols_swap {atLineStart : Bool} {found : Recognition} (pause : AtPause later)
    (pause' : AtPause later') (recognized : ofSymbols atLineStart (ahead ++ later) = some found)
    (inside : found.count ≤ ahead.length)
    (closed : ∀ leg ∈ found.legs, ∀ fault ∈ leg.faults, fault.2 ≠ .unterminatedString) :
    ofSymbols atLineStart (ahead ++ later') = some found := by
  cases ahead with
  | nil =>
    have taken := count_pos_of_ofSymbols recognized
    exact absurd inside (Nat.not_le.mpr taken)
  | cons s ahead =>
    by_cases quote : s.toChar = '"'
    · have opens : ∀ rest, ofSymbols atLineStart (s :: rest) = some (Quotation.recognize rest) := by
        intro rest
        have letter : Text.isLetter '"' = false := by decide
        have number : startsNumber '"' rest = false := rfl
        simp [ofSymbols, quote, letter, number]
      rw [List.cons_append, opens] at recognized ⊢
      obtain rfl := Option.some.inj recognized
      have ends : (Quotation.extent (ahead ++ later)).closed := by
        by_contra unclosed
        exact closed _ (List.mem_singleton.mpr rfl) (0, .unterminatedString)
          (by simp [unclosed]) rfl
      have within : (Quotation.extent (ahead ++ later)).count ≤ ahead.length := by
        simpa [Quotation.recognize, count, Leg.total] using inside
      have same := Quotation.extent_append (pause.front_ne (by decide))
        (pause'.front_ne (by decide)) ends within
      rw [Quotation.recognize, Quotation.recognize, same]
    · rwa [ofSymbols_append pause' quote, ← ofSymbols_append pause quote]

end Recognition

end SheetFormula

import Mathlib.Tactic.Common
import SheetFormula.Proofs.Lexeme.Shift
import SheetFormula.Proofs.Parse.Relocation
import SheetFormula.Proofs.Parse.Size

/-!
# The mark that leads a formula

An equals sign in front of a formula is passed over. So a formula with such a mark is parsed to the
tree of the formula without it, one byte further on, and with the same diagnostics there, well
formed or not.

Main results:
* `lead_passed`: the stream of a source behind a mark that leads it is the stream of the source,
  moved.
* `formula_behind_lead`: the production of formulas makes of it what it makes of the source.
* `leading_mark_transparent`: this of every source that no such mark leads yet.
-/

namespace SheetFormula

open Production Grammar
open Text (Symbol symbols)

/-- In front of a source that begins with an equals sign there is no gap, and the sign is recognized
as the mark that leads. -/
theorem Scanner.recognized?_lead {source : List UInt8}
    (front : frontChar? (symbols source) = some '=') :
    gap (start source).reader.rest = [] ∧
      (start source).recognized? = some (.plain .lead 1) := by
  have ahead : (start source).reader.rest = symbols source := rfl
  cases whole : symbols source with
  | nil => rw [whole] at front; cases front
  | cons s rest =>
    rw [whole] at front ahead
    have is : s.toChar = '=' := Option.some.inj front
    have solid : gap (start source).reader.rest = [] := by
      rw [ahead, gap, List.takeWhile_cons, is]
      rfl
    refine ⟨solid, ?_⟩
    have letter : Text.isLetter '=' = false := by decide
    have number : Recognition.startsNumber '=' rest = false := rfl
    unfold recognized?
    rw [behindGap_of_solid solid, ahead]
    simp [Recognition.ofSymbols, is, letter, number, start, Reader.start]

/-- A source whose first lexeme does not lead it does not begin with an equals sign. -/
theorem frontChar?_ne_of_unled {source : List UInt8}
    (unled : ∀ l ∈ (lex source).lexemes.head?, l.token ≠ .lead) :
    frontChar? (symbols source) ≠ some '=' := by
  intro front
  have recognized := (Scanner.recognized?_lead front).2
  obtain ⟨later, first⟩ := (TokenStream.ofSource source).lexemes_eq_cons
  have scanned := (Scanner.advance_stream (s := .start source) (Reader.behind_start source)).1
  have lead : (TokenStream.ofSource source).lookahead.lexeme.token = .lead := by
    rw [TokenStream.ofSource, scanned, (Scanner.scan_of_some recognized).1]
    rfl
  refine unled (TokenStream.ofSource source).lookahead.lexeme ?_ lead
  show _ ∈ (TokenStream.ofSource source).lexemes.head?
  rw [first]
  rfl

/-- The stream of a source behind a mark that leads it, and what is reported when that is passed. -/
theorem lead_passed {source : List UInt8} (unled : frontChar? (symbols source) ≠ some '=') :
    (TokenStream.ofSource (Text.encoded "=" ++ source)).lookahead.token = .lead ∧
      (TokenStream.ofSource source).Moved (.shift 1)
        (TokenStream.ofSource (Text.encoded "=" ++ source)).advance ∧
      Relocation.Moves (.shift 1) (Scanner.openingReports source)
        (Scanner.openingReports (Text.encoded "=" ++ source) ++
          (TokenStream.ofSource (Text.encoded "=" ++ source)).lookahead.reports) := by
  have front : frontChar? (symbols (Text.encoded "=" ++ source)) = some '=' := by
    rw [Text.encoded, Text.symbols_encode_append]
    rfl
  obtain ⟨solid, recognized⟩ := Scanner.recognized?_lead front
  obtain ⟨yields, moved, reports⟩ :=
    TokenStream.ofSource_front (by decide) (by decide) unled rfl solid recognized
  exact ⟨congrArg Lexeme.token yields, moved, reports⟩

/-- A formula is the same behind a mark that leads it, but for its place. -/
theorem formula_behind_lead {r : Relocation} {s t : TokenStream}
    (plain : s.lookahead.token ≠ .lead) (lead : t.lookahead.token = .lead)
    (moved : s.Moved r t.advance) :
    (formula.run t).value = (formula.run s).value.relocate r.move ∧
      r.Moves (s.lookahead.reports ++ (formula.run s).journal.reports)
        (formula.run t).journal.reports := by
  obtain ⟨value, rest, reports⟩ := Relocation.carries_expression moved
  have ends := (Relocation.carries_expectEnd rest).reports
  rw [run_formula, run_formula]
  simp only [TokenStream.behindLead, leadJournal, lead, plain, if_true, if_false,
    Journal.reports_around, Journal.reports_append, Journal.reports_taking]
  refine ⟨value.1, ?_⟩
  simpa [Journal.reports] using moved.lookahead.reports.append (reports.append ends)

/-- **A leading equals sign is transparent.** In front of a source whose first lexeme is no such
mark, it moves the tree and all diagnostics by one byte and changes nothing else. -/
theorem leading_mark_transparent (options : ParseOptions) (source : List UInt8)
    (short : characterCount source ≤ 8191)
    (unled : ∀ l ∈ (lex source).lexemes.head?, l.token ≠ .lead) :
    (parseFormula options (Text.encoded "=" ++ source)).root =
        (parseFormula options source).root.relocate (· + 1) ∧
      (parseFormula options (Text.encoded "=" ++ source)).diagnostics.items =
        (parseFormula options source).diagnostics.items.map (Diagnostic.relocate (· + 1)) := by
  have one : characterCount (Text.encoded "=") = 1 := by decide +kernel
  have short' : characterCount (Text.encoded "=" ++ source) ≤ lengthLimit := by
    rw [characterCount_append, one, Nat.add_comm]
    exact Nat.succ_le_succ short
  obtain ⟨root, diagnostics⟩ := Parse.parseWith_of_short sound_formula
    (.bad (.ofOffset 0) (.ofOffset source.length)) options (Nat.le_succ_of_le short)
  obtain ⟨root', diagnostics'⟩ := Parse.parseWith_of_short sound_formula
    (.bad (.ofOffset 0) (.ofOffset (Text.encoded "=" ++ source).length)) options short'
  obtain ⟨lead, moved, opening⟩ := lead_passed (frontChar?_ne_of_unled unled)
  have plain : (TokenStream.ofSource source).lookahead.token ≠ .lead := by
    apply unled
    obtain ⟨later, first⟩ := (TokenStream.ofSource source).lexemes_eq_cons
    show _ ∈ (TokenStream.ofSource source).lexemes.head?
    rw [first]
    rfl
  obtain ⟨value, reports⟩ := formula_behind_lead plain lead moved
  rw [parseFormula, parseFormula, root, root', diagnostics, diagnostics']
  refine ⟨value, ?_⟩
  apply Relocation.Moves.eq_map (r := .shift 1)
  apply Relocation.Moves.sort
  simpa only [Parse.reports, List.append_assoc] using opening.append reports

/-- A formula that breaks off does so behind the mark too, one byte further on. -/
theorem leading_mark_transparent_broken_off :
    (parseFormula {} (Text.encoded "=1 +")).root =
        (parseFormula {} (Text.encoded "1 +")).root.relocate (· + 1) ∧
      (parseFormula {} (Text.encoded "=1 +")).diagnostics.items =
        [⟨4, "expected operand, found 'EOF'"⟩] := by
  have behind := leading_mark_transparent {} (Text.encoded "1 +") (by decide +kernel)
    (by decide +kernel)
  refine ⟨behind.1, behind.2.trans ?_⟩
  decide +kernel

end SheetFormula

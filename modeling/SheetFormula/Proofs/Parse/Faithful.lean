import Mathlib.Tactic.Common
import SheetFormula.Proofs.Parse.Whole

/-!
# Clean parses are faithful

A parse that reports nothing has read all of its source: the tree yields the lexemes of the source
one by one, so that nothing is lost, invented or moved. In front of the tree only a lexeme that
leads a formula is passed over, and between its marks only commas, where the tree has a place for
them.

Main results:
* `Parse.silent_of_clean`: where a parse has no diagnostics, neither the parser nor the scanner has
  anything to say.
* `Reading.between_eq`: a reading that notes no fault has read all that is between the lead and the
  end.
* `clean_parse_faithful`: what that means for formulas and parameter lists.
-/

namespace SheetFormula

open Production Grammar

section

variable {α : Type} {reads : (Nat → Prop) → List Part → Prop} {lead : List Lexeme}
  {s : TokenStream} {ran : Outcome α}

/-- A reading that notes no fault has read all that is between the lead and the end. -/
theorem Reading.between_eq (reading : Reading reads lead ran) (start : s.Orderly)
    (leads : Journal.Leads s ran.journal ran.rest) (none : ran.journal.noted = [])
    (more : ∀ l ∈ lead, l.token ≠ .endOfFormula)
    (solid : ∀ parts, reads (fun _ => False) parts → ∀ p ∈ parts, p.lexeme.token ≠ .endOfFormula) :
    ran.rest.tokens = [] ∧ ∃ parts, reads (fun _ => False) parts ∧
      parts.map Part.lexeme = between lead s.lexemes := by
  have last : ran.rest.tokens = [] := by
    rcases reading.ends with ends | noted
    · exact (leads.orderly start).tokens_eq_nil_iff.mpr ends
    · rw [none] at noted
      exact absurd noted List.not_mem_nil
  obtain ⟨parts, consumed, read⟩ := reading.accounts (fun _ => False) (by simp [none])
  refine ⟨last, parts, read, ?_⟩
  have whole := leads.lexemes_eq start
  have kept : ∀ l ∈ ran.journal.consumed, decide (l.token ≠ .endOfFormula) = true := by
    rw [consumed]
    intro l mem
    rcases List.mem_append.mp mem with front | inside
    · exact decide_eq_true (more l front)
    · obtain ⟨p, part, rfl⟩ := List.mem_map.mp inside
      exact decide_eq_true (solid parts read p part)
  rw [List.filter_eq_self.mpr kept, consumed, TokenStream.lexemes_of_nil last] at whole
  rw [between, whole, List.append_assoc, List.drop_left, List.dropLast_concat]

end

/-- A parse with no diagnostics has noted nothing, and neither has the scanner, if the parse has
come to the end. -/
theorem Parse.silent_of_clean {α : Type} {production : Production α} (sound : production.Sound)
    (source : List UInt8)
    (clean : Parse.reports source (.ofSource source) (production.run (.ofSource source)) = []) :
    (production.run (.ofSource source)).journal.noted = [] ∧
      ((production.run (.ofSource source)).rest.tokens = [] →
        (lex source).diagnostics.items = []) := by
  simp only [Parse.reports, List.append_eq_nil_iff] at clean
  obtain ⟨⟨opening, front⟩, silent⟩ := clean
  refine ⟨Journal.noted_eq_nil silent, ?_⟩
  intro last
  obtain ⟨quiet, passed⟩ := (sound.leads_run (.ofSource source)).silent silent front
  have scans : ∀ scan ∈ (TokenStream.ofSource source).scans, scan.reports = [] := by
    intro scan mem
    rcases passed scan mem with ahead | none
    · have only : (production.run (.ofSource source)).rest.scans =
          [(production.run (.ofSource source)).rest.lookahead] := by
        simp [TokenStream.scans, TokenStream.lookahead, last]
      rw [only] at ahead
      obtain rfl := List.mem_singleton.mp ahead
      exact quiet
    · exact none
  have nothing : Scanner.openingReports source ++
      (TokenStream.ofSource source).scans.flatMap Scanned.reports = [] := by
    rw [opening, List.nil_append]
    exact List.flatMap_eq_nil_iff.mpr scans
  rw [lex, Diagnostics.sort_items_eq_nil]
  exact nothing

/-- What holds of a clean parse with any whole production, provided that its tree has neither a
comma nor an end among its marks. -/
theorem Parse.faithful {α : Type} {production : Production α} (sound : production.Sound)
    {source : List UInt8}
    {reads : (Nat → Prop) → List Part → Prop} {lead : List Lexeme} {marks : List Part}
    (clean : Parse.reports source (.ofSource source) (production.run (.ofSource source)) = [])
    (reading : Reading reads lead (production.run (.ofSource source)))
    (more : ∀ l ∈ lead, l.token ≠ .endOfFormula)
    (shown : ∀ parts, reads (fun _ => False) parts → Shows (fun _ => False) marks parts)
    (solid : ∀ m ∈ marks, m.lexeme.token.IsSolid) :
    (lex source).diagnostics.items = [] ∧
      marks.map Part.lexeme = (between lead (lex source).lexemes).filter (·.token ≠ .comma) ∧
      ∃ parts, reads (fun _ => False) parts ∧
        parts.map Part.lexeme = between lead (lex source).lexemes := by
  obtain ⟨none, quiet⟩ := Parse.silent_of_clean sound source clean
  obtain ⟨last, parts, read, row⟩ :=
    reading.between_eq (TokenStream.orderly_ofSource source) (sound.leads_run _) none more
      fun parts read => ((shown parts read).of_isSolid solid).2
  refine ⟨quiet last, ?_, parts, read, row⟩
  show _ = (between lead (TokenStream.ofSource source).lexemes).filter _
  rw [← row]
  exact ((shown parts read).of_isSolid solid).1.symm

section Clean

variable {options : ParseOptions} {source : List UInt8}

/-- A formula that is parsed with no failure is canonical, and yields the lexemes of its source. -/
theorem parseFormula_clean (unfailing : (parseFormula options source).failure? = none) :
    (parseFormula options source).root.Canonical ∧
      (lex source).diagnostics.items = [] ∧
      (parseFormula options source).root.flatten =
        (between (leading (lex source).lexemes) (lex source).lexemes).filter (·.token ≠ .comma) ∧
      ∃ parts, (parseFormula options source).root.Yields parts ∧
        parts.map Part.lexeme = between (leading (lex source).lexemes) (lex source).lexemes := by
  have clean := Diagnostics.failure?_eq_none.mp unfailing
  obtain ⟨root, diagnostics⟩ := Parse.parseWith_of_short sound_formula _ options
    (Parse.short_of_clean _ options clean)
  rw [parseFormula, diagnostics, Diagnostics.sort_items_eq_nil] at clean
  have none := (Parse.silent_of_clean sound_formula source clean).1
  have canonical : (formula.run (.ofSource source)).value.Canonical :=
    shaped_formula (by simp [none])
  rw [parseFormula, root]
  refine ⟨canonical, Parse.faithful sound_formula clean
    (reading_formula (TokenStream.orderly_ofSource source)) ?_ (Expr.Reads.shows _)
    (Expr.Shaped.isSolid _ canonical)⟩
  intro l mem
  rw [mem_leading mem]
  rintro ⟨⟩

/-- A list that is parsed with no failure has canonical types and nothing beside them, and yields
the lexemes of its source. -/
theorem parseParameters_clean (unfailing : (parseParameters options source).failure? = none) :
    (∀ f ∈ (parseParameters options source).root.fields,
        (f.names = [] ∧ f.tag = none) ∧ f.type.Canonical) ∧
      (lex source).diagnostics.items = [] ∧
      (parseParameters options source).root.flatten =
        (between [] (lex source).lexemes).filter (·.token ≠ .comma) ∧
      ∃ parts, (parseParameters options source).root.Yields parts ∧
        parts.map Part.lexeme = between [] (lex source).lexemes := by
  have clean := Diagnostics.failure?_eq_none.mp unfailing
  obtain ⟨root, diagnostics⟩ := Parse.parseWith_of_short sound_parametersOnly _ options
    (Parse.short_of_clean _ options clean)
  rw [parseParameters, diagnostics, Diagnostics.sort_items_eq_nil] at clean
  obtain ⟨none, quiet⟩ := Parse.silent_of_clean sound_parametersOnly source clean
  have canonical : ∀ f ∈ (parametersOnly.run (.ofSource source)).value.fields,
      f.type.Canonical := shaped_parametersOnly (by simp [none])
  have reading := reading_parametersOnly (TokenStream.orderly_ofSource source)
  have plain : ∀ f ∈ (parametersOnly.run (.ofSource source)).value.fields,
      f.names = [] ∧ f.tag = .none := by
    obtain ⟨parts, -, reads⟩ := reading.accounts (fun _ => True) (fun _ _ => trivial)
    exact reads.1
  rw [parseParameters, root]
  exact ⟨fun f mem => ⟨plain f mem, canonical f mem⟩,
    Parse.faithful sound_parametersOnly clean reading (by simp) (fun parts reads => reads.shows)
      (FieldList.isSolid plain canonical)⟩

end Clean

/-- **A clean parse neither loses, invents nor reorders a lexeme.** Where parsing a formula ends
with no failure, scanning alone reports nothing either, and the tree laid flat is the lexemes of the
source without what leads them, the end, and all commas. These commas stand where the tree yields
them: one between any two arguments of a call, and at most one behind the last. Parameter lists are
the same, with their entries for arguments and nothing to lead them. -/
theorem clean_parse_faithful (options : ParseOptions) (source : List UInt8) :
    ((parseFormula options source).failure? = none →
      (lex source).diagnostics.items = [] ∧
        (parseFormula options source).root.flatten =
          (between (leading (lex source).lexemes) (lex source).lexemes).filter
            (·.token ≠ .comma) ∧
        ∃ parts, (parseFormula options source).root.Yields parts ∧
          parts.map Part.lexeme =
            between (leading (lex source).lexemes) (lex source).lexemes) ∧
    ((parseParameters options source).failure? = none →
      (lex source).diagnostics.items = [] ∧
        (parseParameters options source).root.flatten =
          (between [] (lex source).lexemes).filter (·.token ≠ .comma) ∧
        ∃ parts, (parseParameters options source).root.Yields parts ∧
          parts.map Part.lexeme = between [] (lex source).lexemes) := by
  constructor
  · exact fun unfailing => (parseFormula_clean unfailing).2
  · exact fun unfailing => (parseParameters_clean unfailing).2

/-- The formula `=F(1,)` and the list `(A,B)` are clean, and their trees are what they are read from
but for the commas. -/
theorem clean_parse_faithful_call_and_list :
    let call := "=F(1,)".toUTF8.toList
    let list := "(A,B)".toUTF8.toList
    ((parseFormula {} call).failure? = none ∧ (lex call).diagnostics.items = [] ∧
      (parseFormula {} call).root.flatten =
        (between (leading (lex call).lexemes) (lex call).lexemes).filter (·.token ≠ .comma) ∧
      (parseFormula {} call).root.flatten =
        [⟨⟨2⟩, .ident, "F"⟩, ⟨⟨3⟩, .openParen, ""⟩, ⟨⟨4⟩, .integer, "1"⟩,
          ⟨⟨6⟩, .closeParen, ""⟩]) ∧
    ((parseParameters {} list).failure? = none ∧
      (parseParameters {} list).root.flatten =
        (between [] (lex list).lexemes).filter (·.token ≠ .comma) ∧
      (parseParameters {} list).root.flatten =
        [⟨⟨1⟩, .openParen, ""⟩, ⟨⟨2⟩, .reference, "A"⟩, ⟨⟨4⟩, .reference, "B"⟩,
          ⟨⟨5⟩, .closeParen, ""⟩]) := by
  intro call list
  have called : (parseFormula {} call).failure? = none := by decide +kernel
  have listed : (parseParameters {} list).failure? = none := by decide +kernel
  obtain ⟨legible, same, -⟩ := (clean_parse_faithful {} call).1 called
  obtain ⟨-, same', -⟩ := (clean_parse_faithful {} list).2 listed
  exact ⟨⟨called, legible, same, by decide +kernel⟩, listed, same', by decide +kernel⟩

end SheetFormula

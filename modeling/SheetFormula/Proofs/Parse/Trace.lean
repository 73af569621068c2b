import Mathlib.Tactic.Common
import SheetFormula.Proofs.Lexeme.Report
import SheetFormula.Proofs.Parse.Whole

/-!
# What tracing shows

Tracing adds records of the parser to the log of a parse and changes nothing else.

* `Trace.TellsOf`: what the records of the parser tell of a run on a source. They are nested like
  the productions of the grammar, with one record for each lexeme that is consumed, and these are
  the lexemes of the source, one after the other, and behind the last of them the end again and
  again.
* `Parse.root_options`, `Parse.diagnostics_options`: what is made of a source does not depend on
  whether tracing is on, since no production looks at that for anything but the log.
* `tracing_tells_of_parse`: both together, for formulas and parameter lists.
-/

namespace SheetFormula

open Grammar

/-! ## Parses of sources -/

/-- Whether the log of a parse tells of a run on its source: the records of the parser are nested,
with one for each lexeme that is consumed, as often as the run has advanced; and these are the
first lexemes of the source, and the end again and again if they are more. -/
structure Trace.TellsOf {α : Type} (source : List UInt8) (run : Outcome α)
    (log : List Log.Record) : Prop where
  nested : Nested false 0 (log.filter (·.isOfParser)) run.journal.consumed
  advanced : run.rest = (TokenStream.ofSource source).skip run.journal.consumed.length
  consumed_eq : run.journal.consumed =
    (lex source).lexemes.take run.journal.consumed.length ++
      List.replicate (run.journal.consumed.length - (lex source).lexemes.length)
        ⟨.ofOffset source.length, .endOfFormula, ""⟩

/-- The end of the stream of a source is the end of the source. -/
theorem TokenStream.finish_ofSource (source : List UInt8) :
    (ofSource source).finish.scanned.lexeme = ⟨.ofOffset source.length, .endOfFormula, ""⟩ := by
  obtain ⟨-, -, -, -, -, ends⟩ :=
    Scanner.tiled_stream (s := .start source) (Reader.behind_start source)
  show Lexeme.mk (ofSource source).finish.pos _ _ = _
  rw [ofSource, ends]

section

variable {α : Type} {production : Production α} (sound : production.Sound) (rejected : α)
  (options options' : ParseOptions) (source : List UInt8)

include sound

/-- What a parse makes of a source does not depend on what is asked of it besides. -/
theorem Parse.root_options :
    (Parse.parseWith production rejected options source).root =
      (Parse.parseWith production rejected options' source).root := by
  by_cases long : characterCount source > lengthLimit
  · simp only [parseWith, if_pos long]
  · have short := Nat.le_of_not_lt long
    rw [(parseWith_of_short sound rejected options short).1,
      (parseWith_of_short sound rejected options' short).1]

/-- Nor do its diagnostics. -/
theorem Parse.diagnostics_options :
    (Parse.parseWith production rejected options source).diagnostics =
      (Parse.parseWith production rejected options' source).diagnostics := by
  by_cases long : characterCount source > lengthLimit
  · simp only [parseWith, if_pos long]
  · have short := Nat.le_of_not_lt long
    rw [(parseWith_of_short sound rejected options short).2,
      (parseWith_of_short sound rejected options' short).2]

end

section

variable {α : Type} {production : Production α} (sound : production.Sound) (rejected : α)
  {source : List UInt8}

/-- The log of a source that is not too long is what the scanner notes of the first lexeme, and then
what the production writes. -/
theorem Parse.log_of_short (production : Production α)
    (short : characterCount source ≤ lengthLimit) (trace : Bool) :
    (Parse.parseWith production rejected ⟨trace⟩ source).log =
      (TokenStream.ofSource source).lookahead.note ++
        (production.pass ⟨trace, 0⟩ (.ofSource source)).log := by
  have other : ¬ characterCount source > lengthLimit := Nat.not_lt.mpr short
  simp only [Parse.parseWith, other, if_false]

include sound

/-- **The traced log of a parse tells of its run**, and the untraced one is what is left of it
without the records of the parser. -/
theorem Parse.tellsOf (short : characterCount source ≤ lengthLimit) :
    Trace.TellsOf source (production.run (.ofSource source))
        (Parse.parseWith production rejected ⟨true⟩ source).log ∧
      (Parse.parseWith production rejected ⟨false⟩ source).log =
        (Parse.parseWith production rejected ⟨true⟩ source).log.filter (!·.isOfParser) := by
  obtain ⟨noted, others⟩ := (TokenStream.ofSource source).lookahead.filter_note
  obtain ⟨advanced, passed⟩ := (sound.leads_run (.ofSource source)).consumed_eq
  rw [log_of_short rejected production short, log_of_short rejected production short]
  refine ⟨⟨?_, advanced, ?_⟩, ?_⟩
  · rw [List.filter_append, noted, List.nil_append]
    exact (sound.tells (.ofSource source)).nested 0
  · rw [TokenStream.passed_eq, TokenStream.finish_ofSource] at passed
    exact passed
  · rw [List.filter_append, others, (sound.tells (.ofSource source)).untraced 0 0]

end

/-- **Tracing does not influence parsing, and its records are a faithful account.** With and without
tracing, the parses of a formula and of a parameter list have the same trees and the same
diagnostics. If the source is not too long, the records that the parser makes under tracing tell of
its run, properly nested and with one record for each lexeme that it consumes, and without tracing
the log is the same but for these records. -/
theorem tracing_tells_of_parse (source : List UInt8) :
    ((parseFormula ⟨true⟩ source).root = (parseFormula ⟨false⟩ source).root ∧
      (parseFormula ⟨true⟩ source).diagnostics = (parseFormula ⟨false⟩ source).diagnostics) ∧
    ((parseParameters ⟨true⟩ source).root = (parseParameters ⟨false⟩ source).root ∧
      (parseParameters ⟨true⟩ source).diagnostics =
        (parseParameters ⟨false⟩ source).diagnostics) ∧
    (characterCount source ≤ lengthLimit →
      (Trace.TellsOf source (formula.run (.ofSource source)) (parseFormula ⟨true⟩ source).log ∧
        (parseFormula ⟨false⟩ source).log =
          (parseFormula ⟨true⟩ source).log.filter (!·.isOfParser)) ∧
      (Trace.TellsOf source (parametersOnly.run (.ofSource source))
          (parseParameters ⟨true⟩ source).log ∧
        (parseParameters ⟨false⟩ source).log =
          (parseParameters ⟨true⟩ source).log.filter (!·.isOfParser))) := by
  refine ⟨?_, ?_, ?_⟩
  · exact ⟨Parse.root_options sound_formula _ _ _ source,
      Parse.diagnostics_options sound_formula _ _ _ source⟩
  · exact ⟨Parse.root_options sound_parametersOnly _ _ _ source,
      Parse.diagnostics_options sound_parametersOnly _ _ _ source⟩
  · intro short
    exact ⟨Parse.tellsOf sound_formula _ short, Parse.tellsOf sound_parametersOnly _ short⟩

/-- The log of `F(1 2`: the scanner notes how it has taken the name, and the parser tells of a run
that takes `2` for a comma, with its text, and then consumes the end for want of a parenthesis. -/
theorem tracing_tells_of_unclosed :
    let source := "F(1 2".toUTF8.toList
    characterCount source ≤ lengthLimit ∧
      Trace.TellsOf source (formula.run (.ofSource source)) (parseFormula ⟨true⟩ source).log ∧
      (parseFormula ⟨true⟩ source).log =
        ⟨.trace, "formula_syntax::scanner", "\"F\" classified as IDENT (previous token ILLEGAL)"⟩ ::
          ["Formula (", "..Expression (", "....BinaryExpr (", "......UnaryExpr (",
            "........PrimaryExpr (", "..........Operand (", "............IDENT ", "..........)",
            "..........Call (", "............\"(\"", "............Expression (",
            "..............BinaryExpr (", "................UnaryExpr (",
            "..................PrimaryExpr (", "....................Operand (",
            "......................INT ", "....................)", "..................)",
            "................)", "..............)", "............)", "............INT 2",
            "............EOF", "..........)", "........)", "......)", "....)", "..)", ")"].map
              fun message => ⟨.trace, "formula_syntax::parser", message⟩ := by
  intro source
  have short : characterCount source ≤ lengthLimit := by decide +kernel
  exact ⟨short, ((tracing_tells_of_parse source).2.2 short).1.1, by decide +kernel⟩

end SheetFormula

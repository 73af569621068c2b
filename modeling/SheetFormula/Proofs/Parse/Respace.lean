import Mathlib.Tactic.Common
import SheetFormula.Proofs.Lexeme.Respace
import SheetFormula.Proofs.Parse.Relocation

/-!
# Formulas with other gaps

How wide the gaps of a formula are, and of what blanks they are made, is of no account. When a
source gets other gaps, each empty, with a line break in it or with one at its end exactly if the
one that it replaces is, then it has the same lexemes, the same tree and the same diagnostics, and
every place has gone along with its text. Strings that lack their end are left out, as such a string
takes the gap behind it for its own text.

Main results:
* `TokenStream.ofSource_respaced`, from the scanner: the streams of both sources are the same but
  for the places.
* `Relocation.Carries.parseWith`, from the parser: what is the same but for the places is parsed to
  the same.
* `layout_insensitive`: both together, with the relocation that the other gaps make.
-/

namespace SheetFormula

open Production Grammar

/-- What the scans of a source report is among its lexical diagnostics. -/
theorem mem_lex_of_mem_reports {source : List UInt8} {scan : Scanned}
    (mem : scan ∈ (TokenStream.ofSource source).scans) {d : Diagnostic}
    (reported : d ∈ scan.reports) : d ∈ (lex source).diagnostics.items := by
  rw [lex, Diagnostics.sort, List.mem_mergeSort]
  exact List.mem_append_right _ (List.mem_flatMap.mpr ⟨scan, mem, reported⟩)

/-- **Layout is of no account.** Let a source be tiled by its lexemes, with no string that lacks its
end, and let another one have the same texts behind gaps that are like its own. Then offsets can go
where the texts go, and where they do, the lexemes, the trees and the diagnostics of the one source
become those of the other one. -/
theorem layout_insensitive (options : ParseOptions) {slots : List Slot}
    {last last' source source' : List UInt8}
    (covers : source = Tile.cover (slots.map Slot.tile) ++ last)
    (covers' : source' = Slot.cover slots ++ last')
    (tiled : Tiled [] (slots.map Slot.tile) last)
    (lexemes : (lex source).lexemes.dropLast = (slots.map Slot.tile).map Tile.lexeme)
    (closed : ∀ d ∈ (lex source).diagnostics.items,
      d.message ≠ LexicalFault.unterminatedString.message)
    (alike : ∀ slot ∈ slots, GapsAlike slot.tile.gap slot.gap) (alikeLast : GapsAlike last last')
    (short : characterCount source ≤ 8192) (short' : characterCount source' ≤ 8192) :
    (∃ move, Respaces move slots last last') ∧ ∀ move, Respaces move slots last last' →
      (lex source').lexemes = (lex source).lexemes.map (Lexeme.relocate move) ∧
      ((parseFormula options source').root = (parseFormula options source).root.relocate move ∧
        (parseFormula options source').diagnostics.items =
          (parseFormula options source).diagnostics.items.map (Diagnostic.relocate move)) ∧
      (parseParameters options source').root =
          (parseParameters options source).root.relocate move ∧
        (parseParameters options source').diagnostics.items =
          (parseParameters options source).diagnostics.items.map (Diagnostic.relocate move) := by
  refine ⟨⟨_, Respaces.of_alike alike alikeLast⟩, ?_⟩
  intro move respaces
  have row : (TokenStream.ofSource source).tokens.map Scanned.lexeme =
      (slots.map Slot.tile).map Tile.lexeme := by
    rw [← lexemes]
    exact (List.dropLast_concat ..).symm
  obtain ⟨moved, opening⟩ := TokenStream.ofSource_respaced (respaces.follows alike alikeLast) tiled
    alike alikeLast covers covers' row fun scan mem d reported =>
      closed d (mem_lex_of_mem_reports mem reported)
  obtain ⟨root, diagnostics⟩ := Relocation.carries_formula.parseWith sound_formula sound_formula
    (.bad (.ofOffset 0) (.ofOffset source.length)) (.bad (.ofOffset 0) (.ofOffset source'.length))
    options short short' moved opening
  obtain ⟨root', diagnostics'⟩ := Relocation.carries_parametersOnly.parseWith sound_parametersOnly
    sound_parametersOnly .empty .empty options short short' moved opening
  exact ⟨moved.lexemes_eq, ⟨root, diagnostics.eq_map⟩, root', diagnostics'.eq_map⟩

/-- The lexemes of `1 +`, with other gaps in front of them. -/
def spacedSum : List Slot :=
  [⟨⟨[], Text.encoded "1", ⟨.ofOffset 0, .integer, "1"⟩⟩, []⟩,
    ⟨⟨Text.encoded " ", Text.encoded "+", ⟨.ofOffset 2, .plus, ""⟩⟩, Text.encoded "\t "⟩]

/-- A sum that breaks off at the end of its line, with other gaps: the line break that is found
where an operand should be has moved with the end. -/
theorem layout_insensitive_broken_off :
    ∃ move, Respaces move spacedSum (Text.encoded "\n") (Text.encoded " \n") ∧
      (parseFormula {} (Text.encoded "1\t + \n")).root =
        (parseFormula {} (Text.encoded "1 +\n")).root.relocate move ∧
      (parseFormula {} (Text.encoded "1\t + \n")).diagnostics.items =
        [⟨6, "expected operand, found newline"⟩] := by
  have covers : Text.encoded "1 +\n" =
      Tile.cover (spacedSum.map Slot.tile) ++ Text.encoded "\n" := by
    decide +kernel
  have covers' : Text.encoded "1\t + \n" = Slot.cover spacedSum ++ Text.encoded " \n" := by
    decide +kernel
  have one : "1" = Text.lossyString (Text.encoded "1") := by decide +kernel
  have tiled : Tiled [] (spacedSum.map Slot.tile) (Text.encoded "\n") := by
    refine .tile ⟨?_, ?_, ?_, rfl, one⟩ (.tile ⟨?_, ?_, ?_, rfl, rfl, rfl⟩ (.last ?_))
    all_goals decide +kernel
  have alike : ∀ slot ∈ spacedSum, GapsAlike slot.tile.gap slot.gap := by
    rw [spacedSum, List.forall_mem_cons, List.forall_mem_singleton]
    refine ⟨⟨?_, ?_, ?_, ?_⟩, ?_, ?_, ?_, ?_⟩
    all_goals decide +kernel
  have alikeLast : GapsAlike (Text.encoded "\n") (Text.encoded " \n") := by
    refine ⟨?_, ?_, ?_, ?_⟩
    all_goals decide +kernel
  obtain ⟨⟨move, respaces⟩, same⟩ := layout_insensitive {} covers covers' tiled
    (by decide +kernel) (by decide +kernel) alike alikeLast (by decide +kernel)
    (by decide +kernel)
  refine ⟨move, respaces, (same move respaces).2.1.1, ?_⟩
  decide +kernel

end SheetFormula

import Mathlib.Tactic.Common
import SheetFormula.Proofs.Parse.Complete
import SheetFormula.Proofs.Parse.Nesting
import SheetFormula.Proofs.Parse.Whole

/-!
# Parsing is exact

A source whose lexemes are what a canonical tree yields is parsed to that tree, with nothing to
report, if no leaf stands under more than 63 levels; and if one does, the first thing to report is
that the nesting is too deep.

With enough room any canonical tree is read (`Expr.Canonical.parses`), and with the room that there
is, the parse does the same or is cut short (`cuts_unary`). It cannot do the same for a tree that is
too deep, as no leaf is ever read deeper than there is room (`Derives.bounded`).

Main results:
* `Parse.diagnostics_of_legible`: where scanning alone reports nothing, the diagnostics of a parse
  are the faults of the parser.
* `Expr.Canonical.cleanly` and `Expr.Canonical.cut`: what becomes of a tree with enough room, and
  with too little.
* `parse_canonical`: parsing is complete for the grammar, up to the exact limit.
-/

namespace SheetFormula

open Production Grammar

/-! ## Sources without illegal characters -/

/-- Where scanning alone reports nothing, neither does any scan of it. -/
theorem silent_of_legible {source : List UInt8} (legible : (lex source).diagnostics.items = []) :
    Scanner.openingReports source = [] ∧
      ∀ scan ∈ (TokenStream.ofSource source).scans, scan.reports = [] := by
  rw [lex, Diagnostics.sort_items_eq_nil] at legible
  obtain ⟨opening, scans⟩ := List.append_eq_nil_iff.mp legible
  exact ⟨opening, List.flatMap_eq_nil_iff.mp scans⟩

/-- Where scanning alone reports nothing, the diagnostics of a parse are the faults that the parser
has noted, in the order in which it has noted them. -/
theorem Parse.diagnostics_of_legible {α : Type} {production : Production α}
    (sound : production.Sound) (rejected : α) (options : ParseOptions) {source : List UInt8}
    (short : characterCount source ≤ lengthLimit)
    (legible : (lex source).diagnostics.items = []) :
    (Parse.parseWith production rejected options source).diagnostics.items =
      (production.run (.ofSource source)).journal.noted.map fun n => ⟨n.1, n.2.message⟩ := by
  obtain ⟨opening, scans⟩ := silent_of_legible legible
  have leads := sound.leads_run (.ofSource source)
  have front := scans _ (TokenStream.ofSource source).lookahead_mem_scans
  rw [(Parse.parseWith_of_short sound rejected options short).2, Diagnostics.sort,
    Parse.reports, opening, front, (leads.reports_eq scans).1, List.nil_append, List.nil_append]
  apply List.mergeSort_of_pairwise
  rw [List.pairwise_map]
  apply (leads.noted_ascends (TokenStream.orderly_ofSource source)).imp
  intro n m before
  exact decide_eq_true before

/-! ## The expression of a formula -/

/-- The lexemes ahead of the expression of a formula are those between what leads and the end. -/
theorem tokens_behindLead (s : TokenStream) :
    s.behindLead.tokens.map Scanned.lexeme = between (leading s.lexemes) s.lexemes := by
  have row : ∀ s : TokenStream, s.lexemes.dropLast = s.tokens.map Scanned.lexeme := by
    intro s
    rw [TokenStream.lexemes, List.dropLast_concat]
  rw [← consumed_leadJournal, leadJournal, TokenStream.behindLead]
  by_cases lead : s.lookahead.token = .lead
  · have more : s.tokens ≠ [] := by
      apply s.tokens_ne_nil
      rw [lead]
      rintro ⟨⟩
    rw [if_pos lead, if_pos lead, TokenStream.lexemes_of_ne more, ← row]
    rfl
  · rw [if_neg lead, if_neg lead, ← row]
    rfl

section

variable {s : TokenStream} {x : Expr} {parts : List Part}

/-- With enough room, what a canonical tree yields is read to that tree, up to the end. -/
theorem Expr.Canonical.cleanly (canonical : x.Canonical) (yields : x.Yields parts)
    (row : s.tokens.map Scanned.lexeme = parts.map Part.lexeme) {room : Nat} (fits : x.Fits room) :
    ∃ t, t.tokens = [] ∧ Cleanly (.expression room x) s t := by
  obtain ⟨t, passes, last⟩ := exists_passes row
  have ends := TokenStream.lookahead_token_of_nil last
  have climb := (Canonical.parses x canonical).climb
  refine ⟨t, last, climb.expression canonical yields passes fits ?_ ?_⟩
  · rw [ends]
    rfl
  · rw [ends]
    rintro ⟨⟩

/-- Some room is above the levels of all leaves, however much is asked for besides. -/
theorem exists_room (least : Nat) (leaves : List (Expr × Nat)) :
    ∃ room, least ≤ room ∧ ∀ leaf ∈ leaves, leaf.2 < 0 + room := by
  induction leaves with
  | nil => exact ⟨least, Nat.le_refl _, fun _ mem => absurd mem List.not_mem_nil⟩
  | cons leaf leaves ih =>
    obtain ⟨room, more, bound⟩ := ih
    refine ⟨max room (leaf.2 + 1), by omega, List.forall_mem_cons.mpr ⟨by omega, ?_⟩⟩
    intro other mem
    have := bound other mem
    omega

/-- Some room is enough for a tree, however much is asked for besides. -/
theorem Expr.exists_fits (x : Expr) (least : Nat) : ∃ room, least ≤ room ∧ x.Fits room := by
  obtain ⟨room, more, bound⟩ := exists_room least (x.leavesAt 0)
  exact ⟨room, more, 0, bound⟩

/-- A tree that does not fit is cut off: with the room of a whole expression, the first fault that
is noted is the nesting. -/
theorem Expr.Canonical.cut (canonical : x.Canonical) (yields : x.Yields parts)
    (row : s.tokens.map Scanned.lexeme = parts.map Part.lexeme)
    (deep : ∃ leaf ∈ x.leaves, nestingLimit ≤ leaf.2) :
    ∃ offset later, (Grammar.expression.run s).journal.noted =
      (offset, .nestingExceeded) :: later := by
  obtain ⟨room, more, fits⟩ := x.exists_fits nestingLimit
  obtain ⟨t, last, journal, silent, derived⟩ := canonical.cleanly yields row fits
  have ran : (expressionOf (Grammar.unary room)).run s = ⟨x, t, journal⟩ := derived.runs
  -- With more room the tree is read and nothing noted. With the room there is, reading it either
  -- does the same, which the deep leaf rules out, or breaks off with nothing noted in front.
  rcases cuts_expressionOf (cuts_unary more) s with same | cut
  · exfalso
    have value : (Grammar.expression.run s).value = x := by
      rw [Grammar.expression, same, ran]
    have within := (derives_expression s).bounded
    rw [value] at within
    obtain ⟨leaf, mem, level⟩ := deep
    have bound := (within 0 leaf mem).2 (Canonical.not_isBad_leaf x canonical 0 leaf mem)
    omega
  · rw [ran] at cut
    obtain ⟨before, offset, later, journal_eq, rest, agrees⟩ := cut
    have quiet : Journal.noted before = [] := by
      have split : before ++ rest = journal := agrees
      rw [← split, Journal.noted_append, List.append_eq_nil_iff] at silent
      exact silent.1
    refine ⟨offset, Journal.noted later, ?_⟩
    rw [Grammar.expression, journal_eq, Journal.noted_append, quiet, List.nil_append]
    rfl

end

/-- The lexemes ahead of the expression of a formula are those of parts, if these are what the
source has between what leads it and its end. -/
theorem tokens_behindLead_eq {source : List UInt8} {parts : List Part}
    (row : parts.map Part.lexeme = between (leading (lex source).lexemes) (lex source).lexemes) :
    (TokenStream.ofSource source).behindLead.tokens.map Scanned.lexeme =
      parts.map Part.lexeme := by
  rw [tokens_behindLead, row]
  rfl

/-- A source whose lexemes a canonical tree with room for its leaves yields is parsed to it. -/
theorem parseFormula_of_yields (options : ParseOptions) {source : List UInt8}
    (short : characterCount source ≤ lengthLimit)
    (legible : (lex source).diagnostics.items = []) {x : Expr} (canonical : x.Canonical)
    {parts : List Part} (yields : x.Yields parts)
    (row : parts.map Part.lexeme = between (leading (lex source).lexemes) (lex source).lexemes)
    (shallow : ∀ leaf ∈ x.leaves, leaf.2 < nestingLimit) :
    (parseFormula options source).root = x ∧ (parseFormula options source).failure? = none := by
  have fits : x.Fits nestingLimit := by
    refine ⟨0, ?_⟩
    rwa [Nat.zero_add]
  obtain ⟨t, last, journal, silent, derived⟩ :=
    canonical.cleanly yields (tokens_behindLead_eq row) fits
  have ran : Grammar.expression.run (TokenStream.ofSource source).behindLead = ⟨x, t, journal⟩ :=
    derived.runs
  have ends := TokenStream.lookahead_token_of_nil last
  have none : (formula.run (.ofSource source)).journal.noted = [] := by
    simp [run_formula, ran, silent, expectEnd, ends]
  refine ⟨?_, ?_⟩
  · rw [parseFormula, (Parse.parseWith_of_short sound_formula _ options short).1, run_formula, ran]
  · rw [Parsed.failure?, Diagnostics.failure?_eq_none, parseFormula,
      Parse.diagnostics_of_legible sound_formula _ options short legible, none]
    rfl

/-- **Parsing is complete for its grammar, up to an exact limit.** Let a source be not too long and
without anything for the scanner to report, and let a canonical tree yield its lexemes, less the one
that leads and the end. If each leaf of the tree stands under at most 63 levels, the source is
parsed to that tree, with no failure; if one stands deeper, the first of the diagnostics says so. -/
theorem parse_canonical (options : ParseOptions) {source : List UInt8}
    (short : characterCount source ≤ lengthLimit)
    (legible : (lex source).diagnostics.items = []) {x : Expr} (canonical : x.Canonical)
    {parts : List Part} (yields : x.Yields parts)
    (row : parts.map Part.lexeme = between (leading (lex source).lexemes) (lex source).lexemes) :
    ((∀ leaf ∈ x.leaves, leaf.2 ≤ 63) →
      (parseFormula options source).root = x ∧ (parseFormula options source).failure? = none) ∧
    ((∃ leaf ∈ x.leaves, 64 ≤ leaf.2) →
      ∃ offset later, (parseFormula options source).diagnostics.items =
        ⟨offset, "expression nesting exceeds 64 levels"⟩ :: later) := by
  constructor
  · intro shallow
    apply parseFormula_of_yields options short legible canonical yields row
    exact fun leaf mem => Nat.lt_succ_of_le (shallow leaf mem)
  · intro deep
    obtain ⟨offset, later, noted⟩ := canonical.cut yields (tokens_behindLead_eq row) deep
    have first : (formula.run (.ofSource source)).journal.noted =
        (offset, .nestingExceeded) :: (later ++
          (expectEnd.run (Grammar.expression.run
            (TokenStream.ofSource source).behindLead).rest).journal.noted) := by
      simp [run_formula, noted]
    have diagnostics := Parse.diagnostics_of_legible sound_formula
      (.bad (.ofOffset 0) (.ofOffset source.length)) options short legible
    rw [first, List.map_cons] at diagnostics
    exact ⟨offset, _, diagnostics⟩

/-! ## At the limit

A value behind minus signs has its level from them alone, so that the limit lies between 63 and 64
signs. -/

/-- The value `1` behind so many minus signs, the first at a position. -/
def behindSigns : (signs first : Nat) → Expr
  | 0, first => .literal ⟨⟨first⟩, .integer, "1"⟩
  | signs + 1, first => .unary ⟨first⟩ .minus (behindSigns signs (first + 1))

/-- What the value behind minus signs is read from. -/
def signParts : (signs first : Nat) → List Part
  | 0, first => [⟨.value, ⟨first⟩, .integer, "1"⟩]
  | signs + 1, first => ⟨.operator, ⟨first⟩, .minus, ""⟩ :: signParts signs (first + 1)

/-- A value behind minus signs is canonical, and no binary operation. -/
theorem canonical_behindSigns (signs first : Nat) :
    (behindSigns signs first).Canonical ∧ ¬ (behindSigns signs first).isBinary := by
  induction signs generalizing first with
  | zero => exact ⟨rfl, Bool.false_ne_true⟩
  | succ signs ih =>
    obtain ⟨canonical, single⟩ := ih (first + 1)
    exact ⟨⟨rfl, single, canonical⟩, Bool.false_ne_true⟩

/-- It is read from its signs and the value. -/
theorem yields_behindSigns (signs first : Nat) :
    (behindSigns signs first).Yields (signParts signs first) := by
  induction signs generalizing first with
  | zero => rfl
  | succ signs ih => exact ⟨_, ih (first + 1), rfl⟩

/-- It has one leaf, at a level for each sign. -/
theorem level_behindSigns (signs first level : Nat) :
    ((behindSigns signs first).leavesAt level).map Prod.snd = [level + signs] := by
  induction signs generalizing first level with
  | zero => rfl
  | succ signs ih =>
    rw [behindSigns, Expr.leavesAt, ih]
    congr 1
    omega

/-- Behind 63 minus signs a value is parsed, and behind 64 the nesting is too deep. -/
theorem parse_canonical_signs :
    ((parseFormula {} (List.replicate 63 0x2D ++ [0x31])).root = behindSigns 63 1 ∧
      (parseFormula {} (List.replicate 63 0x2D ++ [0x31])).failure? = none) ∧
    ∃ offset later, (parseFormula {} (List.replicate 64 0x2D ++ [0x31])).diagnostics.items =
      ⟨offset, "expression nesting exceeds 64 levels"⟩ :: later := by
  have levels : ∀ signs, ∀ leaf ∈ (behindSigns signs 1).leaves, leaf.2 = signs := by
    intro signs leaf mem
    have level := List.mem_map_of_mem (f := Prod.snd) mem
    rw [Expr.leaves, level_behindSigns, List.mem_singleton, Nat.zero_add] at level
    exact level
  constructor
  · have legible : (lex (List.replicate 63 0x2D ++ [0x31])).diagnostics.items = [] := by
      decide +kernel
    have exact63 := parse_canonical {} (by decide +kernel) legible (canonical_behindSigns 63 1).1
      (yields_behindSigns 63 1) (by decide +kernel)
    exact exact63.1 fun leaf mem => Nat.le_of_eq (levels 63 leaf mem)
  · have legible : (lex (List.replicate 64 0x2D ++ [0x31])).diagnostics.items = [] := by
      decide +kernel
    have exact64 := parse_canonical {} (by decide +kernel) legible (canonical_behindSigns 64 1).1
      (yields_behindSigns 64 1) (by decide +kernel)
    obtain ⟨leaf, mem, -⟩ := (behindSigns 64 1).exists_mem_leavesAt 0
    exact exact64.2 ⟨leaf, mem, Nat.le_of_eq (levels 64 leaf mem).symm⟩

end SheetFormula

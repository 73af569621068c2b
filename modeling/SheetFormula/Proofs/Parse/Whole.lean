import Mathlib.Tactic.Common
import SheetFormula.Parse
import SheetFormula.Proofs.Parse.Account
import SheetFormula.Proofs.Parse.Shape
import SheetFormula.Proofs.Parse.Tracing
import SheetFormula.Tree.Node

/-!
# Whole formulas and whole lists

The two productions that read a source from its start to its end. Both are much alike: a lexeme that
leads is passed over, if the production allows for one, a tree is read from what follows, and at
last whatever is left over is reported (`Reading`). What is proved of such a run carries over to the
parse of a source.

Main results:
* `reading_formula` and `reading_parametersOnly`: a run of either production is a reading of its
  tree.
* `shaped_formula` and `shaped_parametersOnly`: the trees are shaped.
* `sound_formula` and `sound_parametersOnly`: what the modules on parses of sources rely on
  (`Production.Sound`).
* `Parse.parseWith_of_short`: a source that is not too long is parsed by running the production.
* `Parse.forall_roots`: what is true of the two trees and of those of rejected sources is true of
  every parse.
-/

namespace SheetFormula

open Production Grammar

/-- The lexeme that leads a formula, if it stands in front of these. -/
def leading (lexemes : List Lexeme) : List Lexeme := (lexemes.take 1).filter (·.token = .lead)

/-- The lexemes of a source between what leads it and its end. -/
def between (lead lexemes : List Lexeme) : List Lexeme := (lexemes.drop lead.length).dropLast

/-- What leads is of the kind that leads. -/
theorem mem_leading {l : Lexeme} {lexemes : List Lexeme} (mem : l ∈ leading lexemes) :
    l.token = .lead := by
  simpa using (List.mem_filter.mp mem).2

/-- What a run of a whole production on a stream is: lexemes `lead` that are passed over, parts that
its tree `reads` as far as no fault excuses it, and an end, or a fault because there is none. -/
structure Reading {α : Type} (reads : (Nat → Prop) → List Part → Prop) (lead : List Lexeme)
    (ran : Outcome α) : Prop where
  accounts : ∀ excused : Nat → Prop, (∀ n ∈ ran.journal.noted, excused n.1) →
    ∃ parts, ran.journal.consumed = lead ++ parts.map Part.lexeme ∧ reads excused parts
  ends : ran.rest.lookahead.token = .endOfFormula ∨
    (ran.rest.lookahead.pos.offset,
      .expected .endOfFormula (some ran.rest.lookahead.found)) ∈ ran.journal.noted

section Runs

variable (s : TokenStream)

/-- Expecting the end leaves the stream as it is. -/
@[simp] theorem rest_expectEnd : (expectEnd.run s).rest = s := by
  by_cases last : s.lookahead.token = .endOfFormula <;> simp [expectEnd, last]

/-- It consumes nothing. -/
@[simp] theorem consumed_expectEnd : (expectEnd.run s).journal.consumed = [] := by
  by_cases last : s.lookahead.token = .endOfFormula
  · simp [expectEnd, last]
  · simp [expectEnd, last, Journal.consumed]

/-- At the end a fault is noted unless nothing is left over. -/
theorem ends_expectEnd : s.lookahead.token = .endOfFormula ∨
    (s.lookahead.pos.offset, .expected .endOfFormula (some s.lookahead.found)) ∈
      (expectEnd.run s).journal.noted := by
  by_cases last : s.lookahead.token = .endOfFormula
  · exact .inl last
  · right
    simp [expectEnd, last, Journal.noted]

/-- It leads nowhere else. -/
theorem leads_expectEnd : Journal.Leads s (expectEnd.run s).journal s := by
  by_cases last : s.lookahead.token = .endOfFormula
  · simpa [expectEnd, last] using Journal.Leads.nothing s
  · simpa [expectEnd, last] using Journal.Leads.report _ (.nothing s)

/-- It refuses no expression. -/
@[simp] theorem accepts_expectEnd : (expectEnd.run s).journal.Accepts := by
  by_cases last : s.lookahead.token = .endOfFormula
  · simp [expectEnd, last]
  · simp [expectEnd, last, Journal.Accepts, Journal.noted, SyntaxFault.isRefusal]

/-- The stream that the expression of a formula is read from. -/
def TokenStream.behindLead : TokenStream :=
  if s.lookahead.token = .lead then s.advance else s

/-- What the journal shows of a lexeme that leads. -/
def leadJournal : Journal := if s.lookahead.token = .lead then [s.taking false] else []

/-- The lead leads behind itself. -/
theorem leads_leadJournal : Journal.Leads s (leadJournal s) s.behindLead := by
  unfold leadJournal TokenStream.behindLead
  split
  · exact .consume false (.nothing _)
  · exact .nothing s

/-- A formula is its expression, behind what leads it and in front of its end. -/
theorem run_formula :
    formula.run s = ⟨(Grammar.expression.run s.behindLead).value,
      (Grammar.expression.run s.behindLead).rest,
      Rule.formula.around (leadJournal s ++ (Grammar.expression.run s.behindLead).journal ++
        (expectEnd.run (Grammar.expression.run s.behindLead).rest).journal)⟩ := by
  by_cases lead : s.lookahead.token = .lead
  · simp [formula, lead, TokenStream.behindLead, leadJournal, Rule.around, TokenStream.taking]
  · simp [formula, lead, TokenStream.behindLead, leadJournal, Rule.around]

/-- Behind the lead the stream is orderly too. -/
theorem orderly_behindLead {s : TokenStream} (start : s.Orderly) : s.behindLead.Orderly := by
  unfold TokenStream.behindLead
  split
  · exact start.advance
  · exact start

/-- What holds of a stream holds behind its lead. -/
theorem AdmitsGaps.behindLead {missing : Pos → Pos → Prop} {noted : List (Nat × SyntaxFault)}
    {s : TokenStream} (gaps : AdmitsGaps missing noted s) :
    AdmitsGaps missing noted s.behindLead := by
  unfold TokenStream.behindLead
  split
  · exact gaps.advance
  · exact gaps

/-- The lead is consumed, if there is one. -/
theorem consumed_leadJournal : (leadJournal s).consumed = leading s.lexemes := by
  obtain ⟨later, front⟩ := s.lexemes_eq_cons
  rw [leadJournal, leading, front, List.take_succ_cons, List.take_zero]
  by_cases lead : s.lookahead.token = .lead
  · rw [if_pos lead, List.filter_cons_of_pos (by simpa [Scanned.token] using lead)]
    rfl
  · rw [if_neg lead, List.filter_cons_of_neg (by simpa [Scanned.token] using lead)]
    rfl

/-- No fault is noted at it. -/
@[simp] theorem noted_leadJournal : (leadJournal s).noted = [] := by
  unfold leadJournal
  split <;> rfl

end Runs

variable {s : TokenStream}

/-- **A formula notes its faults at the lexemes in front of it**, and consumes what is ahead. -/
theorem leads_formula (s : TokenStream) :
    Journal.Leads s (formula.run s).journal (formula.run s).rest := by
  rw [run_formula]
  have root := (derives_expression s.behindLead).leads
  exact (((leads_leadJournal s).append root).append (leads_expectEnd _)).around _

/-- A formula has no expression that is refused. -/
theorem accepts_formula (s : TokenStream) : (formula.run s).journal.Accepts := by
  rw [run_formula]
  have front : (leadJournal s).Accepts := by simp [Journal.Accepts]
  simpa [front] using (derives_expression s.behindLead).accepts

/-- **A run of the production of formulas is a reading of its tree.** -/
theorem reading_formula (start : s.Orderly) :
    Reading (fun excused => (formula.run s).value.Reads excused) (leading s.lexemes)
      (formula.run s) := by
  rw [run_formula]
  constructor
  · intro excused excuse
    simp only [Journal.noted_around, Journal.noted_append, noted_leadJournal, List.nil_append,
      List.forall_mem_append] at excuse
    obtain ⟨parts, consumed, reads⟩ :=
      (derives_expression s.behindLead).accounts trivial (orderly_behindLead start) excuse.1
    refine ⟨parts, ?_, reads⟩
    simp [consumed, consumed_leadJournal]
  · simp only [Journal.noted_around, Journal.noted_append, List.mem_append]
    exact (ends_expectEnd _).imp_right .inr

/-- **A run of the production of formulas makes a shaped tree.** -/
theorem shaped_formula {missing : Pos → Pos → Prop}
    (gaps : AdmitsGaps missing (formula.run s).journal.noted s) :
    (formula.run s).value.Shaped missing := by
  rw [run_formula] at gaps ⊢
  simp only [Journal.noted_around, Journal.noted_append, noted_leadJournal, List.nil_append,
    admitsGaps_append] at gaps
  exact (derives_expression s.behindLead).shapes trivial gaps.1.behindLead

/-! ## Parameter lists -/

/-- What is read between the parentheses of a list: nothing at all, or some entries. -/
def betweenParentheses (s : TokenStream) : Outcome (List Field) :=
  if s.lookahead.token ≠ .closeParen then parameterList.run s else ⟨[], s, []⟩

/-- A list is its entries between its parentheses, in front of its end. -/
theorem run_parametersOnly (s : TokenStream) :
    parametersOnly.run s =
      let inside := betweenParentheses s.advance
      ⟨⟨s.lookahead.pos, inside.value, inside.rest.lookahead.pos⟩, inside.rest.advance,
        Rule.parameters.around (((expect .openParen).run s).journal ++
            (inside.journal ++ ((expect .closeParen).run inside.rest).journal)) ++
          (expectEnd.run inside.rest.advance).journal⟩ := by
  by_cases none : s.advance.lookahead.token = .closeParen
  · simp [parametersOnly, parameters, betweenParentheses, none, value_expect, rest_expect,
      Rule.around]
  · simp [parametersOnly, parameters, betweenParentheses, none, value_expect, rest_expect,
      Rule.around]

/-- Between parentheses there is nothing at all, or there are entries that are derived. -/
theorem betweenParentheses_cases (s : TokenStream) :
    betweenParentheses s = ⟨[], s, []⟩ ∨
      ∃ journal, (betweenParentheses s).journal = Rule.parameterList.around journal ∧
        Derives (.entries (betweenParentheses s).value) s journal (betweenParentheses s).rest := by
  unfold betweenParentheses
  split
  · exact .inr (derives_parameterList s)
  · exact .inl rfl

/-- What is between the parentheses leads from the one to the other. -/
theorem leads_betweenParentheses (s : TokenStream) :
    Journal.Leads s (betweenParentheses s).journal (betweenParentheses s).rest := by
  rcases betweenParentheses_cases s with none | ⟨journal, around, derived⟩
  · rw [none]
    exact .nothing s
  · rw [around]
    exact derived.leads.around _

/-- **A parameter list notes its faults at the lexemes in front of it**, and consumes what is
ahead. -/
theorem leads_parametersOnly (s : TokenStream) :
    Journal.Leads s (parametersOnly.run s).journal (parametersOnly.run s).rest := by
  rw [run_parametersOnly]
  have opening := (demands_expect .openParen s).leads
  have closing := (demands_expect .closeParen (betweenParentheses s.advance).rest).leads
  have list := opening.append ((leads_betweenParentheses s.advance).append closing)
  exact (list.around _).append (leads_expectEnd _)

/-- A parameter list has no expression that is refused. -/
theorem accepts_parametersOnly (s : TokenStream) : (parametersOnly.run s).journal.Accepts := by
  rw [run_parametersOnly]
  have inside : (betweenParentheses s.advance).journal.Accepts := by
    rcases betweenParentheses_cases s.advance with none | ⟨journal, around, derived⟩
    · simp [none]
    · simpa [around] using derived.accepts
  simp [inside]

variable {excused : Nat → Prop}

/-- What is consumed between the parentheses becomes parts of the entries. -/
theorem accounts_betweenParentheses (start : s.Orderly)
    (excuse : ∀ n ∈ (betweenParentheses s).journal.noted, excused n.1) :
    ∃ parts, parts.map Part.lexeme = (betweenParentheses s).journal.consumed ∧
      (Phrase.entries (betweenParentheses s).value).Accounts excused parts := by
  rcases betweenParentheses_cases s with none | ⟨journal, around, derived⟩
  · rw [none]
    exact ⟨[], rfl, by simp, rfl⟩
  · rw [around, Journal.noted_around] at excuse
    rw [around, Journal.consumed_around]
    exact derived.accounts trivial start excuse

/-- **A run of the production of parameter lists is a reading of its tree.** -/
theorem reading_parametersOnly (start : s.Orderly) :
    Reading (fun excused => (parametersOnly.run s).value.Reads excused) []
      (parametersOnly.run s) := by
  rw [run_parametersOnly]
  have leads := leads_betweenParentheses s.advance
  have within := leads.orderly start.advance
  have opening := demands_expect .openParen s
  have closing := demands_expect .closeParen (betweenParentheses s.advance).rest
  constructor
  · intro excused excuse
    simp only [Journal.noted_around, Journal.noted_append, List.forall_mem_append] at excuse
    obtain ⟨⟨excuseOpening, excuseInside, excuseClosing⟩, -⟩ := excuse
    obtain ⟨parts, consumed, plain, reads⟩ :=
      accounts_betweenParentheses start.advance excuseInside
    have first := opening.fits start (by decide) .opening rfl excuseOpening
    have last := closing.fits within (by decide) .closing rfl excuseClosing
    refine ⟨⟨.opening, s.lookahead.lexeme⟩ ::
      (parts ++ [⟨.closing, (betweenParentheses s.advance).rest.lookahead.lexeme⟩]), ?_, plain,
      _, parts, _, first, reads, last, rfl⟩
    simp [consumed, opening.consumed, closing.consumed]
  · simp only [Journal.noted_around, Journal.noted_append, List.mem_append]
    exact (ends_expectEnd _).imp_right .inr

/-- **A run of the production of parameter lists makes shaped trees.** -/
theorem shaped_parametersOnly {missing : Pos → Pos → Prop}
    (gaps : AdmitsGaps missing (parametersOnly.run s).journal.noted s) :
    ∀ f ∈ (parametersOnly.run s).value.fields, f.type.Shaped missing := by
  rw [run_parametersOnly] at gaps ⊢
  simp only [Journal.noted_around, Journal.noted_append, admitsGaps_append] at gaps
  have inside := gaps.1.2.1.advance
  show ∀ f ∈ (betweenParentheses s.advance).value, f.type.Shaped missing
  rcases betweenParentheses_cases s.advance with none | ⟨journal, around, derived⟩
  · rw [none]
    simp
  · rw [around, Journal.noted_around] at inside
    exact derived.shapes trivial inside

/-! ## Parses of sources -/

/-- What is relied on of a production that reads a whole source: it makes the same of a stream
whether or not tracing is on, it notes all faults at the lexemes in front of it, and it never finds
an expression that cannot stand where it is. -/
structure Production.Sound {α : Type} (p : Production α) : Prop where
  tells : p.Tells
  leads_run : ∀ s, Journal.Leads s (p.run s).journal (p.run s).rest
  accepts : ∀ s, (p.run s).journal.Accepts

/-- **The production of formulas is sound.** -/
theorem sound_formula : formula.Sound := ⟨tells_formula, leads_formula, accepts_formula⟩

/-- **The production of parameter lists is sound.** -/
theorem sound_parametersOnly : parametersOnly.Sound :=
  ⟨tells_parametersOnly, leads_parametersOnly, accepts_parametersOnly⟩

/-- A source that is too long is never clean. -/
theorem Parse.short_of_clean {α : Type} {production : Production α} (rejected : α)
    (options : ParseOptions) {source : List UInt8}
    (clean : (Parse.parseWith production rejected options source).diagnostics.items = []) :
    characterCount source ≤ lengthLimit := by
  by_contra long
  have more : characterCount source > lengthLimit := Nat.lt_of_not_le long
  simp [Parse.parseWith, more] at clean

section Parses

variable {α : Type} {production : Production α} (sound : production.Sound) (rejected : α)
  (options : ParseOptions) {source : List UInt8}

include sound

/-- A source that is not too long is parsed by running the production, and whether tracing is on
does not matter for what comes of that. -/
theorem Parse.parseWith_of_short (short : characterCount source ≤ lengthLimit) :
    (Parse.parseWith production rejected options source).root =
        (production.run (.ofSource source)).value ∧
      (Parse.parseWith production rejected options source).diagnostics =
        (Diagnostics.mk (Parse.reports source (.ofSource source)
          (production.run (.ofSource source)))).sort := by
  have other : ¬ characterCount source > lengthLimit := Nat.not_lt.mpr short
  have same := (sound.tells (.ofSource source)).outcome_eq ⟨options.trace, 0⟩
  simp only [Parse.parseWith, if_neg other, same, and_true]

/-- Each fault that the parser notes is among the diagnostics. -/
theorem Parse.mem_diagnostics_of_mem_noted (short : characterCount source ≤ lengthLimit)
    {offset : Nat} {fault : SyntaxFault}
    (mem : (offset, fault) ∈ (production.run (.ofSource source)).journal.noted) :
    ⟨offset, fault.message⟩ ∈
      (Parse.parseWith production rejected options source).diagnostics.items := by
  rw [(Parse.parseWith_of_short sound rejected options short).2, Diagnostics.sort,
    List.mem_mergeSort]
  exact List.mem_append_right _ (Journal.mem_reports_of_mem_noted mem)

end Parses

/-- What is true of the two trees that the productions read, and of those that a source gets which
is too long, is true of the trees that are parsed. -/
theorem Parse.forall_roots {P : Node → Prop} (options : ParseOptions) {source : List UInt8}
    (missing : ∀ p q, P (.expr (.bad p q))) (empty : P (.fields .empty))
    (formula : P (.expr (Grammar.formula.run (.ofSource source)).value))
    (parameters : P (.fields (parametersOnly.run (.ofSource source)).value)) :
    ∀ root ∈ [Node.expr (parseFormula options source).root,
        .fields (parseParameters options source).root], P root := by
  rw [List.forall_mem_cons, List.forall_mem_singleton]
  by_cases long : characterCount source > lengthLimit
  · rw [parseFormula, parseParameters, parseWith, parseWith, if_pos long, if_pos long]
    exact ⟨missing _ _, empty⟩
  · have short := Nat.le_of_not_lt long
    rw [parseFormula, (parseWith_of_short sound_formula _ options short).1, parseParameters,
      (parseWith_of_short sound_parametersOnly _ options short).1]
    exact ⟨formula, parameters⟩

/-- There is no failure exactly if there are no diagnostics. -/
theorem Diagnostics.failure?_eq_none {ds : Diagnostics} : ds.failure? = none ↔ ds.items = [] := by
  simp [Diagnostics.failure?]

/-- Sorting leaves nothing exactly if there was nothing. -/
theorem Diagnostics.sort_items_eq_nil {ds : Diagnostics} :
    ds.sort.items = [] ↔ ds.items = [] := by
  rw [Diagnostics.sort, ← List.length_eq_zero_iff, List.length_mergeSort, List.length_eq_zero_iff]

end SheetFormula

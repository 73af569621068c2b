import Mathlib.Tactic.Common
import SheetFormula.Parse.Grammar

/-!
# Tracing along the grammar

The log is written in the course of a parse, and the flag that turns tracing on is looked at
wherever a production of the grammar begins and wherever a lexeme is consumed. What a production
makes of a stream does not depend on it all the same, and what it adds to the log is well nested.

* `Trace.Nested` says in full what the records of the parser are to look like: the dots, the names
  of the productions, the brackets, and one record for each consumed lexeme (`Trace.Names`), with
  its text unless it is the operand that a production was opened for.
* `Production.TellsOn` says of a production and a stream that its outcome there is the same however
  the log is kept, that its records are nested, and that without tracing the log has only what the
  scanner notes. A production that does so on every stream `Tells` what it does.
* `Production.Tells` is closed under all that productions are built with (`Tells.bind`,
  `Tells.within`, `Tells.iterate`), and so it holds of each production of the grammar, up to
  `tells_formula` and `tells_parametersOnly`.
-/

namespace SheetFormula

open Production Grammar

/-- Whether the parser speaks. -/
def Log.Record.isOfParser (r : Log.Record) : Bool := r.target = "formula_syntax::parser"

/-! ## What the records look like -/

namespace Trace

/-- The kinds of lexemes that are shown with a text, and their names. -/
def textKinds : List (Token × String) :=
  [(.ident, "IDENT"), (.lead, "FRML"), (.boolean, "BOOL"), (.cell, "CELL"), (.error, "ERR"),
    (.errorReference, "ERREF"), (.function, "FUNC"), (.range, "RNG"), (.reference, "REF"),
    (.sheet, "SHEET"), (.integer, "INT"), (.float, "FLOAT"), (.imaginary, "IMAG"),
    (.string, "STRING")]

/-- The kinds of lexemes that are shown in quotes, and how they are written. -/
def markKinds : List (Token × String) :=
  [(.plus, "+"), (.minus, "-"), (.times, "*"), (.divide, "/"), (.power, "^"), (.and, "AND"),
    (.or, "OR"), (.equal, "="), (.less, "<"), (.greater, ">"), (.notEqual, "<>"),
    (.lessEqual, "<="), (.greaterEqual, ">="), (.openParen, "("), (.openBracket, "["),
    (.openBrace, "\x7b"), (.comma, ","), (.period, "."), (.closeParen, ")"), (.closeBracket, "]"),
    (.closeBrace, "\x7d"), (.semicolon, ";"), (.colon, ":")]

/-- Whether a text is the one by which the log names a lexeme: the name of its kind with its text
behind it, or an operator or a mark in quotes, or the bare name of a kind that has no text. Of an
operand the text is not shown, as it has become part of the tree already. -/
inductive Names (asOperand : Bool) (l : Lexeme) : String → Prop
  | text {name : String} (kind : (l.token, name) ∈ textKinds) :
      Names asOperand l (name ++ " " ++ if asOperand then "" else l.literal)
  | mark {name : String} (kind : (l.token, name) ∈ markKinds) :
      Names asOperand l ("\"" ++ name ++ "\"")
  | illegal (kind : l.token = .illegal) : Names asOperand l "ILLEGAL"
  | endOfFormula (kind : l.token = .endOfFormula) : Names asOperand l "EOF"

/-- The names of the productions. -/
def productionNames : List String :=
  ["Formula", "Expression", "BinaryExpr", "UnaryExpr", "PrimaryExpr", "Operand", "Call",
    "ParameterList", "Parameters"]

/-- A record of the parser behind two dots for each open production. -/
def line (depth : Nat) (text : String) : Log.Record :=
  ⟨.trace, "formula_syntax::parser", String.ofList (List.replicate (2 * depth) '.') ++ text⟩

/-- Records that tell of productions and consumed lexemes, with so many productions open around
them: a lexeme is one record, and a production is what it reads, with one production more open,
between an opening and a closing record. Each record stands behind two dots for each open
production, the closing one like the opening one. What `Operand` opens with is a lexeme that is
consumed as an operand, and no other lexeme is. -/
inductive Nested : (opensOperand : Bool) → (depth : Nat) → List Log.Record → List Lexeme → Prop
  | nothing (opensOperand : Bool) (depth : Nat) : Nested opensOperand depth [] []
  | lexeme {opensOperand : Bool} {depth : Nat} {l : Lexeme} {text : String}
      {records : List Log.Record} {lexemes : List Lexeme} (names : Names opensOperand l text)
      (behind : Nested false depth records lexemes) :
      Nested opensOperand depth (line depth text :: records) (l :: lexemes)
  | production {depth : Nat} {name : String} {inner records : List Log.Record}
      {read lexemes : List Lexeme} (known : name ∈ productionNames)
      (inside : Nested (name = "Operand") (depth + 1) inner read)
      (behind : Nested false depth records lexemes) :
      Nested false depth (line depth (name ++ " (") :: (inner ++ line depth ")" :: records))
        (read ++ lexemes)

/-- Nested records may follow one another, but what an operand opens with has to be there. -/
theorem Nested.append {opensOperand : Bool} {depth : Nat} {first later : List Log.Record}
    {read ahead : List Lexeme} (there : Nested opensOperand depth first read)
    (on : Nested false depth later ahead) (opened : opensOperand = false ∨ read ≠ []) :
    Nested opensOperand depth (first ++ later) (read ++ ahead) := by
  induction there with
  | nothing opensOperand depth =>
    obtain rfl := opened.resolve_right fun some_ => some_ rfl
    exact on
  | lexeme names behind ih => exact .lexeme names (ih on (.inl rfl))
  | production known inside behind _ ih =>
    rw [List.append_assoc, List.cons_append, List.append_assoc]
    exact .production known inside (ih on (.inl rfl))

/-- Every production goes by one of the names. -/
theorem name_mem (rule : Rule) : rule.name ∈ productionNames := by
  cases rule <;> decide

/-- What the parser writes about a consumed lexeme names it. -/
theorem names_lexemeText (l : Lexeme) (asOperand : Bool) :
    Names asOperand l (Tracing.lexemeText l asOperand) := by
  unfold Tracing.lexemeText
  split
  · next literal =>
    have kind : ∀ t : Token, t.isLiteral = true → (t, t.spelling) ∈ textKinds := by
      intro t
      cases t <;> decide
    exact .text (kind _ literal)
  split
  · next operator =>
    have kind : ∀ t : Token, t.isOperator = true → (t, t.spelling) ∈ markKinds := by
      intro t
      cases t <;> decide
    exact .mark (kind _ operator)
  · next other none =>
    have kind : ∀ t : Token, ¬ t.isLiteral = true → ¬ t.isOperator = true →
        t = .illegal ∨ t = .endOfFormula := by
      intro t
      cases t <;> decide
    rcases kind _ other none with same | same
    · rw [same]
      exact .illegal same
    · rw [same]
      exact .endOfFormula same

/-- A parenthesis has no text that an operand could have taken. -/
theorem names_openParen {l : Lexeme} (opening : l.token = .openParen) :
    Names true l (Tracing.lexemeText l false) := by
  unfold Tracing.lexemeText
  rw [opening, if_neg (by decide), if_pos (by decide)]
  have kind : (l.token, "(") ∈ markKinds := by
    rw [opening]
    decide
  exact .mark kind

end Trace

/-- What the scanner notes is no record of the parser. -/
theorem Scanned.filter_note (s : Scanned) :
    s.note.filter (·.isOfParser) = [] ∧ s.note.filter (!·.isOfParser) = s.note := by
  have other : Log.scannerTarget ≠ "formula_syntax::parser" := by decide
  unfold note
  split <;> simp [Log.Record.isOfParser, other]

/-! ## Productions that tell what they do -/

namespace Production

variable {α β : Type}

/-- Whether a production tells what it does on a stream, and does not do anything else for that.
Its records may be those that an operand opens with. -/
structure TellsOn (opensOperand : Bool) (p : Production α) (s : TokenStream) : Prop where
  /-- What is made of the stream does not depend on how the log is kept. -/
  outcome_eq : ∀ tracing, (p.pass tracing s).toOutcome = p.run s
  /-- The records of the parser are nested, with one for each lexeme that is consumed. -/
  nested : ∀ depth, Trace.Nested opensOperand depth
    ((p.pass ⟨true, depth⟩ s).log.filter (·.isOfParser)) (p.run s).journal.consumed
  /-- Without tracing only the records of the parser are missing. -/
  untraced : ∀ depth depth',
    (p.pass ⟨false, depth'⟩ s).log = (p.pass ⟨true, depth⟩ s).log.filter (!·.isOfParser)

/-- Whether a production tells what it does on every stream. -/
def Tells (p : Production α) : Prop := ∀ s, p.TellsOn false s

namespace TellsOn

variable {opensOperand : Bool} {s : TokenStream}

/-- A production that consumes nothing and writes nothing tells all there is to tell. -/
theorem of_idle {p : Production α} (outcome_eq : ∀ tracing, (p.pass tracing s).toOutcome = p.run s)
    (idle : (p.run s).journal.consumed = []) (silent : ∀ tracing, (p.pass tracing s).log = []) :
    p.TellsOn opensOperand s where
  outcome_eq := outcome_eq
  nested depth := by
    rw [idle, silent]
    exact .nothing opensOperand depth
  untraced depth depth' := by
    rw [silent, silent]
    rfl

/-- What follows a look at the lexeme in front tells what it does with that lexeme. -/
theorem look {next : Scanned → Production α} (on : (next s.lookahead).TellsOn opensOperand s) :
    (lookahead >>= next).TellsOn opensOperand s where
  outcome_eq tracing := by
    simp only [pass_bind, run_bind, pass_lookahead, run_lookahead, on.outcome_eq tracing]
  nested := on.nested
  untraced := on.untraced

section

variable {p : Production α} {next : α → Production β}

/-- Two productions one after the other write one log behind the other. -/
theorem log_bind (first : p.TellsOn opensOperand s) (tracing : Tracing) :
    ((p >>= next).pass tracing s).log =
      (p.pass tracing s).log ++ ((next (p.run s).value).pass tracing (p.run s).rest).log := by
  simp only [pass_bind, first.outcome_eq]

/-- Productions one after the other tell what they do if each of them does. -/
theorem bind (first : p.TellsOn opensOperand s)
    (later : (next (p.run s).value).TellsOn false (p.run s).rest)
    (opened : opensOperand = false ∨ (p.run s).journal.consumed ≠ []) :
    (p >>= next).TellsOn opensOperand s where
  outcome_eq tracing := by
    simp only [pass_bind, run_bind, first.outcome_eq, later.outcome_eq]
  nested depth := by
    have all := (first.nested depth).append (later.nested depth) opened
    rw [first.log_bind, List.filter_append, run_bind]
    simpa [Journal.consumed] using all
  untraced depth depth' := by
    rw [first.log_bind, first.log_bind, List.filter_append, first.untraced depth depth',
      later.untraced depth depth']

end

/-- A lexeme that is consumed is told of by what names it. -/
theorem consume {asOperand : Bool} (names : Trace.Names opensOperand s.lookahead.lexeme
      (Tracing.lexemeText s.lookahead.lexeme asOperand)) :
    (Production.consume asOperand).TellsOn opensOperand s where
  outcome_eq _ := rfl
  nested depth := by
    obtain ⟨silent, -⟩ := s.advance.lookahead.filter_note
    have own : (Tracing.record ⟨true, depth⟩ (Tracing.lexemeText s.lookahead.lexeme
        asOperand)).filter (·.isOfParser) =
          [Trace.line depth (Tracing.lexemeText s.lookahead.lexeme asOperand)] := rfl
    rw [Production.consume, List.filter_append, own, silent]
    exact .lexeme names (.nothing false depth)
  untraced depth depth' := by
    obtain ⟨-, kept⟩ := s.advance.lookahead.filter_note
    have own : (Tracing.record ⟨true, depth⟩ (Tracing.lexemeText s.lookahead.lexeme
        asOperand)).filter (!·.isOfParser) = [] := rfl
    rw [Production.consume, List.filter_append, own, kept]
    rfl

/-- A production of the grammar puts its brackets around what it writes one level deeper. -/
theorem log_within (rule : Rule) (p : Production α) (depth : Nat) (s : TokenStream) :
    ((Production.within rule p).pass ⟨true, depth⟩ s).log =
      Trace.line depth (rule.name ++ " (") ::
        ((p.pass ⟨true, depth + 1⟩ s).log ++ [Trace.line depth ")"]) := rfl

/-- A production tells what it does if what is within it does, and only `Operand` opens with an
operand. -/
theorem within {p : Production α} {rule : Rule} (inside : p.TellsOn (rule.name = "Operand") s) :
    (Production.within rule p).TellsOn false s where
  outcome_eq := by
    rintro ⟨shown, depth⟩
    cases shown with
    | false => exact congrArg (Outcome.around rule) (inside.outcome_eq ⟨false, depth⟩)
    | true => exact congrArg (Outcome.around rule) (inside.outcome_eq ⟨true, depth + 1⟩)
  nested depth := by
    have inner := inside.nested (depth + 1)
    have all := Trace.Nested.production (Trace.name_mem rule) inner (.nothing false depth)
    rw [log_within, List.filter_cons_of_pos rfl, List.filter_append, List.filter_cons_of_pos rfl,
      List.filter_nil, run_within]
    simpa [Rule.around, Journal.consumed] using all
  untraced depth depth' := by
    have own : ∀ text, (Trace.line depth text).isOfParser = true := fun _ => rfl
    have plain : ((Production.within rule p).pass ⟨false, depth'⟩ s).log =
        (p.pass ⟨false, depth'⟩ s).log := rfl
    rw [plain, inside.untraced (depth + 1) depth', log_within]
    simp [own]

end TellsOn

namespace Tells

/-- What is yielded without a look at the stream tells all there is. -/
theorem pure (a : α) : (Pure.pure a : Production α).Tells :=
  fun _ => .of_idle (fun _ => rfl) rfl fun _ => rfl

/-- So does a look at the lexeme in front. -/
theorem lookahead : Production.lookahead.Tells :=
  fun _ => .of_idle (fun _ => rfl) rfl fun _ => rfl

/-- So does a fault, which is not written to the log. -/
theorem report (pos : Pos) (fault : SyntaxFault) : (Production.report pos fault).Tells :=
  fun _ => .of_idle (fun _ => rfl) rfl fun _ => rfl

/-- Productions one after the other tell what they do if each of them does. -/
theorem bind {p : Production α} {next : α → Production β} (first : p.Tells)
    (later : ∀ a, (next a).Tells) : (p >>= next).Tells :=
  fun s => (first s).bind (later _ _) (.inl rfl)

/-- A lexeme that is passed over, or consumed for its mark, is told of. -/
theorem advance : Production.advance.Tells :=
  fun s => .consume (Trace.names_lexemeText s.lookahead.lexeme false)

/-- What was expected is not written to the log. -/
theorem reportExpected (pos : Pos) (what : Expectation) :
    (Production.reportExpected pos what).Tells :=
  .bind .lookahead fun _ => .report _ _

/-- A production other than `Operand` tells what it does if what is within it does. -/
theorem within {p : Production α} {rule : Rule} (other : rule ≠ .operand) (inside : p.Tells) :
    (Production.within rule p).Tells := by
  have name : decide (rule.name = "Operand") = false := by
    cases rule with
    | operand => exact absurd rfl other
    | _ => decide
  exact fun s => .within (name ▸ inside s)

/-- A repetition tells what it does if its steps do. -/
theorem iterate {step : α → Production (Verdict α β)} (progress : Progressive step)
    (steps : ∀ a, (step a).Tells) (a : α) : (Production.iterate step progress a).Tells := by
  intro s
  -- A pass that goes on leaves less of the stream.
  induction size : s.size using Nat.strongRecOn generalizing a s with
  | ind size ih =>
    rw [iterate_eq]
    refine (steps a s).bind ?_ (.inl rfl)
    cases decided : ((step a).run s).value with
    | done result => exact Tells.pure result _
    | again next => exact ih _ (size ▸ progress.size_run_lt decided) next _ rfl

end Tells

end Production

/-! ## The productions of the grammar -/

/-- Expecting a mark tells what it does. -/
theorem tells_expect (t : Token) : (expect t).Tells := by
  refine .bind .lookahead fun here => ?_
  split
  · exact .bind (.reportExpected _ _) fun _ => .bind .advance fun _ => .pure _
  · exact .bind .advance fun _ => .pure _

/-- So does expecting one that closes something. -/
theorem tells_expectClosing (t : Token) : (expectClosing t).Tells := by
  refine .bind .lookahead fun here => ?_
  split
  · exact .bind (.report _ _) fun _ => .bind .advance fun _ => .pure _
  · exact tells_expect t

/-- So does expecting the end. -/
theorem tells_expectEnd : expectEnd.Tells := by
  refine .bind .lookahead fun here => ?_
  split
  · exact .reportExpected _ _
  · exact .pure _

/-- So does looking for a comma. -/
theorem tells_atComma : atComma.Tells := by
  refine .bind .lookahead fun here => ?_
  split
  · exact .pure _
  split
  · exact .bind (.report _ _) fun _ => .pure _
  · exact .pure _

/-- So does checking an expression. -/
theorem tells_check (x : Expr) : (check x).Tells := by
  unfold check
  split
  · exact .bind (.reportExpected _ _) fun _ => .pure _
  · exact .pure _

section

variable {p : Production Expr}

/-- Enclosed expressions tell what they do if expressions do. -/
theorem tells_enclosed (expressions : p.Tells) : (enclosed p).Tells :=
  .bind expressions tells_check

/-- Operands tell what they do if the expressions in their parentheses do. -/
theorem tells_operand (expressions : p.Tells) : (operand p).Tells := by
  intro s
  refine .within (.look ?_)
  have takes : takeOperand.TellsOn true s := .consume (Trace.names_lexemeText _ true)
  have consumes : ∀ asOperand, ((consume asOperand).run s).journal.consumed ≠ [] :=
    fun _ => List.cons_ne_nil _ _
  split
  · exact takes.bind (Tells.pure _ _) (.inr (consumes true))
  split
  · exact takes.bind (Tells.pure _ _) (.inr (consumes true))
  split
  · next opening =>
    have opens : advance.TellsOn true s := .consume (Trace.names_openParen opening)
    refine opens.bind ?_ (.inr (consumes false))
    exact Tells.bind (tells_enclosed expressions) (fun _ => .bind (tells_expect _) fun _ => .pure _)
      s.advance
  · exact .of_idle (fun _ => rfl) rfl fun _ => rfl

/-- So does reading one argument. -/
theorem tells_argumentStep (expressions : p.Tells) (before : List Expr) :
    (argumentStep p before).Tells := by
  refine .bind .lookahead fun here => ?_
  split
  · exact .pure _
  · refine .bind (tells_enclosed expressions) fun x => .bind tells_atComma fun more => ?_
    split
    · exact .bind .advance fun _ => .pure _
    · exact .pure _

/-- So does reading arguments. -/
theorem tells_arguments (expressions : p.Tells) : (arguments p).Tells :=
  .bind (.iterate _ (tells_argumentStep expressions) _) fun _ => .pure _

/-- So does reading a call. -/
theorem tells_call (expressions : p.Tells) (function : Expr) : (call p function).Tells :=
  .within nofun (.bind (tells_expect _) fun _ => .bind (tells_arguments expressions) fun _ =>
    .bind (tells_expectClosing _) fun _ => .pure _)

/-- So does reading one call of several. -/
theorem tells_callStep (expressions : p.Tells) (function : Expr) : (callStep p function).Tells := by
  refine .bind .lookahead fun here => ?_
  split
  · exact .bind (tells_check function) fun function =>
      .bind (tells_call expressions function) fun _ => .pure _
  · exact .pure _

/-- So does reading operands with calls. -/
theorem tells_primary (expressions : p.Tells) : (primary p).Tells :=
  .within nofun (.bind (tells_operand expressions) fun _ =>
    .iterate _ (tells_callStep expressions) _)

/-- Reading one operator tells what it does if reading its right operand does. -/
theorem tells_operatorStep {least : Nat}
    {right : (op : Token) → least ≤ op.precedence → Production Expr}
    (tighter : ∀ op binds, (right op binds).Tells) (left : Expr) :
    (operatorStep least right left).Tells := by
  refine .bind .lookahead fun here => ?_
  split
  · next binds =>
    exact .bind .advance fun _ => .bind (tighter _ binds) fun right =>
      .bind (tells_check left) fun left => .bind (tells_check right) fun right => .pure _
  · exact .pure _

/-- Climbing tells what it does if its operands do. By induction on how much more tightly operators
could still bind. -/
theorem tells_climb (operands : p.Tells) (least : Nat) (binary : 0 < least) :
    (climb p least binary).Tells := by
  induction slack : Token.unaryPrecedence - least using Nat.strongRecOn generalizing least with
  | ind slack ih =>
    rw [climb]
    refine .within nofun (.bind operands fun left => .iterate _ (tells_operatorStep ?_) left)
    intro op binds
    have tighter := op.precedence_lt_unary
    exact ih _ (by omega) _ _ rfl

/-- Whole expressions tell what they do if their operands do. -/
theorem tells_expressionOf (operands : p.Tells) : (expressionOf p).Tells :=
  .within nofun (tells_climb operands _ _)

end

/-- **Operands tell what they do**, by induction on the room. -/
theorem tells_unary (room : Nat) : (unary room).Tells := by
  induction room with
  | zero =>
    exact .within nofun (.bind .lookahead fun _ => .bind (.report _ _) fun _ => .pure _)
  | succ room ih =>
    refine .within nofun (.bind .lookahead fun here => ?_)
    split
    · exact .bind .advance fun _ => .bind ih fun x => .bind (tells_check x) fun _ => .pure _
    · exact tells_primary (tells_expressionOf ih)

/-- So do whole expressions. -/
theorem tells_expression : expression.Tells := tells_expressionOf (tells_unary _)

/-- **Tracing a formula changes nothing but the log**, and its records are nested. -/
theorem tells_formula : formula.Tells := by
  have root : (expression >>= fun root => expectEnd >>= fun _ => Pure.pure root).Tells :=
    .bind tells_expression fun _ => .bind tells_expectEnd fun _ => .pure _
  refine .within nofun (.bind .lookahead fun here => ?_)
  split
  · exact .bind .advance fun _ => root
  · exact root

/-- Reading one entry tells what it does. -/
theorem tells_parameterStep (before : List Field) : (parameterStep before).Tells := by
  refine .bind tells_expression fun type => .bind .lookahead fun here => ?_
  split
  · refine .bind .advance fun _ => .bind .lookahead fun here => ?_
    split
    · exact .pure _
    · exact .pure _
  · exact .pure _

/-- So does reading the entries of a list. -/
theorem tells_parameterList : parameterList.Tells :=
  .within nofun (.bind (.iterate _ tells_parameterStep _) fun _ => .pure _)

/-- So does reading a list with its parentheses. -/
theorem tells_parameters : parameters.Tells := by
  refine .within nofun (.bind (tells_expect _) fun opening => .bind .lookahead fun here => ?_)
  split
  · exact .bind tells_parameterList fun _ => .bind (tells_expect _) fun _ => .pure _
  · exact .bind (.pure _) fun _ => .bind (tells_expect _) fun _ => .pure _

/-- **Tracing a parameter list changes nothing but the log**, and its records are nested. -/
theorem tells_parametersOnly : parametersOnly.Tells :=
  .bind tells_parameters fun _ => .bind tells_expectEnd fun _ => .pure _

end SheetFormula

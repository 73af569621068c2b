import Mathlib.Tactic.Common
import SheetFormula.Proofs.Parse.Whole

/-!
# Which production calls which

A production calls others on the way, and a loop calls itself for its next pass. A turn is a task of
the parser, a production or a loop together with what has been read so far, and the stream that it
is taken up with. `Turn.Calls` says which turns one turn calls: the stream of a turn that is called
is what the calling one has got to by then.

* `Turn.Course`: the journal of a turn is made of lexemes that it consumes, faults that it notes and
  expressions that it checks itself, and of the journals of turns that it calls, each of them taken
  up where the one before left off.
* `Turn.covered`: every turn takes such a course, so no call is left out. What is known of calls is
  known of all that a parse does.
-/

namespace SheetFormula

open Production Grammar

/-! ## Tasks -/

/-- What stands to the right of an operator: whatever binds more tightly. -/
def rightOperand (room least : Nat) (op : Token) (_ : least ≤ op.precedence) : Production Expr :=
  Grammar.climb (Grammar.unary room) (op.precedence + 1) op.precedence_succ_pos

/-- What the parser can be about to do: a production of the grammar, or a loop of one of them, which
goes on from what has been read before. -/
inductive Task
  | formula
  | parameters
  | parameterList
  | entries (before : List Field)
  | expression (room : Nat)
  | climb (room least : Nat) (binary : 0 < least)
  | operators (room least : Nat) (binary : 0 < least) (left : Expr)
  | unary (room : Nat)
  | primary (room : Nat)
  | operand (room : Nat)
  | calls (room : Nat) (function : Expr)
  | call (room : Nat) (function : Expr)
  | arguments (room : Nat) (before : List Expr)

namespace Task

/-- What a task yields. -/
def Value : Task → Type
  | parameters => FieldList
  | parameterList | entries _ => List Field
  | arguments _ _ => List Expr
  | _ => Expr

/-- The production that does a task. -/
def production : (task : Task) → Production task.Value
  | formula => Grammar.formula
  | parameters => Grammar.parameters
  | parameterList => Grammar.parameterList
  | entries before => entriesFrom before
  | expression room => expressionOf (Grammar.unary room)
  | climb room least binary => Grammar.climb (Grammar.unary room) least binary
  | operators room least binary left => operatorsFrom room least binary left
  | unary room => Grammar.unary room
  | primary room => Grammar.primary (expressionOf (Grammar.unary room))
  | operand room => Grammar.operand (expressionOf (Grammar.unary room))
  | calls room function => callsFrom room function
  | call room function => Grammar.call (expressionOf (Grammar.unary room)) function
  | arguments room before => argumentsFrom room before

/-- The journal of a task around what it reads: loops do not show. -/
def frame : Task → Journal → Journal
  | formula => Rule.formula.around
  | parameters => Rule.parameters.around
  | parameterList => Rule.parameterList.around
  | expression _ => Rule.expression.around
  | climb .. => Rule.binary.around
  | unary _ => Rule.unary.around
  | primary _ => Rule.primary.around
  | operand _ => Rule.operand.around
  | call .. => Rule.call.around
  | entries _ | operators .. | calls .. | arguments .. => id

end Task

/-! ## Turns -/

/-- A task, and the stream that it is taken up with. -/
structure Turn where
  task : Task
  stream : TokenStream

namespace Turn

/-- What a turn makes of its stream. -/
def outcome (turn : Turn) : Outcome turn.task.Value := turn.task.production.run turn.stream

/-- What a turn leaves of its stream. -/
def rest (turn : Turn) : TokenStream := turn.outcome.rest

/-- What a turn does. -/
def journal (turn : Turn) : Journal := turn.outcome.journal

/-- Whether one turn calls another. -/
inductive Calls : Turn → Turn → Prop
  | formula (s : TokenStream) : Calls ⟨.formula, s⟩ ⟨.expression nestingLimit, s.behindLead⟩
  | parameters {s : TokenStream} (more : s.advance.lookahead.token ≠ .closeParen) :
      Calls ⟨.parameters, s⟩ ⟨.parameterList, s.advance⟩
  | parameterList (s : TokenStream) : Calls ⟨.parameterList, s⟩ ⟨.entries [], s⟩
  | entry (before : List Field) (s : TokenStream) :
      Calls ⟨.entries before, s⟩ ⟨.expression nestingLimit, s⟩
  | nextEntry {before next : List Field} {s : TokenStream}
      (pass : ((parameterStep before).run s).value = .again next) :
      Calls ⟨.entries before, s⟩ ⟨.entries next, ((parameterStep before).run s).rest⟩
  | expression (room : Nat) (s : TokenStream) :
      Calls ⟨.expression room, s⟩ ⟨.climb room (Token.lowestPrecedence + 1) (Nat.succ_pos _), s⟩
  | climb (room least : Nat) (binary : 0 < least) (s : TokenStream) :
      Calls ⟨.climb room least binary, s⟩ ⟨.unary room, s⟩
  | operators (room least : Nat) (binary : 0 < least) (s : TokenStream) :
      Calls ⟨.climb room least binary, s⟩
        ⟨.operators room least binary ((Grammar.unary room).run s).value,
          ((Grammar.unary room).run s).rest⟩
  | operator {room least : Nat} {binary : 0 < least} {left : Expr} {s : TokenStream}
      (binds : least ≤ s.lookahead.token.precedence) :
      Calls ⟨.operators room least binary left, s⟩
        ⟨.climb room (s.lookahead.token.precedence + 1) (Nat.succ_pos _), s.advance⟩
  | nextOperator {room least : Nat} {binary : 0 < least} {left next : Expr} {s : TokenStream}
      (pass : ((operatorStep least (rightOperand room least) left).run s).value = .again next) :
      Calls ⟨.operators room least binary left, s⟩
        ⟨.operators room least binary next,
          ((operatorStep least (rightOperand room least) left).run s).rest⟩
  | prefixed {room : Nat} {s : TokenStream} (operator : s.lookahead.token.isPrefixOperator) :
      Calls ⟨.unary (room + 1), s⟩ ⟨.unary room, s.advance⟩
  | plain {room : Nat} {s : TokenStream} (none : ¬ s.lookahead.token.isPrefixOperator) :
      Calls ⟨.unary (room + 1), s⟩ ⟨.primary room, s⟩
  | operand (room : Nat) (s : TokenStream) : Calls ⟨.primary room, s⟩ ⟨.operand room, s⟩
  | calls (room : Nat) (s : TokenStream) :
      Calls ⟨.primary room, s⟩
        ⟨.calls room ((Grammar.operand (expressionOf (Grammar.unary room))).run s).value,
          ((Grammar.operand (expressionOf (Grammar.unary room))).run s).rest⟩
  | paren {room : Nat} {s : TokenStream} (opening : s.lookahead.token = .openParen) :
      Calls ⟨.operand room, s⟩ ⟨.expression room, s.advance⟩
  | call {room : Nat} {function : Expr} {s : TokenStream}
      (opening : s.lookahead.token = .openParen) :
      Calls ⟨.calls room function, s⟩ ⟨.call room ((check function).run s).value, s⟩
  | nextCall {room : Nat} {function next : Expr} {s : TokenStream}
      (pass : ((callStep (expressionOf (Grammar.unary room)) function).run s).value =
        .again next) :
      Calls ⟨.calls room function, s⟩
        ⟨.calls room next, ((callStep (expressionOf (Grammar.unary room)) function).run s).rest⟩
  | arguments (room : Nat) (function : Expr) (s : TokenStream) :
      Calls ⟨.call room function, s⟩ ⟨.arguments room [], s.advance⟩
  | argument {room : Nat} {before : List Expr} {s : TokenStream}
      (more : ¬ (s.lookahead.token = .closeParen ∨ s.lookahead.token = .endOfFormula)) :
      Calls ⟨.arguments room before, s⟩ ⟨.expression room, s⟩
  | nextArgument {room : Nat} {before next : List Expr} {s : TokenStream}
      (pass : ((argumentStep (expressionOf (Grammar.unary room)) before).run s).value =
        .again next) :
      Calls ⟨.arguments room before, s⟩
        ⟨.arguments room next,
          ((argumentStep (expressionOf (Grammar.unary room)) before).run s).rest⟩

/-! ## No call is left out -/

/-- Whether a turn gets from one stream to another with a journal: by lexemes that it consumes and
faults that it notes, each of them in front by then, by expressions that it checks, and by turns
that it calls there. -/
inductive Course (turn : Turn) : TokenStream → Journal → TokenStream → Prop
  | nothing (s : TokenStream) : Course turn s [] s
  | consume {s t : TokenStream} {later : Journal} (asOperand : Bool)
      (behind : Course turn s.advance later t) : Course turn s (s.taking asOperand :: later) t
  | report {s t : TokenStream} {later : Journal} (fault : SyntaxFault)
      (behind : Course turn s later t) : Course turn s (s.noting fault :: later) t
  | check {s t : TokenStream} {later : Journal} (x : Expr) (behind : Course turn s later t) :
      Course turn s (((Grammar.check x).run s).journal ++ later) t
  | call {next : Turn} {t : TokenStream} {later : Journal} (calls : turn.Calls next)
      (behind : Course turn next.rest later t) :
      Course turn next.stream (next.journal ++ later) t

namespace Course

variable {turn : Turn} {s m t : TokenStream} {first later : Journal}

/-- Courses may follow one another. -/
theorem append (there : turn.Course s first m) (on : turn.Course m later t) :
    turn.Course s (first ++ later) t := by
  induction there with
  | nothing s => exact on
  | consume asOperand behind ih => exact .consume asOperand (ih on)
  | report fault behind ih => exact .report fault (ih on)
  | check x behind ih =>
    rw [List.append_assoc]
    exact .check x (ih on)
  | call calls behind ih =>
    rw [List.append_assoc]
    exact .call calls (ih on)

/-- A turn that is called, and nothing else. -/
theorem of_calls {next : Turn} (calls : turn.Calls next) :
    turn.Course next.stream next.journal next.rest := by
  simpa using Course.call calls (.nothing next.rest)

/-- A check, and nothing else. -/
theorem of_check (x : Expr) : turn.Course s ((Grammar.check x).run s).journal s := by
  simpa using Course.check x (.nothing s)

/-- A mark that is needed, and nothing else. -/
theorem of_demands {needed : Token} (demands : Demands needed s first) :
    turn.Course s first s.advance := by
  cases demands with
  | met found => exact .consume false (.nothing _)
  | missed fault other => exact .report fault (.consume false (.nothing _))

/-- An expected mark. -/
theorem expect (needed : Token) :
    turn.Course s ((Grammar.expect needed).run s).journal s.advance :=
  of_demands (demands_expect needed s)

/-- The end, which is expected. -/
theorem expectEnd : turn.Course s (Grammar.expectEnd.run s).journal s := by
  by_cases last : s.lookahead.token = .endOfFormula
  · simpa [Grammar.expectEnd, last] using Course.nothing s
  · simpa [Grammar.expectEnd, last, TokenStream.noting] using Course.report _ (.nothing s)

/-- A comma, or what is taken for one, which is looked at and not consumed. -/
theorem atComma : turn.Course s (Grammar.atComma.run s).journal s := by
  by_cases comma : s.lookahead.token = .comma
  · simpa [Grammar.atComma, comma] using Course.nothing s
  by_cases stray : s.lookahead.token ≠ .closeParen ∧ s.lookahead.token ≠ .endOfFormula
  · simpa [Grammar.atComma, comma, stray, TokenStream.noting] using Course.report _ (.nothing s)
  · simpa [Grammar.atComma, comma, stray] using Course.nothing s

/-- What leads a formula, if something does. -/
theorem leadJournal : turn.Course s (leadJournal s) s.behindLead := by
  by_cases lead : s.lookahead.token = .lead
  · simpa [SheetFormula.leadJournal, TokenStream.behindLead, lead] using
      Course.consume false (.nothing s.advance)
  · simpa [SheetFormula.leadJournal, TokenStream.behindLead, lead] using Course.nothing s

/-- A loop is its first pass, and the turn for the next one if there is one. -/
theorem iterate {α β : Type} {step : α → Production (Verdict α β)} (progress : Progressive step)
    {state : α} (pass : turn.Course s ((step state).run s).journal ((step state).run s).rest)
    (again : ∀ next, ((step state).run s).value = .again next →
      turn.Course ((step state).run s).rest
        ((Production.iterate step progress next).run ((step state).run s).rest).journal
        ((Production.iterate step progress next).run ((step state).run s).rest).rest) :
    turn.Course s ((Production.iterate step progress state).run s).journal
      ((Production.iterate step progress state).run s).rest := by
  rw [run_iterate]
  cases verdict : ((step state).run s).value with
  | done result => exact pass
  | again next => exact pass.append (again next verdict)

end Course

/-! ### Passes of the loops -/

section Passes

variable (room : Nat) (s : TokenStream)

/-- A pass of the loop over entries calls for a type. -/
theorem course_parameterStep (before : List Field) :
    Course ⟨.entries before, s⟩ s ((parameterStep before).run s).journal
      ((parameterStep before).run s).rest := by
  have type : Course ⟨.entries before, s⟩ s (Grammar.expression.run s).journal
      (Grammar.expression.run s).rest := .of_calls (.entry before s)
  by_cases comma : (Grammar.expression.run s).rest.lookahead.token = .comma
  · have trailed := type.append (.consume false (.nothing _))
    by_cases last : (Grammar.expression.run s).rest.advance.lookahead.token = .closeParen
    · simpa [parameterStep, comma, last, TokenStream.taking] using trailed
    · simpa [parameterStep, comma, last, TokenStream.taking] using trailed
  · simpa [parameterStep, comma] using type

/-- A pass of the loop over operators calls for the right operand of an operator, if one is in
front. -/
theorem course_operatorStep {least : Nat} (binary : 0 < least) (left : Expr) :
    Course ⟨.operators room least binary left, s⟩ s
      ((operatorStep least (rightOperand room least) left).run s).journal
      ((operatorStep least (rightOperand room least) left).run s).rest := by
  by_cases binds : least ≤ s.lookahead.token.precedence
  · have right : Course ⟨.operators room least binary left, s⟩ s.advance
        ((rightOperand room least _ binds).run s.advance).journal
        ((rightOperand room least _ binds).run s.advance).rest := .of_calls (.operator binds)
    have checked := right.append ((Course.of_check left).append
      (.of_check ((rightOperand room least _ binds).run s.advance).value))
    simpa [operatorStep, binds, rest_check, TokenStream.taking] using Course.consume false checked
  · simpa [operatorStep, binds] using Course.nothing s

/-- A pass of the loop over calls calls for one call, if a parenthesis is in front. -/
theorem course_callStep (function : Expr) :
    Course ⟨.calls room function, s⟩ s
      ((callStep (expressionOf (Grammar.unary room)) function).run s).journal
      ((callStep (expressionOf (Grammar.unary room)) function).run s).rest := by
  by_cases opening : s.lookahead.token = .openParen
  · have called : Course ⟨.calls room function, s⟩ s
        ((Grammar.call (expressionOf (Grammar.unary room)) ((check function).run s).value).run
          s).journal
        ((Grammar.call (expressionOf (Grammar.unary room)) ((check function).run s).value).run
          s).rest :=
      .of_calls (.call opening)
    simpa [callStep, opening, rest_check] using Course.check function called
  · simpa [callStep, opening] using Course.nothing s

/-- A pass of the loop over arguments calls for an argument, unless the list is at its end. -/
theorem course_argumentStep (before : List Expr) :
    Course ⟨.arguments room before, s⟩ s
      ((argumentStep (expressionOf (Grammar.unary room)) before).run s).journal
      ((argumentStep (expressionOf (Grammar.unary room)) before).run s).rest := by
  by_cases last : s.lookahead.token = .closeParen ∨ s.lookahead.token = .endOfFormula
  · simpa [argumentStep, last] using Course.nothing s
  · have argument : Course ⟨.arguments room before, s⟩ s
        ((expressionOf (Grammar.unary room)).run s).journal
        ((expressionOf (Grammar.unary room)).run s).rest := .of_calls (.argument last)
    have looked := argument.append ((Course.of_check
      ((expressionOf (Grammar.unary room)).run s).value).append .atComma)
    by_cases more : (Grammar.atComma.run ((expressionOf (Grammar.unary room)).run s).rest).value =
        true
    · have taken := looked.append (.consume false (.nothing _))
      simpa [argumentStep, enclosed, last, more, rest_atComma, rest_check, TokenStream.taking]
        using taken
    · simpa [argumentStep, enclosed, last, more, rest_atComma, rest_check] using looked

end Passes

/-- Whether a turn gets from the stream that it is taken up with to the one that it leaves by what
it consumes and notes itself and by the turns that it calls. -/
def Covered (turn : Turn) : Prop :=
  ∃ inner, turn.Course turn.stream inner turn.rest ∧ turn.journal = turn.task.frame inner

/-- A turn is covered by a course of what it reads, in the frame of its task. -/
theorem Course.covered {turn : Turn} {inner : Journal} {t : TokenStream} {x : turn.task.Value}
    (course : turn.Course turn.stream inner t)
    (ran : turn.outcome = ⟨x, t, turn.task.frame inner⟩) : turn.Covered := by
  have rest : turn.rest = t := congrArg Outcome.rest ran
  subst rest
  exact ⟨inner, course, congrArg Outcome.journal ran⟩

/-- A formula calls for its expression. -/
theorem covered_formula (s : TokenStream) : Covered ⟨.formula, s⟩ := by
  have ran := run_formula s
  have root := Course.of_calls (Calls.formula s)
  exact ((Course.leadJournal.append root).append .expectEnd).covered ran

/-- Parameters in parentheses call for their list. -/
theorem covered_parameters (s : TokenStream) : Covered ⟨.parameters, s⟩ := by
  have opened := @Course.expect ⟨.parameters, s⟩ s .openParen
  by_cases none : s.advance.lookahead.token = .closeParen
  · have ran : Grammar.parameters.run s =
        ⟨⟨s.lookahead.pos, [], s.advance.lookahead.pos⟩, s.advance.advance,
          Rule.parameters.around (((Grammar.expect .openParen).run s).journal ++
            ((Grammar.expect .closeParen).run s.advance).journal)⟩ := by
      simp [Grammar.parameters, none, value_expect, rest_expect]
    exact (opened.append (.expect .closeParen)).covered ran
  · have list := Course.of_calls (Calls.parameters none)
    have ran : Grammar.parameters.run s =
        let inside := Grammar.parameterList.run s.advance
        ⟨⟨s.lookahead.pos, inside.value, inside.rest.lookahead.pos⟩, inside.rest.advance,
          Rule.parameters.around (((Grammar.expect .openParen).run s).journal ++ inside.journal ++
            ((Grammar.expect .closeParen).run inside.rest).journal)⟩ := by
      simp [Grammar.parameters, none, value_expect, rest_expect]
    exact ((opened.append list).append (.expect .closeParen)).covered ran

/-- A list of parameters calls for the first pass of its loop. -/
theorem covered_parameterList (s : TokenStream) : Covered ⟨.parameterList, s⟩ := by
  have ran : Grammar.parameterList.run s =
      let inside := (entriesFrom []).run s
      ⟨inside.value.reverse, inside.rest, Rule.parameterList.around inside.journal⟩ := by
    simp [Grammar.parameterList, entriesFrom]
  exact (Course.of_calls (Calls.parameterList s)).covered ran

/-- Climbing calls for an operand and the first pass of its loop. -/
theorem covered_climb (room least : Nat) (binary : 0 < least) (s : TokenStream) :
    Covered ⟨.climb room least binary, s⟩ := by
  have left := Course.of_calls (Calls.climb room least binary s)
  have further := Course.of_calls (Calls.operators room least binary s)
  have ran : (Grammar.climb (Grammar.unary room) least binary).run s =
      let left := (Grammar.unary room).run s
      let further := (operatorsFrom room least binary left.value).run left.rest
      ⟨further.value, further.rest, Rule.binary.around (left.journal ++ further.journal)⟩ := by
    rw [Grammar.climb]
    simp [operatorsFrom]
  exact (left.append further).covered ran

/-- An operand behind an operator calls for another one with less room, any other for its primary,
and none is read where there is no room. -/
theorem covered_unary (room : Nat) (s : TokenStream) : Covered ⟨.unary room, s⟩ := by
  cases room with
  | zero => exact (Course.report _ (.nothing s)).covered rfl
  | succ room =>
    by_cases operator : s.lookahead.token.isPrefixOperator
    · have operand := Course.of_calls (@Calls.prefixed room s operator)
      have ran : (Grammar.unary (room + 1)).run s =
          let inside := (Grammar.unary room).run s.advance
          let checked := (check inside.value).run inside.rest
          ⟨.unary s.lookahead.pos s.lookahead.token checked.value, inside.rest,
            Rule.unary.around (s.taking false :: (inside.journal ++ checked.journal))⟩ := by
        simp [Grammar.unary, operator, rest_check, TokenStream.taking]
      exact (Course.consume false (operand.append (.of_check _))).covered ran
    · have ran : (Grammar.unary (room + 1)).run s =
          let inside := (Grammar.primary (expressionOf (Grammar.unary room))).run s
          ⟨inside.value, inside.rest, Rule.unary.around inside.journal⟩ := by
        simp [Grammar.unary, operator]
      exact (Course.of_calls (Calls.plain operator)).covered ran

/-- A primary calls for an operand and the first pass of the loop over calls. -/
theorem covered_primary (room : Nat) (s : TokenStream) : Covered ⟨.primary room, s⟩ := by
  have function := Course.of_calls (Calls.operand room s)
  have further := Course.of_calls (Calls.calls room s)
  have ran : (Grammar.primary (expressionOf (Grammar.unary room))).run s =
      let function := (Grammar.operand (expressionOf (Grammar.unary room))).run s
      let further := (callsFrom room function.value).run function.rest
      ⟨further.value, further.rest, Rule.primary.around (function.journal ++ further.journal)⟩ := by
    simp [Grammar.primary, callsFrom]
  exact (function.append further).covered ran

/-- An operand calls for an expression in parentheses, or for nothing. -/
theorem covered_operand (room : Nat) (s : TokenStream) : Covered ⟨.operand room, s⟩ := by
  by_cases name : s.lookahead.token = .ident
  · have ran : (Grammar.operand (expressionOf (Grammar.unary room))).run s =
        ⟨.ident ⟨s.lookahead.pos, s.lookahead.lexeme.literal⟩, s.advance,
          Rule.operand.around [s.taking true]⟩ := by
      simp [Grammar.operand, name, TokenStream.taking]
    exact (Course.consume true (.nothing s.advance)).covered ran
  by_cases value : s.lookahead.token.isValue
  · have ran : (Grammar.operand (expressionOf (Grammar.unary room))).run s =
        ⟨.literal ⟨s.lookahead.pos, s.lookahead.token, s.lookahead.lexeme.literal⟩, s.advance,
          Rule.operand.around [s.taking true]⟩ := by
      simp [Grammar.operand, name, value, TokenStream.taking]
    exact (Course.consume true (.nothing s.advance)).covered ran
  by_cases opening : s.lookahead.token = .openParen
  · have other : ¬ Token.openParen.isValue := by decide
    have inner := Course.of_calls (@Calls.paren room s opening)
    have ran : (Grammar.operand (expressionOf (Grammar.unary room))).run s =
        let inside := (expressionOf (Grammar.unary room)).run s.advance
        let checked := (check inside.value).run inside.rest
        ⟨.paren s.lookahead.pos checked.value inside.rest.lookahead.pos, inside.rest.advance,
          Rule.operand.around (s.taking false :: (inside.journal ++ (checked.journal ++
            ((Grammar.expect .closeParen).run inside.rest).journal)))⟩ := by
      simp [Grammar.operand, enclosed, opening, other, value_expect, rest_expect, rest_check,
        TokenStream.taking]
    exact (Course.consume false
      (inner.append ((Course.of_check _).append (.expect .closeParen)))).covered ran
  · have ran : (Grammar.operand (expressionOf (Grammar.unary room))).run s =
        ⟨.bad s.lookahead.pos s.lookahead.pos, s,
          Rule.operand.around [s.noting (.expected .operand (some s.lookahead.found))]⟩ := by
      simp [Grammar.operand, name, value, opening, TokenStream.noting]
    exact (Course.report _ (.nothing s)).covered ran

/-- A call calls for its arguments. -/
theorem covered_call (room : Nat) (function : Expr) (s : TokenStream) :
    Covered ⟨.call room function, s⟩ := by
  have opened := @Course.expect ⟨.call room function, s⟩ s .openParen
  have list := Course.of_calls (Calls.arguments room function s)
  have ran : (Grammar.call (expressionOf (Grammar.unary room)) function).run s =
      let list := (argumentsFrom room []).run s.advance
      ⟨.call function s.lookahead.pos list.value.reverse list.rest.lookahead.pos,
        list.rest.advance,
        Rule.call.around (((Grammar.expect .openParen).run s).journal ++ list.journal ++
          ((expectClosing .closeParen).run list.rest).journal)⟩ := by
    simp [Grammar.call, Grammar.arguments, value_expect, rest_expect, value_expectClosing,
      rest_expectClosing, argumentsFrom]
  have closed := (opened.append list).append
    (.of_demands (demands_expectClosing .closeParen _))
  exact closed.covered ran

/-- **No call is left out**: a turn gets from the stream that it is taken up with to the one that it
leaves by what it consumes and notes itself and by the turns that it calls. -/
theorem covered (turn : Turn) : turn.Covered := by
  obtain ⟨task, s⟩ := turn
  cases task with
  | formula => exact covered_formula s
  | parameters => exact covered_parameters s
  | parameterList => exact covered_parameterList s
  | entries before =>
    have passes := Course.iterate progressive_parameterStep
      (course_parameterStep s before) fun next pass => .of_calls (.nextEntry pass)
    exact passes.covered rfl
  | expression room => exact (Course.of_calls (Calls.expression room s)).covered rfl
  | climb room least binary => exact covered_climb room least binary s
  | operators room least binary left =>
    have passes := Course.iterate (progressive_operatorStep binary _)
      (course_operatorStep room s binary left) fun next pass => .of_calls (.nextOperator pass)
    exact passes.covered rfl
  | unary room => exact covered_unary room s
  | primary room => exact covered_primary room s
  | operand room => exact covered_operand room s
  | calls room function =>
    have passes := Course.iterate (progressive_callStep _)
      (course_callStep room s function) fun next pass => .of_calls (.nextCall pass)
    exact passes.covered rfl
  | call room function => exact covered_call room function s
  | arguments room before =>
    have passes := Course.iterate (progressive_argumentStep _)
      (course_argumentStep room s before) fun next pass => .of_calls (.nextArgument pass)
    exact passes.covered rfl

end Turn

end SheetFormula

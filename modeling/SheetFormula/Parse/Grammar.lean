import SheetFormula.Parse.Production
import SheetFormula.Tree.Extent

/-!
# The grammar

The productions of formulas and of parameter lists. Nothing that a source can hold makes them fail:
a token that does not fit is reported, and is then passed over, taken for the mark that should have
stood there, or left to whoever comes next. An operand that is missing is a `bad` expression.

Binary operators are read by climbing: an operator of some precedence takes to its right whatever
binds more tightly, and what it makes is the left operand of the next one. How deeply parentheses,
calls and prefix operators may nest is counted down in `room`. What becomes a part of a larger
expression is checked before that (`check`).
-/

namespace SheetFormula.Grammar

open Production

/-! ## Marks -/

/-- Consumes the lexeme in front and yields its position; reports it if it is not of the kind that
is needed. -/
def expect (t : Token) : Production Pos := do
  let here ← lookahead
  if here.token ≠ t then
    reportExpected here.pos (.token t)
  advance
  return here.pos

theorem rest_pass_expect (t : Token) (tracing : Tracing) (s : TokenStream) :
    ((expect t).pass tracing s).rest = s.advance := by
  by_cases needed : s.lookahead.token = t <;> simp [expect, reportExpected, needed]

theorem rest_expect (t : Token) (s : TokenStream) : ((expect t).run s).rest = s.advance :=
  rest_pass_expect t {} s

/-- Consumes the mark that closes an argument list. If another token stands there, at the start of
a line, the report is that the list breaks off. -/
def expectClosing (t : Token) : Production Pos := do
  let here ← lookahead
  if here.token ≠ t ∧ here.newlineBefore then
    report here.pos .missingCommaBeforeNewline
    advance
    return here.pos
  else expect t

/-- Reports whatever is left over. -/
def expectEnd : Production Unit := do
  let here ← lookahead
  if here.token ≠ .endOfFormula then
    reportExpected here.pos .endOfFormula

/-- Whether another argument follows: a comma is in front, or a stray token that is reported and
then stands for one. -/
def atComma : Production Bool := do
  let here ← lookahead
  if here.token = .comma then return true
  else if here.token ≠ .closeParen ∧ here.token ≠ .endOfFormula then
    report here.pos .missingComma
    return true
  else return false

theorem rest_pass_atComma (tracing : Tracing) (s : TokenStream) :
    (atComma.pass tracing s).rest = s := by
  by_cases comma : s.lookahead.token = .comma
  · simp [atComma, comma]
  · by_cases stray : s.lookahead.token ≠ .closeParen ∧ s.lookahead.token ≠ .endOfFormula <;>
      simp [atComma, comma, stray]

theorem rest_atComma (s : TokenStream) : (atComma.run s).rest = s := rest_pass_atComma {} s

/-- What is taken for a comma is never the end. -/
theorem ne_end_of_atComma {tracing : Tracing} {s : TokenStream}
    (more : (atComma.pass tracing s).value = true) : s.lookahead.token ≠ .endOfFormula := by
  intro last
  simp [atComma, last] at more

/-! ## Parts of expressions -/

/-- Lets an expression stand unless it is a literal of a kind that is not one of values: that is
reported where it starts, and a missing expression of the same extent takes its place. -/
def check (x : Expr) : Production Expr := do
  if x.isValueless then
    reportExpected (start x) .expression
    return .bad (start x) (stop x)
  else return x

theorem rest_pass_check (x : Expr) (tracing : Tracing) (s : TokenStream) :
    ((check x).pass tracing s).rest = s := by
  cases valueless : x.isValueless <;> simp [check, reportExpected, valueless]

theorem rest_check (x : Expr) (s : TokenStream) : ((check x).run s).rest = s :=
  rest_pass_check x {} s

/-- A whole expression that is to stand inside parentheses or as an argument. -/
def enclosed (expression : Production Expr) : Production Expr := do
  let x ← expression
  check x

/-! ## Operands and calls

These productions are given the production of whole expressions for what stands inside parentheses.
-/

/-- A name, a value, an expression in parentheses, or a missing operand. -/
def operand (expression : Production Expr) : Production Expr :=
  within .operand do
    let here ← lookahead
    if here.token = .ident then
      takeOperand
      return .ident ⟨here.pos, here.lexeme.literal⟩
    else if here.token.isValue then
      takeOperand
      return .literal ⟨here.pos, here.token, here.lexeme.literal⟩
    else if here.token = .openParen then
      advance
      let inner ← enclosed expression
      let closing ← expect .closeParen
      return .paren here.pos inner closing
    else
      reportExpected here.pos .operand
      return .bad here.pos here.pos

/-- One step through an argument list. The arguments so far are kept with the latest first. -/
def argumentStep (expression : Production Expr) (before : List Expr) :
    Production (Verdict (List Expr) (List Expr)) := do
  let here ← lookahead
  if here.token = .closeParen ∨ here.token = .endOfFormula then
    return .done before
  else
    let argument ← enclosed expression
    if ← atComma then
      advance
      return .again (argument :: before)
    else return .done (argument :: before)

theorem progressive_argumentStep (expression : Production Expr) :
    Progressive (argumentStep expression) := by
  intro tracing before s before'
  by_cases last : s.lookahead.token = .closeParen ∨ s.lookahead.token = .endOfFormula
  · simp [argumentStep, last]
  · have read := (enclosed expression).size_pass_le tracing s
    by_cases more :
        (atComma.pass tracing ((enclosed expression).pass tracing s).rest).value = true
    · have := TokenStream.size_advance_lt (ne_end_of_atComma more)
      simp [argumentStep, last, more, rest_pass_atComma]
      omega
    · simp [argumentStep, last, more]

/-- The arguments of a call, up to the mark that closes the list. -/
def arguments (expression : Production Expr) : Production (List Expr) := do
  let latestFirst ← iterate (argumentStep expression) (progressive_argumentStep expression) []
  return latestFirst.reverse

/-- A call of a function that has been read. -/
def call (expression : Production Expr) (function : Expr) : Production Expr :=
  within .call do
    let opening ← expect .openParen
    let arguments ← arguments expression
    let closing ← expectClosing .closeParen
    return .call function opening arguments closing

/-- A call consumes at least the parenthesis in front of it. -/
theorem size_pass_call_le (expression : Production Expr) (function : Expr) (tracing : Tracing)
    (s : TokenStream) :
    ((call expression function).pass tracing s).rest.size ≤ s.advance.size := by
  refine size_pass_within_le ?_ tracing
  intro tracing
  simp only [pass_bind, pass_pure, rest_pass_expect]
  exact Nat.le_trans (size_pass_le _ _ _) (size_pass_le _ _ _)

/-- One step through the calls behind an operand. -/
def callStep (expression : Production Expr) (function : Expr) :
    Production (Verdict Expr Expr) := do
  let here ← lookahead
  if here.token = .openParen then
    let function ← check function
    let called ← call expression function
    return .again called
  else return .done function

theorem progressive_callStep (expression : Production Expr) :
    Progressive (callStep expression) := by
  intro tracing function s function'
  by_cases opening : s.lookahead.token = .openParen
  · have shrinks := @TokenStream.size_advance_lt s (by simp [opening])
    have called := size_pass_call_le expression ((check function).pass tracing s).value tracing s
    simp [callStep, opening, rest_pass_check]
    omega
  · simp [callStep, opening]

/-- An operand and the calls behind it. -/
def primary (expression : Production Expr) : Production Expr :=
  within .primary do
    let function ← operand expression
    iterate (callStep expression) (progressive_callStep expression) function

/-! ## Operators -/

/-- One step through the operators of at least some precedence. -/
def operatorStep (least : Nat) (right : (op : Token) → least ≤ op.precedence → Production Expr)
    (left : Expr) : Production (Verdict Expr Expr) := do
  let here ← lookahead
  if binds : least ≤ here.token.precedence then
    advance
    let right ← right here.token binds
    let left ← check left
    let right ← check right
    return .again (.binary left here.pos here.token right)
  else return .done left

theorem progressive_operatorStep {least : Nat} (binary : 0 < least)
    (right : (op : Token) → least ≤ op.precedence → Production Expr) :
    Progressive (operatorStep least right) := by
  intro tracing left s left'
  by_cases binds : least ≤ s.lookahead.token.precedence
  · have := TokenStream.size_advance_lt (Token.ne_end_of_binds binary binds)
    have read := (right _ binds).size_pass_le tracing s.advance
    simp [operatorStep, binds, rest_pass_check]
    omega
  · simp [operatorStep, binds]

/-- Operands with operators between them that bind at least as tightly as `least`. -/
def climb (unary : Production Expr) (least : Nat) (binary : 0 < least) : Production Expr :=
  within .binary do
    let left ← unary
    iterate
      (operatorStep least fun op _ => climb unary (op.precedence + 1) (Nat.succ_pos _))
      (progressive_operatorStep binary _) left
termination_by Token.unaryPrecedence - least
decreasing_by
  have := op.precedence_lt_unary
  omega

/-- An expression whose operands are read with the given production. -/
def expressionOf (unary : Production Expr) : Production Expr :=
  within .expression (climb unary (Token.lowestPrecedence + 1) (Nat.succ_pos _))

/-- An operand with the operators in front of it, where `room` more levels may be opened. -/
def unary : (room : Nat) → Production Expr
  | 0 =>
    within .unary do
      let here ← lookahead
      report here.pos .nestingExceeded
      return .bad here.pos here.pos
  | room + 1 =>
    within .unary do
      let here ← lookahead
      if here.token.isPrefixOperator then
        advance
        let operand ← unary room
        let operand ← check operand
        return .unary here.pos here.token operand
      else primary (expressionOf (unary room))

/-- A whole expression. -/
def expression : Production Expr := expressionOf (unary nestingLimit)

/-! ## Formulas and parameter lists -/

/-- A formula: an expression, behind the mark that leads it if there is one, and nothing else. -/
def formula : Production Expr :=
  within .formula do
    if (← lookahead).token = .lead then advance
    let root ← expression
    expectEnd
    return root

/-- One step through a parameter list. The entries so far are kept with the latest first. -/
def parameterStep (before : List Field) : Production (Verdict (List Field) (List Field)) := do
  let type ← expression
  let fields := ⟨[], type, none⟩ :: before
  if (← lookahead).token = .comma then
    advance
    if (← lookahead).token = .closeParen then return .done fields
    else return .again fields
  else return .done fields

theorem progressive_parameterStep : Progressive parameterStep := by
  intro tracing before s before'
  have read := expression.size_pass_le tracing s
  by_cases comma : (expression.pass tracing s).rest.lookahead.token = .comma
  · have := @TokenStream.size_advance_lt (expression.pass tracing s).rest (by simp [comma])
    by_cases last : (expression.pass tracing s).rest.advance.lookahead.token = .closeParen
    · simp [parameterStep, comma, last]
    · simp [parameterStep, comma, last]
      omega
  · simp [parameterStep, comma]

/-- The entries of a parameter list. -/
def parameterList : Production (List Field) :=
  within .parameterList do
    let latestFirst ← iterate parameterStep progressive_parameterStep []
    return latestFirst.reverse

/-- A parameter list between its parentheses. -/
def parameters : Production FieldList :=
  within .parameters do
    let opening ← expect .openParen
    let fields ← if (← lookahead).token ≠ .closeParen then parameterList else pure []
    let closing ← expect .closeParen
    return ⟨opening, fields, closing⟩

/-- A parameter list and nothing else. -/
def parametersOnly : Production FieldList := do
  let root ← parameters
  expectEnd
  return root

end SheetFormula.Grammar

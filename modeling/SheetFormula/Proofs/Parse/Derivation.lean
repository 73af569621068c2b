import Mathlib.Tactic.Common
import SheetFormula.Parse.Grammar
import SheetFormula.Proofs.Parse.Journal

/-!
# Derivations

What the productions of the grammar do, as one relation. `Derives p s journal t` says that the
phrase `p` is read in front of the stream `s`, which leaves the stream `t` and the journal
`journal`; a phrase names a production together with what the production makes of the stream. A rule
of the relation is one way that one production can take.

Main results:
* `Derives.leads` and `Derives.size_le`: a derivation leads from its one stream to the other, and
  puts no lexeme back.
* `Derives.stands` and `Derives.accepts`: what is derived can stand wherever an expression is
  checked, and so no derivation refuses one.
* `Derives.runs`: what is derived is what runs.
* `readable_unary` and `readable_entries`: every stream has derivations.
* `derives_expression` and `derives_parameterList`: so a run can always be traded for a derivation.

What trees and journals have to do with the source is proved by induction on derivations, without
another look into the productions.
-/

namespace SheetFormula

open Production Grammar

/-! ## Marks that are needed -/

/-- What the journal shows where a mark is needed: the lexeme in front is consumed, and if it is
not that mark, a fault has been noted at it. -/
inductive Demands (t : Token) (s : TokenStream) : Journal → Prop
  | met (found : s.lookahead.token = t) : Demands t s [s.taking false]
  | missed (fault : SyntaxFault) (other : s.lookahead.token ≠ t) :
      Demands t s [s.noting fault, s.taking false]

/-- A mark that is expected is consumed, with a fault noted if it is another one. -/
theorem demands_expect (t : Token) (s : TokenStream) : Demands t s ((expect t).run s).journal := by
  by_cases found : s.lookahead.token = t
  · have same : ((expect t).run s).journal = [s.taking false] := by
      simp [expect, found, TokenStream.taking]
    rw [same]
    exact .met found
  · have same : ((expect t).run s).journal =
        [s.noting (.expected (.token t) (some s.lookahead.found)), s.taking false] := by
      simp [expect, found, TokenStream.taking, TokenStream.noting]
    rw [same]
    exact .missed _ found

/-- So is one that closes something. -/
theorem demands_expectClosing (t : Token) (s : TokenStream) :
    Demands t s ((expectClosing t).run s).journal := by
  by_cases broken : s.lookahead.token ≠ t ∧ s.lookahead.newlineBefore = true
  · have same : ((expectClosing t).run s).journal =
        [s.noting .missingCommaBeforeNewline, s.taking false] := by
      simp [expectClosing, broken, TokenStream.taking, TokenStream.noting]
    rw [same]
    exact .missed _ broken.1
  · have same : ((expectClosing t).run s).journal = ((expect t).run s).journal := by
      simp [expectClosing, broken]
    rw [same]
    exact demands_expect t s

/-- An expected mark has the position of the lexeme in front. -/
theorem value_expect (t : Token) (s : TokenStream) :
    ((expect t).run s).value = s.lookahead.pos := by
  by_cases found : s.lookahead.token = t <;> simp [expect, found]

/-- So has one that closes something. -/
theorem value_expectClosing (t : Token) (s : TokenStream) :
    ((expectClosing t).run s).value = s.lookahead.pos := by
  by_cases broken : s.lookahead.token ≠ t ∧ s.lookahead.newlineBefore = true
  · simp [expectClosing, broken]
  · simp [expectClosing, broken, value_expect]

/-- A closing mark takes one lexeme. -/
theorem rest_expectClosing (t : Token) (s : TokenStream) :
    ((expectClosing t).run s).rest = s.advance := by
  by_cases broken : s.lookahead.token ≠ t ∧ s.lookahead.newlineBefore = true
  · simp [expectClosing, broken]
  · simp [expectClosing, broken, rest_expect]

/-! ## The relation -/

/-- A production of the grammar and what it makes of a stream. In a phrase that carries on with
something that has been read before, `left` or `function`, that comes first. -/
inductive Phrase
  | expression (room : Nat) (x : Expr)
  | climb (room least : Nat) (x : Expr)
  | operators (room least : Nat) (left x : Expr)
  | unary (room : Nat) (x : Expr)
  | primary (room : Nat) (x : Expr)
  | operand (room : Nat) (x : Expr)
  | calls (room : Nat) (function x : Expr)
  | arguments (room : Nat) (xs : List Expr)
  | entries (fields : List Field)

/-- Whether a phrase climbs over binary operators only. -/
def Phrase.Binary : Phrase → Prop
  | .climb _ least _ | .operators _ least _ _ => 0 < least
  | _ => True

/-- Whether a phrase is read in front of a stream, with a journal, up to another stream. -/
inductive Derives : Phrase → TokenStream → Journal → TokenStream → Prop
  | expression {room : Nat} {s t : TokenStream} {x : Expr} {inner : Journal}
      (all : Derives (.climb room (Token.lowestPrecedence + 1) x) s inner t) :
      Derives (.expression room x) s (Rule.expression.around inner) t
  | climb {room least : Nat} {s m t : TokenStream} {left x : Expr} {first later : Journal}
      (operand : Derives (.unary room left) s first m)
      (further : Derives (.operators room least left x) m later t) :
      Derives (.climb room least x) s (Rule.binary.around (first ++ later)) t
  | noOperator {room least : Nat} {s : TokenStream} {left : Expr}
      (loose : ¬ least ≤ s.lookahead.token.precedence) :
      Derives (.operators room least left left) s [] s
  | operator {room least : Nat} {s m t : TokenStream} {left right x : Expr}
      {first later : Journal} (binds : least ≤ s.lookahead.token.precedence)
      (operand : Derives (.climb room (s.lookahead.token.precedence + 1) right) s.advance first m)
      (further : Derives
        (.operators room least (.binary left s.lookahead.pos s.lookahead.token right) x)
        m later t) :
      Derives (.operators room least left x) s (s.taking false :: (first ++ later)) t
  | tooDeep {s : TokenStream} :
      Derives (.unary 0 (.bad s.lookahead.pos s.lookahead.pos)) s
        (Rule.unary.around [s.noting .nestingExceeded]) s
  | prefixed {room : Nat} {s t : TokenStream} {x : Expr} {inner : Journal}
      (operator : s.lookahead.token.isPrefixOperator)
      (operand : Derives (.unary room x) s.advance inner t) :
      Derives (.unary (room + 1) (.unary s.lookahead.pos s.lookahead.token x)) s
        (Rule.unary.around (s.taking false :: inner)) t
  | plain {room : Nat} {s t : TokenStream} {x : Expr} {inner : Journal}
      (none : ¬ s.lookahead.token.isPrefixOperator)
      (operand : Derives (.primary room x) s inner t) :
      Derives (.unary (room + 1) x) s (Rule.unary.around inner) t
  | primary {room : Nat} {s m t : TokenStream} {function x : Expr} {first later : Journal}
      (operand : Derives (.operand room function) s first m)
      (further : Derives (.calls room function x) m later t) :
      Derives (.primary room x) s (Rule.primary.around (first ++ later)) t
  | noCall {room : Nat} {s : TokenStream} {function : Expr}
      (other : s.lookahead.token ≠ .openParen) :
      Derives (.calls room function function) s [] s
  | call {room : Nat} {s m t : TokenStream} {function x : Expr} {xs : List Expr}
      {inner later : Journal} (opening : s.lookahead.token = .openParen)
      (list : Derives (.arguments room xs) s.advance inner m)
      (further : Derives (.calls room (.call function s.lookahead.pos xs m.lookahead.pos) x)
        m.advance later t) :
      Derives (.calls room function x) s
        (Rule.call.around
          (s.taking false :: (inner ++ ((expectClosing .closeParen).run m).journal)) ++ later) t
  | noArgument {room : Nat} {s : TokenStream}
      (last : s.lookahead.token = .closeParen ∨ s.lookahead.token = .endOfFormula) :
      Derives (.arguments room []) s [] s
  | lastArgument {room : Nat} {s t : TokenStream} {x : Expr} {first : Journal}
      (more : ¬ (s.lookahead.token = .closeParen ∨ s.lookahead.token = .endOfFormula))
      (argument : Derives (.expression room x) s first t)
      (last : t.lookahead.token = .closeParen ∨ t.lookahead.token = .endOfFormula) :
      Derives (.arguments room [x]) s first t
  | argument {room : Nat} {s m t : TokenStream} {x : Expr} {xs : List Expr}
      {first later : Journal}
      (more : ¬ (s.lookahead.token = .closeParen ∨ s.lookahead.token = .endOfFormula))
      (argument : Derives (.expression room x) s first m)
      (comma : m.lookahead.token = .comma)
      (further : Derives (.arguments room xs) m.advance later t) :
      Derives (.arguments room (x :: xs)) s (first ++ m.taking false :: later) t
  /-- A token that is neither a comma nor an end stands for a comma. -/
  | strayArgument {room : Nat} {s m t : TokenStream} {x : Expr} {xs : List Expr}
      {first later : Journal}
      (more : ¬ (s.lookahead.token = .closeParen ∨ s.lookahead.token = .endOfFormula))
      (argument : Derives (.expression room x) s first m)
      (stray : m.lookahead.token ≠ .comma ∧ m.lookahead.token ≠ .closeParen ∧
        m.lookahead.token ≠ .endOfFormula)
      (further : Derives (.arguments room xs) m.advance later t) :
      Derives (.arguments room (x :: xs)) s
        (first ++ m.noting .missingComma :: m.taking false :: later) t
  | ident {room : Nat} {s : TokenStream} (name : s.lookahead.token = .ident) :
      Derives (.operand room (.ident ⟨s.lookahead.pos, s.lookahead.lexeme.literal⟩)) s
        (Rule.operand.around [s.taking true]) s.advance
  | literal {room : Nat} {s : TokenStream} (value : s.lookahead.token.isValue) :
      Derives
        (.operand room
          (.literal ⟨s.lookahead.pos, s.lookahead.token, s.lookahead.lexeme.literal⟩)) s
        (Rule.operand.around [s.taking true]) s.advance
  | paren {room : Nat} {s m : TokenStream} {x : Expr} {inner : Journal}
      (opening : s.lookahead.token = .openParen)
      (content : Derives (.expression room x) s.advance inner m) :
      Derives (.operand room (.paren s.lookahead.pos x m.lookahead.pos)) s
        (Rule.operand.around
          (s.taking false :: (inner ++ ((expect .closeParen).run m).journal))) m.advance
  | missing {room : Nat} {s : TokenStream}
      (other : s.lookahead.token ≠ .ident ∧ ¬ s.lookahead.token.isValue ∧
        s.lookahead.token ≠ .openParen) :
      Derives (.operand room (.bad s.lookahead.pos s.lookahead.pos)) s
        (Rule.operand.around [s.noting (.expected .operand (some s.lookahead.found))]) s
  | lastEntry {s t : TokenStream} {x : Expr} {first : Journal}
      (type : Derives (.expression nestingLimit x) s first t)
      (last : t.lookahead.token ≠ .comma) :
      Derives (.entries [⟨[], x, .none⟩]) s first t
  /-- A comma may stand behind the last entry. -/
  | trailedEntry {s m : TokenStream} {x : Expr} {first : Journal}
      (type : Derives (.expression nestingLimit x) s first m)
      (comma : m.lookahead.token = .comma)
      (last : m.advance.lookahead.token = .closeParen) :
      Derives (.entries [⟨[], x, .none⟩]) s (first ++ [m.taking false]) m.advance
  | entry {s m t : TokenStream} {x : Expr} {fields : List Field} {first later : Journal}
      (type : Derives (.expression nestingLimit x) s first m)
      (comma : m.lookahead.token = .comma)
      (more : m.advance.lookahead.token ≠ .closeParen)
      (further : Derives (.entries fields) m.advance later t) :
      Derives (.entries (⟨[], x, .none⟩ :: fields)) s (first ++ m.taking false :: later) t

/-! ## Derivations and streams -/

/-- A mark that is needed leads behind one lexeme. -/
theorem Demands.leads {t : Token} {s : TokenStream} {journal : Journal}
    (demands : Demands t s journal) : Journal.Leads s journal s.advance := by
  cases demands with
  | met found => exact .consume false (.nothing _)
  | missed fault other => exact .report fault (.consume false (.nothing _))

/-- The journal of a derivation leads from its one stream to the other. -/
theorem Derives.leads {p : Phrase} {s t : TokenStream} {journal : Journal}
    (h : Derives p s journal t) : Journal.Leads s journal t := by
  induction h with
  | expression all ih => exact ih.around _
  | climb operand further left right => exact (left.append right).around _
  | noOperator loose => exact .nothing _
  | operator binds operand further right later => exact .consume false (right.append later)
  | tooDeep => exact (Journal.Leads.report _ (.nothing _)).around _
  | prefixed operator operand ih => exact (Journal.Leads.consume false ih).around _
  | plain none operand ih => exact ih.around _
  | primary operand further first later => exact (first.append later).around _
  | noCall other => exact .nothing _
  | call opening list further inner later =>
    refine Journal.Leads.append (.around _ (.consume false ?_)) later
    exact inner.append (demands_expectClosing _ _).leads
  | noArgument last => exact .nothing _
  | lastArgument more argument last ih => exact ih
  | argument more argument comma further first later => exact first.append (.consume false later)
  | strayArgument more argument stray further first later =>
    exact first.append (.report _ (.consume false later))
  | ident name => exact (Journal.Leads.consume true (.nothing _)).around _
  | literal value => exact (Journal.Leads.consume true (.nothing _)).around _
  | paren opening content ih =>
    exact (Journal.Leads.consume false (ih.append (demands_expect _ _).leads)).around _
  | missing other => exact (Journal.Leads.report _ (.nothing _)).around _
  | lastEntry type last ih => exact ih
  | trailedEntry type comma last ih => exact ih.append (.consume false (.nothing _))
  | entry type comma more further first later => exact first.append (.consume false later)

/-- No derivation puts a lexeme back. -/
theorem Derives.size_le {p : Phrase} {s t : TokenStream} {journal : Journal}
    (h : Derives p s journal t) : t.size ≤ s.size :=
  h.leads.size_le

/-! ## What is derived can stand

An operand is either a name or a literal of a value kind, or it is put together from others. So the
checks of the grammar have nothing to find fault with, as long as what has been read before could
stand. This is the invariant that climbing and calling keep as they go on from one operator or call
to the next.
-/

/-- Whether what a phrase carries on with may be part of other expressions. -/
def Phrase.Carries : Phrase → Prop
  | .operators _ _ left _ => left.isValueless = false
  | .calls _ function _ => function.isValueless = false
  | _ => True

/-- Whether the expression that a phrase makes may be part of others. -/
def Phrase.Stands : Phrase → Prop
  | .expression _ x | .climb _ _ x | .operators _ _ _ x | .unary _ x | .primary _ x
  | .operand _ x | .calls _ _ x => x.isValueless = false
  | .arguments .. | .entries _ => True

/-- **What is derived can stand**: it is no literal of a kind that is not one of values, whatever
parentheses are around it. -/
theorem Derives.stands {p : Phrase} {s t : TokenStream} {journal : Journal}
    (h : Derives p s journal t) (carries : p.Carries) : p.Stands := by
  induction h with
  | expression all ih => exact ih trivial
  | climb operand further ih ihLater => exact ihLater (ih trivial)
  | noOperator loose => exact carries
  | operator binds operand further ih ihLater => exact ihLater rfl
  | tooDeep => exact rfl
  | prefixed operator operand ih => exact rfl
  | plain none operand ih => exact ih trivial
  | primary operand further ih ihLater => exact ihLater (ih trivial)
  | noCall other => exact carries
  | call opening list further ih ihLater => exact ihLater rfl
  | ident name => exact rfl
  | literal value => exact Bool.not_eq_false' _ |>.mpr value
  -- Parentheses do not hide what is inside them from a check.
  | paren opening content ih => exact ih trivial
  | missing other => exact rfl
  | noArgument | lastArgument | argument | strayArgument => trivial
  | lastEntry | trailedEntry | entry => trivial

/-- A check lets an expression pass that can stand. -/
theorem check_of_stands {x : Expr} (stands : x.isValueless = false) : check x = pure x := by
  simp [check, stands]

/-- An enclosed expression that can stand is as it was read. -/
theorem run_enclosed {expression : Production Expr} {s t : TokenStream} {x : Expr}
    {journal : Journal} (ran : expression.run s = ⟨x, t, journal⟩)
    (stands : x.isValueless = false) : (enclosed expression).run s = ⟨x, t, journal⟩ := by
  simp [enclosed, ran, check_of_stands stands]

/-- Whether a fault tells that an expression cannot stand where it is. -/
def SyntaxFault.isRefusal : SyntaxFault → Bool
  | .expected .expression _ => true
  | _ => false

/-- Whether all expressions could stand, by what a journal notes. -/
def Journal.Accepts (journal : Journal) : Prop :=
  ∀ n ∈ journal.noted, n.2.isRefusal = false

section Accepts

variable (s : TokenStream) (asOperand : Bool) (rule : Rule) (fault : SyntaxFault)
  (first later : Journal)

/-- Nothing that is noted refuses nothing. -/
@[simp] theorem Journal.accepts_nil : Journal.Accepts [] :=
  fun _ mem => absurd mem List.not_mem_nil

/-- Journals one behind the other refuse what either of them does. -/
@[simp] theorem Journal.accepts_append :
    Journal.Accepts (first ++ later) ↔ first.Accepts ∧ later.Accepts := by
  rw [Journal.Accepts, Journal.noted_append, List.forall_mem_append]
  rfl

/-- A lexeme that is consumed refuses nothing. -/
@[simp] theorem Journal.accepts_taking :
    Journal.Accepts (s.taking asOperand :: later) ↔ later.Accepts := Iff.rfl

/-- A fault refuses an expression or not. -/
@[simp] theorem Journal.accepts_noting :
    Journal.Accepts (s.noting fault :: later) ↔ fault.isRefusal = false ∧ later.Accepts := by
  rw [Journal.Accepts, Journal.noted_noting, List.forall_mem_cons]
  rfl

/-- The brackets of a production refuse nothing. -/
@[simp] theorem Journal.accepts_around : (rule.around later).Accepts ↔ later.Accepts := by
  rw [Journal.Accepts, Journal.noted_around]
  rfl

end Accepts

/-- A mark that is missing is no expression that is refused. -/
@[simp] theorem accepts_expect (t : Token) (s : TokenStream) :
    ((expect t).run s).journal.Accepts := by
  by_cases found : s.lookahead.token = t
  · simp [expect, found, Journal.Accepts, Journal.noted]
  · simp [expect, found, Journal.Accepts, Journal.noted, SyntaxFault.isRefusal]

/-- Nor is one that is missing where something should close. -/
@[simp] theorem accepts_expectClosing (t : Token) (s : TokenStream) :
    ((expectClosing t).run s).journal.Accepts := by
  by_cases broken : s.lookahead.token ≠ t ∧ s.lookahead.newlineBefore = true
  · simp [expectClosing, broken, Journal.Accepts, Journal.noted, SyntaxFault.isRefusal]
  · have same : (expectClosing t).run s = (expect t).run s := by simp [expectClosing, broken]
    rw [same]
    exact accepts_expect t s

/-- **No derivation refuses an expression.** -/
theorem Derives.accepts {p : Phrase} {s t : TokenStream} {journal : Journal}
    (h : Derives p s journal t) : journal.Accepts := by
  induction h with
  | expression all ih => simpa using ih
  | climb operand further ih ihLater => simpa using ⟨ih, ihLater⟩
  | noOperator loose => simp
  | operator binds operand further ih ihLater => simpa using ⟨ih, ihLater⟩
  | tooDeep => simp [SyntaxFault.isRefusal]
  | prefixed operator operand ih => simpa using ih
  | plain none operand ih => simpa using ih
  | primary operand further ih ihLater => simpa using ⟨ih, ihLater⟩
  | noCall other => simp
  | call opening list further ih ihLater => simpa using ⟨ih, ihLater⟩
  | noArgument last => simp
  | lastArgument more argument last ih => exact ih
  | argument more argument comma further ih ihLater => simpa using ⟨ih, ihLater⟩
  | strayArgument more argument stray further ih ihLater =>
    simpa [SyntaxFault.isRefusal] using ⟨ih, ihLater⟩
  | ident name => simp
  | literal value => simp
  | paren opening content ih => simpa using ih
  | missing other => simp [SyntaxFault.isRefusal]
  | lastEntry type last ih => exact ih
  | trailedEntry type comma last ih => simpa using ih
  | entry type comma more further ih ihLater => simpa using ⟨ih, ihLater⟩

/-! ## What is derived is what runs -/

/-- A precedence above that of an operator is one of binary operators. -/
theorem Token.precedence_succ_pos (op : Token) : 0 < op.precedence + 1 := Nat.succ_pos _

/-- The operators behind an operand, as a production. -/
def operatorsFrom (room least : Nat) (binary : 0 < least) (left : Expr) : Production Expr :=
  iterate
    (operatorStep least fun op _ =>
      Grammar.climb (Grammar.unary room) (op.precedence + 1) op.precedence_succ_pos)
    (progressive_operatorStep binary _) left

/-- The calls behind an operand, as a production. -/
def callsFrom (room : Nat) (function : Expr) : Production Expr :=
  iterate (callStep (expressionOf (Grammar.unary room))) (progressive_callStep _) function

/-- The arguments behind others, as a production; the latest comes first. -/
def argumentsFrom (room : Nat) (before : List Expr) : Production (List Expr) :=
  iterate (argumentStep (expressionOf (Grammar.unary room))) (progressive_argumentStep _) before

/-- The entries behind others, as a production; the latest comes first. -/
def entriesFrom (before : List Field) : Production (List Field) :=
  iterate parameterStep progressive_parameterStep before

/-- Whether the production of a phrase, run on a stream, makes what the phrase says, with a journal
and a stream that is left, as long as what it carries on with can stand. -/
def Phrase.Runs : Phrase → TokenStream → Journal → TokenStream → Prop
  | .expression room x, s, journal, t =>
    (expressionOf (Grammar.unary room)).run s = ⟨x, t, journal⟩
  | .climb room least x, s, journal, t =>
    ∀ binary, (Grammar.climb (Grammar.unary room) least binary).run s = ⟨x, t, journal⟩
  | .operators room least left x, s, journal, t =>
    left.isValueless = false →
      ∀ binary, (operatorsFrom room least binary left).run s = ⟨x, t, journal⟩
  | .unary room x, s, journal, t => (Grammar.unary room).run s = ⟨x, t, journal⟩
  | .primary room x, s, journal, t =>
    (Grammar.primary (expressionOf (Grammar.unary room))).run s = ⟨x, t, journal⟩
  | .operand room x, s, journal, t =>
    (Grammar.operand (expressionOf (Grammar.unary room))).run s = ⟨x, t, journal⟩
  | .calls room function x, s, journal, t =>
    function.isValueless = false → (callsFrom room function).run s = ⟨x, t, journal⟩
  | .arguments room xs, s, journal, t =>
    ∀ before, (argumentsFrom room before).run s = ⟨xs.reverse ++ before, t, journal⟩
  | .entries fields, s, journal, t =>
    ∀ before, (entriesFrom before).run s = ⟨fields.reverse ++ before, t, journal⟩

/-- **What is derived is what runs.** By induction on the derivation: each rule is one way that a
production can take, and the phrases that it needs are what the production runs on the way. -/
theorem Derives.runs {p : Phrase} {s t : TokenStream} {journal : Journal}
    (h : Derives p s journal t) : p.Runs s journal t := by
  -- One case for each way to derive a phrase. What a loop does is claimed for any expressions in
  -- front of it, as each pass of it puts one more there. A case of a loop unfolds its hypothesis
  -- since `run_iterate` leaves the goal with an iteration behind the first pass.
  induction h with
  | expression all ih =>
    have inside := ih (Nat.succ_pos _)
    simp only [Phrase.Runs, expressionOf, run_within, inside]
  | @climb room least s m t left x first later operand further ih ihLater =>
    intro binary
    have behind := ihLater (operand.stands trivial) binary
    unfold Phrase.Runs at ih
    unfold operatorsFrom at behind
    unfold Grammar.climb
    simp only [run_within, run_bind, ih, behind]
  | noOperator loose =>
    intro stands binary
    rw [operatorsFrom, run_iterate]
    simp [operatorStep, loose]
  | @operator room least s m t left right x first later binds operand further ih ihLater =>
    intro stands binary
    have inside := ih (Nat.succ_pos _)
    have behind := ihLater rfl binary
    unfold operatorsFrom at behind
    rw [operatorsFrom, run_iterate]
    simp [operatorStep, binds, inside, behind, check_of_stands stands,
      check_of_stands (operand.stands trivial), TokenStream.taking]
  | tooDeep => rfl
  | @prefixed room s t x inner operator operand ih =>
    unfold Phrase.Runs at ih
    simp [Phrase.Runs, Grammar.unary, operator, ih, check_of_stands (operand.stands trivial),
      TokenStream.taking]
  | @plain room s t x inner none operand ih =>
    unfold Phrase.Runs at ih
    simp [Phrase.Runs, Grammar.unary, none, ih]
  | @primary room s m t function x first later operand further ih ihLater =>
    have behind := ihLater (operand.stands trivial)
    unfold Phrase.Runs at ih
    unfold callsFrom at behind
    simp [Phrase.Runs, Grammar.primary, ih, behind]
  | noCall other =>
    intro stands
    rw [callsFrom, run_iterate]
    simp [callStep, other]
  | @call room s m t function x xs inner later opening list further ih ihLater =>
    intro stands
    have inside := ih []
    have behind := ihLater rfl
    unfold argumentsFrom at inside
    unfold callsFrom at behind
    rw [callsFrom, run_iterate]
    simp [callStep, opening, check_of_stands stands, Grammar.call, Grammar.arguments, expect,
      inside, behind, value_expectClosing, rest_expectClosing, TokenStream.taking]
  | noArgument last =>
    intro before
    rw [argumentsFrom, run_iterate]
    simp [argumentStep, last]
  | @lastArgument room s t x first more argument last ih =>
    intro before
    have read := run_enclosed ih (argument.stands trivial)
    rw [argumentsFrom, run_iterate]
    rcases last with last | last <;> simp [argumentStep, more, read, atComma, last]
  | @argument room s m t x xs first later more argument comma further ih ihLater =>
    intro before
    have behind := ihLater (x :: before)
    have read := run_enclosed ih (argument.stands trivial)
    unfold argumentsFrom at behind
    rw [argumentsFrom, run_iterate]
    simp [argumentStep, more, read, atComma, comma, behind, TokenStream.taking]
  | @strayArgument room s m t x xs first later more argument stray further ih ihLater =>
    intro before
    have behind := ihLater (x :: before)
    have read := run_enclosed ih (argument.stands trivial)
    unfold argumentsFrom at behind
    rw [argumentsFrom, run_iterate]
    simp [argumentStep, more, read, atComma, stray, behind, TokenStream.taking, TokenStream.noting]
  | ident name =>
    simp [Phrase.Runs, Grammar.operand, name, TokenStream.taking]
  | @literal room s value =>
    have other : s.lookahead.token ≠ .ident := by
      intro name
      rw [name] at value
      exact absurd value (by decide)
    simp [Phrase.Runs, Grammar.operand, other, value, TokenStream.taking]
  | @paren room s m x inner opening content ih =>
    have other : ¬ Token.openParen.isValue := by decide
    have read := run_enclosed ih (content.stands trivial)
    simp [Phrase.Runs, Grammar.operand, opening, other, read, value_expect, rest_expect,
      TokenStream.taking]
  | missing other =>
    simp [Phrase.Runs, Grammar.operand, other, TokenStream.noting]
  | @lastEntry s t x first type last ih =>
    intro before
    unfold Phrase.Runs at ih
    rw [entriesFrom, run_iterate]
    simp [parameterStep, Grammar.expression, ih, last]
  | @trailedEntry s m x first type comma last ih =>
    intro before
    unfold Phrase.Runs at ih
    rw [entriesFrom, run_iterate]
    simp [parameterStep, Grammar.expression, ih, comma, last, TokenStream.taking]
  | @entry s m t x fields first later type comma more further ih ihLater =>
    intro before
    have behind := ihLater (⟨[], x, .none⟩ :: before)
    unfold Phrase.Runs at ih
    unfold entriesFrom at behind
    rw [entriesFrom, run_iterate]
    simp [parameterStep, Grammar.expression, ih, comma, more, behind, TokenStream.taking]

/-! ## Every stream has derivations

The loops come to an end because each pass consumes a lexeme, climbing because operands of operators
bind more tightly than they, and nesting because the room runs out.
-/

/-- Some reading of a stream, for a family of phrases. -/
def Readable {α : Type} (phrase : α → Phrase) (s : TokenStream) : Prop :=
  ∃ x journal t, Derives (phrase x) s journal t

section Total

variable {room : Nat}

/-- Operators behind an operand can be read, by induction on the number of lexemes ahead. -/
theorem readable_operators {least : Nat} (binary : 0 < least)
    (tighter : ∀ least' s, least < least' → least' ≤ Token.unaryPrecedence →
      Readable (.climb room least') s)
    (left : Expr) (s : TokenStream) : Readable (.operators room least left) s := by
  induction size : s.size using Nat.strongRecOn generalizing left s with
  | ind size ih =>
    by_cases binds : least ≤ s.lookahead.token.precedence
    · obtain ⟨right, first, m, operand⟩ :=
        tighter (s.lookahead.token.precedence + 1) s.advance (by omega)
          s.lookahead.token.precedence_lt_unary
      have shrinks := TokenStream.size_advance_lt (Token.ne_end_of_binds binary binds)
      have read := operand.size_le
      obtain ⟨x, later, t, further⟩ :=
        ih m.size (by omega) (.binary left s.lookahead.pos s.lookahead.token right) m rfl
      exact ⟨x, _, t, .operator binds operand further⟩
    · exact ⟨left, _, s, .noOperator binds⟩

/-- So can operands with operators between them that bind tightly enough, by induction on how much
more tightly operators could still bind. -/
theorem readable_climb (operands : ∀ s, Readable (.unary room) s) {least : Nat}
    (binary : 0 < least) (s : TokenStream) : Readable (.climb room least) s := by
  induction slack : Token.unaryPrecedence - least using Nat.strongRecOn generalizing least s with
  | ind slack ih =>
    have tighter : ∀ least' s, least < least' → least' ≤ Token.unaryPrecedence →
        Readable (.climb room least') s := by
      intro least' s above bounded
      exact ih _ (by omega) (by omega) s rfl
    obtain ⟨left, first, m, operand⟩ := operands s
    obtain ⟨x, later, t, behind⟩ := readable_operators binary tighter left m
    exact ⟨x, _, t, .climb operand behind⟩

/-- So can whole expressions, if operands can. -/
theorem readable_expression (operands : ∀ s, Readable (.unary room) s) (s : TokenStream) :
    Readable (.expression room) s := by
  obtain ⟨x, journal, t, all⟩ : Readable (.climb room (Token.lowestPrecedence + 1)) s :=
    readable_climb operands (Nat.succ_pos _) s
  exact ⟨x, _, t, .expression all⟩

/-- So can arguments up to where a list ends, by induction on the number of lexemes ahead. -/
theorem readable_arguments (expressions : ∀ s, Readable (.expression room) s) (s : TokenStream) :
    Readable (.arguments room) s := by
  induction size : s.size using Nat.strongRecOn generalizing s with
  | ind size ih =>
    by_cases last : s.lookahead.token = .closeParen ∨ s.lookahead.token = .endOfFormula
    · exact ⟨[], _, s, .noArgument last⟩
    · obtain ⟨x, first, m, argument⟩ := expressions s
      by_cases closing : m.lookahead.token = .closeParen ∨ m.lookahead.token = .endOfFormula
      · exact ⟨[x], _, m, .lastArgument last argument closing⟩
      · have other := not_or.mp closing
        have shrinks := TokenStream.size_advance_lt other.2
        have read := argument.size_le
        obtain ⟨xs, later, t, further⟩ := ih m.advance.size (by omega) m.advance rfl
        by_cases comma : m.lookahead.token = .comma
        · exact ⟨x :: xs, _, t, .argument last argument comma further⟩
        · exact ⟨x :: xs, _, t, .strayArgument last argument ⟨comma, other⟩ further⟩

/-- So can the calls behind a function. -/
theorem readable_calls (expressions : ∀ s, Readable (.expression room) s) (function : Expr)
    (s : TokenStream) : Readable (.calls room function) s := by
  induction size : s.size using Nat.strongRecOn generalizing function s with
  | ind size ih =>
    by_cases opening : s.lookahead.token = .openParen
    · obtain ⟨xs, inner, m, list⟩ := readable_arguments expressions s.advance
      have shrinks := @TokenStream.size_advance_lt s (by simp [opening])
      have read := list.size_le
      have closed := m.size_advance_le
      obtain ⟨x, later, t, further⟩ := ih m.advance.size (by omega)
        (.call function s.lookahead.pos xs m.lookahead.pos) m.advance rfl
      exact ⟨x, _, t, .call opening list further⟩
    · exact ⟨function, _, s, .noCall opening⟩

/-- So can operands without operators and calls. -/
theorem readable_operand (expressions : ∀ s, Readable (.expression room) s) (s : TokenStream) :
    Readable (.operand room) s := by
  by_cases name : s.lookahead.token = .ident
  · exact ⟨_, _, _, .ident name⟩
  by_cases value : s.lookahead.token.isValue
  · exact ⟨_, _, _, .literal value⟩
  by_cases opening : s.lookahead.token = .openParen
  · obtain ⟨x, inner, m, content⟩ := expressions s.advance
    exact ⟨_, _, _, .paren opening content⟩
  · exact ⟨_, _, _, .missing ⟨name, value, opening⟩⟩

/-- So can operands with calls. -/
theorem readable_primary (expressions : ∀ s, Readable (.expression room) s) (s : TokenStream) :
    Readable (.primary room) s := by
  obtain ⟨function, first, m, operand⟩ := readable_operand expressions s
  obtain ⟨x, later, t, further⟩ := readable_calls expressions function m
  exact ⟨x, _, t, .primary operand further⟩

end Total

/-- **Operands can be read in front of every stream**, by induction on the room. Where there is
none, nothing is read. -/
theorem readable_unary (room : Nat) (s : TokenStream) : Readable (.unary room) s := by
  induction room generalizing s with
  | zero => exact ⟨_, _, s, .tooDeep⟩
  | succ room ih =>
    by_cases operator : s.lookahead.token.isPrefixOperator
    · obtain ⟨x, inner, t, operand⟩ := ih s.advance
      exact ⟨_, _, t, .prefixed operator operand⟩
    · obtain ⟨x, inner, t, operand⟩ := readable_primary (readable_expression ih) s
      exact ⟨x, _, t, .plain operator operand⟩

/-- **So can the entries of a list**, by induction on the number of lexemes ahead. -/
theorem readable_entries (s : TokenStream) : Readable .entries s := by
  induction size : s.size using Nat.strongRecOn generalizing s with
  | ind size ih =>
    obtain ⟨x, first, m, type⟩ := readable_expression (readable_unary nestingLimit) s
    by_cases comma : m.lookahead.token = .comma
    · by_cases last : m.advance.lookahead.token = .closeParen
      · exact ⟨_, _, _, .trailedEntry type comma last⟩
      · have shrinks := @TokenStream.size_advance_lt m (by simp [comma])
        have read := type.size_le
        obtain ⟨fields, later, t, further⟩ := ih m.advance.size (by omega) m.advance rfl
        exact ⟨_, _, t, .entry type comma last further⟩
    · exact ⟨_, _, m, .lastEntry type comma⟩

/-! ## What runs is derived -/

/-- **A run of the production of whole expressions is a derivation.** -/
theorem derives_expression (s : TokenStream) :
    Derives (.expression nestingLimit (Grammar.expression.run s).value) s
      (Grammar.expression.run s).journal (Grammar.expression.run s).rest := by
  obtain ⟨x, journal, t, derived⟩ := readable_expression (readable_unary nestingLimit) s
  have ran : Grammar.expression.run s = ⟨x, t, journal⟩ := derived.runs
  rwa [ran]

/-- **A run of the production of parameter lists is a derivation.** -/
theorem derives_parameterList (s : TokenStream) :
    ∃ journal, (parameterList.run s).journal = Rule.parameterList.around journal ∧
      Derives (.entries (parameterList.run s).value) s journal (parameterList.run s).rest := by
  obtain ⟨fields, journal, t, derived⟩ := readable_entries s
  have ran := derived.runs []
  rw [entriesFrom, List.append_nil] at ran
  refine ⟨journal, ?_, ?_⟩
  · simp [parameterList, ran, Rule.around]
  · simpa [parameterList, ran] using derived

end SheetFormula

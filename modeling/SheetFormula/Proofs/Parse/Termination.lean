import Mathlib.Logic.Relation
import Mathlib.Tactic.Common
import SheetFormula.Proofs.Lexeme.Report
import SheetFormula.Proofs.Parse.Turns

/-!
# Parsing comes to an end

A pass of a loop behind which there is another one has consumed a lexeme that is not the end, even
where its operand is missing and has consumed nothing. Calls may be nested without a lexeme being
consumed, but not for long: each production ranks above those that it calls with the same lexemes
ahead (`Turn.rank`), and there are ten ranks.

Main results:
* `Production.Advances` holds of the steps of all four loops.
* `Turn.calls_add_le`: a chain of calls has at most ten of them for each lexeme, and nine more.
* `Turn.nested_climb` and `Turn.nested_unary`: among the calls of a chain, those of operators are
  bounded further, by precedences and by the room that is left.
* `Derives.length_le`: a journal has at most sixteen entries for each lexeme, and a few more. Chains
  say how deep calls are nested, and not how many there are; journals do.
* `parsing_terminates`: so a parse takes a number of steps that is linear in the length of its
  source.
-/

namespace SheetFormula

open Production Grammar

/-- Behind what leads a formula no more lexemes are ahead. -/
theorem TokenStream.size_behindLead_le (s : TokenStream) : s.behindLead.size ≤ s.size := by
  unfold behindLead
  split
  · exact s.size_advance_le
  · exact Nat.le_refl _

/-! ## Passes of the loops -/

/-- Whether each pass of a loop, but for the last one, consumes a lexeme that is not the end, and so
leaves fewer lexemes ahead. -/
def Production.Advances {α β : Type} (step : α → Production (Verdict α β)) : Prop :=
  ∀ state s next, ((step state).run s).value = .again next →
    (∃ l ∈ ((step state).run s).journal.consumed, l.token ≠ .endOfFormula) ∧
      ((step state).run s).rest.size < s.size

/-- Another argument is read only behind a comma, or behind what is taken for one. -/
theorem advances_argumentStep (expression : Production Expr) :
    Advances (argumentStep expression) := by
  intro before s next again
  refine ⟨?_, (progressive_argumentStep expression).size_run_lt again⟩
  by_cases last : s.lookahead.token = .closeParen ∨ s.lookahead.token = .endOfFormula
  · simp [argumentStep, last] at again
  by_cases more : (atComma.run ((enclosed expression).run s).rest).value = true
  · refine ⟨((enclosed expression).run s).rest.lookahead.lexeme, ?_, ne_end_of_atComma more⟩
    simp [argumentStep, last, more, rest_atComma, Journal.consumed]
  · simp [argumentStep, last, more] at again

/-- Another call is read only behind the parentheses of one. -/
theorem advances_callStep (expression : Production Expr) : Advances (callStep expression) := by
  intro function s next again
  refine ⟨?_, (progressive_callStep expression).size_run_lt again⟩
  by_cases opening : s.lookahead.token = .openParen
  · refine ⟨s.lookahead.lexeme, ?_, ?_⟩
    · simp [callStep, rest_check, call, expect, opening, Rule.around, Journal.consumed]
    · show s.lookahead.token ≠ _
      rw [opening]
      decide
  · simp [callStep, opening] at again

/-- Another operator is looked for only behind one. -/
theorem advances_operatorStep {least : Nat} (binary : 0 < least)
    (right : (op : Token) → least ≤ op.precedence → Production Expr) :
    Advances (operatorStep least right) := by
  intro left s next again
  refine ⟨?_, (progressive_operatorStep binary right).size_run_lt again⟩
  by_cases binds : least ≤ s.lookahead.token.precedence
  · refine ⟨s.lookahead.lexeme, ?_, Token.ne_end_of_binds binary binds⟩
    simp [operatorStep, binds, Journal.consumed]
  · simp [operatorStep, binds] at again

/-- Another entry is read only behind a comma. -/
theorem advances_parameterStep : Advances parameterStep := by
  intro before s next again
  refine ⟨?_, progressive_parameterStep.size_run_lt again⟩
  by_cases comma : (expression.run s).rest.lookahead.token = .comma
  · by_cases last : (expression.run s).rest.advance.lookahead.token = .closeParen
    · simp [parameterStep, comma, last] at again
    · refine ⟨(expression.run s).rest.lookahead.lexeme, ?_, ?_⟩
      · simp [parameterStep, comma, last, Journal.consumed]
      · show (expression.run s).rest.lookahead.token ≠ _
        rw [comma]
        decide
  · simp [parameterStep, comma] at again

/-! ## Chains of calls -/

namespace Turn

/-- How high a turn ranks among those with the same lexemes ahead. At the end there is no argument
to be read, so a list of arguments ranks lowest there. -/
def rank (turn : Turn) : Nat :=
  match turn.task with
  | .parameters => 9
  | .parameterList => 8
  | .formula | .entries _ => 7
  | .arguments _ _ => if turn.stream.lookahead.token = .endOfFormula then 0 else 7
  | .expression _ => 6
  | .climb .. => 5
  | .unary _ => 4
  | .primary _ => 3
  | .calls .. => 2
  | .call .. => 1
  | .operators .. | .operand _ => 0

/-- There are ten ranks. -/
theorem rank_le (turn : Turn) : turn.rank ≤ 9 := by
  unfold rank
  split <;> try omega
  split <;> omega

/-- How many calls can be nested below a turn: ten for each lexeme ahead, and its rank. -/
def height (turn : Turn) : Nat := 10 * turn.stream.size + turn.rank

section

variable {turn next : Turn}

/-- With fewer lexemes ahead fewer calls can be nested. -/
theorem height_lt_of_size_lt (shrinks : next.stream.size < turn.stream.size) :
    next.height < turn.height := by
  have low := next.rank_le
  unfold height
  omega

/-- So they can with a lower rank, if no more lexemes are ahead. -/
theorem height_lt_of_rank_lt (read : next.stream.size ≤ turn.stream.size)
    (lower : next.rank < turn.rank) : next.height < turn.height := by
  unfold height
  omega

/-- **A turn that is called has fewer lexemes ahead, or no more and a lower rank.** -/
theorem Calls.height_lt (h : turn.Calls next) : next.height < turn.height := by
  cases h with
  | formula s => exact height_lt_of_rank_lt s.size_behindLead_le (by simp [rank])
  | parameters more => exact height_lt_of_rank_lt (TokenStream.size_advance_le _) (by simp [rank])
  | parameterList s => exact Nat.lt_succ_self _
  | entry before s => exact Nat.lt_succ_self _
  | nextEntry pass => exact height_lt_of_size_lt (progressive_parameterStep.size_run_lt pass)
  | expression room s => exact Nat.lt_succ_self _
  | climb room least binary s => exact Nat.lt_succ_self _
  | operators room least binary s =>
    exact height_lt_of_rank_lt ((Grammar.unary room).size_run_le s) (by simp [rank])
  | @operator _ _ binary _ _ binds =>
    exact height_lt_of_size_lt (TokenStream.size_advance_lt (Token.ne_end_of_binds binary binds))
  | @nextOperator _ _ binary _ _ _ pass =>
    exact height_lt_of_size_lt ((progressive_operatorStep binary _).size_run_lt pass)
  | prefixed operator =>
    have more := Token.ne_end_of_isPrefixOperator operator
    exact height_lt_of_size_lt (TokenStream.size_advance_lt more)
  | plain none => exact Nat.lt_succ_self _
  | operand room s => exact height_lt_of_rank_lt (Nat.le_refl _) (by simp [rank])
  | calls room s => exact height_lt_of_rank_lt (size_run_le _ s) (by simp [rank])
  | paren opening => exact height_lt_of_size_lt (TokenStream.size_advance_lt (by simp [opening]))
  | call opening => exact Nat.lt_succ_self _
  | nextCall pass => exact height_lt_of_size_lt ((progressive_callStep _).size_run_lt pass)
  | arguments room function s =>
    -- Only at the end can the parenthesis be missing and nothing be consumed in its place.
    by_cases nothing : s.tokens = []
    · have same := (TokenStream.tokens_advance_of_nil nothing).1
      have last := TokenStream.lookahead_token_of_nil same
      refine height_lt_of_rank_lt ?_ ?_
      · exact Nat.le_of_eq (by simp [TokenStream.size, nothing, same])
      · simp [rank, last]
    · apply height_lt_of_size_lt
      have more := List.length_pos_iff.mpr nothing
      show s.advance.size < s.tokens.length
      rw [s.size_advance, TokenStream.size]
      omega
  | @argument room before s more =>
    have other := (not_or.mp more).2
    refine height_lt_of_rank_lt (Nat.le_refl _) ?_
    simp [rank, other]
  | nextArgument pass => exact height_lt_of_size_lt ((progressive_argumentStep _).size_run_lt pass)

end

/-- **A chain of calls has at most ten of them for each lexeme that is consumed on the way**, and
nine more. Each call of the chain is at least one lower than the one before. -/
theorem calls_add_le {chain : Nat → Turn} {n : Nat}
    (calls : ∀ i < n, (chain i).Calls (chain (i + 1))) :
    n + (chain n).height ≤ (chain 0).height := by
  induction n with
  | zero => omega
  | succ n ih =>
    have before := ih fun i less => calls i (Nat.lt_succ_of_lt less)
    have step := (calls n (Nat.lt_succ_self n)).height_lt
    omega

/-- **No chain of calls goes on forever.** -/
theorem exists_not_calls (chain : Nat → Turn) : ∃ n, ¬ (chain n).Calls (chain (n + 1)) := by
  by_contra endless
  push Not at endless
  have long := @calls_add_le chain ((chain 0).height + 1) fun i _ => endless i
  omega

/-! ### Nested operators -/

/-- What a task has left to nest operators in: a level of nesting counts for more than all
precedences together. -/
def slack (turn : Turn) : Nat :=
  match turn.task with
  | .formula | .parameters | .parameterList | .entries _ => 10 * (nestingLimit + 1)
  | .expression room | .primary room | .operand room | .calls room _ | .call room _
  | .arguments room _ => 10 * room + (Token.unaryPrecedence + 1)
  | .climb room least _ | .operators room least _ _ => 10 * room + (Token.unaryPrecedence - least)
  | .unary room => 10 * room

section

variable {turn next : Turn}

/-- A turn that is called never has more left to nest operators in. -/
theorem Calls.slack_le (h : turn.Calls next) : next.slack ≤ turn.slack := by
  cases h with
  | @operator room least binary left s binds =>
    have tighter := s.lookahead.token.precedence_lt_unary
    simp only [slack]
    omega
  | _ => simp only [slack, Token.unaryPrecedence, Token.lowestPrecedence]; omega

/-- Along a chain of calls there is never more left to nest operators in. -/
theorem slack_le_of_reflTransGen (h : Relation.ReflTransGen Calls turn next) :
    next.slack ≤ turn.slack := by
  induction h with
  | refl => exact Nat.le_refl _
  | tail before step ih => exact Nat.le_trans step.slack_le ih

/-- Along a chain of calls fewer and fewer can be nested. -/
theorem height_lt_of_transGen (h : Relation.TransGen Calls turn next) :
    next.height < turn.height := by
  induction h with
  | single step => exact step.height_lt
  | tail before step ih => exact Nat.lt_trans step.height_lt ih

end

section

variable {room room' least least' : Nat} {binary : 0 < least} {binary' : 0 < least'}
  {s s' : TokenStream}

/-- **Climbing that is nested in climbing binds more tightly**, if it is not within parentheses, a
call or an operand of a prefix operator, which take from the room; and it has fewer lexemes
ahead. -/
theorem nested_climb
    (h : Relation.TransGen Calls ⟨.climb room least binary, s⟩ ⟨.climb room' least' binary', s'⟩) :
    (room' < room ∨ room' = room ∧ least < least') ∧ least' ≤ 6 ∧ s'.size < s.size := by
  have lower := height_lt_of_transGen h
  obtain ⟨turn, before, step⟩ := Relation.TransGen.tail'_iff.mp h
  have left := slack_le_of_reflTransGen before
  refine ⟨?_, ?_, ?_⟩
  · cases step with
    | expression room s =>
      simp only [slack, Token.unaryPrecedence] at left
      omega
    | @operator room least binary left s binds =>
      have tighter := s.lookahead.token.precedence_lt_unary
      simp only [slack, Token.unaryPrecedence] at left tighter
      omega
  · cases step with
    | expression room s => decide
    | @operator room least binary left s binds => exact s.lookahead.token.precedence_lt_unary
  · simp only [height, rank] at lower
    omega

/-- **An operand that is nested in an operand has less room, and fewer lexemes ahead.** -/
theorem nested_unary
    (h : Relation.TransGen Calls ⟨.unary room, s⟩ ⟨.unary room', s'⟩) :
    room' < room ∧ s'.size < s.size := by
  have lower := height_lt_of_transGen h
  obtain ⟨turn, step, after⟩ := Relation.TransGen.head'_iff.mp h
  have left := slack_le_of_reflTransGen after
  constructor
  · cases step with
    | prefixed operator =>
      simp only [slack] at left
      omega
    | plain none =>
      simp only [slack, Token.unaryPrecedence] at left
      omega
  · simp only [height, rank] at lower
    omega

/-- Where there is no room left nothing is called. -/
theorem not_calls_of_no_room (s : TokenStream) (next : Turn) : ¬ Calls ⟨.unary 0, s⟩ next := by
  intro h
  cases h

end

end Turn

/-! ## The length of a journal -/

/-- How long the journal of a phrase can be beyond sixteen entries for each lexeme: as many as there
are to open and to close the productions that a missing operand is read with. -/
def Phrase.toll : Phrase → Nat
  | .expression .. | .arguments .. | .entries _ => 11
  | .climb .. => 9
  | .unary .. => 7
  | .primary .. => 5
  | .operand .. => 3
  | .operators .. | .calls .. => 0

/-- The brackets of a production are two entries. -/
theorem Rule.length_around (rule : Rule) (inner : Journal) :
    (rule.around inner).length = inner.length + 2 := by
  simp [Rule.around]

/-- A mark that is needed makes two entries at most. -/
theorem Demands.length_le {t : Token} {s : TokenStream} {journal : Journal}
    (demands : Demands t s journal) : journal.length ≤ 2 := by
  cases demands <;> simp

/-- **A journal has at most sixteen entries for each lexeme that it consumes**, and a few more,
which depend on the phrase (`Phrase.toll`). By induction on the derivation. -/
theorem Derives.length_le {p : Phrase} {s t : TokenStream} {journal : Journal}
    (h : Derives p s journal t) (binary : p.Binary) :
    journal.length + 16 * t.size ≤ 16 * s.size + p.toll := by
  -- Whatever comes a second time comes behind a lexeme, of an operator, a comma or a parenthesis.
  -- Its sixteen entries are enough for the mark itself and for the toll of what comes there.
  induction h with
  | expression all ih =>
    have inner := ih (Nat.succ_pos _)
    rw [Rule.length_around]
    simp only [Phrase.toll] at inner ⊢
    omega
  | climb operand further ih ihLater =>
    have left := ih trivial
    have right := ihLater binary
    rw [Rule.length_around, List.length_append]
    simp only [Phrase.toll] at left right ⊢
    omega
  | noOperator loose => exact Nat.le_of_eq (Nat.zero_add _)
  | operator binds operand further ih ihLater =>
    have shrinks := TokenStream.size_advance_lt (Token.ne_end_of_binds binary binds)
    have right := ih (Nat.succ_pos _)
    have later := ihLater binary
    rw [List.length_cons, List.length_append]
    simp only [Phrase.toll] at right later ⊢
    omega
  | tooDeep =>
    rw [Rule.length_around]
    simp only [Phrase.toll, List.length_cons, List.length_nil]
    omega
  | @prefixed room s t x inner operator operand ih =>
    have inside := ih trivial
    have shrinks := TokenStream.size_advance_lt (Token.ne_end_of_isPrefixOperator operator)
    rw [Rule.length_around, List.length_cons]
    simp only [Phrase.toll] at inside ⊢
    omega
  | plain none operand ih =>
    have inside := ih trivial
    rw [Rule.length_around]
    simp only [Phrase.toll] at inside ⊢
    omega
  | primary operand further ih ihLater =>
    have function := ih trivial
    have later := ihLater trivial
    rw [Rule.length_around, List.length_append]
    simp only [Phrase.toll] at function later ⊢
    omega
  | noCall other => exact Nat.le_of_eq (Nat.zero_add _)
  | @call room s m t function x xs inner later opening list further ih ihLater =>
    have inside := ih trivial
    have behind := ihLater trivial
    have shrinks := @TokenStream.size_advance_lt s (by simp [opening])
    have closed := m.size_advance_le
    have closing := (demands_expectClosing .closeParen m).length_le
    rw [List.length_append, Rule.length_around, List.length_cons, List.length_append]
    simp only [Phrase.toll] at inside behind ⊢
    omega
  | noArgument last =>
    simp only [Phrase.toll, List.length_nil]
    omega
  | lastArgument more argument last ih => exact ih trivial
  | @argument room s m t x xs first later more argument comma further ih ihLater =>
    have one := ih trivial
    have others := ihLater trivial
    have shrinks := @TokenStream.size_advance_lt m (by simp [comma])
    rw [List.length_append, List.length_cons]
    simp only [Phrase.toll] at one others ⊢
    omega
  | @strayArgument room s m t x xs first later more argument stray further ih ihLater =>
    have one := ih trivial
    have others := ihLater trivial
    have shrinks := TokenStream.size_advance_lt stray.2.2
    rw [List.length_append, List.length_cons, List.length_cons]
    simp only [Phrase.toll] at one others ⊢
    omega
  | @ident room s name =>
    have shrinks := @TokenStream.size_advance_lt s (by simp [name])
    rw [Rule.length_around]
    simp only [Phrase.toll, List.length_cons, List.length_nil]
    omega
  | @literal room s value =>
    have shrinks := s.size_advance_le
    rw [Rule.length_around]
    simp only [Phrase.toll, List.length_cons, List.length_nil]
    omega
  | @paren room s m x inner opening content ih =>
    have inside := ih trivial
    have shrinks := @TokenStream.size_advance_lt s (by simp [opening])
    have closed := m.size_advance_le
    have closing := (demands_expect .closeParen m).length_le
    rw [Rule.length_around, List.length_cons, List.length_append]
    simp only [Phrase.toll] at inside ⊢
    omega
  | missing other =>
    rw [Rule.length_around]
    simp only [Phrase.toll, List.length_cons, List.length_nil]
    omega
  | lastEntry type last ih => exact ih trivial
  | @trailedEntry s m x first type comma last ih =>
    have entry := ih trivial
    have shrinks := @TokenStream.size_advance_lt m (by simp [comma])
    rw [List.length_append, List.length_cons, List.length_nil]
    simp only [Phrase.toll] at entry ⊢
    omega
  | @entry s m t x fields first later type comma more further ih ihLater =>
    have one := ih trivial
    have others := ihLater trivial
    have shrinks := @TokenStream.size_advance_lt m (by simp [comma])
    rw [List.length_append, List.length_cons]
    simp only [Phrase.toll] at one others ⊢
    omega

/-- The end makes one entry at most. -/
theorem length_expectEnd_le (s : TokenStream) : (expectEnd.run s).journal.length ≤ 1 := by
  by_cases last : s.lookahead.token = .endOfFormula <;> simp [expectEnd, last]

/-- The journal of a formula is linear in the number of lexemes. -/
theorem length_formula_le (s : TokenStream) :
    (formula.run s).journal.length ≤ 16 * s.size + 15 := by
  have root := (derives_expression s.behindLead).length_le trivial
  have ahead := s.size_behindLead_le
  have lead : (leadJournal s).length ≤ 1 := by
    unfold leadJournal
    split <;> simp
  have last := length_expectEnd_le (expression.run s.behindLead).rest
  simp only [run_formula, Rule.length_around, List.length_append]
  simp only [Phrase.toll] at root
  omega

/-- So is that of a parameter list. -/
theorem length_parametersOnly_le (s : TokenStream) :
    (parametersOnly.run s).journal.length ≤ 16 * s.size + 20 := by
  have inside : (betweenParentheses s.advance).journal.length +
      16 * (betweenParentheses s.advance).rest.size ≤ 16 * s.advance.size + 13 := by
    rcases betweenParentheses_cases s.advance with none | ⟨journal, around, derived⟩
    · rw [none]
      simp only [List.length_nil]
      omega
    · have entries := derived.length_le trivial
      rw [around, Rule.length_around]
      simp only [Phrase.toll] at entries
      omega
  have ahead := s.size_advance_le
  have opening := (demands_expect .openParen s).length_le
  have closing := (demands_expect .closeParen (betweenParentheses s.advance).rest).length_le
  have last := length_expectEnd_le (betweenParentheses s.advance).rest.advance
  simp only [run_parametersOnly, Rule.length_around, List.length_append]
  omega

/-- A scanner finds no more lexemes than there are symbols ahead. -/
theorem Scanner.size_stream_le (s : Scanner) : s.stream.size ≤ s.reader.rest.length := by
  induction ahead : s.reader.rest.length using Nat.strongRecOn generalizing s with
  | ind ahead ih =>
    by_cases more : s.scan.1.token ≠ .endOfFormula
    · have shrinks := rest_scan_lt more
      have later := ih _ (ahead ▸ shrinks) s.scan.2 rfl
      rw [stream_of_ne more]
      simp only [TokenStream.size, List.length_cons] at later ⊢
      omega
    · rw [stream_of_eq (not_not.mp more)]
      exact Nat.zero_le _

/-- A source has no more lexemes in front of its end than bytes. -/
theorem TokenStream.size_ofSource_le (source : List UInt8) :
    (ofSource source).size ≤ source.length := by
  refine Nat.le_trans (Scanner.start source).size_stream_le ?_
  have symbols := Text.length_le_length_bytesOf (Text.symbols source)
  rwa [Text.bytesOf_symbols] at symbols

/-- Whether a parse of a source is over after so many steps: the source is too long and is not
parsed at all, or the tree is made by a run whose journal has at most so many entries. -/
def Parse.EndsWithin {α : Type} (steps : Nat) (production : Production α) (source : List UInt8)
    (parsed : Parsed α) : Prop :=
  lengthLimit < characterCount source ∨
    parsed.root = (production.run (.ofSource source)).value ∧
      (production.run (.ofSource source)).journal.length ≤ steps

/-- A parse of a source is over after as many steps as its journal may have entries. -/
theorem Parse.endsWithin {α : Type} {production : Production α} (sound : production.Sound)
    (rejected : α) (options : ParseOptions) (source : List UInt8)
    (bound : ∀ s, (production.run s).journal.length ≤ 16 * s.size + 20) :
    EndsWithin (16 * source.length + 20) production source
      (parseWith production rejected options source) := by
  by_cases short : characterCount source ≤ lengthLimit
  · refine .inr ⟨(parseWith_of_short sound rejected options short).1, ?_⟩
    have few := TokenStream.size_ofSource_le source
    have here := bound (.ofSource source)
    omega
  · exact .inl (Nat.lt_of_not_le short)

/-- **Parsing comes to an end on every source.** Each pass of the loops over arguments, calls,
operators and parameters, but for the last, consumes a lexeme that is not the end, whatever the
operands consume. What a turn does, it does itself or by turns that it calls; no chain of calls goes
on forever, and it has at most ten calls for each lexeme that it consumes, and nine more. Climbing
that is nested in climbing at the same level binds more tightly, up to six, and operands nested in
operands have consumed a lexeme and have less room, until there is none and nothing is called. So
formulas and parameter lists are parsed in a number of steps that is linear in their length. -/
theorem parsing_terminates :
    ((∀ expression, Advances (argumentStep expression)) ∧
      (∀ expression, Advances (callStep expression)) ∧
      (∀ least right, 0 < least → Advances (operatorStep least right)) ∧
      Advances parameterStep) ∧
    (∀ turn : Turn, turn.Covered) ∧
    (∀ chain : Nat → Turn, ∃ n, ¬ (chain n).Calls (chain (n + 1))) ∧
    (∀ (chain : Nat → Turn) (n : Nat), (∀ i < n, (chain i).Calls (chain (i + 1))) →
      n + 10 * (chain n).stream.size ≤ 10 * (chain 0).stream.size + 9) ∧
    (∀ room least binary s room' least' binary' s',
      Relation.TransGen Turn.Calls ⟨.climb room least binary, s⟩
          ⟨.climb room' least' binary', s'⟩ →
        (room' < room ∨ room' = room ∧ least < least') ∧ least' ≤ 6 ∧ s'.size < s.size) ∧
    ((∀ room s room' s',
      Relation.TransGen Turn.Calls ⟨.unary room, s⟩ ⟨.unary room', s'⟩ →
        room' < room ∧ s'.size < s.size) ∧
      ∀ s next, ¬ Turn.Calls ⟨.unary 0, s⟩ next) ∧
    ∀ options source,
      Parse.EndsWithin (16 * source.length + 20) formula source (parseFormula options source) ∧
        Parse.EndsWithin (16 * source.length + 20) parametersOnly source
          (parseParameters options source) := by
  refine ⟨⟨advances_argumentStep, advances_callStep, ?_, advances_parameterStep⟩, Turn.covered,
    Turn.exists_not_calls, ?_, ?_, ⟨?_, Turn.not_calls_of_no_room⟩, ?_⟩
  · intro least right binary
    exact advances_operatorStep binary right
  · intro chain n calls
    have lower := Turn.calls_add_le calls
    have low := (chain 0).rank_le
    unfold Turn.height at lower
    omega
  · intro room least binary s room' least' binary' s' nested
    exact Turn.nested_climb nested
  · intro room s room' s' nested
    exact Turn.nested_unary nested
  · intro options source
    refine ⟨Parse.endsWithin sound_formula _ options source fun s => ?_,
      Parse.endsWithin sound_parametersOnly _ options source length_parametersOnly_le⟩
    have bound := length_formula_le s
    omega

/-- In front of a comma an argument is missing and nothing is consumed for it, and still the pass
consumes the comma. In front of a sign, where there is no room for an operand, climbing goes on with
what binds more tightly than the sign; where there is room for one sign, none is left behind it. -/
theorem parsing_terminates_without_operand :
    ((expression.run (.ofSource [0x2C])).journal.consumed = [] ∧
      ((argumentStep expression []).run (.ofSource [0x2C])).value =
        .again [.bad (.ofOffset 0) (.ofOffset 0)] ∧
      ∃ l ∈ ((argumentStep expression []).run (.ofSource [0x2C])).journal.consumed,
        l.token ≠ .endOfFormula) ∧
    (0 < 1 ∧ Advances (operatorStep 1 (rightOperand 0 1))) ∧
    ∃ sign behind : TokenStream, (sign = .ofSource [0x2B] ∧ behind = sign.advance) ∧
      (Relation.TransGen Turn.Calls ⟨.climb 0 1 (by decide), sign⟩
          ⟨.climb 0 5 (by decide), behind⟩ ∧
        (0 < 0 ∨ 0 = 0 ∧ 1 < 5) ∧ 5 ≤ 6 ∧ behind.size < sign.size) ∧
      (Relation.TransGen Turn.Calls ⟨.unary 1, sign⟩ ⟨.unary 0, behind⟩ ∧
        0 < 1 ∧ behind.size < sign.size) ∧
      (∀ i < 1, Turn.Calls ⟨.unary (1 - i), sign.skip i⟩
          ⟨.unary (1 - (i + 1)), sign.skip (i + 1)⟩) ∧
        1 + 10 * (sign.skip 1).size ≤ 10 * (sign.skip 0).size + 9 := by
  obtain ⟨⟨arguments, -, operators, -⟩, -, -, chains, climbing, ⟨operands, -⟩, -⟩ :=
    parsing_terminates
  have comma : (TokenStream.ofSource [0x2C]).lookahead.token = .comma := by decide +kernel
  have missing : ((enclosed expression).run (.ofSource [0x2C])).value =
      .bad (.ofOffset 0) (.ofOffset 0) := by
    decide +kernel
  have idle : ((enclosed expression).run (.ofSource [0x2C])).rest = .ofSource [0x2C] := by
    decide +kernel
  have pass : ((argumentStep expression []).run (.ofSource [0x2C])).value =
      .again [.bad (.ofOffset 0) (.ofOffset 0)] := by
    simp [argumentStep, atComma, comma, missing, idle]
  refine ⟨⟨by decide +kernel, pass, (arguments _ _ _ _ pass).1⟩,
    ⟨by decide, operators 1 _ (by decide)⟩, _, _, ⟨rfl, rfl⟩, ?_⟩
  have plus : (TokenStream.ofSource [0x2B]).lookahead.token = .plus := by decide +kernel
  have signed : Turn.Calls ⟨.unary 1, .ofSource [0x2B]⟩
      ⟨.unary 0, (TokenStream.ofSource [0x2B]).advance⟩ := .prefixed (by rw [plus]; decide)
  have climbed : Relation.TransGen Turn.Calls ⟨.climb 0 1 (by decide), .ofSource [0x2B]⟩
      ⟨.climb 0 5 (by decide), (TokenStream.ofSource [0x2B]).advance⟩ := by
    have bound : Turn.Calls _ _ := @Turn.Calls.operator 0 1 (by decide)
      ((Grammar.unary 0).run (.ofSource [0x2B])).value (.ofSource [0x2B]) (by rw [plus]; decide)
    simp only [plus, Token.precedence] at bound
    exact .tail (.single (.operators 0 1 _ _)) bound
  have chain : ∀ i < 1, Turn.Calls ⟨.unary (1 - i), (TokenStream.ofSource [0x2B]).skip i⟩
      ⟨.unary (1 - (i + 1)), (TokenStream.ofSource [0x2B]).skip (i + 1)⟩ := by
    intro i less
    obtain rfl : i = 0 := by omega
    exact signed
  exact ⟨⟨climbed, climbing 0 1 _ _ 0 5 _ _ climbed⟩,
    ⟨.single signed, operands 1 _ 0 _ (.single signed)⟩, chain,
    chains (fun i => ⟨.unary (1 - i), (TokenStream.ofSource [0x2B]).skip i⟩) 1 chain⟩

end SheetFormula

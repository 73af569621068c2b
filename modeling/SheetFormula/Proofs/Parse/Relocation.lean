import Mathlib.Tactic.Common
import SheetFormula.Proofs.Parse.Whole
import SheetFormula.Proofs.Tree.Relocation

/-!
# Parsing what has moved

A parser looks at the kinds and the literals of lexemes and at the line breaks in front of them. Of
their positions it makes nothing but parts of trees and offsets of faults. So where the lexemes of a
stream are those of another one at other places (`TokenStream.Moved`), every production makes of it
the same tree and the same reports at these other places.

* `Relocation.Carries r R p p'` says this of two productions, where `R` relates the values that they
  yield. It is closed under all that productions are built with (`Carries.bind`, `Carries.within`,
  `Carries.iterate`), and so it holds of each production of the grammar.
* `Relocation.Stands` is the relation for expressions. It also says that the expression is none that
  `check` refuses: the missing expression that would take its place ends where the refused one ends,
  and that end need not move as its start does.
* `Relocation.carries_formula` and `Relocation.carries_parametersOnly` are the results for whole
  formulas and parameter lists, and `Relocation.Carries.parseWith` is what they say of two sources.
-/

namespace SheetFormula

open Production Grammar

/-! ## Productions on moved streams -/

/-- Whether two steps of repetitions decide alike: on states that are related in the one way, or on
results that are related in the other. -/
def Production.Verdict.Alike {α α' β β' : Type} (R : α → α' → Prop) (S : β → β' → Prop) :
    Verdict α β → Verdict α' β' → Prop
  | .again state, .again state' => R state state'
  | .done result, .done result' => S result result'
  | _, _ => False

namespace Relocation

variable {r : Relocation} {α α' β β' : Type}

/-- Whether an outcome is another one at another place, with values that are related. -/
structure Brings (r : Relocation) (R : α → α' → Prop) (here : Outcome α) (there : Outcome α') :
    Prop where
  value : R here.value there.value
  rest : here.rest.Moved r there.rest
  reports : r.Moves here.journal.reports there.journal.reports

/-- Whether a production makes of each moved stream what another one makes of the stream itself, up
to a relation between what they yield. -/
def Carries (r : Relocation) (R : α → α' → Prop) (p : Production α) (p' : Production α') : Prop :=
  ∀ ⦃s s' : TokenStream⦄, s.Moved r s' → r.Brings R (p.run s) (p'.run s')

/-- The relation between what a function is given and what it makes of that. -/
def Becomes (f : α → α') (a : α) (a' : α') : Prop := a' = f a

/-- The relation between an expression that may stand anywhere and the same one at another place. -/
def Stands (r : Relocation) (x x' : Expr) : Prop :=
  x' = x.relocate r.move ∧ x.isValueless = false

section

variable {R : α → α' → Prop} {S : β → β' → Prop}

/-- One outcome behind another is brought along if each of them is. -/
theorem Brings.bind {p : Production α} {p' : Production α'} {next : α → Production β}
    {next' : α' → Production β'} {s s' : TokenStream} (first : r.Brings R (p.run s) (p'.run s'))
    (later : r.Brings S ((next (p.run s).value).run (p.run s).rest)
      ((next' (p'.run s').value).run (p'.run s').rest)) :
    r.Brings S ((p >>= next).run s) ((p' >>= next').run s') := by
  rw [run_bind, run_bind]
  refine ⟨later.value, later.rest, ?_⟩
  simp only [Journal.reports_append]
  exact first.reports.append later.reports

end

namespace Carries

variable {R : α → α' → Prop} {S : β → β' → Prop}

/-- What is yielded without a look at the stream is carried over if it is related. -/
theorem pure {a : α} {a' : α'} (related : R a a') : r.Carries R (Pure.pure a) (Pure.pure a') :=
  fun _ _ moved => ⟨related, moved, .nil⟩

/-- Productions one after the other are carried over if each of them is. -/
theorem bind {p : Production α} {p' : Production α'} {next : α → Production β}
    {next' : α' → Production β'} (first : r.Carries R p p')
    (later : ∀ a a', R a a' → r.Carries S (next a) (next' a')) :
    r.Carries S (p >>= next) (p' >>= next') :=
  fun _ _ moved => (first moved).bind (later _ _ (first moved).value (first moved).rest)

/-- What comes behind a look at the lexeme in front may use the token, the literal and the position
of that lexeme, which are those of the moved one. -/
theorem look {next : Scanned → Production β} {next' : Scanned → Production β'}
    (later : ∀ here there, here.Moved r there → r.Carries S (next here) (next' there)) :
    r.Carries S (lookahead >>= next) (lookahead >>= next') := by
  intro s s' moved
  rw [run_bind, run_bind]
  exact later _ _ moved.lookahead moved

/-- A lexeme is consumed at both places. -/
theorem consume (asOperand : Bool) :
    r.Carries (Becomes id) (Production.consume asOperand) (Production.consume asOperand) := by
  intro s s' moved
  refine ⟨rfl, moved.advance, ?_⟩
  have reports := moved.advance.lookahead.reports.append (.nil (r := r))
  exact reports

/-- So is one that is consumed for its mark. -/
theorem advance : r.Carries (Becomes id) Production.advance Production.advance := consume false

/-- So is one that is consumed as an operand. -/
theorem takeOperand : r.Carries (Becomes id) Production.takeOperand Production.takeOperand :=
  consume true

/-- A fault at the position of a lexeme moves with the lexeme. -/
theorem report {here there : Scanned} (moved : here.Moved r there) (fault : SyntaxFault) :
    r.Carries (Becomes id) (Production.report here.pos fault)
      (Production.report there.pos fault) := by
  intro s s' streams
  obtain ⟨covers, offset⟩ := moved.offset
  refine ⟨rfl, streams, ?_⟩
  simp only [run_report, Journal.reports, List.flatMap_cons, List.flatMap_nil, List.append_nil,
    Event.reports, offset]
  exact .cons covers _ .nil

/-- Two lexemes that have moved stand at one place if and only if they did so before. -/
theorem pos_eq_iff {here there here' there' : Scanned} (moved : here.Moved r there)
    (moved' : here'.Moved r there') : there.pos = there'.pos ↔ here.pos = here'.pos := by
  obtain ⟨offset, stands, covers⟩ := moved.stands
  obtain ⟨offset', stands', covers'⟩ := moved'.stands
  have kept : r.move offset = r.move offset' ↔ offset = offset' := by
    rw [Nat.le_antisymm_iff, Nat.le_antisymm_iff, r.le_iff covers covers', r.le_iff covers' covers]
  rw [moved.pos_eq, moved'.pos_eq, stands, stands']
  simpa [Pos.relocate, Pos.ofOffset, Pos.offset?] using kept

/-- Something else was expected at both places, and the same is found there. -/
theorem reportExpected {here there : Scanned} (moved : here.Moved r there) (what : Expectation) :
    r.Carries (Becomes id) (Production.reportExpected here.pos what)
      (Production.reportExpected there.pos what) := by
  apply look
  intro front front' movedFront
  rw [movedFront.found_eq, if_congr (pos_eq_iff moved movedFront) rfl rfl]
  exact report moved _

/-- What is carried over is carried over within a production. -/
theorem within {p : Production α} {p' : Production α'} (rule : Rule) (inside : r.Carries R p p') :
    r.Carries R (Production.within rule p) (Production.within rule p') := by
  intro s s' moved
  obtain ⟨value, rest, reports⟩ := inside moved
  refine ⟨value, rest, ?_⟩
  simpa only [run_within, Journal.reports_around] using reports

/-- A repetition is carried over if its steps are. -/
theorem iterate {step : α → Production (Verdict α β)} {step' : α' → Production (Verdict α' β')}
    (progress : Progressive step) (progress' : Progressive step')
    (steps : ∀ a a', R a a' → r.Carries (Verdict.Alike R S) (step a) (step' a'))
    {a : α} {a' : α'} (start : R a a') :
    r.Carries S (Production.iterate step progress a) (Production.iterate step' progress' a') := by
  intro s s' moved
  induction size : s.size using Nat.strongRecOn generalizing a a' s s' with
  | ind size ih =>
    have pass := steps a a' start moved
    have alike := pass.value
    rw [iterate_eq step, iterate_eq step']
    refine pass.bind ?_
    cases decided : ((step a).run s).value with
    | done result =>
      cases decided' : ((step' a').run s').value with
      | done result' =>
        rw [decided, decided'] at alike
        have related : S result result' := alike
        exact pure related pass.rest
      | again state' =>
        rw [decided, decided'] at alike
        exact alike.elim
    | again state =>
      cases decided' : ((step' a').run s').value with
      | done result' =>
        rw [decided, decided'] at alike
        exact alike.elim
      | again state' =>
        rw [decided, decided'] at alike
        exact ih _ (size ▸ progress.size_run_lt decided) alike pass.rest rfl

end Carries

/-! ## Along the grammar -/

/-- An expected mark has moved with its lexeme. -/
theorem carries_expect (t : Token) :
    r.Carries (Becomes (Pos.relocate r.move)) (expect t) (expect t) := by
  apply Carries.look
  intro here there moved
  rw [moved.token_eq]
  have passed : r.Carries (Becomes (Pos.relocate r.move))
      (Production.advance >>= fun _ => Pure.pure here.pos)
      (Production.advance >>= fun _ => Pure.pure there.pos) :=
    .bind .advance fun _ _ _ => .pure moved.pos_eq
  split
  · exact .bind (.reportExpected moved _) fun _ _ _ => passed
  · exact passed

/-- So has one that closes something. -/
theorem carries_expectClosing (t : Token) :
    r.Carries (Becomes (Pos.relocate r.move)) (expectClosing t) (expectClosing t) := by
  apply Carries.look
  intro here there moved
  rw [moved.token_eq, moved.newline_eq]
  split
  · exact .bind (.report moved _) fun _ _ _ => .bind .advance fun _ _ _ => .pure moved.pos_eq
  · exact carries_expect t

/-- The end is expected at both places. -/
theorem carries_expectEnd : r.Carries (Becomes id) expectEnd expectEnd := by
  apply Carries.look
  intro here there moved
  rw [moved.token_eq]
  split
  · exact .reportExpected moved _
  · exact .pure rfl

/-- A comma, or what is taken for one, is found at both places. -/
theorem carries_atComma : r.Carries (Becomes id) atComma atComma := by
  apply Carries.look
  intro here there moved
  rw [moved.token_eq]
  split
  · exact .pure rfl
  split
  · exact .bind (.report moved _) fun _ _ _ => .pure rfl
  · exact .pure rfl

/-- A check lets an expression that can stand pass at every place. -/
theorem carries_check {x x' : Expr} (stands : r.Stands x x') :
    r.Carries r.Stands (check x) (check x') := by
  obtain ⟨rfl, known⟩ := stands
  rw [check_of_stands known, check_of_stands (by rwa [Expr.isValueless_relocate])]
  exact .pure ⟨rfl, known⟩

section Grammar

variable {p : Production Expr}

/-- Enclosed expressions are carried over if expressions are. -/
theorem carries_enclosed (expressions : r.Carries r.Stands p p) :
    r.Carries r.Stands (enclosed p) (enclosed p) :=
  .bind expressions fun _ _ stands => carries_check stands

/-- Operands are carried over if the expressions in their parentheses are. -/
theorem carries_operand (expressions : r.Carries r.Stands p p) :
    r.Carries r.Stands (operand p) (operand p) := by
  apply Carries.within
  apply Carries.look
  intro here there moved
  have missing : r.Stands (.bad here.pos here.pos) (.bad there.pos there.pos) := by
    rw [moved.pos_eq]
    exact ⟨rfl, rfl⟩
  rw [moved.token_eq, moved.literal_eq]
  split
  · exact .bind .takeOperand fun _ _ _ => .pure ⟨by rw [moved.pos_eq]; rfl, rfl⟩
  split
  · next value =>
    exact .bind .takeOperand fun _ _ _ =>
      .pure ⟨by rw [moved.pos_eq]; rfl, (Bool.not_eq_false' _).mpr value⟩
  split
  · refine .bind .advance fun _ _ _ => .bind (carries_enclosed expressions) ?_
    rintro x _ ⟨rfl, stands⟩
    refine .bind (carries_expect _) ?_
    rintro q _ rfl
    exact .pure ⟨by rw [moved.pos_eq]; rfl, stands⟩
  · exact .bind (.reportExpected moved _) fun _ _ _ => .pure missing

/-- Arguments are carried over if each of them is. -/
theorem carries_arguments (expressions : r.Carries r.Stands p p) :
    r.Carries (Becomes (Expr.relocateAll r.move)) (arguments p) (arguments p) := by
  refine .bind (R := Becomes (List.map (Expr.relocate r.move))) ?_ ?_
  · refine .iterate (R := Becomes (List.map (Expr.relocate r.move))) _ _ ?_ rfl
    rintro before _ rfl
    apply Carries.look
    intro here there moved
    rw [moved.token_eq]
    split
    · exact .pure rfl
    · refine .bind (carries_enclosed expressions) ?_
      rintro x _ ⟨rfl, -⟩
      refine .bind carries_atComma ?_
      rintro _ more rfl
      cases more with
      | true => exact .bind .advance fun _ _ _ => .pure rfl
      | false => exact .pure rfl
  · rintro xs _ rfl
    refine .pure ?_
    rw [Becomes, Expr.relocateAll_eq_map, List.map_reverse]

/-- A call is carried over if its arguments are, behind a function that stands at both places. -/
theorem carries_call (expressions : r.Carries r.Stands p p) {function function' : Expr}
    (stands : r.Stands function function') :
    r.Carries r.Stands (call p function) (call p function') := by
  obtain ⟨rfl, -⟩ := stands
  apply Carries.within
  refine .bind (carries_expect _) ?_
  rintro opening _ rfl
  refine .bind (carries_arguments expressions) ?_
  rintro xs _ rfl
  refine .bind (carries_expectClosing _) ?_
  rintro closing _ rfl
  exact .pure ⟨rfl, rfl⟩

/-- Operands with calls are carried over if expressions are. -/
theorem carries_primary (expressions : r.Carries r.Stands p p) :
    r.Carries r.Stands (primary p) (primary p) := by
  apply Carries.within
  refine .bind (carries_operand expressions) fun function function' stands => ?_
  refine .iterate _ _ ?_ stands
  intro function function' stands
  apply Carries.look
  intro here there moved
  rw [moved.token_eq]
  split
  · refine .bind (carries_check stands) fun checked checked' stands => ?_
    exact .bind (carries_call expressions stands) fun _ _ called => .pure called
  · exact .pure stands

/-- Climbing is carried over if its operands are. By induction on how much more tightly operators
could still bind. -/
theorem carries_climb (operands : r.Carries r.Stands p p) (least : Nat) (binary : 0 < least) :
    r.Carries r.Stands (climb p least binary) (climb p least binary) := by
  induction slack : Token.unaryPrecedence - least using Nat.strongRecOn generalizing least with
  | ind slack ih =>
    rw [climb]
    refine .within _ (.bind operands fun left left' stands => ?_)
    refine .iterate _ _ ?_ stands
    intro left left' stands
    apply Carries.look
    intro here there moved
    rw [moved.token_eq, moved.pos_eq]
    split
    · next binds =>
      have tighter := here.token.precedence_lt_unary
      have right := ih (Token.unaryPrecedence - (here.token.precedence + 1)) (by omega) _
        (Nat.succ_pos _) rfl
      refine .bind .advance fun _ _ _ => .bind right fun _ _ stands' => ?_
      refine .bind (carries_check stands) ?_
      rintro x _ ⟨rfl, -⟩
      refine .bind (carries_check stands') ?_
      rintro y _ ⟨rfl, -⟩
      exact .pure ⟨rfl, rfl⟩
    · exact .pure stands

/-- Whole expressions are carried over if their operands are. -/
theorem carries_expressionOf (operands : r.Carries r.Stands p p) :
    r.Carries r.Stands (expressionOf p) (expressionOf p) :=
  .within _ (carries_climb operands _ _)

end Grammar

/-- **Operands move with their lexemes**, by induction on the room. -/
theorem carries_unary (room : Nat) : r.Carries r.Stands (unary room) (unary room) := by
  induction room with
  | zero =>
    apply Carries.within
    apply Carries.look
    intro here there moved
    refine .bind (.report moved _) fun _ _ _ => .pure ?_
    rw [moved.pos_eq]
    exact ⟨rfl, rfl⟩
  | succ room ih =>
    apply Carries.within
    apply Carries.look
    intro here there moved
    rw [moved.token_eq, moved.pos_eq]
    split
    · refine .bind .advance fun _ _ _ => .bind ih fun _ _ stands => ?_
      refine .bind (carries_check stands) ?_
      rintro x _ ⟨rfl, -⟩
      exact .pure ⟨rfl, rfl⟩
    · exact carries_primary (carries_expressionOf ih)

/-- **Whole expressions move with their lexemes.** -/
theorem carries_expression : r.Carries r.Stands expression expression :=
  carries_expressionOf (carries_unary _)

/-- **Formulas move with their lexemes.** -/
theorem carries_formula : r.Carries (Becomes (Expr.relocate r.move)) formula formula := by
  apply Carries.within
  apply Carries.look
  intro here there moved
  have root : r.Carries (Becomes (Expr.relocate r.move))
      (expression >>= fun x => expectEnd >>= fun _ => Pure.pure x)
      (expression >>= fun x => expectEnd >>= fun _ => Pure.pure x) :=
    .bind carries_expression fun _ _ stands => .bind carries_expectEnd fun _ _ _ => .pure stands.1
  rw [moved.token_eq]
  split
  · exact .bind .advance fun _ _ _ => root
  · exact root

/-- The entries of a list move with their lexemes. -/
theorem carries_parameterList :
    r.Carries (Becomes (List.map (Field.relocate r.move))) parameterList parameterList := by
  apply Carries.within
  refine .bind (R := Becomes (List.map (Field.relocate r.move))) ?_ ?_
  · refine .iterate (R := Becomes (List.map (Field.relocate r.move))) _ _ ?_ rfl
    rintro before _ rfl
    refine .bind carries_expression ?_
    rintro type _ ⟨rfl, -⟩
    apply Carries.look
    intro here there moved
    rw [moved.token_eq]
    split
    · refine .bind .advance fun _ _ _ => .look fun here there moved => ?_
      rw [moved.token_eq]
      split
      · exact .pure rfl
      · exact .pure rfl
    · exact .pure rfl
  · rintro fields _ rfl
    exact .pure (List.map_reverse ..).symm

/-- **Parameter lists move with their lexemes.** -/
theorem carries_parametersOnly :
    r.Carries (Becomes (FieldList.relocate r.move)) parametersOnly parametersOnly := by
  refine .bind (.within _ ?_) fun _ _ list => .bind carries_expectEnd fun _ _ _ => .pure list
  refine .bind (carries_expect _) ?_
  rintro opening _ rfl
  apply Carries.look
  intro here there moved
  rw [moved.token_eq]
  have closed : ∀ fields fields', Becomes (List.map (Field.relocate r.move)) fields fields' →
      r.Carries (Becomes (FieldList.relocate r.move))
        (expect .closeParen >>= fun closing => Pure.pure ⟨opening, fields, closing⟩)
        (expect .closeParen >>= fun closing => Pure.pure
          ⟨opening.relocate r.move, fields', closing⟩) := by
    rintro fields _ rfl
    refine .bind (carries_expect _) ?_
    rintro closing _ rfl
    exact .pure rfl
  split
  · exact .bind carries_parameterList closed
  · exact .bind (R := Becomes (List.map (Field.relocate r.move))) (.pure rfl) closed

/-- **Sources whose streams are the same but for the places are parsed to the same**, but for the
places, by any production that is carried over. -/
theorem Carries.parseWith {f : α → α'} {p : Production α} {p' : Production α'}
    (carries : r.Carries (Becomes f) p p') (sound : p.Sound) (sound' : p'.Sound) (rejected : α)
    (rejected' : α') (options : ParseOptions)
    {source source' : List UInt8} (short : characterCount source ≤ lengthLimit)
    (short' : characterCount source' ≤ lengthLimit)
    (moved : (TokenStream.ofSource source).Moved r (TokenStream.ofSource source'))
    (opening : r.Moves (Scanner.openingReports source) (Scanner.openingReports source')) :
    (Parse.parseWith p' rejected' options source').root =
        f (Parse.parseWith p rejected options source).root ∧
      r.Moves (Parse.parseWith p rejected options source).diagnostics.items
        (Parse.parseWith p' rejected' options source').diagnostics.items := by
  obtain ⟨root, diagnostics⟩ := Parse.parseWith_of_short sound rejected options short
  obtain ⟨root', diagnostics'⟩ := Parse.parseWith_of_short sound' rejected' options short'
  obtain ⟨value, -, reports⟩ := carries moved
  rw [root, root', diagnostics, diagnostics']
  exact ⟨value, ((opening.append moved.lookahead.reports).append reports).sort⟩

end Relocation

end SheetFormula

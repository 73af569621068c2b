import Mathlib.Tactic.Common
import SheetFormula.Parse.Grammar
import SheetFormula.Proofs.Parse.Journal

/-!
# The cut at the nesting limit

With less room a parse does what it would do with more, up to the place where the room runs out.
There it notes that, and goes its own way from then on. So the first fault of a parse that ran out
of room, of a source that needs nothing but more room, is that the nesting is too deep.

Main results:
* `Cuts p q` says this of two productions, and `CutsOn p q s` of one stream. It is closed under all
  that the grammar is built with (`Cuts.bind`, `Cuts.within`, `Cuts.iterate`).
* `cuts_unary`: so it holds of operands with less and with more room, by induction on the room.
-/

namespace SheetFormula

open Production Grammar

variable {α β : Type}

/-- Whether a journal is another one up to where the first runs out of room. -/
def Journal.CutsOff (short long : Journal) : Prop :=
  ∃ before offset later, short = before ++ .report offset .nestingExceeded :: later ∧
    before <+: long

/-- Whether a production does on a stream what another does, or runs out of room on the way. -/
def CutsOn (p q : Production α) (s : TokenStream) : Prop :=
  p.run s = q.run s ∨ (p.run s).journal.CutsOff (q.run s).journal

/-- Whether a production does so on every stream. -/
def Cuts (p q : Production α) : Prop := ∀ s, CutsOn p q s

namespace Journal.CutsOff

variable {short long : Journal}

/-- Whatever follows, the cut remains. -/
theorem append (h : short.CutsOff long) (more more' : Journal) :
    (short ++ more).CutsOff (long ++ more') := by
  obtain ⟨before, offset, later, rfl, agrees⟩ := h
  refine ⟨before, offset, later ++ more, ?_, agrees.trans (List.prefix_append long more')⟩
  rw [List.append_assoc, List.cons_append]

/-- What both have done before, they agree on. -/
theorem behind (h : short.CutsOff long) (before : Journal) :
    (before ++ short).CutsOff (before ++ long) := by
  obtain ⟨first, offset, later, rfl, agrees⟩ := h
  refine ⟨before ++ first, offset, later, ?_, (List.prefix_append_right_inj before).mpr agrees⟩
  rw [List.append_assoc]

end Journal.CutsOff

/-- On a stream where the first part is cut, what follows does not matter, and where it is not, what
follows may be cut. -/
theorem CutsOn.bind {p q : Production α} {f g : α → Production β} {s : TokenStream}
    (first : CutsOn p q s) (next : CutsOn (f (q.run s).value) (g (q.run s).value) (q.run s).rest) :
    CutsOn (p >>= f) (q >>= g) s := by
  simp only [CutsOn, run_bind]
  rcases first with same | cut
  · rw [same]
    rcases next with same' | cut
    · rw [same']
      exact .inl rfl
    · exact .inr (cut.behind _)
  · exact .inr (cut.append _ _)

namespace Cuts

/-- A production does what it does itself. -/
theorem refl (p : Production α) : Cuts p p := by
  intro s
  exact .inl rfl

/-- What is cut in its first part, or in what follows that, is cut. -/
theorem bind {p q : Production α} {f g : α → Production β} (first : Cuts p q)
    (next : ∀ a, Cuts (f a) (g a)) : Cuts (p >>= f) (q >>= g) :=
  fun s => (first s).bind (next _ _)

/-- What is cut is cut within a production. -/
theorem within {p q : Production α} (rule : Rule) (inside : Cuts p q) :
    Cuts (Production.within rule p) (Production.within rule q) := by
  intro s
  simp only [CutsOn, run_within]
  rcases inside s with same | cut
  · rw [same]
    exact .inl rfl
  · exact .inr ((cut.append _ _).behind [.enter rule])

/-- A repetition is cut if its steps are. By induction on the stream: behind a step that both do
alike both go on, and behind a cut nothing is asked of the other one. -/
theorem iterate {step step' : α → Production (Verdict α β)} (progress : Progressive step)
    (progress' : Progressive step') (steps : ∀ a, Cuts (step a) (step' a)) (a : α) :
    Cuts (Production.iterate step progress a) (Production.iterate step' progress' a) := by
  intro s
  induction size : s.size using Nat.strongRecOn generalizing a s with
  | ind size ih =>
    rw [iterate_eq, iterate_eq]
    refine (steps a s).bind ?_
    cases decided : ((step' a).run s).value with
    | done result => exact .inl rfl
    | again next => exact ih _ (size ▸ progress'.size_run_lt decided) next _ rfl

end Cuts

/-! ## Along the grammar -/

section Grammar

variable {p q : Production Expr}

/-- Climbing is cut where its operands are. By induction on how much more tightly operators could
still bind. -/
theorem cuts_climb (operands : Cuts p q) (least : Nat) (binary : 0 < least) :
    Cuts (climb p least binary) (climb q least binary) := by
  induction slack : Token.unaryPrecedence - least using Nat.strongRecOn generalizing least with
  | ind slack ih =>
    rw [climb, climb]
    apply Cuts.within
    apply Cuts.bind operands
    intro left
    apply Cuts.iterate
    intro left
    apply Cuts.bind (.refl _)
    intro here
    split
    · next binds =>
      have tighter := here.token.precedence_lt_unary
      have right := ih (Token.unaryPrecedence - (here.token.precedence + 1)) (by omega) _
        (Nat.succ_pos _) rfl
      exact .bind (.refl _) fun _ => .bind right fun _ => .refl _
    · exact .refl _

/-- Whole expressions are cut where their operands are. -/
theorem cuts_expressionOf (operands : Cuts p q) : Cuts (expressionOf p) (expressionOf q) :=
  .within _ (cuts_climb operands _ _)

/-- Enclosed expressions are cut where expressions are. -/
theorem cuts_enclosed (expressions : Cuts p q) : Cuts (enclosed p) (enclosed q) :=
  .bind expressions fun _ => .refl _

/-- An operand is cut where the expression in its parentheses is. -/
theorem cuts_operand (expressions : Cuts p q) : Cuts (operand p) (operand q) := by
  apply Cuts.within
  apply Cuts.bind (.refl _)
  intro here
  split
  · exact .refl _
  split
  · exact .refl _
  split
  · exact .bind (.refl _) fun _ => .bind (cuts_enclosed expressions) fun _ => .refl _
  · exact .refl _

/-- Arguments are cut where one of them is. -/
theorem cuts_arguments (expressions : Cuts p q) : Cuts (arguments p) (arguments q) := by
  refine .bind ?_ fun _ => .refl _
  apply Cuts.iterate
  intro before
  apply Cuts.bind (.refl _)
  intro here
  split
  · exact .refl _
  · exact .bind (cuts_enclosed expressions) fun _ => .refl _

/-- A call is cut where its arguments are. -/
theorem cuts_call (expressions : Cuts p q) (function : Expr) :
    Cuts (call p function) (call q function) := by
  apply Cuts.within
  apply Cuts.bind (.refl _)
  intro opening
  exact .bind (cuts_arguments expressions) fun _ => .refl _

/-- Operands with calls are cut where expressions are. -/
theorem cuts_primary (expressions : Cuts p q) : Cuts (primary p) (primary q) := by
  apply Cuts.within
  apply Cuts.bind (cuts_operand expressions)
  intro function
  apply Cuts.iterate
  intro function
  apply Cuts.bind (.refl _)
  intro here
  split
  · exact .bind (.refl _) fun function => .bind (cuts_call expressions function) fun _ => .refl _
  · exact .refl _

/-- **Less room only cuts**: an operand is read with less room as with more, or up to where the room
runs out. -/
theorem cuts_unary {room more : Nat} (less : room ≤ more) : Cuts (unary room) (unary more) := by
  induction room generalizing more with
  | zero =>
    intro s
    right
    obtain ⟨later, begins⟩ : ∃ later, ((unary more).run s).journal = .enter .unary :: later := by
      cases more with
      | zero => exact ⟨_, rfl⟩
      | succ more => exact ⟨_, rfl⟩
    refine ⟨[.enter .unary], s.lookahead.pos.offset, [.leave .unary], rfl, ?_⟩
    rw [begins]
    exact ⟨later, rfl⟩
  | succ room ih =>
    cases more with
    | zero => exact absurd less (Nat.not_succ_le_zero room)
    | succ more =>
      have inner := ih (Nat.le_of_succ_le_succ less)
      apply Cuts.within
      apply Cuts.bind (.refl _)
      intro here
      split
      · exact .bind (.refl _) fun _ => .bind inner fun _ => .refl _
      · exact cuts_primary (cuts_expressionOf inner)

end Grammar

end SheetFormula

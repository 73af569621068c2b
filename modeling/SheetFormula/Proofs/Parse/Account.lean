import Mathlib.Tactic.Common
import SheetFormula.Proofs.Parse.Derivation
import SheetFormula.Proofs.Tree.Parts

/-!
# What becomes of each lexeme

Each lexeme that a derivation consumes is a part of the tree that it makes: a mark, or a separator
between two entries. Where a lexeme is not what the tree takes it for, a fault has been noted at its
offset.

Main results:
* `Demands.fits`: what stands in the place of a mark fits it, excused by the fault that was noted
  there.
* `Derives.accounts`: the tree of a derivation reads what was consumed, excused only where faults
  were noted. In a derivation that notes no fault, the tree yields it.
-/

namespace SheetFormula

open Production Grammar

variable {excused : Nat → Prop}

/-! ## Marks that are needed -/

namespace Demands

variable {t : Token} {s : TokenStream} {journal : Journal}

/-- Where a mark is needed, the lexeme in front is consumed, whatever it is. -/
theorem consumed (demands : Demands t s journal) : journal.consumed = [s.lookahead.lexeme] := by
  cases demands <;> rfl

/-- What stands in the place of a mark fits it, excused by the fault that is noted if it is another
lexeme. -/
theorem fits (demands : Demands t s journal) (start : s.Orderly) (plain : ¬ t.keepsText)
    (role : Role) (demanded : role.isDemanded) (excuse : ∀ n ∈ journal.noted, excused n.1) :
    Part.Fits excused ⟨role, s.lookahead.pos, t, ""⟩ ⟨role, s.lookahead.lexeme⟩ := by
  cases demands with
  | met found =>
    left
    rw [start.lookahead_eq (found ▸ plain), found]
  | missed fault other => exact .inr ⟨demanded, rfl, rfl, excuse (_, fault) List.mem_cons_self⟩

end Demands

/-! ## Parts of phrases -/

/-- Whether parts are what the tree of a phrase is read from. A phrase that carries on with
something that has been read before adds its parts to those of that. -/
def Phrase.Accounts (excused : Nat → Prop) : Phrase → List Part → Prop
  | .expression _ x, parts | .climb _ _ x, parts | .unary _ x, parts | .primary _ x, parts
  | .operand _ x, parts => x.Reads excused parts
  | .operators _ _ left x, parts | .calls _ left x, parts =>
    ∀ before, left.Reads excused before → x.Reads excused (before ++ parts)
  | .arguments _ xs, parts => Expr.ReadsAll excused xs parts
  | .entries fields, parts =>
    (∀ f ∈ fields, f.names = [] ∧ f.tag = none) ∧
      Expr.ReadsAll excused (fields.map Field.type) parts

/-- A prefix operator keeps no text. -/
theorem Token.not_keepsText_of_isPrefixOperator {t : Token} (operator : t.isPrefixOperator) :
    ¬ t.keepsText := by
  revert operator
  cases t <;> decide

/-- A binary operator keeps no text. -/
theorem Token.not_keepsText_of_binary {t : Token} {least : Nat} (binary : 0 < least)
    (binds : least ≤ t.precedence) : ¬ t.keepsText := by
  have positive : 0 < t.precedence := Nat.lt_of_lt_of_le binary binds
  revert positive
  cases t <;> decide

/-- **Each lexeme that is consumed becomes a part of the tree**, as itself or under the excuse of a
fault that was noted at it. By induction on the derivation; the parts of a phrase are those of its
phrases, one behind the other, with its own marks between them. -/
theorem Derives.accounts {p : Phrase} {s t : TokenStream} {journal : Journal}
    (h : Derives p s journal t) (binary : p.Binary) (start : s.Orderly)
    (excuse : ∀ n ∈ journal.noted, excused n.1) :
    ∃ parts, parts.map Part.lexeme = journal.consumed ∧ p.Accounts excused parts := by
  induction h with
  | expression all ih =>
    rw [Journal.noted_around] at excuse
    rw [Journal.consumed_around]
    exact ih (Nat.succ_pos _) start excuse
  | climb operand further ih ihLater =>
    simp only [Journal.noted_around, Journal.noted_append, List.forall_mem_append] at excuse
    obtain ⟨front, front_eq, left⟩ := ih trivial start excuse.1
    obtain ⟨back, back_eq, carries⟩ := ihLater binary (operand.leads.orderly start) excuse.2
    refine ⟨front ++ back, ?_, carries front left⟩
    rw [List.map_append, front_eq, back_eq, Journal.consumed_around, Journal.consumed_append]
  | noOperator loose =>
    refine ⟨[], rfl, ?_⟩
    intro before left
    rwa [List.append_nil]
  | @operator room least s m t left right x first later binds operand further ih ihLater =>
    simp only [Journal.noted_taking, Journal.noted_append, List.forall_mem_append] at excuse
    obtain ⟨inner, inner_eq, reads⟩ := ih (Nat.succ_pos _) start.advance excuse.1
    obtain ⟨back, back_eq, carries⟩ :=
      ihLater binary (operand.leads.orderly start.advance) excuse.2
    -- The tree stores the kind of the operator only, which is all of its lexeme.
    have own := start.lookahead_eq (Token.not_keepsText_of_binary binary binds)
    refine ⟨⟨.operator, s.lookahead.lexeme⟩ :: (inner ++ back), ?_, ?_⟩
    · simp [inner_eq, back_eq]
    · intro before before_reads
      have whole := carries (before ++ ⟨.operator, s.lookahead.lexeme⟩ :: inner) (by
        rw [own]
        exact ⟨before, inner, before_reads, reads, rfl⟩)
      rwa [List.append_assoc, List.cons_append] at whole
  | tooDeep =>
    refine ⟨[], rfl, excuse (_, SyntaxFault.nestingExceeded) ?_, rfl⟩
    exact List.mem_singleton.mpr rfl
  | @prefixed room s t x inner operator operand ih =>
    simp only [Journal.noted_around, Journal.noted_taking] at excuse
    obtain ⟨inside, inside_eq, reads⟩ := ih trivial start.advance excuse
    have own := start.lookahead_eq (Token.not_keepsText_of_isPrefixOperator operator)
    refine ⟨⟨.operator, s.lookahead.lexeme⟩ :: inside, ?_, ?_⟩
    · simp [inside_eq]
    · rw [own]
      exact ⟨inside, reads, rfl⟩
  | plain none operand ih =>
    rw [Journal.noted_around] at excuse
    rw [Journal.consumed_around]
    exact ih trivial start excuse
  | primary operand further ih ihLater =>
    simp only [Journal.noted_around, Journal.noted_append, List.forall_mem_append] at excuse
    obtain ⟨front, front_eq, function⟩ := ih trivial start excuse.1
    obtain ⟨back, back_eq, carries⟩ := ihLater trivial (operand.leads.orderly start) excuse.2
    refine ⟨front ++ back, ?_, carries front function⟩
    rw [List.map_append, front_eq, back_eq, Journal.consumed_around, Journal.consumed_append]
  | noCall other =>
    refine ⟨[], rfl, ?_⟩
    intro before function
    rwa [List.append_nil]
  | @call room s m t function x xs inner later opening list further ih ihLater =>
    simp only [Journal.noted_append, Journal.noted_around, Journal.noted_taking,
      List.forall_mem_append] at excuse
    obtain ⟨⟨excuseList, excuseClosing⟩, excuseLater⟩ := excuse
    have middle := list.leads.orderly start.advance
    have demands := demands_expectClosing .closeParen m
    obtain ⟨inside, inside_eq, reads⟩ := ih trivial start.advance excuseList
    obtain ⟨back, back_eq, carries⟩ := ihLater trivial middle.advance excuseLater
    have own := start.lookahead_eq (by rw [opening]; decide)
    have closing := demands.fits middle (by decide) .rparen rfl excuseClosing
    refine ⟨⟨.lparen, s.lookahead.lexeme⟩ :: (inside ++ ⟨.rparen, m.lookahead.lexeme⟩ :: back),
      ?_, ?_⟩
    · simp [inside_eq, back_eq, demands.consumed]
    · intro before before_reads
      -- The call as a whole is what the loop goes on with, so its parts come before the later ones.
      have whole := carries
        (before ++ ⟨.lparen, s.lookahead.lexeme⟩ :: (inside ++ [⟨.rparen, m.lookahead.lexeme⟩]))
        (by
          rw [own, opening]
          exact ⟨before, inside, _, before_reads, reads, closing, rfl⟩)
      simpa only [List.append_assoc, List.cons_append, List.nil_append] using whole
  | noArgument last => exact ⟨[], rfl, rfl⟩
  | lastArgument more argument last ih =>
    obtain ⟨front, front_eq, reads⟩ := ih trivial start excuse
    exact ⟨front, front_eq, front, [], reads, (List.append_nil _).symm, .inl ⟨rfl, rfl⟩⟩
  | @argument room s m t x xs first later more argument comma further ih ihLater =>
    simp only [Journal.noted_append, Journal.noted_taking, List.forall_mem_append] at excuse
    have middle := argument.leads.orderly start
    obtain ⟨front, front_eq, reads⟩ := ih trivial start excuse.1
    obtain ⟨back, back_eq, rest⟩ := ihLater trivial middle.advance excuse.2
    refine ⟨front ++ ⟨.separator, m.lookahead.lexeme⟩ :: back, ?_, ?_⟩
    · simp [front_eq, back_eq]
    · exact ⟨front, _, reads, rfl, .inr ⟨_, back, ⟨rfl, .inl comma⟩, rest, rfl⟩⟩
  | @strayArgument room s m t x xs first later more argument stray further ih ihLater =>
    simp only [Journal.noted_append, Journal.noted_noting, Journal.noted_taking,
      List.forall_mem_append, List.forall_mem_cons] at excuse
    -- The stray lexeme stands for a comma, excused by the fault that was noted at it.
    obtain ⟨excuseFirst, excuseStray, excuseLater⟩ := excuse
    have middle := argument.leads.orderly start
    obtain ⟨front, front_eq, reads⟩ := ih trivial start excuseFirst
    obtain ⟨back, back_eq, rest⟩ := ihLater trivial middle.advance excuseLater
    refine ⟨front ++ ⟨.separator, m.lookahead.lexeme⟩ :: back, ?_, ?_⟩
    · simp [front_eq, back_eq]
    · exact ⟨front, _, reads, rfl, .inr ⟨_, back, ⟨rfl, .inr excuseStray⟩, rest, rfl⟩⟩
  | @ident room s name =>
    refine ⟨[⟨.name, s.lookahead.lexeme⟩], ?_, ?_⟩
    · simp
    · show [_] = [_]
      rw [← name]
      rfl
  | @literal room s value =>
    refine ⟨[⟨.value, s.lookahead.lexeme⟩], ?_, rfl⟩
    simp
  | @paren room s m x inner opening content ih =>
    simp only [Journal.noted_around, Journal.noted_taking, Journal.noted_append,
      List.forall_mem_append] at excuse
    have middle := content.leads.orderly start.advance
    have demands := demands_expect .closeParen m
    obtain ⟨inside, inside_eq, reads⟩ := ih trivial start.advance excuse.1
    have own := start.lookahead_eq (by rw [opening]; decide)
    have closing := demands.fits middle (by decide) .rparen rfl excuse.2
    refine ⟨⟨.lparen, s.lookahead.lexeme⟩ :: (inside ++ [⟨.rparen, m.lookahead.lexeme⟩]), ?_, ?_⟩
    · simp [inside_eq, demands.consumed]
    · rw [own, opening]
      exact ⟨inside, _, reads, closing, rfl⟩
  | @missing room s other =>
    refine ⟨[], rfl, excuse (_, .expected .operand s.lookahead.found) ?_, rfl⟩
    exact List.mem_singleton.mpr rfl
  | lastEntry type last ih =>
    obtain ⟨front, front_eq, reads⟩ := ih trivial start excuse
    exact ⟨front, front_eq, by simp, front, [], reads, (List.append_nil _).symm, .inl ⟨rfl, rfl⟩⟩
  | @trailedEntry s m x first type comma last ih =>
    simp only [Journal.noted_append, List.forall_mem_append] at excuse
    obtain ⟨front, front_eq, reads⟩ := ih trivial start excuse.1
    refine ⟨front ++ [⟨.separator, m.lookahead.lexeme⟩], ?_, by simp, ?_⟩
    · simp [front_eq]
    · exact ⟨front, _, reads, rfl, .inr ⟨_, [], ⟨rfl, .inl comma⟩, rfl, rfl⟩⟩
  | @entry s m t x fields first later type comma more further ih ihLater =>
    simp only [Journal.noted_append, Journal.noted_taking, List.forall_mem_append] at excuse
    have middle := type.leads.orderly start
    obtain ⟨front, front_eq, reads⟩ := ih trivial start excuse.1
    obtain ⟨back, back_eq, plain, rest⟩ := ihLater trivial middle.advance excuse.2
    refine ⟨front ++ ⟨.separator, m.lookahead.lexeme⟩ :: back, ?_, ?_, ?_⟩
    · simp [front_eq, back_eq]
    · intro f mem
      rcases List.mem_cons.mp mem with rfl | mem
      · exact ⟨rfl, rfl⟩
      · exact plain f mem
    · exact ⟨front, _, reads, rfl, .inr ⟨_, back, ⟨rfl, .inl comma⟩, rest, rfl⟩⟩

end SheetFormula

import Mathlib.Tactic.Common
import SheetFormula.Proofs.Parse.Layout
import SheetFormula.Proofs.Tree.Events

/-!
# Walks of parsed trees

In a tree that was parsed, nodes start in the order in which a walk enters them. This asks nothing
of the source, not even well-formed UTF-8: where nodes stop depends on literals, but they start
where lexemes stand, and positions of lexemes grow.

Main results:
* `Derives.ascends`: every derivation yields a row of nodes that starts at the lexeme in front and
  gets at most as far as the lexeme that is left in front, missing operands included, which take the
  position of a lexeme and leave it there.
* `parsed_nodes_ascend`: so the nodes of every parsed tree start in the order of a walk.
* `walks_prune_in_preorder`: with what walks do on any tree, what visitors of parsed trees see.
-/

namespace SheetFormula

open Production Grammar

namespace Node

/-- Whether nodes start one behind the other or at the same place, none before `low` and none behind
`high`. -/
def Ascends : (low : Nat) → List Node → (high : Nat) → Prop
  | low, [], high => low ≤ high
  | low, n :: later, high => low ≤ (start n).index ∧ Ascends (start n).index later high

namespace Ascends

variable {low low' high high' middle middle' : Nat} {row later : List Node}

/-- What ascends takes no more than the room there is. -/
theorem le (h : Ascends low row high) : low ≤ high := by
  induction row generalizing low with
  | nil => exact h
  | cons n later ih => exact Nat.le_trans h.1 (ih h.2)

/-- There may be more room on either side. -/
theorem mono (h : Ascends low row high) (below : low' ≤ low) (above : high ≤ high') :
    Ascends low' row high' := by
  induction row generalizing low low' with
  | nil => exact Nat.le_trans below (Nat.le_trans h above)
  | cons n later ih => exact ⟨Nat.le_trans below h.1, ih h.2 (Nat.le_refl _)⟩

/-- Rows that ascend may stand one behind the other. -/
theorem append (h : Ascends low row middle) (behind : Ascends middle' later high)
    (further : middle ≤ middle') : Ascends low (row ++ later) high := by
  induction row generalizing low with
  | nil => exact behind.mono (Nat.le_trans h further) (Nat.le_refl _)
  | cons n row ih => exact ⟨h.1, ih h.2⟩

/-- No node of a row starts in front of the row. -/
theorem low_le (h : Ascends low row high) {n : Node} (mem : n ∈ row) : low ≤ (start n).index := by
  induction row generalizing low with
  | nil => exact absurd mem List.not_mem_nil
  | cons m later ih =>
    rcases List.mem_cons.mp mem with rfl | mem
    · exact h.1
    · exact Nat.le_trans h.1 (ih h.2 mem)

/-- Of two nodes in a row the earlier one does not start behind the later one. -/
theorem pairwise (h : Ascends low row high) :
    row.Pairwise fun m n => (start m).index ≤ (start n).index := by
  induction row generalizing low with
  | nil => exact .nil
  | cons n later ih => exact .cons (fun m mem => h.2.low_le mem) (ih h.2)

end Ascends

end Node

namespace TokenStream.Orderly

variable {s : TokenStream}

/-- The next lexeme stands behind the position of the one in front. -/
theorem here_lt_advance (orderly : s.Orderly) (more : s.lookahead.token ≠ .endOfFormula) :
    s.here < s.advance.here := by
  have ascends := orderly.ascends
  obtain ⟨later, next⟩ := s.advance.lexemes_eq_cons
  rw [lexemes_of_ne (tokens_ne_nil more), next] at ascends
  exact (List.pairwise_cons.mp ascends).1 _ List.mem_cons_self

/-- The next lexeme does not stand before the one in front. -/
theorem here_le_advance (orderly : s.Orderly) : s.here ≤ s.advance.here := by
  by_cases nothing : s.tokens = []
  · obtain ⟨-, same⟩ := tokens_advance_of_nil nothing
    exact Nat.le_of_eq (congrArg (fun l => l.pos.index) same.symm)
  · exact Nat.le_of_lt (orderly.here_lt_advance (mt orderly.tokens_eq_nil_iff.mpr nothing))

end TokenStream.Orderly

namespace Expr

/-- Whether an expression starts at a position, and all its nodes in order from there up to `high`.
-/
structure AscendsFrom (first : Pos) (high : Nat) (x : Expr) : Prop where
  first_eq : x.first = first
  ascends : Node.Ascends first.index x.nodes high

variable {x y : Expr} {first p q : Pos} {op : Token} {xs : List Expr} {low high inside : Nat}

namespace AscendsFrom

/-- What starts where an expression starts may stand in front of its nodes. -/
theorem cons {n : Node} {row : List Node} (starts : start n = first)
    (row_ascends : Node.Ascends first.index row high) :
    Node.Ascends first.index (n :: row) high := by
  unfold Node.Ascends
  rw [starts]
  exact ⟨Nat.le_refl _, row_ascends⟩

/-- A leaf ascends wherever there is room for it. -/
theorem leaf (x : Expr) (alone : x.nodes = [.expr x]) (room : x.first.index ≤ high) :
    x.AscendsFrom x.first high := by
  refine ⟨rfl, ?_⟩
  rw [alone]
  exact cons rfl room

/-- Parentheses ascend in front of what ascends between them. -/
theorem paren (content : x.AscendsFrom first high) (opening : p < first) :
    (paren p x q).AscendsFrom p high := by
  have before : p.index ≤ first.index := Nat.le_of_lt opening
  exact ⟨rfl, cons rfl (content.ascends.mono before (Nat.le_refl _))⟩

/-- An operator ascends in front of its operand. -/
theorem unary (operand : x.AscendsFrom first high) (behind : p < first) :
    (unary p op x).AscendsFrom p high := by
  have before : p.index ≤ first.index := Nat.le_of_lt behind
  exact ⟨rfl, cons rfl (operand.ascends.mono before (Nat.le_refl _))⟩

/-- An operation ascends as its left operand does, with the right one behind the operator. -/
theorem binary {second : Pos} (left : x.AscendsFrom first p.index)
    (right : y.AscendsFrom second high) (behind : p < second) :
    (binary x p op y).AscendsFrom first high := by
  have before : p.index ≤ second.index := Nat.le_of_lt behind
  exact ⟨left.first_eq, cons left.first_eq (left.ascends.append right.ascends before)⟩

/-- A call ascends as its function does, with the arguments behind the parenthesis. -/
theorem call (function : x.AscendsFrom first p.index)
    (arguments : Node.Ascends low (xs.flatMap nodes) inside) (opening : p.index ≤ low)
    (room : inside ≤ high) : (call x p xs q).AscendsFrom first high := by
  refine ⟨function.first_eq, cons function.first_eq ?_⟩
  rw [nodesAll_eq_flatMap]
  exact function.ascends.append (arguments.mono (Nat.le_refl _) room) opening

/-- An entry without names starts as its type does. -/
theorem field (type : x.AscendsFrom first high) :
    Node.Ascends first.index (⟨[], x, none⟩ : Field).nodes high := by
  have nodes : (⟨[], x, none⟩ : Field).nodes = .field ⟨[], x, none⟩ :: x.nodes := by
    simp [Field.nodes]
  rw [nodes]
  exact cons type.first_eq type.ascends

end AscendsFrom

end Expr

/-- How the nodes of the tree of a phrase start, which is read in front of the stream `s` and leaves
the stream `t`. -/
def Phrase.Ascends (s t : TokenStream) : Phrase → Prop
  | .expression _ x | .climb _ _ x | .unary _ x | .primary _ x | .operand _ x =>
    x.AscendsFrom s.lookahead.pos t.here
  | .operators _ _ left x | .calls _ left x =>
    ∀ first, left.AscendsFrom first s.here → x.AscendsFrom first t.here
  | .arguments _ xs => Node.Ascends s.here (xs.flatMap Expr.nodes) t.here
  | .entries fields => Node.Ascends s.here (fields.flatMap Field.nodes) t.here

variable {ph : Phrase} {s t : TokenStream} {journal : Journal}

/-- **The nodes of what is parsed start in the order of a walk**, from the lexeme in front up to
what is left. By induction on the derivation. -/
theorem Derives.ascends (h : Derives ph s journal t) (binary : ph.Binary) (start : s.Orderly) :
    ph.Ascends s t := by
  induction h with
  | expression all ih => exact ih (Nat.succ_pos _) start
  | climb operand further ih ihLater =>
    exact ihLater binary (operand.leads.orderly start) _ (ih trivial start)
  | noOperator loose => exact fun _ before => before
  | @operator room least s m t left right x first later binds operand further ih ihLater =>
    intro from_ before
    have more := Token.ne_end_of_binds binary binds
    have right := ih (Nat.succ_pos _) start.advance
    have whole := ihLater binary (operand.leads.orderly start.advance)
    exact whole _ (before.binary right (start.here_lt_advance more))
  | tooDeep => exact .leaf (.bad _ _) rfl (Nat.le_refl _)
  | @prefixed room s t x inner operator operand ih =>
    have more := Token.ne_end_of_isPrefixOperator operator
    exact (ih trivial start.advance).unary (start.here_lt_advance more)
  | plain none operand ih => exact ih trivial start
  | primary operand further ih ihLater =>
    exact ihLater trivial (operand.leads.orderly start) _ (ih trivial start)
  | noCall other => exact fun _ before => before
  | @call room s m t function x xs inner later opening list further ih ihLater =>
    intro from_ before
    have middle := list.leads.orderly start.advance
    have arguments := ih trivial start.advance
    have whole := ihLater trivial middle.advance
    -- The closing parenthesis may be the end, where the next lexeme is the same one.
    exact whole _ (before.call arguments start.here_le_advance middle.here_le_advance)
  | noArgument last => exact Nat.le_refl _
  | lastArgument more argument last ih =>
    have only : Expr.AscendsFrom _ _ _ := ih trivial start
    rw [Phrase.Ascends, List.flatMap_singleton]
    exact only.ascends
  | argument more argument comma further ih ihLater
  | strayArgument more argument stray further ih ihLater =>
    have front : Expr.AscendsFrom _ _ _ := ih trivial start
    have middle := argument.leads.orderly start
    rw [Phrase.Ascends, List.flatMap_cons]
    exact front.ascends.append (ihLater trivial middle.advance) middle.here_le_advance
  | @ident room s name =>
    exact .leaf (.ident ⟨s.lookahead.pos, s.lookahead.lexeme.literal⟩) rfl start.here_le_advance
  | @literal room s value =>
    exact .leaf (.literal ⟨s.lookahead.pos, s.lookahead.token, s.lookahead.lexeme.literal⟩) rfl
      start.here_le_advance
  | @paren room s m x inner opening content ih =>
    have more : s.lookahead.token ≠ .endOfFormula := by
      rw [opening]
      rintro ⟨⟩
    have middle := content.leads.orderly start.advance
    have inside : x.AscendsFrom _ _ := ih trivial start.advance
    have room : x.AscendsFrom s.advance.lookahead.pos m.advance.here :=
      ⟨inside.first_eq, inside.ascends.mono (Nat.le_refl _) middle.here_le_advance⟩
    exact room.paren (start.here_lt_advance more)
  | missing other => exact .leaf (.bad _ _) rfl (Nat.le_refl _)
  | lastEntry type last ih =>
    have only : Expr.AscendsFrom _ _ _ := ih trivial start
    rw [Phrase.Ascends, List.flatMap_singleton]
    exact only.field
  | trailedEntry type comma last ih =>
    have only : Expr.AscendsFrom _ _ _ := ih trivial start
    rw [Phrase.Ascends, List.flatMap_singleton]
    exact only.field.mono (Nat.le_refl _) (type.leads.orderly start).here_le_advance
  | entry type comma more further ih ihLater =>
    have front : Expr.AscendsFrom _ _ _ := ih trivial start
    have middle := type.leads.orderly start
    rw [Phrase.Ascends, List.flatMap_cons]
    exact front.field.append (ihLater trivial middle.advance) middle.here_le_advance

/-! ## Whole trees -/

/-- The nodes of a formula start in the order of a walk. -/
theorem ascends_formula (start : s.Orderly) :
    (Node.expr (formula.run s).value).nodes.Pairwise
      fun m n => (SheetFormula.start m).index ≤ (SheetFormula.start n).index := by
  rw [run_formula]
  exact ((derives_expression s.behindLead).ascends trivial
    (orderly_behindLead start)).ascends.pairwise

/-- So do those between the parentheses of a list. -/
theorem ascends_betweenParentheses (start : s.Orderly) :
    (Phrase.entries (betweenParentheses s).value).Ascends s (betweenParentheses s).rest := by
  rcases betweenParentheses_cases s with none | ⟨journal, -, derived⟩
  · rw [none]
    exact Nat.le_refl _
  · exact derived.ascends trivial start

/-- So do the nodes of a parameter list. -/
theorem ascends_parametersOnly (start : s.Orderly) (valid : s.lookahead.pos.isValid) :
    (Node.fields (parametersOnly.run s).value).nodes.Pairwise
      fun m n => (SheetFormula.start m).index ≤ (SheetFormula.start n).index := by
  rw [run_parametersOnly]
  have entries := ascends_betweenParentheses start.advance
  have row : Node.Ascends s.here _ _ := entries.mono start.here_le_advance (Nat.le_refl _)
  exact (Expr.AscendsFrom.cons (if_pos valid) row).pairwise

/-- **Whatever is amiss in a source, the nodes of its tree start in the order of a walk.** -/
theorem parsed_nodes_ascend (options : ParseOptions) (source : List UInt8) :
    ∀ root ∈ [Node.expr (parseFormula options source).root,
        .fields (parseParameters options source).root],
      root.nodes.Pairwise fun m n => (start m).index ≤ (start n).index := by
  have orderly := TokenStream.orderly_ofSource source
  have bounds := pos_bounds_lexemes (TokenStream.ofSource source).mem_lexemes_lookahead
  refine Parse.forall_roots options ?_ ?_ ?_ ?_
  · exact fun p q => List.pairwise_singleton ..
  · exact List.pairwise_singleton ..
  · exact ascends_formula orderly
  · exact ascends_parametersOnly orderly (bne_iff_ne.mpr (Nat.ne_of_gt bounds.1))

/-- **Walks show the pruned tree in preorder, with matching brackets.** Where the answers are those
of a condition, the events have one equation for all nodes, and an inspection shows the nodes that
are entered. Whatever the answers depend on, a walk makes a tour of its tree with the answer of each
moment: its visitor sees the events of that tour, and the function of an inspection is called on the
nodes that it enters. Tours open and close places as brackets match, enter each place with nothing
skipped above it once and no others, and leave those that they enter and do not skip. In a tree that
was parsed, whatever its source, nodes start in the order in which they are entered. -/
theorem walks_prune_in_preorder :
    (∀ (goesBelow : Node → Bool) (n : Node),
      n.events goesBelow =
          (if goesBelow n then
            .enter n :: (n.children.flatMap (Node.events goesBelow) ++ [.leave n])
          else [.enter n]) ∧
        n.inspected goesBelow = (n.events goesBelow).filterMap WalkEvent.entered? ∧
        ∃ visits, Tour [.root n] visits ∧ Explores n visits ∧ Visit.Follows goesBelow visits ∧
          n.events goesBelow = visits.map Visit.event) ∧
      (∀ {σ : Type} (v : Visitor σ) (n : Node) (state : σ),
        ∃ visits, Tour [.root n] visits ∧ Explores n visits ∧
          v.Meets state visits (v.walk n state) ∧
          v.noting.walk n (state, []) = (v.walk n state, visits.map Visit.event)) ∧
      (∀ {σ : Type} (f : Node → σ → Bool × σ) (n : Node) (state : σ),
        ∃ visits, Tour [.root n] visits ∧ Explores n visits ∧
          (Visitor.ofInspection f).Meets state visits (n.inspect f state) ∧
          n.inspect f state =
            ((Visit.entered visits).map Place.node).foldl (fun state n => (f n state).2) state) ∧
      ∀ (options : ParseOptions) (source : List UInt8),
        ∀ root ∈ [Node.expr (parseFormula options source).root,
            .fields (parseParameters options source).root],
          ∀ visits, Tour [.root root] visits →
            (Visit.entered visits).Pairwise
              fun p q => (start p.node).index ≤ (start q.node).index := by
  refine ⟨?_, ?_, ?_, ?_⟩
  · intro goesBelow n
    obtain ⟨visits, tour, follows, records⟩ := Node.events_tour goesBelow n
    exact ⟨Node.events_eq goesBelow n, Node.inspected_eq goesBelow n,
      visits, tour, tour.explores, follows, records⟩
  · intro σ v n state
    obtain ⟨visits, tour, meets, notes⟩ := v.walk_tours n state
    exact ⟨visits, tour, tour.explores, meets, notes⟩
  · intro σ f n state
    obtain ⟨visits, tour, meets, folds⟩ := Node.inspect_tours f n state
    exact ⟨visits, tour, tour.explores, meets, folds⟩
  · intro options source root parsed visits tour
    have among : ((Visit.entered visits).map Place.node).Sublist root.nodes := by
      have sublist := tour.sublist_nodes
      rwa [List.flatMap_singleton] at sublist
    have ascends := (parsed_nodes_ascend options source root parsed).sublist among
    rwa [List.pairwise_map] at ascends

/-- The tree of `=F((1;2` with a byte behind it that is no text, walked without going below
parentheses. -/
theorem walks_prune_in_preorder_broken_off :
    let root := Node.expr (parseFormula {} (Text.encoded "=F((1;2" ++ [0xFF])).root
    let outside : Node → Bool := fun n => n.kind != "Paren"
    ∃ visits, root.events outside = visits.map Visit.event ∧
      (Visit.entered visits).Pairwise fun p q => (start p.node).index ≤ (start q.node).index := by
  obtain ⟨conditions, -, -, sources⟩ := walks_prune_in_preorder
  intro root outside
  obtain ⟨-, -, visits, tour, -, -, records⟩ := conditions outside root
  exact ⟨visits, records, sources {} _ root List.mem_cons_self visits tour⟩

end SheetFormula

import Mathlib.Tactic.Common
import SheetFormula.Proofs.Lexeme.Placement
import SheetFormula.Proofs.Parse.Marks
import SheetFormula.Proofs.Tree.Layout

/-!
# How parsed trees are laid out

Every derivation makes a tree that starts at the lexeme in front of it and stops before the lexeme
that it leaves in front, or, as the end can stand for many marks, not further than one byte behind
that (`TokenStream.limit`). So nodes lie in their parents and one behind the other, whatever is
amiss in the source. Literals are as long as they are in the source only if the source is
well-formed UTF-8, which the main result therefore asks for.

Main results:
* `spaced_ofSource`: the stream of a source in well-formed UTF-8 has room for its literals.
* `Derives.lays`: what is parsed is laid out in the order of the source.
* `Node.Nested.laid`: a nested node is laid out if its literals stand where they should.
* `parsed_trees_laid`: extents nest and follow the order of the source, at every node of every tree.
-/

namespace SheetFormula

open Production Grammar

/-! ## Streams with room for their literals -/

namespace TokenStream

/-- The position of the lexeme in front, as a number. -/
def here (s : TokenStream) : Nat := s.lookahead.pos.index

/-- How far what has been read before the lexeme in front may reach: up to that lexeme, or one byte
further if that is the end. -/
def limit (s : TokenStream) : Nat := if s.tokens = [] then s.here + 1 else s.here

/-- Whether a stream is like that of a source of so many bytes, where each lexeme starts behind the
literals of all earlier ones. -/
structure Spaced (length : Nat) (s : TokenStream) : Prop where
  orderly : s.Orderly
  bounds : ∀ l ∈ s.lexemes, 1 ≤ l.pos.index ∧ l.pos.index ≤ length + 1
  spaced : s.lexemes.Pairwise fun l m => l.pos.index + l.literal.utf8ByteSize ≤ m.pos.index

variable {length : Nat} {s t : TokenStream} {journal : Journal}

/-- What has been read may reach up to the lexeme in front. -/
theorem here_le_limit (s : TokenStream) : s.here ≤ s.limit := by
  unfold limit
  split
  · exact Nat.le_succ _
  · exact Nat.le_refl _

/-- It reaches no further than one byte behind it. -/
theorem limit_le (s : TokenStream) : s.limit ≤ s.here + 1 := by
  unfold limit
  split
  · exact Nat.le_refl _
  · exact Nat.le_succ _

/-- Before a lexeme that is not the end, what has been read reaches up to that lexeme. -/
theorem limit_eq (more : s.lookahead.token ≠ .endOfFormula) : s.limit = s.here :=
  if_neg (tokens_ne_nil more)

namespace Spaced

/-- Behind the lexeme in front there is still room for all literals. -/
theorem advance (h : s.Spaced length) : s.advance.Spaced length := by
  refine ⟨h.orderly.advance, fun l mem => h.bounds l (s.lexemes_advance_subset mem), ?_⟩
  by_cases nothing : s.tokens = []
  · rw [lexemes_of_nil (tokens_advance_of_nil nothing).1]
    exact List.pairwise_singleton ..
  · have spaced := h.spaced
    rw [lexemes_of_ne nothing] at spaced
    exact (List.pairwise_cons.mp spaced).2

/-- There is room wherever a journal leads. -/
theorem behind (h : s.Spaced length) (leads : Journal.Leads s journal t) : t.Spaced length := by
  induction leads with
  | nothing s => exact h
  | consume asOperand behind ih => exact ih h.advance
  | report fault behind ih => exact ih h
  | within rule inside behind inner later => exact later (inner h)

/-- The lexeme in front stands in the source or right behind it. -/
theorem here_bounds (h : s.Spaced length) : 1 ≤ s.here ∧ s.here ≤ length + 1 :=
  h.bounds _ s.mem_lexemes_lookahead

/-- The next lexeme stands behind the literal of the one in front, and behind its position. -/
theorem here_advance (h : s.Spaced length) (more : s.lookahead.token ≠ .endOfFormula) :
    s.here < s.advance.here ∧
      s.here + s.lookahead.lexeme.literal.utf8ByteSize ≤ s.advance.here := by
  have ascends := h.orderly.ascends
  have spaced := h.spaced
  obtain ⟨later, next⟩ := s.advance.lexemes_eq_cons
  rw [lexemes_of_ne (tokens_ne_nil more), next] at ascends spaced
  exact ⟨(List.pairwise_cons.mp ascends).1 _ List.mem_cons_self,
    (List.pairwise_cons.mp spaced).1 _ List.mem_cons_self⟩

/-- What stops one byte behind the lexeme in front has been read before the next one. -/
theorem succ_here_le (h : s.Spaced length) : s.here + 1 ≤ s.advance.limit := by
  by_cases nothing : s.tokens = []
  · obtain ⟨still, same⟩ := tokens_advance_of_nil nothing
    rw [limit, if_pos still, here, here, Scanned.pos, Scanned.pos, same]
  · have more := mt h.orderly.tokens_eq_nil_iff.mpr nothing
    exact Nat.le_trans (h.here_advance more).1 s.advance.here_le_limit

/-- The next lexeme does not stand before the one in front. -/
theorem here_le_advance (h : s.Spaced length) : s.here ≤ s.advance.here := by
  have step := h.succ_here_le
  have near := s.advance.limit_le
  omega

end Spaced

end TokenStream

/-- **The stream of a source in well-formed UTF-8 has room for its literals.** -/
theorem spaced_ofSource {source : List UInt8} (valid : source.toByteArray.IsValidUTF8) :
    (TokenStream.ofSource source).Spaced source.length :=
  ⟨TokenStream.orderly_ofSource source, fun _ mem => pos_bounds_lexemes mem, spaced_lexemes valid⟩

/-! ## Derivations lay out their trees -/

/-- Whether an expression starts at `first` and reaches at most up to `limit`, with all its nodes
nested in what lies before `bound`. -/
structure Expr.Lays (bound : Nat) (first : Pos) (limit : Nat) (x : Expr) : Prop where
  nodes : ∀ n ∈ x.nodes, n.Nested bound
  first_eq : x.first = first
  behind_le : x.behind.index ≤ limit

/-- How the tree of a phrase, which is read in front of the stream `s` and leaves the stream `t`, is
laid out. -/
def Phrase.Lays (bound : Nat) (s t : TokenStream) : Phrase → Prop
  | .expression _ x | .climb _ _ x | .unary _ x | .primary _ x | .operand _ x =>
    x.Lays bound s.lookahead.pos t.limit
  | .operators _ _ left x | .calls _ left x =>
    left.Lays bound left.first s.limit → x.Lays bound left.first t.limit
  | .arguments _ xs =>
    (∀ x ∈ xs, ∀ n ∈ x.nodes, n.Nested bound) ∧ Node.InRow s.here (xs.map .expr) t.limit
  | .entries fields =>
    (∀ f ∈ fields, ∀ n ∈ f.nodes, n.Nested bound) ∧
      Node.InRow s.here (fields.map .field) t.limit

namespace Expr

variable {bound limit : Nat} {x y : Expr} {first p q : Pos} {op : Token} {xs : List Expr}

/-- An expression starts before it stops. -/
theorem Lays.first_le (h : x.Lays bound first limit) : first.index ≤ x.behind.index := by
  have row := (h.nodes _ (Node.mem_nodes_self (.expr x))).row.le
  rw [← h.first_eq]
  exact row

/-- An expression that is laid out starts in the source. -/
theorem Lays.start_pos (h : x.Lays bound first limit) : 1 ≤ first.index := by
  have pos := (h.nodes _ (Node.mem_nodes_self (.expr x))).start_pos
  rw [← h.first_eq]
  exact pos

/-- It stops within the bound. -/
theorem Lays.stop_le (h : x.Lays bound first limit) : x.behind.index ≤ bound :=
  (h.nodes _ (Node.mem_nodes_self (.expr x))).stop_le

/-- A leaf is laid out wherever there is room for it. -/
theorem lays_of_leaf (x : Expr) (alone : x.nodes = [.expr x]) (leaf : (Node.expr x).children = [])
    (plain : (Node.expr x).Punctuated) (start_pos : 1 ≤ x.first.index)
    (across : x.first.index ≤ x.behind.index) (room : x.behind.index ≤ limit)
    (inside : limit ≤ bound) : x.Lays bound x.first limit := by
  refine ⟨?_, rfl, room⟩
  rw [alone]
  refine List.forall_mem_singleton.mpr ⟨start_pos, Nat.le_trans room inside, ?_, plain⟩
  rw [leaf]
  exact across

/-- What extends as far as an expression that is laid out leads a row, if the rest of the row comes
behind it. -/
theorem Lays.inRow_cons {n : Node} {low high : Nat} {later : List Node}
    (h : x.Lays bound first limit) (starts : start n = x.first) (stops : stop n = x.behind)
    (row : Node.InRow low later high) (behind : limit ≤ low) :
    Node.InRow first.index (n :: later) high := by
  have across := h.first_le
  have reach := h.behind_le
  unfold Node.InRow
  rw [starts, stops, h.first_eq]
  exact ⟨Nat.le_refl _, across, row.mono (Nat.le_trans reach behind) (Nat.le_refl _)⟩

/-- An entry is laid out as its type is. -/
theorem Lays.nested_field (h : x.Lays bound first limit) :
    ∀ n ∈ (⟨[], x, none⟩ : Field).nodes, n.Nested bound := by
  have root := h.nodes _ (Node.mem_nodes_self (.expr x))
  refine List.forall_mem_cons.mpr ⟨⟨root.start_pos, root.stop_le, ?_, trivial⟩, ?_⟩
  · exact ⟨Nat.le_refl _, root.row.le, Nat.le_refl _⟩
  · simpa using h.nodes

/-- Parentheses are laid out around what is laid out between them. -/
theorem lays_paren {inside : Nat} (content : x.Lays bound first inside) (pos : 1 ≤ p.index)
    (opening : p < first) (closing : inside ≤ q.index + 1) (fits : q.index + 1 ≤ bound)
    (room : q.index + 1 ≤ limit) : (paren p x q).Lays bound p limit := by
  have before : p.index < first.index := opening
  have across := content.first_le
  have start := content.first_eq
  refine ⟨List.forall_mem_cons.mpr ⟨⟨pos, fits, ?_, ?_⟩, content.nodes⟩, rfl, room⟩
  · refine ⟨?_, ?_, ?_⟩
    · show p.index ≤ x.first.index
      rw [start]
      omega
    · show x.first.index ≤ x.behind.index
      rwa [start]
    · exact Nat.le_trans content.behind_le closing
  · show p < x.first
    rwa [start]

/-- An operator is laid out in front of its operand. -/
theorem lays_unary (operand : x.Lays bound first limit) (pos : 1 ≤ p.index) (behind : p < first) :
    (unary p op x).Lays bound p limit := by
  have before : p.index < first.index := behind
  have across := operand.first_le
  have start := operand.first_eq
  refine ⟨List.forall_mem_cons.mpr ⟨⟨pos, operand.stop_le, ?_, ?_⟩, operand.nodes⟩, rfl,
    operand.behind_le⟩
  · refine ⟨?_, ?_, Nat.le_refl _⟩
    · show p.index ≤ x.first.index
      rw [start]
      omega
    · show x.first.index ≤ x.behind.index
      rwa [start]
  · show p < x.first
    rwa [start]

/-- An operation is laid out as its operands are, on both sides of the operator. -/
theorem lays_binary {second : Pos} (left : x.Lays bound first p.index)
    (right : y.Lays bound second limit) (behind : p < second) :
    (binary x p op y).Lays bound first limit := by
  have before : p.index < second.index := behind
  have acrossLeft := left.first_le
  have acrossRight := right.first_le
  have reach := left.behind_le
  have startLeft := left.first_eq
  have startRight := right.first_eq
  refine ⟨List.forall_mem_cons.mpr ⟨⟨?_, right.stop_le, ?_, ?_, ?_⟩,
    List.forall_mem_append.mpr ⟨left.nodes, right.nodes⟩⟩, startLeft, right.behind_le⟩
  · show 1 ≤ x.first.index
    rw [startLeft]
    exact left.start_pos
  · refine ⟨Nat.le_refl _, ?_, ?_, ?_, Nat.le_refl _⟩
    · show x.first.index ≤ x.behind.index
      rwa [startLeft]
    · show x.behind.index ≤ y.first.index
      rw [startRight]
      omega
    · show y.first.index ≤ y.behind.index
      rwa [startRight]
  · exact reach
  · show p < y.first
    rwa [startRight]

/-- A call is laid out as its function and the row of its arguments are. -/
theorem lays_call {low inside : Nat} (function : x.Lays bound first p.index)
    (nodes : ∀ y ∈ xs, ∀ n ∈ y.nodes, n.Nested bound)
    (row : Node.InRow low (xs.map .expr) inside) (opening : p.index < low)
    (closing : inside ≤ q.index + 1) (fits : q.index + 1 ≤ bound) (room : q.index + 1 ≤ limit) :
    (call x p xs q).Lays bound first limit := by
  have across := function.first_le
  have reach := function.behind_le
  have start := function.first_eq
  have list : ∀ n ∈ nodesAll xs, n.Nested bound := by
    rw [nodesAll_eq_flatMap, List.forall_mem_flatMap]
    exact nodes
  refine ⟨List.forall_mem_cons.mpr ⟨⟨?_, fits, ?_, ?_, ?_⟩,
    List.forall_mem_append.mpr ⟨function.nodes, list⟩⟩, start, room⟩
  · show 1 ≤ x.first.index
    rw [start]
    exact function.start_pos
  · refine ⟨Nat.le_refl _, ?_, row.mono ?_ closing⟩
    · show x.first.index ≤ x.behind.index
      rwa [start]
    · show x.behind.index ≤ low
      omega
  · exact reach
  · intro y argument
    exact Nat.lt_of_lt_of_le opening (row.bounds (List.mem_map_of_mem argument)).1

end Expr

variable {ph : Phrase} {s t : TokenStream} {journal : Journal} {length : Nat}

/-- The literal of the lexeme in front is a leaf that is laid out. -/
theorem TokenStream.Spaced.lays_in_front (start : s.Spaced length)
    (more : s.lookahead.token ≠ .endOfFormula) (x : Expr) (alone : x.nodes = [.expr x])
    (leaf : (Node.expr x).children = []) (plain : (Node.expr x).Punctuated)
    (first_eq : x.first = s.lookahead.pos)
    (behind_eq : x.behind.index = s.here + s.lookahead.lexeme.literal.utf8ByteSize) :
    x.Lays (length + 2) s.lookahead.pos s.advance.limit := by
  have bounds := start.advance.here_bounds
  have near := s.advance.limit_le
  have reach := (start.here_advance more).2
  have first : x.first.index = s.here := congrArg Pos.index first_eq
  rw [← first_eq]
  refine Expr.lays_of_leaf x alone leaf plain ?_ ?_ ?_ (by omega)
  · rw [first]
    exact start.here_bounds.1
  · rw [first, behind_eq]
    exact Nat.le_add_right ..
  · rw [behind_eq]
    exact Nat.le_trans reach s.advance.here_le_limit

/-- **What is parsed is laid out in the order of the source**: trees start at the lexeme in front of
them, and stop before what is left. By induction on the derivation; where the end stands for a mark,
what follows still starts no earlier, which is what the limit is for. -/
theorem Derives.lays (h : Derives ph s journal t) (binary : ph.Binary) (start : s.Spaced length) :
    ph.Lays (length + 2) s t := by
  induction h with
  | expression all ih => exact ih (Nat.succ_pos _) start
  | climb operand further ih ihLater =>
    have left := ih trivial start
    have whole := ihLater binary (start.behind operand.leads)
    rw [Phrase.Lays, left.first_eq] at whole
    exact whole left
  | noOperator loose => exact id
  | @operator room least s m t left right x first later binds operand further ih ihLater =>
    intro before
    -- In front of an operator the limit is the operator itself, so what is held stops before it.
    have more := Token.ne_end_of_binds binary binds
    rw [TokenStream.limit_eq more] at before
    have right := ih (Nat.succ_pos _) start.advance
    have whole := ihLater binary (start.advance.behind operand.leads)
    exact whole (Expr.lays_binary before right (start.here_advance more).1)
  | @tooDeep s =>
    have bounds := start.here_bounds
    have near := s.limit_le
    exact Expr.lays_of_leaf (.bad _ _) rfl rfl trivial bounds.1 (Nat.le_refl _) s.here_le_limit
      (by omega)
  | @prefixed room s t x inner operator operand ih =>
    have more := Token.ne_end_of_isPrefixOperator operator
    exact Expr.lays_unary (ih trivial start.advance) start.here_bounds.1
      (start.here_advance more).1
  | plain none operand ih => exact ih trivial start
  | primary operand further ih ihLater =>
    have function := ih trivial start
    have whole := ihLater trivial (start.behind operand.leads)
    rw [Phrase.Lays, function.first_eq] at whole
    exact whole function
  | noCall other => exact id
  | @call room s m t function x xs inner later opening list further ih ihLater =>
    intro before
    have more : s.lookahead.token ≠ .endOfFormula := by
      rw [opening]
      rintro ⟨⟩
    rw [TokenStream.limit_eq more] at before
    have middle := start.advance.behind list.leads
    obtain ⟨nodes, row⟩ := ih trivial start.advance
    have whole := ihLater trivial middle.advance
    -- The end may stand for the closing parenthesis: it is one byte wide there as well.
    refine whole (Expr.lays_call before nodes row (start.here_advance more).1 m.limit_le ?_
      middle.succ_here_le)
    exact Nat.succ_le_succ middle.here_bounds.2
  | @noArgument room s last => exact ⟨by simp, s.here_le_limit⟩
  | @lastArgument room s t x first more argument last ih =>
    have only : x.Lays _ _ _ := ih trivial start
    refine ⟨List.forall_mem_singleton.mpr only.nodes, ?_⟩
    exact only.inRow_cons rfl rfl (Nat.le_refl t.limit) (Nat.le_refl _)
  | @argument room s m t x xs first later more argument comma further ih ihLater =>
    have front : x.Lays _ _ _ := ih trivial start
    have middle := start.behind argument.leads
    obtain ⟨nodes, row⟩ := ihLater trivial middle.advance
    refine ⟨List.forall_mem_cons.mpr ⟨front.nodes, nodes⟩, ?_⟩
    refine front.inRow_cons rfl rfl row ?_
    rw [TokenStream.limit_eq (by rw [comma]; rintro ⟨⟩)]
    exact middle.here_le_advance
  | @strayArgument room s m t x xs first later more argument stray further ih ihLater =>
    have front : x.Lays _ _ _ := ih trivial start
    have middle := start.behind argument.leads
    obtain ⟨nodes, row⟩ := ihLater trivial middle.advance
    refine ⟨List.forall_mem_cons.mpr ⟨front.nodes, nodes⟩, ?_⟩
    refine front.inRow_cons rfl rfl row ?_
    rw [TokenStream.limit_eq stray.2.2]
    exact middle.here_le_advance
  | @ident room s name =>
    refine start.lays_in_front (by rw [name]; rintro ⟨⟩)
      (.ident ⟨s.lookahead.pos, s.lookahead.lexeme.literal⟩) rfl rfl trivial rfl rfl
  | @literal room s value =>
    exact start.lays_in_front (Token.ne_end_of_isValue value)
      (.literal ⟨s.lookahead.pos, s.lookahead.token, s.lookahead.lexeme.literal⟩) rfl rfl trivial
      rfl rfl
  | @paren room s m x inner opening content ih =>
    have more : s.lookahead.token ≠ .endOfFormula := by
      rw [opening]
      rintro ⟨⟩
    have middle := start.advance.behind content.leads
    refine Expr.lays_paren (ih trivial start.advance) start.here_bounds.1
      (start.here_advance more).1 m.limit_le ?_ middle.succ_here_le
    exact Nat.succ_le_succ middle.here_bounds.2
  | @missing room s other =>
    have bounds := start.here_bounds
    have near := s.limit_le
    exact Expr.lays_of_leaf (.bad _ _) rfl rfl trivial bounds.1 (Nat.le_refl _) s.here_le_limit
      (by omega)
  | @lastEntry s t x first type last ih =>
    have only : x.Lays _ _ _ := ih trivial start
    refine ⟨List.forall_mem_singleton.mpr only.nested_field, ?_⟩
    exact only.inRow_cons rfl rfl (Nat.le_refl t.limit) (Nat.le_refl _)
  | @trailedEntry s m x first type comma last ih =>
    have only : x.Lays _ _ _ := ih trivial start
    have middle := start.behind type.leads
    refine ⟨List.forall_mem_singleton.mpr only.nested_field, ?_⟩
    refine only.inRow_cons rfl rfl (Nat.le_refl m.advance.limit) ?_
    rw [TokenStream.limit_eq (by rw [comma]; rintro ⟨⟩)]
    exact Nat.le_trans middle.here_le_advance m.advance.here_le_limit
  | @entry s m t x fields first later type comma more further ih ihLater =>
    have front : x.Lays _ _ _ := ih trivial start
    have middle := start.behind type.leads
    obtain ⟨nodes, row⟩ := ihLater trivial middle.advance
    refine ⟨List.forall_mem_cons.mpr ⟨front.nested_field, nodes⟩, ?_⟩
    refine front.inRow_cons rfl rfl row ?_
    rw [TokenStream.limit_eq (by rw [comma]; rintro ⟨⟩)]
    exact middle.here_le_advance

/-! ## Whole trees -/

/-- Behind what leads a formula there is room for all literals. -/
theorem TokenStream.Spaced.behindLead (start : s.Spaced length) :
    s.behindLead.Spaced length := by
  unfold TokenStream.behindLead
  split
  · exact start.advance
  · exact start

/-- The nodes of a formula are nested. -/
theorem nested_formula (start : s.Spaced length) :
    ∀ n ∈ (Node.expr (formula.run s).value).nodes, n.Nested (length + 2) := by
  rw [run_formula]
  exact ((derives_expression s.behindLead).lays trivial start.behindLead).nodes

/-- What stands between the parentheses of a list is laid out in a row. -/
theorem lays_betweenParentheses (start : s.Spaced length) :
    (Phrase.entries (betweenParentheses s).value).Lays (length + 2) s
      (betweenParentheses s).rest := by
  rcases betweenParentheses_cases s with none | ⟨journal, -, derived⟩
  · rw [none]
    exact ⟨by simp, s.here_le_limit⟩
  · exact derived.lays trivial start

/-- The nodes of a parameter list are nested. -/
theorem nested_parametersOnly (start : s.Spaced length) :
    ∀ n ∈ (Node.fields (parametersOnly.run s).value).nodes, n.Nested (length + 2) := by
  rw [run_parametersOnly]
  obtain ⟨entries, row⟩ := lays_betweenParentheses start.advance
  have within := start.advance.behind (leads_betweenParentheses s.advance)
  have opening := start.here_bounds
  have closing := within.here_bounds
  have reach := (betweenParentheses s.advance).rest.limit_le
  have valid : ∀ p : Pos, 1 ≤ p.index → p.isValid := by
    intro p positive
    exact bne_iff_ne.mpr (Nat.ne_of_gt positive)
  have starts : ∀ fields, SheetFormula.start (Node.fields ⟨s.lookahead.pos, fields,
      (betweenParentheses s.advance).rest.lookahead.pos⟩) = s.lookahead.pos :=
    fun _ => if_pos (valid _ opening.1)
  have stops : ∀ fields, stop (Node.fields ⟨s.lookahead.pos, fields,
      (betweenParentheses s.advance).rest.lookahead.pos⟩) =
        (betweenParentheses s.advance).rest.lookahead.pos + 1 :=
    fun _ => if_pos (valid _ closing.1)
  refine List.forall_mem_cons.mpr ⟨⟨?_, ?_, ?_, trivial⟩, ?_⟩
  · rw [starts]
    exact opening.1
  · rw [stops]
    exact Nat.succ_le_succ closing.2
  · rw [starts, stops]
    exact row.mono start.here_le_advance reach
  · rw [List.forall_mem_flatMap]
    exact entries

/-- The name or the value that a node holds. -/
def Node.text? : Node → Option String
  | .expr (.ident i) | .name i => some i.name
  | .expr (.literal l) | .tag l => some l.value
  | _ => none

/-- Whether a node is laid out in a source as it should be: it lies in the source and reaches at
most one byte behind it, its children lie in it, one behind the other and around its own marks, and
a name or a value is what the source has in that place. -/
structure Node.Laid (source : List UInt8) (n : Node) : Prop where
  start_pos : 1 ≤ (start n).index
  start_le : (start n).index ≤ (stop n).index
  stop_le : (stop n).index ≤ source.length + 2
  inside : ∀ c ∈ n.children,
    (start n).index ≤ (start c).index ∧ (stop c).index ≤ (stop n).index
  ordered : n.children.Pairwise fun c d => (stop c).index ≤ (start d).index
  punctuated : n.Punctuated
  text_eq : ∀ text ∈ n.text?,
    (source.drop (span n).start).take (span n).size = Text.encoded text

/-- A span from a position over so many bytes starts there and is that long. -/
theorem span_between_add {p : Pos} (valid : 1 ≤ p.index) (k : Nat) :
    (Span.between p (p + k)).start = p.offset ∧ (Span.between p (p + k)).size = k := by
  obtain ⟨index⟩ := p
  cases index with
  | zero => cases valid
  | succ offset =>
    have next : (⟨offset + 1⟩ : Pos) + k = ⟨offset + k + 1⟩ :=
      congrArg Pos.mk (Nat.add_right_comm ..)
    rw [next]
    simp [Span.between, Span.size, Pos.offset?, Pos.offset]

/-- A name or a value has a mark of its own, and is as long as the node. -/
theorem Node.exists_mark_of_text {n : Node} {text : String} (holds : n.text? = some text) :
    ∃ m ∈ n.marks, m.isCertain ∧ m.lexeme.pos = start n ∧ m.lexeme.literal = text ∧
      stop n = start n + text.utf8ByteSize := by
  match n with
  | expr (.ident i) | name i | expr (.literal i) | tag i =>
    obtain rfl := Option.some.inj holds
    exact ⟨_, List.mem_cons_self, rfl, rfl, rfl, rfl⟩

/-- A nested node is laid out if the literals of its certain marks stand in the source. -/
theorem Node.Nested.laid {source : List UInt8} {n : Node} (nested : n.Nested (source.length + 2))
    (stands : ∀ m ∈ n.marks, m.isCertain → m.lexeme.StandsIn source) : n.Laid source := by
  refine ⟨nested.start_pos, nested.row.le, nested.stop_le, fun c mem => nested.row.bounds mem,
    nested.row.pairwise, nested.punctuated, ?_⟩
  intro text holds
  obtain ⟨m, mark, sure, pos, literal, stops⟩ := Node.exists_mark_of_text holds
  have front := stands m mark sure
  obtain ⟨first, size⟩ := span_between_add nested.start_pos text.utf8ByteSize
  rw [Lexeme.StandsIn, pos, literal] at front
  rw [span, stops, first, size, ← Text.length_encoded]
  exact (List.prefix_iff_eq_take.mp front).symm

/-- A tree whose nodes are nested is laid out if its certain marks are lexemes of the source. -/
theorem laid_of_nested {source : List UInt8} (valid : source.toByteArray.IsValidUTF8)
    {root : Node} (nested : ∀ n ∈ root.nodes, n.Nested (source.length + 2))
    (certain : ((root.marks.filter Part.isCertain).map Part.lexeme).Sublist
      (TokenStream.ofSource source).lexemes) :
    ∀ n ∈ root.nodes, n.Laid source := by
  intro n mem
  refine (nested n mem).laid ?_
  intro m mark sure
  have ofRoot := Node.marks_subset_of_mem_nodes mem mark
  have scanned := certain.subset (List.mem_map_of_mem (List.mem_filter.mpr ⟨ofRoot, sure⟩))
  exact standsIn_of_mem_lexemes valid scanned

/-- **Extents nest and follow the order of the source.** Whatever is amiss in a source that is
well-formed UTF-8 and not too long, every node of its tree lies in its parent, and children lie one
behind the other, with the marks of their parent in between. Names and values are what the source
has where they stand. -/
theorem parsed_trees_laid (options : ParseOptions) (source : List UInt8)
    (valid : source.toByteArray.IsValidUTF8) (short : characterCount source ≤ lengthLimit) :
    (∀ n ∈ (Node.expr (parseFormula options source).root).nodes, n.Laid source) ∧
      ∀ n ∈ (Node.fields (parseParameters options source).root).nodes, n.Laid source := by
  have spaced := spaced_ofSource valid
  constructor
  · rw [parseFormula, (Parse.parseWith_of_short sound_formula _ options short).1]
    exact laid_of_nested valid (nested_formula spaced) (certain_marks_formula spaced.orderly)
  · rw [parseParameters, (Parse.parseWith_of_short sound_parametersOnly _ options short).1]
    exact laid_of_nested valid (nested_parametersOnly spaced)
      (certain_marks_parametersOnly spaced.orderly)

/-- The source `=É((1;` is not well-formed as a formula, and yet its tree is laid out. -/
theorem parsed_trees_laid_unclosed :
    (Text.encoded "=É((1;").toByteArray.IsValidUTF8 ∧
      characterCount (Text.encoded "=É((1;") ≤ lengthLimit ∧
      ∀ n ∈ (Node.expr (parseFormula {} (Text.encoded "=É((1;")).root).nodes,
        n.Laid (Text.encoded "=É((1;") := by
  have valid : (Text.encoded "=É((1;").toByteArray.IsValidUTF8 := .intro "=É((1;".toList rfl
  have short : characterCount (Text.encoded "=É((1;") ≤ lengthLimit := by decide +kernel
  exact ⟨valid, short, (parsed_trees_laid {} _ valid short).1⟩

end SheetFormula

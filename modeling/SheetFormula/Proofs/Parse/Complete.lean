import Mathlib.Tactic.Common
import SheetFormula.Proofs.Parse.Derivation
import SheetFormula.Proofs.Tree.Shape

/-!
# The grammar is complete

Every canonical tree can be parsed. From what it yields, with room for its leaves, the derivation
that makes just this tree and notes no fault is built by recursion on the tree.

The loops of the grammar build their trees from the left, so that what a tree is made of its left
operand is only known behind it. A tree is therefore read *into* whatever the loop makes of it: a
call or an operation says how a loop that already holds it goes on, and its left part is asked to
lead there. What follows a tree matters as well: an argument list would be taken for its own, and so
would an operator that binds more tightly than the one at its top.

Main results:
* `Expr.ReadsAsPrimary`, `Expr.ReadsAsUnary` and `Expr.ReadsAsClimb`: the three places of the
  grammar that a tree may be read in, each leading to the next one.
* `Derives.opens`: what the token in front tells of a clean derivation.
* `Expr.Canonical.parses`: every canonical tree is read from what it yields, in all places that the
  grammar has for it.
-/

namespace SheetFormula

open Production Grammar

/-! ## Streams that show parts -/

/-- Whether the first lexemes ahead are those of parts, and a stream is what follows them. -/
def Passes : TokenStream → List Part → TokenStream → Prop
  | s, [], t => s = t
  | s, p :: parts, t => s.lookahead.lexeme = p.lexeme ∧ Passes s.advance parts t

/-- Parts are passed one behind the other. -/
theorem passes_append {s t : TokenStream} {first later : List Part} :
    Passes s (first ++ later) t ↔ ∃ m, Passes s first m ∧ Passes m later t := by
  induction first generalizing s with
  | nil => simp [Passes]
  | cons p first ih =>
    rw [List.cons_append, Passes, ih]
    simp [Passes, and_assoc]

/-- One part is passed as one lexeme is. -/
theorem passes_singleton {s t : TokenStream} {p : Part} :
    Passes s [p] t ↔ s.lookahead.lexeme = p.lexeme ∧ s.advance = t := by
  simp [Passes]

/-- A stream whose lexemes are those of parts passes them and comes to its end. -/
theorem exists_passes {s : TokenStream} {parts : List Part}
    (row : s.tokens.map Scanned.lexeme = parts.map Part.lexeme) :
    ∃ t, Passes s parts t ∧ t.tokens = [] := by
  induction parts generalizing s with
  | nil => exact ⟨s, rfl, List.map_eq_nil_iff.mp row⟩
  | cons p parts ih =>
    have more : s.tokens ≠ [] := by
      intro nothing
      simp [nothing] at row
    rw [(TokenStream.exists_cons_of_ne more).1, List.map_cons, List.map_cons] at row
    obtain ⟨front, later⟩ := List.cons.inj row
    obtain ⟨t, passes, last⟩ := ih later
    exact ⟨t, ⟨front, passes⟩, last⟩

/-! ## Clean derivations -/

/-- Whether a phrase has a derivation that notes no fault. -/
def Cleanly (p : Phrase) (s t : TokenStream) : Prop :=
  ∃ journal, journal.noted = [] ∧ Derives p s journal t

/-- Whether an operand starts with a token. -/
def Token.StartsOperand (t : Token) : Prop :=
  t = .ident ∨ t.isValue ∨ t = .openParen ∨ t.isPrefixOperator

/-- What a clean derivation of a phrase says of the token in front. -/
def Phrase.Opens (s : TokenStream) : Phrase → Prop
  | .operand .. | .primary .. =>
    s.lookahead.token.StartsOperand ∧ ¬ s.lookahead.token.isPrefixOperator
  | .expression .. | .climb .. | .unary .. => s.lookahead.token.StartsOperand
  | _ => True

/-- In front of a clean derivation stands a token that its phrase can start with. By induction on
the derivation, where every fault is excluded by the empty journal. -/
theorem Derives.opens {p : Phrase} {s t : TokenStream} {journal : Journal}
    (h : Derives p s journal t) (silent : journal.noted = []) : p.Opens s := by
  induction h with
  | expression all ih =>
    rw [Journal.noted_around] at silent
    exact ih silent
  | climb operand further ih ihLater =>
    rw [Journal.noted_around, Journal.noted_append, List.append_eq_nil_iff] at silent
    exact ih silent.1
  | tooDeep => cases silent
  | prefixed operator operand ih => exact .inr (.inr (.inr operator))
  | plain none operand ih =>
    rw [Journal.noted_around] at silent
    exact (ih silent).1
  | primary operand further ih ihLater =>
    rw [Journal.noted_around, Journal.noted_append, List.append_eq_nil_iff] at silent
    exact ih silent.1
  | ident name =>
    refine ⟨.inl name, ?_⟩
    rw [name]
    decide
  | @literal room s value =>
    refine ⟨.inr (.inl value), ?_⟩
    revert value
    cases s.lookahead.token <;> decide
  | paren opening content ih =>
    refine ⟨.inr (.inr (.inl opening)), ?_⟩
    rw [opening]
    decide
  | missing other => cases silent
  | _ => trivial

/-! ## Trees that are read -/

/-- Whether an operator or an argument list that belongs to a tree could stand in front of a stream
behind the tree: none does if the tree ends there. -/
structure Expr.Ends (x : Expr) (t : TokenStream) : Prop where
  noCall : t.lookahead.token ≠ .openParen
  tight : x.BindsFrom t.lookahead.token.precedence

/-- Whether all leaves of a tree that stands at some level have room there. -/
def Expr.Fits (x : Expr) (room : Nat) : Prop :=
  ∃ level, ∀ leaf ∈ x.leavesAt level, leaf.2 < level + room

/-- Whether an operand with calls behind it is read into whatever the loop makes of it. -/
def Expr.ReadsAsPrimary (x : Expr) : Prop :=
  ∀ ⦃room parts s t y u⦄, x.Yields parts → Passes s parts t → x.Fits (room + 1) →
    Cleanly (.calls room x y) t u →
    ∃ f m, Cleanly (.operand room f) s m ∧ Cleanly (.calls room f y) m u

/-- Whether an operand with the operators in front of it is read. -/
def Expr.ReadsAsUnary (x : Expr) : Prop :=
  ∀ ⦃room parts s t⦄, x.Yields parts → Passes s parts t → x.Fits room →
    t.lookahead.token ≠ .openParen → Cleanly (.unary room x) s t

/-- Whether operands with operators between them are read into whatever the loop makes of them. -/
def Expr.ReadsAsClimb (x : Expr) : Prop :=
  ∀ ⦃room least parts s t y u⦄, x.Yields parts → Passes s parts t → x.Fits room → x.Ends t →
    x.BindsFrom least → Cleanly (.operators room least x y) t u →
    ∃ left m, Cleanly (.unary room left) s m ∧ Cleanly (.operators room least left y) m u

namespace Expr

/-! ## Room and shape of the parts of a tree -/

section Parts

variable {room least least' : Nat} {x y f : Expr} {xs : List Expr} {p q : Pos} {op : Token}

/-- What fits has room for a leaf at least. -/
theorem Fits.room_pos (fits : x.Fits room) : 0 < room := by
  obtain ⟨level, bound⟩ := fits
  obtain ⟨leaf, mem, above⟩ := exists_mem_leavesAt x level
  have := bound leaf mem
  omega

/-- What stands a level deeper than the whole has one level less of room. -/
theorem Fits.of_deeper (deeper : ∀ level, y.leavesAt (level + 1) ⊆ x.leavesAt level)
    (fits : x.Fits (room + 1)) : y.Fits room := by
  obtain ⟨level, bound⟩ := fits
  refine ⟨level + 1, ?_⟩
  intro leaf mem
  have := bound leaf (deeper level mem)
  omega

/-- What stands at the level of the whole has the same room. -/
theorem Fits.of_subset (beside : ∀ level, y.leavesAt level ⊆ x.leavesAt level)
    (fits : x.Fits room) : y.Fits room := by
  obtain ⟨level, bound⟩ := fits
  refine ⟨level, ?_⟩
  intro leaf mem
  exact bound leaf (beside level mem)

/-- The arguments of a call have one level less of room. -/
theorem Fits.of_call (fits : (call f p xs q).Fits (room + 1)) : ∀ x ∈ xs, x.Fits room := by
  intro x mem
  apply Fits.of_deeper _ fits
  intro level leaf inside
  exact List.mem_append_right _ (mem_leavesAllAt.mpr ⟨x, mem, inside⟩)

/-- What binds tightly binds at least as tightly as is asked for. -/
theorem BindsFrom.mono (less : least ≤ least') (binds : x.BindsFrom least') :
    x.BindsFrom least := by
  cases x with
  | binary left p op right => exact Nat.le_trans less binds
  | _ => trivial

/-- The operator at the top of a canonical tree is one. -/
theorem Canonical.bindsFrom (canonical : x.Canonical) :
    x.BindsFrom (Token.lowestPrecedence + 1) := by
  cases x with
  | binary left p op right => exact canonical.1
  | _ => trivial

end Parts

/-! ## From parts to wholes -/

section Wholes

variable {x y f : Expr} {xs : List Expr} {p q : Pos} {op : Token}

/-- What is read as an operand with calls is read with no operator in front of it. -/
theorem ReadsAsPrimary.asUnary (primary : x.ReadsAsPrimary) : x.ReadsAsUnary := by
  intro room parts s t yields passes fits noCall
  obtain ⟨room, rfl⟩ := Nat.exists_eq_succ_of_ne_zero (Nat.ne_of_gt fits.room_pos)
  obtain ⟨f, m, ⟨first, silent, operand⟩, later, silent', further⟩ :=
    primary yields passes fits ⟨[], rfl, .noCall noCall⟩
  refine ⟨_, ?_, .plain (operand.opens silent).2 (.primary operand further)⟩
  simp [silent, silent']

/-- What is read with the operators in front of it is read where operands stand. -/
theorem ReadsAsUnary.asClimb (unary : x.ReadsAsUnary) : x.ReadsAsClimb := by
  intro room least parts s t y u yields passes fits ends _ further
  exact ⟨x, t, unary yields passes fits ends.noCall, further⟩

/-- What is read where operands stand is read whole, if nothing that follows could belong to it. -/
theorem ReadsAsClimb.climb {room least : Nat} {parts : List Part} {s t : TokenStream}
    (reads : x.ReadsAsClimb) (yields : x.Yields parts) (passes : Passes s parts t)
    (fits : x.Fits room) (ends : x.Ends t) (binds : x.BindsFrom least)
    (loose : ¬ least ≤ t.lookahead.token.precedence) : Cleanly (.climb room least x) s t := by
  obtain ⟨left, m, ⟨first, silent, operand⟩, later, silent', further⟩ :=
    reads yields passes fits ends binds ⟨[], rfl, .noOperator loose⟩
  refine ⟨_, ?_, .climb operand further⟩
  simp [silent, silent']

/-- What is read where operands stand is read as a whole expression, if no operator and no call
follows. -/
theorem ReadsAsClimb.expression {room : Nat} {parts : List Part} {s t : TokenStream}
    (reads : x.ReadsAsClimb) (canonical : x.Canonical) (yields : x.Yields parts)
    (passes : Passes s parts t) (fits : x.Fits room)
    (noOperator : t.lookahead.token.precedence = Token.lowestPrecedence)
    (noCall : t.lookahead.token ≠ .openParen) : Cleanly (.expression room x) s t := by
  have ends : x.Ends t := by
    refine ⟨noCall, ?_⟩
    rw [noOperator]
    exact canonical.bindsFrom.mono (Nat.le_succ _)
  have loose : ¬ Token.lowestPrecedence + 1 ≤ t.lookahead.token.precedence := by
    rw [noOperator]
    exact Nat.not_succ_le_self _
  obtain ⟨journal, silent, all⟩ := reads.climb yields passes fits ends canonical.bindsFrom loose
  refine ⟨_, ?_, .expression all⟩
  rw [Journal.noted_around, silent]

/-- A name is read as an operand. -/
theorem readsAsPrimary_ident (n : Ident) : (ident n).ReadsAsPrimary := by
  intro room parts s t y u yields passes _ further
  rw [Yields, Reads] at yields
  rw [yields, passes_singleton] at passes
  obtain ⟨front, rfl⟩ := passes
  have name : s.lookahead.token = .ident := by rw [Scanned.token, front]
  have same : (⟨s.lookahead.pos, s.lookahead.lexeme.literal⟩ : Ident) = n := by
    rw [Scanned.pos, front]
  refine ⟨_, _, ⟨_, ?_, .ident name⟩, ?_⟩
  · simp
  · rwa [same]

/-- A value is read as an operand. -/
theorem readsAsPrimary_literal (l : Literal) (value : l.kind.isValue) :
    (literal l).ReadsAsPrimary := by
  intro room parts s t y u yields passes _ further
  rw [Yields, Reads] at yields
  rw [yields, passes_singleton] at passes
  obtain ⟨front, rfl⟩ := passes
  have kind : s.lookahead.token = l.kind := by rw [Scanned.token, front]
  have same :
      (⟨s.lookahead.pos, s.lookahead.token, s.lookahead.lexeme.literal⟩ : Literal) = l := by
    rw [Scanned.pos, Scanned.token, front]
  refine ⟨_, _, ⟨_, ?_, .literal (kind ▸ value)⟩, ?_⟩
  · simp
  · rwa [same]

/-- The journal of a mark that is where it should be notes nothing. -/
theorem noted_of_demands {t : Token} {s : TokenStream} {journal : Journal}
    (demands : Demands t s journal) (found : s.lookahead.token = t) : journal.noted = [] := by
  cases demands with
  | met found => rfl
  | missed fault other => exact absurd found other

/-- Parentheses are read as an operand if what stands between them is read whole. -/
theorem readsAsPrimary_paren (reads : x.ReadsAsClimb) (canonical : x.Canonical) :
    (paren p x q).ReadsAsPrimary := by
  intro room parts s t y u yields passes fits further
  obtain ⟨inner, last, content, closing, rfl⟩ := yields
  obtain rfl := Part.fits_false.mp closing
  obtain ⟨front, behind⟩ := passes
  obtain ⟨m, inside, final⟩ := passes_append.mp behind
  obtain ⟨ending, rfl⟩ := passes_singleton.mp final
  have opening : s.lookahead.token = .openParen := by rw [Scanned.token, front]
  have closes : m.lookahead.token = .closeParen := by rw [Scanned.token, ending]
  obtain ⟨journal, silent, derived⟩ := reads.expression canonical content inside
    (fits.of_deeper fun _ => List.Subset.refl _) (by rw [closes]; rfl)
    (by rw [closes]; rintro ⟨⟩)
  have quiet := noted_of_demands (demands_expect .closeParen m) closes
  refine ⟨_, _, ⟨_, ?_, .paren opening derived⟩, ?_⟩
  · simp [silent, quiet]
  · rwa [Scanned.pos, Scanned.pos, front, ending]

/-- What is read whole is read as an entry of a list, where a comma or the mark that closes the list
follows it, and does not begin with a mark that closes the list. -/
theorem ReadsAsClimb.listed {room : Nat} {parts : List Part} {s t : TokenStream}
    (reads : x.ReadsAsClimb) (canonical : x.Canonical) (yields : x.Yields parts)
    (passes : Passes s parts t) (fits : x.Fits room)
    (follows : t.lookahead.token = .closeParen ∨ t.lookahead.token = .comma) :
    Cleanly (.expression room x) s t ∧
      ¬ (s.lookahead.token = .closeParen ∨ s.lookahead.token = .endOfFormula) := by
  obtain ⟨journal, silent, derived⟩ := reads.expression canonical yields passes fits
    (by rcases follows with is | is <;> rw [is] <;> rfl)
    (by rcases follows with is | is <;> rw [is] <;> rintro ⟨⟩)
  refine ⟨⟨journal, silent, derived⟩, ?_⟩
  have starts := derived.opens silent
  rintro (is | is)
  all_goals
    rw [Phrase.Opens, is] at starts
    exact absurd starts (by simp [Token.StartsOperand, Token.isValue, Token.isPrefixOperator])

/-- The arguments of a call are read one behind the other, with the commas between them. -/
theorem readable_arguments_of_yields (reads : ∀ x ∈ xs, x.ReadsAsClimb ∧ x.Canonical) {room : Nat}
    {parts : List Part} {s t : TokenStream} (yields : ReadsAll (fun _ => False) xs parts)
    (passes : Passes s parts t) (fits : ∀ x ∈ xs, x.Fits room)
    (closes : t.lookahead.token = .closeParen) : Cleanly (.arguments room xs) s t := by
  induction xs generalizing s parts with
  | nil =>
    unfold ReadsAll at yields
    rw [yields] at passes
    obtain rfl : s = t := passes
    exact ⟨[], rfl, .noArgument (.inl closes)⟩
  | cons x xs ih =>
    obtain ⟨⟨climbs, canonical⟩, others⟩ := List.forall_mem_cons.mp reads
    obtain ⟨room_x, room_xs⟩ := List.forall_mem_cons.mp fits
    unfold ReadsAll at yields
    obtain ⟨front, back, content, rfl, ⟨rfl, rfl⟩ | ⟨separator, later, separates, rest, rfl⟩⟩ :=
      yields
    · rw [List.append_nil] at passes
      obtain ⟨⟨journal, silent, derived⟩, more⟩ :=
        climbs.listed canonical content passes room_x (.inl closes)
      exact ⟨journal, silent, .lastArgument more derived (.inl closes)⟩
    · obtain ⟨m, passed, front_eq, behind⟩ := passes_append.mp passes
      have comma : m.lookahead.token = .comma := by
        rw [Scanned.token, front_eq]
        exact separates.2.resolve_right id
      obtain ⟨⟨journal, silent, derived⟩, more⟩ :=
        climbs.listed canonical content passed room_x (.inr comma)
      obtain ⟨journal', silent', list⟩ := ih others rest behind room_xs
      refine ⟨_, ?_, .argument more derived comma list⟩
      simp [silent, silent']

/-- The types of a list are read as its entries, and the first of them does not close the list. -/
theorem readable_entries_of_yields (reads : ∀ y ∈ x :: xs, y.ReadsAsClimb ∧ y.Canonical)
    {parts : List Part} {s t : TokenStream} (yields : ReadsAll (fun _ => False) (x :: xs) parts)
    (passes : Passes s parts t) (fits : ∀ y ∈ x :: xs, y.Fits nestingLimit)
    (closes : t.lookahead.token = .closeParen) :
    Cleanly (.entries ((x :: xs).map fun type => ⟨[], type, none⟩)) s t ∧
      s.lookahead.token ≠ .closeParen := by
  induction xs generalizing x s parts with
  | nil =>
    obtain ⟨⟨climbs, canonical⟩, -⟩ := List.forall_mem_cons.mp reads
    have room := (List.forall_mem_cons.mp fits).1
    unfold ReadsAll at yields
    obtain ⟨front, back, content, rfl, ⟨-, rfl⟩ | ⟨separator, later, separates, rest, rfl⟩⟩ :=
      yields
    · rw [List.append_nil] at passes
      obtain ⟨⟨journal, silent, derived⟩, more⟩ :=
        climbs.listed canonical content passes room (.inl closes)
      refine ⟨⟨journal, silent, .lastEntry derived ?_⟩, (not_or.mp more).1⟩
      rw [closes]
      rintro ⟨⟩
    · unfold ReadsAll at rest
      obtain ⟨m, passed, front_eq, behind⟩ := passes_append.mp passes
      rw [rest] at behind
      obtain rfl : m.advance = t := behind
      have comma : m.lookahead.token = .comma := by
        rw [Scanned.token, front_eq]
        exact separates.2.resolve_right id
      obtain ⟨⟨journal, silent, derived⟩, more⟩ :=
        climbs.listed canonical content passed room (.inr comma)
      refine ⟨⟨_, ?_, .trailedEntry derived comma closes⟩, (not_or.mp more).1⟩
      simp [silent]
  | cons y ys ih =>
    obtain ⟨⟨climbs, canonical⟩, others⟩ := List.forall_mem_cons.mp reads
    obtain ⟨room_x, room_ys⟩ := List.forall_mem_cons.mp fits
    unfold ReadsAll at yields
    obtain ⟨front, back, content, rfl, ⟨none, -⟩ | ⟨separator, later, separates, rest, rfl⟩⟩ :=
      yields
    · cases none
    · obtain ⟨m, passed, front_eq, behind⟩ := passes_append.mp passes
      have comma : m.lookahead.token = .comma := by
        rw [Scanned.token, front_eq]
        exact separates.2.resolve_right id
      obtain ⟨⟨journal, silent, derived⟩, more⟩ :=
        climbs.listed canonical content passed room_x (.inr comma)
      obtain ⟨⟨journal', silent', list⟩, next⟩ := ih others rest behind room_ys
      refine ⟨⟨_, ?_, .entry derived comma next list⟩, (not_or.mp more).1⟩
      simp [silent, silent']

/-- A call is read as an operand: its function is read into the loop over calls, which goes on with
the arguments. -/
theorem readsAsPrimary_call (function : f.ReadsAsPrimary)
    (reads : ∀ x ∈ xs, x.ReadsAsClimb ∧ x.Canonical) : (call f p xs q).ReadsAsPrimary := by
  intro room parts s t y u yields passes fits further
  obtain ⟨front, inner, last, content, list, closing, rfl⟩ := yields
  obtain rfl := Part.fits_false.mp closing
  obtain ⟨m, passed, ahead⟩ := passes_append.mp passes
  obtain ⟨front_eq, behind⟩ := ahead
  obtain ⟨n, inside, final⟩ := passes_append.mp behind
  obtain ⟨ending, rfl⟩ := passes_singleton.mp final
  have opening : m.lookahead.token = .openParen := by rw [Scanned.token, front_eq]
  have closes : n.lookahead.token = .closeParen := by rw [Scanned.token, ending]
  obtain ⟨journal, silent, derived⟩ :=
    readable_arguments_of_yields reads list inside fits.of_call closes
  have quiet := noted_of_demands (demands_expectClosing .closeParen n) closes
  obtain ⟨later, silent', loop⟩ := further
  have calls : Derives (.calls room (.call f m.lookahead.pos xs n.lookahead.pos) y) n.advance later
      u := by
    rwa [Scanned.pos, Scanned.pos, front_eq, ending]
  refine function content passed (fits.of_subset fun _ => List.subset_append_left _ _)
    ⟨_, ?_, .call opening derived calls⟩
  simp [silent, silent', quiet]

/-- A prefix operator is read in front of what is read as an operand. -/
theorem readsAsUnary_unary (operator : op.isPrefixOperator) (operand : x.ReadsAsUnary) :
    (unary p op x).ReadsAsUnary := by
  intro room parts s t yields passes fits noCall
  obtain ⟨room, rfl⟩ := Nat.exists_eq_succ_of_ne_zero (Nat.ne_of_gt fits.room_pos)
  obtain ⟨inner, content, rfl⟩ := yields
  obtain ⟨front, behind⟩ := passes
  have is : s.lookahead.token = op := by rw [Scanned.token, front]
  have here : s.lookahead.pos = p := by rw [Scanned.pos, front]
  obtain ⟨journal, silent, derived⟩ :=
    operand content behind (fits.of_deeper fun _ => List.Subset.refl _) noCall
  rw [← is, ← here]
  refine ⟨_, ?_, .prefixed (is ▸ operator) derived⟩
  simp [silent]

/-- An operation is read where operands stand: its left operand is read into the loop over
operators, which goes on with the operator and the right operand. -/
theorem readsAsClimb_binary (left : x.ReadsAsClimb) (right : y.ReadsAsClimb)
    (canonical : (binary x p op y).Canonical) : (binary x p op y).ReadsAsClimb := by
  intro room least parts s t z u yields passes fits ends binds further
  obtain ⟨operator, tightLeft, tightRight, -, -⟩ := canonical
  obtain ⟨front, back, content, content', rfl⟩ := yields
  obtain ⟨m, passed, ahead⟩ := passes_append.mp passes
  obtain ⟨front_eq, behind⟩ := ahead
  have is : m.lookahead.token = op := by rw [Scanned.token, front_eq]
  have here : m.lookahead.pos = p := by rw [Scanned.pos, front_eq]
  have loose : t.lookahead.token.precedence ≤ op.precedence := ends.tight
  have endsRight : y.Ends t := ⟨ends.noCall, tightRight.mono (Nat.le_succ_of_le loose)⟩
  obtain ⟨journal, silent, operand⟩ := right.climb content' behind
    (fits.of_subset fun _ => List.subset_append_right _ _) endsRight tightRight
    (Nat.not_le_of_lt (Nat.lt_succ_of_le loose))
  have endsLeft : x.Ends m := by
    refine ⟨?_, is ▸ tightLeft⟩
    rw [is]
    rintro rfl
    exact absurd operator (by decide)
  obtain ⟨later, silent', loop⟩ := further
  rw [← is, ← here] at loop
  rw [← is] at operand
  refine left content passed (fits.of_subset fun _ => List.subset_append_left _ _) endsLeft
    (tightLeft.mono binds) ⟨_, ?_, .operator (is ▸ binds) operand loop⟩
  simp [silent, silent']

end Wholes

/-! ## Every canonical tree -/

/-- In which places of the grammar a tree is read. -/
structure Parses (x : Expr) : Prop where
  primary : ¬ x.isOperation → x.ReadsAsPrimary
  unary : ¬ x.isBinary → x.ReadsAsUnary
  climb : x.ReadsAsClimb

/-- What is read as an operand with calls is read everywhere. -/
theorem ReadsAsPrimary.parses {x : Expr} (primary : x.ReadsAsPrimary) : x.Parses :=
  ⟨fun _ => primary, fun _ => primary.asUnary, primary.asUnary.asClimb⟩

mutual

/-- **Every canonical tree is read from what it yields**, wherever the grammar has a place for it.
-/
theorem Canonical.parses : (x : Expr) → x.Canonical → x.Parses
  | bad .., canonical => canonical.elim
  | ident n, _ => (readsAsPrimary_ident n).parses
  | literal l, canonical => (readsAsPrimary_literal l canonical).parses
  | paren p x q, canonical => by
    have content : x.Canonical := canonical
    exact (readsAsPrimary_paren (Canonical.parses x content).climb content).parses
  | call f p xs q, canonical => by
    obtain ⟨single, -, function, list⟩ := canonical
    have reads := (Canonical.parses f function).primary single
    exact (readsAsPrimary_call reads (Canonical.parses_all xs list)).parses
  | unary p op x, canonical => by
    obtain ⟨operator, single, operand⟩ := canonical
    have reads := readsAsUnary_unary (p := p) operator ((Canonical.parses x operand).unary single)
    exact ⟨fun none => absurd rfl none, fun _ => reads, reads.asClimb⟩
  | binary x p op y, canonical => by
    have left := (Canonical.parses x canonical.2.2.2.1).climb
    have right := (Canonical.parses y canonical.2.2.2.2).climb
    exact ⟨fun none => absurd rfl none, fun none => absurd rfl none,
      readsAsClimb_binary left right canonical⟩

/-- So is each canonical tree of a list. -/
theorem Canonical.parses_all : (xs : List Expr) → ShapedAll (fun _ _ => False) xs →
    ∀ x ∈ xs, x.ReadsAsClimb ∧ x.Canonical
  | [], _ => fun _ mem => absurd mem List.not_mem_nil
  | x :: xs, shaped => by
    have first := Canonical.parses x shaped.1
    exact List.forall_mem_cons.mpr ⟨⟨first.climb, shaped.1⟩, Canonical.parses_all xs shaped.2⟩

end

end Expr

end SheetFormula

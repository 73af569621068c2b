import Mathlib.Tactic.Common
import SheetFormula.Proofs.Tree.Parts

/-!
# The shape of a tree

Which trees the grammar makes. In a shaped tree the operators at the top of the operands of a binary
operator bind tightly enough, as if parentheses were never implied, and prefix operators and calls
have operands of the right sort. What may stand where an operand is missing is left open; a tree
where nothing is missing is *canonical*.

* `Token.prefixOperators`, `Token.valueKinds` and `Token.binaryPrecedences` list the operators and
  values that a shaped tree may have, and how tightly the operators bind.
* `Expr.Shaped` and `Expr.Canonical` say which shape trees have.
* `Expr.leavesAt` lists the leaves of a tree with their levels: how many parentheses, argument lists
  and operands of prefix operators stand around them.
-/

namespace SheetFormula

/-- Whether a token is neither a comma nor an end. -/
def Token.IsSolid (t : Token) : Prop := t ≠ .comma ∧ t ≠ .endOfFormula

instance (t : Token) : Decidable t.IsSolid :=
  inferInstanceAs (Decidable (t ≠ .comma ∧ t ≠ .endOfFormula))

/-- A value is neither a comma nor an end. -/
theorem Token.isSolid_of_isValue {t : Token} (value : t.isValue) : t.IsSolid := by
  revert value
  cases t <;> decide

/-- Nor is a prefix operator. -/
theorem Token.isSolid_of_isPrefixOperator {t : Token} (operator : t.isPrefixOperator) :
    t.IsSolid := by
  revert operator
  cases t <;> decide

/-- Nor is an operator that binds. -/
theorem Token.isSolid_of_precedence {t : Token} (operator : 1 ≤ t.precedence) : t.IsSolid := by
  revert operator
  cases t <;> decide

/-! ## Operators and values in full -/

namespace Token

/-- The operators that may stand in front of an operand. -/
def prefixOperators : List Token := [.plus, .minus, .notEqual, .times]

/-- The kinds of lexemes that are values. -/
def valueKinds : List Token := [.integer, .float, .imaginary, .string, .reference, .range]

/-- The operators that may stand between operands, and how tightly they bind. -/
def binaryPrecedences : List (Token × Nat) :=
  [(.or, 1), (.and, 2), (.equal, 3), (.less, 3), (.lessEqual, 3), (.greater, 3),
    (.greaterEqual, 3), (.notEqual, 3), (.plus, 4), (.minus, 4), (.times, 5), (.divide, 5)]

/-- The list of prefix operators is complete. -/
theorem mem_prefixOperators {t : Token} : t ∈ prefixOperators ↔ t.isPrefixOperator := by
  cases t <;> decide

/-- The list of kinds of values is complete. -/
theorem mem_valueKinds {t : Token} : t ∈ valueKinds ↔ t.isValue := by
  cases t <;> decide

/-- All others bind nothing. -/
theorem mem_binaryPrecedences {t : Token} :
    (t, t.precedence) ∈ binaryPrecedences ↔ 1 ≤ t.precedence := by
  cases t <;> decide

end Token

namespace Expr

/-! ## Shaped trees -/

/-- Whether the operator at the top is binary. -/
def isBinary : Expr → Bool
  | binary .. => true
  | _ => false

/-- Whether an operator is at the top. -/
def isOperation : Expr → Bool
  | unary .. | binary .. => true
  | _ => false

/-- Whether no binary operator at the top binds more loosely than `least`. -/
def BindsFrom (least : Nat) : Expr → Prop
  | binary _ _ op _ => least ≤ op.precedence
  | _ => True

mutual

/-- Whether an expression has the shape that the grammar gives it, where `missing` tells from where
to where an operand may be missing. -/
def Shaped (missing : Pos → Pos → Prop) : Expr → Prop
  | bad p q => missing p q
  | ident _ => True
  | literal l => l.kind.isValue
  | paren _ x _ => Shaped missing x
  | call f _ xs _ => ¬ f.isOperation ∧ ¬ f.isBad ∧ Shaped missing f ∧ ShapedAll missing xs
  | unary _ op x => op.isPrefixOperator ∧ ¬ x.isBinary ∧ Shaped missing x
  | binary x _ op y =>
    1 ≤ op.precedence ∧ x.BindsFrom op.precedence ∧ y.BindsFrom (op.precedence + 1) ∧
      Shaped missing x ∧ Shaped missing y

/-- Whether all expressions of a list are shaped. -/
def ShapedAll (missing : Pos → Pos → Prop) : List Expr → Prop
  | [] => True
  | x :: xs => Shaped missing x ∧ ShapedAll missing xs

end

/-- Whether an expression is shaped and nothing is missing in it. -/
def Canonical (x : Expr) : Prop := x.Shaped fun _ _ => False

variable {missing : Pos → Pos → Prop}

/-- All expressions of a list are shaped exactly if each of them is. -/
theorem shapedAll_iff {xs : List Expr} :
    ShapedAll missing xs ↔ ∀ x ∈ xs, x.Shaped missing := by
  induction xs with
  | nil => simp [ShapedAll]
  | cons x xs ih => rw [ShapedAll, ih, List.forall_mem_cons]

/-- What is no binary operation binds as tightly as can be. -/
theorem bindsFrom_of_not_isBinary {x : Expr} (single : ¬ x.isBinary) (least : Nat) :
    x.BindsFrom least := by
  cases x with
  | binary left p op right => exact absurd rfl single
  | _ => trivial

/-- Without an operator at the top there is no binary one. -/
theorem not_isBinary_of_not_isOperation {x : Expr} (single : ¬ x.isOperation) : ¬ x.isBinary := by
  cases x with
  | binary left p op right => exact absurd rfl single
  | _ => exact Bool.false_ne_true

end Expr

/-! ## Marks of shaped trees -/

/-- Whether a mark of this role may stand for a token. -/
def Role.Allows : Role → Token → Prop
  | .name, t => t = .ident
  | .value, t => t.isValue
  | .operator, t => t.isPrefixOperator ∨ 1 ≤ t.precedence
  | .lparen, t | .opening, t => t = .openParen
  | .rparen, t | .closing, t => t = .closeParen
  | .separator, _ => False

/-- No mark stands for a comma or an end. -/
theorem Role.Allows.isSolid {role : Role} {t : Token} (allows : role.Allows t) : t.IsSolid := by
  match role with
  | .name | .lparen | .opening | .rparen | .closing =>
    obtain rfl : t = _ := allows
    decide
  | .value => exact Token.isSolid_of_isValue allows
  | .operator =>
    rcases allows with before | between
    · exact Token.isSolid_of_isPrefixOperator before
    · exact Token.isSolid_of_precedence between
  | .separator => exact allows.elim

/-- Whether the token of a mark is one that its role allows. -/
def Part.Proper (m : Part) : Prop := m.role.Allows m.lexeme.token

namespace Expr

mutual

/-- All marks of a shaped tree are proper. -/
theorem Shaped.proper : (x : Expr) → x.Shaped missing → ∀ m ∈ x.marks, m.Proper
  | bad .., _, m, mem => by
    unfold marks at mem
    exact absurd mem List.not_mem_nil
  | ident n, _, m, mem => by
    obtain rfl := List.mem_singleton.mp mem
    rfl
  | literal l, shaped, m, mem => by
    obtain rfl := List.mem_singleton.mp mem
    exact shaped
  | paren p x q, shaped, m, mem => by
    rw [marks, List.mem_cons, List.mem_append, List.mem_singleton] at mem
    rcases mem with rfl | inside | rfl
    · rfl
    · exact Shaped.proper x shaped m inside
    · rfl
  | call f p xs q, shaped, m, mem => by
    obtain ⟨-, -, function, list⟩ := shaped
    rw [marks, List.mem_append, List.mem_cons, List.mem_append, List.mem_singleton] at mem
    rcases mem with before | rfl | inside | rfl
    · exact Shaped.proper f function m before
    · rfl
    · exact ShapedAll.proper xs list m inside
    · rfl
  | unary p op x, shaped, m, mem => by
    obtain ⟨operator, -, operand⟩ := shaped
    rw [marks, List.mem_cons] at mem
    rcases mem with rfl | inside
    · exact .inl operator
    · exact Shaped.proper x operand m inside
  | binary x p op y, shaped, m, mem => by
    obtain ⟨operator, -, -, left, right⟩ := shaped
    rw [marks, List.mem_append, List.mem_cons] at mem
    rcases mem with before | rfl | behind
    · exact Shaped.proper x left m before
    · exact .inr operator
    · exact Shaped.proper y right m behind

/-- So are all marks of shaped trees in a list. -/
theorem ShapedAll.proper :
    (xs : List Expr) → ShapedAll missing xs → ∀ m ∈ marksAll xs, m.Proper
  | [], _, m, mem => by
    unfold marksAll at mem
    exact absurd mem List.not_mem_nil
  | x :: xs, shaped, m, mem => by
    rw [marksAll, List.mem_append] at mem
    rcases mem with first | later
    · exact Shaped.proper x shaped.1 m first
    · exact ShapedAll.proper xs shaped.2 m later

end

/-- No mark of a shaped tree is a comma or an end. -/
theorem Shaped.isSolid (x : Expr) (shaped : x.Shaped missing) :
    ∀ m ∈ x.marks, m.lexeme.token.IsSolid :=
  fun m mem => Role.Allows.isSolid (Shaped.proper x shaped m mem)

end Expr

/-- All marks of a list without names and tags, whose types are shaped, are proper. -/
theorem FieldList.proper {missing : Pos → Pos → Prop} {list : FieldList}
    (plain : ∀ f ∈ list.fields, f.names = [] ∧ f.tag = none)
    (shaped : ∀ f ∈ list.fields, f.type.Shaped missing) : ∀ m ∈ list.marks, m.Proper := by
  intro m mem
  rw [marks, List.mem_cons, List.mem_append, List.mem_singleton] at mem
  rcases mem with rfl | inside | rfl
  · rfl
  · obtain ⟨f, entry, mark⟩ := List.mem_flatMap.mp inside
    obtain ⟨names, tag⟩ := plain f entry
    have ofType : m ∈ f.type.marks := by
      simpa [Field.marks, names, tag] using mark
    exact Expr.Shaped.proper f.type (shaped f entry) m ofType
  · rfl

/-- No mark of a list without names and tags, whose types are shaped, is a comma or an end. -/
theorem FieldList.isSolid {missing : Pos → Pos → Prop} {list : FieldList}
    (plain : ∀ f ∈ list.fields, f.names = [] ∧ f.tag = none)
    (shaped : ∀ f ∈ list.fields, f.type.Shaped missing) :
    ∀ m ∈ list.marks, m.lexeme.token.IsSolid :=
  fun m mem => Role.Allows.isSolid (FieldList.proper plain shaped m mem)

/-- What is read from solid marks without an excuse, less the commas, is these marks, and has no end
in it. -/
theorem Shows.of_isSolid {own parts : List Part} (h : Shows (fun _ => False) own parts)
    (solid : ∀ m ∈ own, m.lexeme.token.IsSolid) :
    (parts.map Part.lexeme).filter (·.token ≠ .comma) = own.map Part.lexeme ∧
      ∀ p ∈ parts, p.lexeme.token ≠ .endOfFormula := by
  constructor
  · rw [List.filter_map, ← h.filter_eq]
    congr 1
    apply List.filter_congr
    intro p mem
    rcases h.mem_or_comma mem with ⟨mark, among⟩ | ⟨other, comma⟩
    · simpa [mark] using (solid p among).1
    · simpa [other] using comma
  · intro p mem
    rcases h.mem_or_comma mem with ⟨-, among⟩ | ⟨-, comma⟩
    · exact (solid p among).2
    · rw [comma]
      rintro ⟨⟩

namespace Expr

/-! ## Leaves -/

mutual

/-- The names, the values and the missing operands of an expression that stands at a level, each
with its own level. -/
def leavesAt (level : Nat) : Expr → List (Expr × Nat)
  | bad p q => [(bad p q, level)]
  | ident n => [(ident n, level)]
  | literal l => [(literal l, level)]
  | paren _ x _ => leavesAt (level + 1) x
  | call f _ xs _ => leavesAt level f ++ leavesAllAt (level + 1) xs
  | unary _ _ x => leavesAt (level + 1) x
  | binary x _ _ y => leavesAt level x ++ leavesAt level y

/-- The leaves of several expressions that stand at a level. -/
def leavesAllAt (level : Nat) : List Expr → List (Expr × Nat)
  | [] => []
  | x :: xs => leavesAt level x ++ leavesAllAt level xs

end

/-- The leaves of a whole tree with their levels. -/
def leaves (x : Expr) : List (Expr × Nat) := x.leavesAt 0

mutual

/-- In an expression that stands deeper all leaves do. -/
theorem leavesAt_add (more : Nat) : (x : Expr) → ∀ level,
    x.leavesAt (level + more) = (x.leavesAt level).map fun leaf => (leaf.1, leaf.2 + more)
  | bad .., _ | ident _, _ | literal _, _ => rfl
  | paren _ x _, level => by
    rw [leavesAt, Nat.add_right_comm, leavesAt_add more x, leavesAt]
  | call f _ xs _, level => by
    rw [leavesAt, Nat.add_right_comm, leavesAt_add more f, leavesAllAt_add more xs, leavesAt,
      List.map_append]
  | unary _ _ x, level => by
    rw [leavesAt, Nat.add_right_comm, leavesAt_add more x, leavesAt]
  | binary x _ _ y, level => by
    rw [leavesAt, leavesAt_add more x, leavesAt_add more y, leavesAt, List.map_append]

/-- So do they in several expressions that stand deeper. -/
theorem leavesAllAt_add (more : Nat) : (xs : List Expr) → ∀ level,
    leavesAllAt (level + more) xs =
      (leavesAllAt level xs).map fun leaf => (leaf.1, leaf.2 + more)
  | [], _ => rfl
  | x :: xs, level => by
    rw [leavesAllAt, leavesAt_add more x, leavesAllAt_add more xs, leavesAllAt, List.map_append]

end

/-- A leaf of several expressions is a leaf of one of them. -/
theorem mem_leavesAllAt {level : Nat} {xs : List Expr} {leaf : Expr × Nat} :
    leaf ∈ leavesAllAt level xs ↔ ∃ x ∈ xs, leaf ∈ x.leavesAt level := by
  induction xs with
  | nil => simp [leavesAllAt]
  | cons x xs ih => rw [leavesAllAt, List.mem_append, ih, List.exists_mem_cons_iff]

/-- The leaves of a call are those of its function, and those of its arguments one level deeper. -/
theorem mem_leaves_call {function : Expr} {opening closing : Pos} {arguments : List Expr}
    {leaf : Expr × Nat} : leaf ∈ (call function opening arguments closing).leaves ↔
      leaf ∈ function.leaves ∨
        ∃ x ∈ arguments, ∃ inner ∈ x.leaves, (inner.1, inner.2 + 1) = leaf := by
  rw [leaves, leavesAt, List.mem_append, mem_leavesAllAt]
  simp only [leavesAt_add 1 _ 0, List.mem_map]
  rfl

mutual

/-- No leaf of a canonical tree is a missing operand. -/
theorem Canonical.not_isBad_leaf :
    (x : Expr) → x.Canonical → ∀ level, ∀ leaf ∈ x.leavesAt level, ¬ leaf.1.isBad
  | bad .., canonical, _, _, _ => canonical.elim
  | ident _, _, level, leaf, mem => by
    obtain rfl := List.mem_singleton.mp mem
    exact Bool.false_ne_true
  | literal _, _, level, leaf, mem => by
    obtain rfl := List.mem_singleton.mp mem
    exact Bool.false_ne_true
  | paren _ x _, canonical, level, leaf, mem =>
    Canonical.not_isBad_leaf x canonical (level + 1) leaf mem
  | call f _ xs _, canonical, level, leaf, mem => by
    obtain ⟨-, -, function, list⟩ := canonical
    rcases List.mem_append.mp mem with front | inside
    · exact Canonical.not_isBad_leaf f function level leaf front
    · exact Canonical.not_isBad_leaf_all xs list (level + 1) leaf inside
  | unary _ _ x, canonical, level, leaf, mem =>
    Canonical.not_isBad_leaf x canonical.2.2 (level + 1) leaf mem
  | binary x _ _ y, canonical, level, leaf, mem => by
    obtain ⟨-, -, -, left, right⟩ := canonical
    rcases List.mem_append.mp mem with front | back
    · exact Canonical.not_isBad_leaf x left level leaf front
    · exact Canonical.not_isBad_leaf y right level leaf back

/-- Nor is one of several canonical trees. -/
theorem Canonical.not_isBad_leaf_all : (xs : List Expr) → ShapedAll (fun _ _ => False) xs →
    ∀ level, ∀ leaf ∈ leavesAllAt level xs, ¬ leaf.1.isBad
  | [], _, level, leaf, mem => absurd mem List.not_mem_nil
  | x :: xs, shaped, level, leaf, mem => by
    rcases List.mem_append.mp mem with first | later
    · exact Canonical.not_isBad_leaf x shaped.1 level leaf first
    · exact Canonical.not_isBad_leaf_all xs shaped.2 level leaf later

end

/-- Every expression has a leaf, and no leaf is at a lower level. -/
theorem exists_mem_leavesAt : (x : Expr) → ∀ level, ∃ leaf ∈ x.leavesAt level, level ≤ leaf.2
  | bad .., level => ⟨_, List.mem_singleton.mpr rfl, Nat.le_refl _⟩
  | ident _, level => ⟨_, List.mem_singleton.mpr rfl, Nat.le_refl _⟩
  | literal _, level => ⟨_, List.mem_singleton.mpr rfl, Nat.le_refl _⟩
  | paren _ x _, level => by
    obtain ⟨leaf, mem, above⟩ := exists_mem_leavesAt x (level + 1)
    exact ⟨leaf, mem, Nat.le_of_succ_le above⟩
  | call f _ xs _, level => by
    obtain ⟨leaf, mem, above⟩ := exists_mem_leavesAt f level
    exact ⟨leaf, List.mem_append_left _ mem, above⟩
  | unary _ _ x, level => by
    obtain ⟨leaf, mem, above⟩ := exists_mem_leavesAt x (level + 1)
    exact ⟨leaf, mem, Nat.le_of_succ_le above⟩
  | binary x _ _ y, level => by
    obtain ⟨leaf, mem, above⟩ := exists_mem_leavesAt x level
    exact ⟨leaf, List.mem_append_left _ mem, above⟩

end Expr

end SheetFormula

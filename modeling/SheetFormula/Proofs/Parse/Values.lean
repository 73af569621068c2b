import Mathlib.Tactic.Common
import SheetFormula.Proofs.Lexeme.Alone
import SheetFormula.Proofs.Parse.Marks

/-!
# The values of a tree

A tree holds its values as they were scanned: each of them is a lexeme of the source, of a kind that
can be a value (`Node.Scanned`). So what is true of literals is true of the values of trees, and as
literals stand alone so do they.

Main results:
* `parsed_trees_scanned`: the values of every parsed tree are lexemes of its source.
* `literals_stand_alone`: literals of lexemes, and values of trees, scanned alone.
-/

namespace SheetFormula

open Grammar

/-! ## Values are lexemes -/

/-- Whether the values among the marks of a tree are lexemes of a source that can be values. -/
def Node.Scanned (source : List UInt8) (root : Node) : Prop :=
  ∀ m ∈ root.marks, m.role = .value → m.lexeme.token.isValue ∧ m.lexeme ∈ (lex source).lexemes

/-- A tree is scanned if its marks are proper and the certain ones are lexemes of its source. -/
theorem Node.scanned_of_certain {source : List UInt8} {root : Node}
    (proper : ∀ m ∈ root.marks, m.Proper)
    (certain : ((root.marks.filter Part.isCertain).map Part.lexeme).Sublist
      (TokenStream.ofSource source).lexemes) : root.Scanned source := by
  intro m mark value
  have allows : m.role.Allows m.lexeme.token := proper m mark
  have sure : m.isCertain := by simp [Part.isCertain, value, Role.isDemanded]
  rw [value] at allows
  exact ⟨allows, certain.subset (List.mem_map_of_mem (List.mem_filter.mpr ⟨mark, sure⟩))⟩

/-- A value at a node of a scanned tree is a lexeme. -/
theorem Node.Scanned.literal {source : List UInt8} {root n : Node} (scanned : root.Scanned source)
    (mem : n ∈ root.nodes) {t : Literal} (holds : n = .expr (.literal t) ∨ n = .tag t) :
    t.kind.isValue ∧ ⟨t.pos, t.kind, t.value⟩ ∈ (lex source).lexemes := by
  have mark : ⟨.value, t.pos, t.kind, t.value⟩ ∈ n.marks := by
    rcases holds with rfl | rfl
    all_goals exact List.mem_singleton.mpr rfl
  exact scanned _ (Node.marks_subset_of_mem_nodes mem mark) rfl

/-- **Whatever is amiss in a source, the values of its trees are lexemes of it.** -/
theorem parsed_trees_scanned (options : ParseOptions) (source : List UInt8) :
    ∀ root ∈ [Node.expr (parseFormula options source).root,
        .fields (parseParameters options source).root], root.Scanned source := by
  have start := TokenStream.orderly_ofSource source
  refine Parse.forall_roots options ?_ ?_ ?_ ?_
  · intro p q m mark
    exact absurd mark (by simp [Node.marks, Expr.marks])
  · intro m mark value
    simp only [Node.marks, FieldList.marks, FieldList.empty, List.flatMap_nil, List.nil_append,
      List.mem_cons, List.not_mem_nil, or_false] at mark
    rcases mark with rfl | rfl <;> cases value
  · have shaped : (formula.run (.ofSource source)).value.Shaped fun _ _ => True :=
      shaped_formula fun _ _ _ _ _ _ => trivial
    exact Node.scanned_of_certain (Expr.Shaped.proper _ shaped) (certain_marks_formula start)
  · have shaped : ∀ f ∈ (parametersOnly.run (.ofSource source)).value.fields,
        f.type.Shaped fun _ _ => True :=
      shaped_parametersOnly fun _ _ _ _ _ _ => trivial
    exact Node.scanned_of_certain (FieldList.proper (plain_parametersOnly start) shaped)
      (certain_marks_parametersOnly start)

/-! ## Values alone -/

/-- **Literals stand alone.** In any source, take a lexeme that is a reference, a range, a number, a
string or illegal, or a name without a parenthesis right behind it. Its literal, scanned alone, is
one lexeme of the same kind with the same literal, and the end. So is the value of each literal in a
tree that was parsed. -/
theorem literals_stand_alone (source : List UInt8) :
    (∀ l ∈ (lex source).lexemes,
      (l.token ∈ [Token.reference, .range, .integer, .float, .imaginary, .string, .illegal] ∨
        l.token = .ident ∧ ¬ Text.encoded "(" <+:
          source.drop (l.pos.offset + (Text.encoded l.literal).length)) →
      l.token.StandsAlone l.literal) ∧
    ∀ options, ∀ root ∈ [Node.expr (parseFormula options source).root,
        .fields (parseParameters options source).root],
      ∀ n ∈ root.nodes, ∀ t : Literal, n = .expr (.literal t) ∨ n = .tag t →
        t.kind.StandsAlone t.value := by
  constructor
  · rintro l mem (kind | ⟨ident, uncalled⟩)
    · have plain : ∀ t ∈ [Token.reference, .range, .integer, .float, .imaginary, .string, .illegal],
          t.keepsText ∧ t ≠ .ident := by
        simp [Token.keepsText, Token.isValue]
      obtain ⟨keeps, other⟩ := plain _ kind
      exact standsAlone_of_mem_lexemes mem keeps fun is => absurd is other
    · exact standsAlone_of_mem_lexemes mem (by rw [ident]; rfl) fun _ => uncalled
  · intro options root parsed n mem t holds
    obtain ⟨value, lexeme⟩ := (parsed_trees_scanned options source root parsed).literal mem holds
    have plain : ∀ t : Token, t.isValue → t.keepsText ∧ t ≠ .ident := by
      intro t value
      cases t <;> first | exact ⟨rfl, by decide⟩ | cases value
    obtain ⟨keeps, other⟩ := plain _ value
    have alone := standsAlone_of_mem_lexemes lexeme keeps fun is => absurd is other
    exact alone

/-- A string that is broken off behind part of a character stands alone; the name in front of the
parenthesis would be a reference. -/
theorem literals_stand_alone_malformed_string :
    let source := Text.encoded "A1(\"" ++ [0xE2, 0x82]
    ⟨⟨4⟩, .string, "\"\uFFFD"⟩ ∈ (lex source).lexemes ∧ Token.string.StandsAlone "\"\uFFFD" ∧
      ⟨⟨1⟩, .ident, "A1"⟩ ∈ (lex source).lexemes ∧ ¬ Token.ident.StandsAlone "A1" := by
  intro source
  have string : ⟨⟨4⟩, .string, "\"\uFFFD"⟩ ∈ (lex source).lexemes := by decide +kernel
  have alone := (literals_stand_alone source).1 _ string (.inl (by decide))
  exact ⟨string, alone, by decide +kernel, by decide +kernel⟩

end SheetFormula

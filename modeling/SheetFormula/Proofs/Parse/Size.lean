import Mathlib.Data.List.Count
import Mathlib.Tactic.Common
import SheetFormula.Proofs.Parse.Marks
import SheetFormula.Proofs.Tree.Size

/-!
# Trees are bounded

A source that is too long is not parsed at all. In the tree of any other source there are no more
branching nodes than the source has characters, as each of them was made of a lexeme of its own, and
the lexeme of an operator or of a parenthesis is at least one character, even where bytes that no
character accounts for stand around it. How deep the leaves stand is bounded by the nesting limit.

Main results:
* `characterCount_of_toUTF8`: the bytes of a text count as many characters as it has.
* `countP_isOperator_le`: a source has at least as many characters as operators and punctuation
  marks.
* `Node.bounded_of_size_le`: a tree is as high as its branching nodes make it.
* `parsed_trees_bounded`: the bounds of the trees of any source, and what becomes of one that is too
  long.
-/

namespace SheetFormula

open Grammar

/-! ## Counting characters -/

/-- The characters of two parts are counted part by part. -/
theorem characterCount_append (front back : List UInt8) :
    characterCount (front ++ back) = characterCount front + characterCount back :=
  List.countP_append

/-- The bytes that do not continue a character are ASCII or announce one. -/
theorem not_continues_iff (b : UInt8) :
    (b &&& 0xC0 != 0x80) = true ↔ b.toNat < 0x80 ∨ 0xC0 ≤ b.toNat := by
  have all : ∀ n < 0x100, (UInt8.ofNat n &&& 0xC0 != 0x80) = true ↔ n < 0x80 ∨ 0xC0 ≤ n := by
    decide +kernel
  have here := all b.toNat b.toNat_lt
  rwa [UInt8.ofNat_toNat] at here

/-- A byte that announces a character is counted. -/
theorem characterCount_leadByte {mark bits : Nat} (size : bits + mark < 0x100)
    (ahead : bits + mark < 0x80 ∨ 0xC0 ≤ mark) (later : List UInt8) :
    characterCount (Text.leadByte mark bits :: later) = characterCount later + 1 := by
  have counted : (Text.leadByte mark bits &&& 0xC0 != 0x80) = true := by
    rw [not_continues_iff, Text.toNat_leadByte size]
    omega
  exact List.countP_cons_of_pos counted

/-- A byte that continues a character is not. -/
theorem characterCount_tailByte {bits : Nat} (size : bits < 0x40) (later : List UInt8) :
    characterCount (Text.tailByte bits :: later) = characterCount later := by
  have skipped : ¬ (Text.tailByte bits &&& 0xC0 != 0x80) = true := by
    rw [not_continues_iff, Text.toNat_tailByte size]
    omega
  exact List.countP_cons_of_neg skipped

/-- An encoded character counts once. -/
theorem characterCount_encode (c : Char) : characterCount (String.utf8EncodeChar c) = 1 := by
  have spelled := Text.spelled_encode c
  generalize String.utf8EncodeChar c = bytes at spelled ⊢
  cases spelled with
  | one size =>
    rw [characterCount_leadByte (by omega) (Or.inl size)]
    rfl
  | two _ size tail =>
    rw [characterCount_leadByte (by omega) (Or.inr (by decide)), characterCount_tailByte tail]
    rfl
  | three size tail₁ tail₂ =>
    rw [characterCount_leadByte (by omega) (Or.inr (by decide)), characterCount_tailByte tail₁,
      characterCount_tailByte tail₂]
    rfl
  | four size tail₁ tail₂ tail₃ =>
    rw [characterCount_leadByte (by omega) (Or.inr (by decide)), characterCount_tailByte tail₁,
      characterCount_tailByte tail₂, characterCount_tailByte tail₃]
    rfl

/-- Encoded characters count once each. -/
theorem characterCount_flatMap_encode (text : List Char) :
    characterCount (text.flatMap String.utf8EncodeChar) = text.length := by
  induction text with
  | nil => rfl
  | cons c later ih =>
    rw [List.flatMap_cons, characterCount_append, characterCount_encode, ih, List.length_cons,
      Nat.add_comm]

/-- **The bytes of a text count as many characters as it has.** -/
theorem characterCount_of_toUTF8 {source : List UInt8} {text : String}
    (same : source.toByteArray = text.toUTF8) : characterCount source = text.length := by
  have encoded : text.toList.utf8Encode = text.toUTF8 := String.utf8Encode_toList
  obtain rfl : source = text.toList.flatMap String.utf8EncodeChar :=
    List.toByteArray_inj.mp (same.trans encoded.symm)
  rw [characterCount_flatMap_encode, String.length_toList]

/-! ## Operators are characters -/

/-- The text of an operator or of a punctuation mark is its spelling. -/
theorem Token.Accords.text_eq {t : Token} {before text after : List UInt8} {literal : String}
    (accords : t.Accords before text after literal) (operator : t.isOperator) :
    text = Text.encoded t.spelling := by
  cases t
  all_goals first
    | exact absurd operator (by decide)
    | exact accords.elim
    | exact accords.1

/-- The spelling of an operator has a character. -/
theorem characterCount_spelling_pos {t : Token} (operator : t.isOperator) :
    1 ≤ characterCount (Text.encoded t.spelling) := by
  revert operator
  cases t <;> decide +kernel

/-- A row of tiles has at least as many characters as operators and punctuation marks. -/
theorem Tiled.countP_isOperator_le {before last : List UInt8} {tiles : List Tile}
    (tiled : Tiled before tiles last) :
    tiles.countP (·.lexeme.token.isOperator) ≤ characterCount (Tile.cover tiles) := by
  induction tiled with
  | last blank => exact Nat.zero_le _
  | @tile before last t tiles lies behind ih =>
    rw [Tile.cover, List.flatMap_cons, ← Tile.cover, characterCount_append, Tile.bytes,
      characterCount_append]
    by_cases operator : t.lexeme.token.isOperator
    · have spelled := characterCount_spelling_pos operator
      rw [← lies.accords.text_eq operator] at spelled
      rw [List.countP_cons, if_pos operator]
      omega
    · rw [List.countP_cons, if_neg operator]
      omega

/-- **A source has at least as many characters as operators and punctuation marks.** -/
theorem countP_isOperator_le (source : List UInt8) :
    (TokenStream.ofSource source).lexemes.countP (·.token.isOperator) ≤
      characterCount source := by
  obtain ⟨tiles, last, tiled, covers, lexemes, -⟩ := exists_tiling source
  have bound := tiled.countP_isOperator_le
  have ends : [(TokenStream.ofSource source).finish.scanned.lexeme].countP
      (·.token.isOperator) = 0 := rfl
  rw [TokenStream.lexemes, lexemes, List.countP_append, ends, List.countP_map]
  conv_rhs => rw [covers, characterCount_append]
  exact Nat.le_trans bound (Nat.le_add_right ..)

/-! ## Branching nodes are operators -/

/-- The mark of a branching node stands for an operator or for a punctuation mark. -/
theorem Role.Allows.isOperator {role : Role} {t : Token} (allows : role.Allows t)
    (branching : role.isBranching) : t.isOperator := by
  match role with
  | .lparen =>
    obtain rfl : t = _ := allows
    rfl
  | .operator =>
    have operator : t.isPrefixOperator ∨ 1 ≤ t.precedence := allows
    revert operator
    cases t <;> decide

/-- Proper marks of branching nodes are no more than the characters of the source that the certain
marks are lexemes of. -/
theorem countP_branching_le {source : List UInt8} {marks : List Part}
    (proper : ∀ m ∈ marks, m.Proper)
    (certain : ((marks.filter Part.isCertain).map Part.lexeme).Sublist
      (TokenStream.ofSource source).lexemes) :
    marks.countP (·.role.isBranching) ≤ characterCount source := by
  have sure : ∀ role : Role, role.isBranching = (role.isBranching && !role.isDemanded) := by
    rintro (_ | _) <;> rfl
  calc marks.countP (·.role.isBranching)
      = (marks.filter Part.isCertain).countP (·.role.isBranching) := by
        rw [List.countP_filter]
        exact List.countP_congr fun m _ => iff_of_eq (congrArg (· = true) (sure m.role))
    _ ≤ (marks.filter Part.isCertain).countP (·.lexeme.token.isOperator) := by
        refine List.countP_mono_left ?_
        intro m mem branching
        exact Role.Allows.isOperator (proper m (List.mem_of_mem_filter mem)) branching
    _ = ((marks.filter Part.isCertain).map Part.lexeme).countP (·.token.isOperator) := by
        rw [List.countP_map]
        rfl
    _ ≤ (TokenStream.ofSource source).lexemes.countP (·.token.isOperator) := certain.countP_le
    _ ≤ characterCount source := countP_isOperator_le source

/-! ## Whole trees -/

/-- Whether a tree has at most so many branching nodes, is not higher than that and the length limit
allow, and has no leaf deeper than the nesting limit, nor any that deep that is not a missing
operand. -/
structure Node.Bounded (size : Nat) (root : Node) : Prop where
  size_le : root.nodes.countP isBranching ≤ size
  height_le : ∀ x, .expr x ∈ root.nodes → x.height ≤ lengthLimit + 1
  levels : ∀ leaf ∈ root.leaves,
    leaf.2 ≤ nestingLimit ∧ (¬ leaf.1.isBad → leaf.2 < nestingLimit)

/-- A tree is as high as its branching nodes make it. -/
theorem Node.bounded_of_size_le {size : Nat} {root : Node} (short : size ≤ lengthLimit)
    (size_le : root.nodes.countP isBranching ≤ size)
    (levels : ∀ leaf ∈ root.leaves,
      leaf.2 ≤ nestingLimit ∧ (¬ leaf.1.isBad → leaf.2 < nestingLimit)) :
    root.Bounded size := by
  refine ⟨size_le, ?_, levels⟩
  intro x mem
  have high := x.height_le
  have below : x.nodes.countP isBranching ≤ root.nodes.countP isBranching :=
    countP_le_of_mem_nodes mem
  omega

/-- Within the room of the nesting limit, leaves stand no deeper than that. -/
theorem Expr.Within.leaves {x : Expr} (within : x.Within nestingLimit) :
    ∀ leaf ∈ x.leaves, leaf.2 ≤ nestingLimit ∧ (¬ leaf.1.isBad → leaf.2 < nestingLimit) := by
  intro leaf mem
  have bounds := within 0 leaf mem
  rwa [Nat.zero_add] at bounds

variable {source : List UInt8}

/-- The tree of a formula is bounded. -/
theorem bounded_formula (short : characterCount source ≤ lengthLimit) :
    (Node.expr (formula.run (.ofSource source)).value).Bounded (characterCount source) := by
  have start := TokenStream.orderly_ofSource source
  have shaped : (formula.run (.ofSource source)).value.Shaped fun _ _ => True :=
    shaped_formula fun _ _ _ _ _ _ => trivial
  refine Node.bounded_of_size_le short ?_ ?_
  · rw [Node.countP_isBranching]
    exact countP_branching_le (Expr.Shaped.proper _ shaped) (certain_marks_formula start)
  · rw [run_formula]
    exact Expr.Within.leaves (derives_expression _).bounded

/-- The tree of a parameter list is bounded. -/
theorem bounded_parametersOnly (short : characterCount source ≤ lengthLimit) :
    (Node.fields (parametersOnly.run (.ofSource source)).value).Bounded
      (characterCount source) := by
  have start := TokenStream.orderly_ofSource source
  have shaped : ∀ f ∈ (parametersOnly.run (.ofSource source)).value.fields,
      f.type.Shaped fun _ _ => True := shaped_parametersOnly fun _ _ _ _ _ _ => trivial
  refine Node.bounded_of_size_le short ?_ ?_
  · rw [Node.countP_isBranching]
    exact countP_branching_le (FieldList.proper (plain_parametersOnly start) shaped)
      (certain_marks_parametersOnly start)
  · rw [run_parametersOnly]
    intro leaf mem
    obtain ⟨f, entry, inside⟩ := List.mem_flatMap.mp mem
    rcases betweenParentheses_cases (TokenStream.ofSource source).advance with
      none | ⟨journal, -, derived⟩
    · simp [none] at entry
    · exact Expr.Within.leaves (derived.bounded f entry) leaf inside

/-- **Trees are bounded by the two limits, whatever the bytes.** A source of too many characters is
a single missing expression from its start to its end, or a list without entries, with one
diagnostic at its start. Any other tree has no more branching nodes than the source has characters,
and so is not higher than the length limit allows; no leaf of it stands deeper than the nesting
limit, and none that is not a missing operand as deep as that. Where the bytes are those of a text,
what is counted is its characters. -/
theorem parsed_trees_bounded (options : ParseOptions) (source : List UInt8) :
    (lengthLimit < characterCount source →
      ((parseFormula options source).root = .bad (.ofOffset 0) (.ofOffset source.length) ∧
        span (parseFormula options source).root = ⟨0, source.length⟩ ∧
        (parseFormula options source).diagnostics.items =
          [⟨0, lengthMessage (characterCount source)⟩]) ∧
      (parseParameters options source).root = .empty ∧
        (parseParameters options source).diagnostics.items =
          [⟨0, lengthMessage (characterCount source)⟩]) ∧
    (characterCount source ≤ lengthLimit →
      (Node.expr (parseFormula options source).root).Bounded (characterCount source) ∧
        (Node.fields (parseParameters options source).root).Bounded (characterCount source)) ∧
    ∀ text : String, source.toByteArray = text.toUTF8 → characterCount source = text.length := by
  refine ⟨?_, ?_, fun _ => characterCount_of_toUTF8⟩
  · intro long
    have formula_eq : (parseFormula options source).root =
        .bad (.ofOffset 0) (.ofOffset source.length) := by
      simp [parseFormula, Parse.parseWith, long]
    refine ⟨⟨formula_eq, ?_, ?_⟩, ?_, ?_⟩
    · rw [formula_eq]
      simp [span, start, stop, Expr.first, Expr.behind, Span.between, Pos.ofOffset, Pos.offset?]
    · simp [parseFormula, Parse.parseWith, long]
    · simp [parseParameters, Parse.parseWith, long]
    · simp [parseParameters, Parse.parseWith, long]
  · intro short
    rw [parseFormula, (Parse.parseWith_of_short sound_formula _ options short).1, parseParameters,
      (Parse.parseWith_of_short sound_parametersOnly _ options short).1]
    exact ⟨bounded_formula short, bounded_parametersOnly short⟩

/-- A source of one character too many is rejected, and a short one has a bounded tree, with stray
bytes in it or without. -/
theorem parsed_trees_bounded_at_limit :
    (lengthLimit < characterCount (List.replicate (lengthLimit + 1) 0x41) ∧
      (parseParameters {} (List.replicate (lengthLimit + 1) 0x41)).root = .empty) ∧
    (characterCount [0x2D, 0x80, 0x80, 0x80, 0x31] ≤ lengthLimit ∧
      (Node.expr (parseFormula {} [0x2D, 0x80, 0x80, 0x80, 0x31]).root).Bounded
        (characterCount [0x2D, 0x80, 0x80, 0x80, 0x31])) := by
  have long : lengthLimit < characterCount (List.replicate (lengthLimit + 1) 0x41) := by
    rw [characterCount, List.countP_replicate]
    exact Nat.lt_succ_self _
  have short : characterCount [0x2D, 0x80, 0x80, 0x80, 0x31] ≤ lengthLimit := by decide +kernel
  exact ⟨⟨long, ((parsed_trees_bounded {} _).1 long).2.1⟩,
    short, ((parsed_trees_bounded {} _).2.1 short).1⟩

end SheetFormula

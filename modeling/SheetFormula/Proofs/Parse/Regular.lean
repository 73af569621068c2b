import Mathlib.Tactic.Common
import SheetFormula.Proofs.Parse.Marks
import SheetFormula.Proofs.Parse.Report

/-!
# Every tree is regular

Whatever is amiss in a source, the tree that is made of it has the shape that the grammar gives to
trees: operators have operands that bind tightly enough, only what can be called is called, and
where an operand is missing, a diagnostic at that place says so.

* `Node.Regular` says this of one node, with all operators and values listed.
* `Parse.message_head`: how the diagnostics of a parse are worded. That none of them tells of a
  missing expression rests on `Derives.accepts`: the checks of the grammar never find fault.
* `parsed_trees_regular`: every node of a parsed tree is regular.
-/

namespace SheetFormula

open Grammar

/-! ## Regular nodes -/

/-- The operators that a source can have between two operands. -/
def Token.binaryOperators : List Token :=
  [.equal, .less, .lessEqual, .greater, .greaterEqual, .notEqual, .plus, .minus, .times, .divide]

/-- Whether a diagnostic tells that an operand is missing, or that there is no room for one. -/
def Diagnostic.MissesOperand (d : Diagnostic) : Prop :=
  d.StartsWith "expected operand, found " ∨ d.message = "expression nesting exceeds 64 levels"

/-- Whether what starts at `p` and stops at `q` is an operand that is missing: it takes up no room,
and one of the diagnostics tells of it. -/
def Diagnostics.MissOperand (ds : Diagnostics) (p q : Pos) : Prop :=
  p = q ∧ ∃ d ∈ ds.items, p = .ofOffset d.offset ∧ d.MissesOperand

/-- Whether a node has the shape that the grammar gives it, where the diagnostics tell of each
operand that is missing. -/
def Node.Regular (ds : Diagnostics) : Node → Prop
  | .expr (.bad p q) => ds.MissOperand p q
  | .expr (.literal l) => l.kind ∈ Token.valueKinds
  | .expr (.call function _ _ _) => ¬ function.isOperation ∧ ¬ function.isBad
  | .expr (.unary _ op operand) => op ∈ Token.prefixOperators ∧ ¬ operand.isBinary
  | .expr (.binary left _ op right) =>
    op ∈ Token.binaryOperators ∧ (op, op.precedence) ∈ Token.binaryPrecedences ∧
      left.BindsFrom op.precedence ∧ right.BindsFrom (op.precedence + 1)
  | .field f => f.names = [] ∧ f.tag = none
  | _ => True

/-! ## Shaped nodes are regular -/

namespace Node

variable {missing : Pos → Pos → Prop}

/-- Whether all expressions at a node and below it are shaped, and entries are bare types. -/
def Shaped (missing : Pos → Pos → Prop) : Node → Prop
  | expr x => x.Shaped missing
  | field f => (f.names = [] ∧ f.tag = none) ∧ f.type.Shaped missing
  | fields l => ∀ f ∈ l.fields, (f.names = [] ∧ f.tag = none) ∧ f.type.Shaped missing
  | name _ | tag _ => True

/-- The children of a shaped node are shaped. -/
theorem Shaped.of_mem_children (n : Node) (shaped : n.Shaped missing) :
    ∀ c ∈ n.children, c.Shaped missing := by
  match n with
  | expr (.bad ..) | expr (.ident _) | expr (.literal _) | name _ | tag _ => simp [children]
  | expr (.paren _ x _) => exact List.forall_mem_singleton.mpr shaped
  | expr (.unary _ _ x) => exact List.forall_mem_singleton.mpr shaped.2.2
  | expr (.binary x _ _ y) =>
    obtain ⟨-, -, -, left, right⟩ := shaped
    exact List.forall_mem_cons.mpr ⟨left, List.forall_mem_singleton.mpr right⟩
  | expr (.call f _ xs _) =>
    obtain ⟨-, -, function, arguments⟩ := shaped
    exact List.forall_mem_cons.mpr
      ⟨function, List.forall_mem_map.mpr (Expr.shapedAll_iff.mp arguments)⟩
  | field f =>
    obtain ⟨⟨names, tag⟩, type⟩ := shaped
    rw [children, names, tag]
    exact List.forall_mem_singleton.mpr type
  | fields l => exact List.forall_mem_map.mpr shaped

/-- A shaped node is regular if its operator is one that a source can have. -/
theorem Shaped.regular {ds : Diagnostics} {n : Node}
    (shaped : n.Shaped ds.MissOperand)
    (scanned : ∀ m ∈ n.marks, m.role = .operator →
      m.lexeme.token ≠ .and ∧ m.lexeme.token ≠ .or) :
    n.Regular ds := by
  match n with
  | expr (.ident _) | expr (.paren ..) | name _ | tag _ | fields _ => trivial
  | expr (.bad ..) => exact shaped
  | expr (.literal _) => exact Token.mem_valueKinds.mpr shaped
  | expr (.call ..) => exact ⟨shaped.1, shaped.2.1⟩
  | expr (.unary ..) => exact ⟨Token.mem_prefixOperators.mpr shaped.1, shaped.2.1⟩
  | expr (.binary x p op y) =>
    obtain ⟨positive, left, right, -⟩ := shaped
    refine ⟨?_, Token.mem_binaryPrecedences.mpr positive, left, right⟩
    have real := scanned ⟨.operator, p, op, ""⟩ (by simp [marks, Expr.marks]) rfl
    revert positive real
    cases op <;> simp [Token.precedence, Token.lowestPrecedence, Token.binaryOperators]
  | field f => exact shaped.1

end Node

/-! ## What the scanner and the parser never say -/

/-- No source scans to the reserved kinds of operators. -/
theorem token_ne_reserved {source : List UInt8} {l : Lexeme}
    (mem : l ∈ (TokenStream.ofSource source).lexemes) : l.token ≠ .and ∧ l.token ≠ .or := by
  rw [TokenStream.lexemes, List.mem_append, List.mem_singleton] at mem
  rcases mem with front | rfl
  · obtain ⟨scan, token, rfl⟩ := List.mem_map.mp front
    obtain ⟨t, before, after, same, lies⟩ := exists_lies_of_mem_tokens token
    have accords := lies.accords
    rw [same] at accords
    constructor
    all_goals
      intro reserved
      rw [reserved] at accords
      exact accords
  · constructor <;> rintro ⟨⟩

/-- What the messages of all faults start with. -/
def messageHeads : List String :=
  ["expected '", "expected operand", "expected end", "missing ','", "expression nesting",
    "illegal ", "invalid ", "hexadecimal ", "octal ", "binary ", "decimal ", "'", "exponent ",
    "string "]

/-- Each fault but one that an expression is refused with is worded in one of these ways. -/
theorem SyntaxFault.message_head {fault : SyntaxFault} (accepts : fault.isRefusal = false) :
    ∃ head ∈ messageHeads, ∃ tail, fault.message = head ++ tail := by
  match fault with
  | .expected (.token t) found =>
    refine ⟨"expected '", by decide, t.spelling ++ ("'" ++ found.elim "" (", found " ++ ·)), ?_⟩
    unfold message Expectation.text
    simp only [toString, String.append_assoc]
    rfl
  | .expected .operand found => exact ⟨"expected operand", by decide, _, rfl⟩
  | .expected .endOfFormula found =>
    refine ⟨"expected end", by decide, " of formula" ++ found.elim "" (", found " ++ ·), ?_⟩
    rw [← String.append_assoc]
    rfl
  | .missingComma => exact ⟨"missing ','", by decide, " in argument list", rfl⟩
  | .missingCommaBeforeNewline =>
    exact ⟨"missing ','", by decide, " before newline in argument list", rfl⟩
  | .nestingExceeded => exact ⟨"expression nesting", by decide, " exceeds 64 levels", rfl⟩

/-- Each fault of the scanner is worded in one of the ways. -/
theorem LexicalFault.message_head (fault : LexicalFault) :
    ∃ head ∈ messageHeads, ∃ tail, fault.message = head ++ tail := by
  refine ⟨fault.head, ?_, fault.message_eq⟩
  unfold head
  split <;> decide

/-- No fault is worded as an expression that was expected. -/
theorem not_startsWith_of_message_head {d : Diagnostic}
    (worded : ∃ head ∈ messageHeads, ∃ tail, d.message = head ++ tail) :
    ¬ d.StartsWith "expected expression" := by
  rintro ⟨rest, starts⟩
  obtain ⟨head, known, tail, opens⟩ := worded
  have differ : ∀ head ∈ messageHeads, ¬ (head.toList <+: "expected expression".toList ∨
      "expected expression".toList <+: head.toList) := by
    decide
  exact append_ne_append (differ head known) tail rest (opens.symm.trans starts)

/-! ## Parses of sources -/

section Parses

variable {α : Type} {production : Production α} (sound : production.Sound) (rejected : α)
  (options : ParseOptions) {source : List UInt8}

include sound

/-- Every diagnostic of a parse is worded in one of these ways, since no expression is refused. -/
theorem Parse.message_head (short : characterCount source ≤ lengthLimit) :
    ∀ d ∈ (Parse.parseWith production rejected options source).diagnostics.items,
      ∃ head ∈ messageHeads, ∃ tail, d.message = head ++ tail := by
  obtain ⟨-, found⟩ := Parse.findings_run source sound
  rw [(Parse.parseWith_of_short sound rejected options short).2, found]
  intro d mem
  obtain ⟨-, worded⟩ :=
    Parse.findings_spec source _ d ((Diagnostics.sort_items_perm _).mem_iff.mp mem)
  rcases worded with ⟨fault, same⟩ | ⟨fault, noted, same⟩
  · rw [same]
    exact fault.message_head
  · rw [Journal.flatten_notedByScan] at noted
    obtain ⟨n, own, rfl⟩ := List.mem_map.mp noted
    rw [same]
    exact SyntaxFault.message_head (sound.accepts _ n own)

/-- Where a fault that tells of a missing operand is noted, a diagnostic tells of it. -/
theorem Parse.admitsGaps (short : characterCount source ≤ lengthLimit) :
    AdmitsGaps (Parse.parseWith production rejected options source).diagnostics.MissOperand
      (production.run (.ofSource source)).journal.noted (.ofSource source) := by
  rintro ⟨offset, fault⟩ noted gap l ahead rfl
  refine ⟨rfl, _, Parse.mem_diagnostics_of_mem_noted sound rejected options short noted,
    ?_, ?_⟩
  · have inside := (pos_bounds_lexemes ahead).1
    show l.pos = ⟨l.pos.index - 1 + 1⟩
    rw [Nat.sub_add_cancel inside]
  · match fault with
    | .expected .operand (some found) => exact .inl ⟨found, rfl⟩
    | .nestingExceeded => exact .inr rfl

/-- Whether all nodes of a tree are regular, and no diagnostic tells of a missing expression. -/
def Node.AllRegular (root : Node) (ds : Diagnostics) : Prop :=
  (∀ n ∈ root.nodes, n.Regular ds) ∧ ∀ d ∈ ds.items, ¬ d.StartsWith "expected expression"

/-- A tree is regular if it is shaped wherever the diagnostics tell of missing operands, and its
certain marks are lexemes of its source. -/
theorem Parse.allRegular (short : characterCount source ≤ lengthLimit) {root : Node}
    (shaped : root.Shaped
      (Parse.parseWith production rejected options source).diagnostics.MissOperand)
    (certain : ((root.marks.filter Part.isCertain).map Part.lexeme).Sublist
      (TokenStream.ofSource source).lexemes) :
    root.AllRegular (Parse.parseWith production rejected options source).diagnostics := by
  constructor
  · intro n mem
    refine (Node.forall_nodes_of_passes Node.Shaped.of_mem_children root shaped n mem).regular ?_
    intro m mark operator
    have ofRoot := Node.marks_subset_of_mem_nodes mem mark
    have sure : m.isCertain := by simp [Part.isCertain, operator, Role.isDemanded]
    have scanned := certain.subset (List.mem_map_of_mem (List.mem_filter.mpr ⟨ofRoot, sure⟩))
    exact token_ne_reserved scanned
  · intro d mem
    exact not_startsWith_of_message_head
      (Parse.message_head sound rejected options short d mem)

end Parses

/-- **Every tree is regular.** Whatever is amiss in a source that is not too long, every node of the
tree that is made of it has the shape that the grammar gives it, where each missing operand is told
of by a diagnostic at its place. No diagnostic says that an expression was expected. -/
theorem parsed_trees_regular (options : ParseOptions) (source : List UInt8)
    (short : characterCount source ≤ lengthLimit) :
    (Node.expr (parseFormula options source).root).AllRegular
        (parseFormula options source).diagnostics ∧
      (Node.fields (parseParameters options source).root).AllRegular
        (parseParameters options source).diagnostics := by
  have start := TokenStream.orderly_ofSource source
  constructor
  · refine Parse.allRegular sound_formula _ options short ?_ ?_
    · have shaped := shaped_formula (Parse.admitsGaps sound_formula
        (.bad (.ofOffset 0) (.ofOffset source.length)) options short)
      rwa [← (Parse.parseWith_of_short sound_formula _ options short).1] at shaped
    · rw [parseFormula, (Parse.parseWith_of_short sound_formula _ options short).1]
      exact certain_marks_formula start
  · refine Parse.allRegular sound_parametersOnly _ options short ?_ ?_
    · have shaped := shaped_parametersOnly
        (Parse.admitsGaps sound_parametersOnly .empty options short)
      rw [parseParameters, (Parse.parseWith_of_short sound_parametersOnly _ options short).1]
      exact fun f entry => ⟨plain_parametersOnly start f entry, shaped f entry⟩
    · rw [parseParameters, (Parse.parseWith_of_short sound_parametersOnly _ options short).1]
      exact certain_marks_parametersOnly start

/-- The source `=+/(1-*2` lacks an operand and a parenthesis. Its tree is regular, with the missing
operand where a diagnostic tells of it. -/
theorem parsed_trees_regular_missing_operands :
    let source := "=+/(1-*2".toUTF8.toList
    characterCount source ≤ lengthLimit ∧
      (Node.expr (parseFormula {} source).root).AllRegular (parseFormula {} source).diagnostics ∧
      (parseFormula {} source).root =
        .binary (.unary ⟨2⟩ .plus (.bad ⟨3⟩ ⟨3⟩)) ⟨3⟩ .divide
          (.paren ⟨4⟩
            (.binary (.literal ⟨⟨5⟩, .integer, "1"⟩) ⟨6⟩ .minus
              (.unary ⟨7⟩ .times (.literal ⟨⟨8⟩, .integer, "2"⟩))) ⟨9⟩) ∧
      ⟨2, "expected operand, found '/'"⟩ ∈ (parseFormula {} source).diagnostics.items := by
  intro source
  have short : characterCount source ≤ lengthLimit := by decide +kernel
  have missed : (2, SyntaxFault.expected .operand (some "'/'")) ∈
      (formula.run (.ofSource source)).journal.noted := by
    decide +kernel
  exact ⟨short, (parsed_trees_regular {} source short).1, by decide +kernel,
    Parse.mem_diagnostics_of_mem_noted sound_formula _ {} short missed⟩

end SheetFormula

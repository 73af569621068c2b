import SheetFormula.Exchange.Tree
import SheetFormula.Proofs.Exchange.Padding

/-!
# What is written is read back

Trees, diagnostics, lists of them, failures and lexemes have a written form. Whatever one of them is
written as, it is read back from that, also if the records in it are padded. So no two of them are
written alike. Nothing is asked of what is written: a tree need not come from a parse.

Main results:
* `Expr.readsBack` and `FieldList.readsBack`: expressions and lists of entries are read back, by
  induction on the tree.
* `exchange_faithful`: all types are exchanged faithfully (`Faithful`).

What reading finds in a padded record comes from `SheetFormula.Proofs.Exchange.Padding`; each type
adds only that its parts are found under their keys.
-/

namespace SheetFormula

open Json

/-! ## Reading back -/

/-- Whether something is read back from what it is written as, however that is padded. -/
def ReadsBack {α : Type} (toJson : α → Json) (ofJson? : Json → Option α) (x : α) : Prop :=
  ∀ v, Padded (toJson x) v → ofJson? v = some x

namespace Json

/-- A number is read back. -/
theorem readsBack_number (n : Nat) : ReadsBack .number natural? n := by
  intro v h
  rw [h.eq_of_number]
  rfl

/-- A text is read back. -/
theorem readsBack_text (s : String) : ReadsBack .text text? s := by
  intro v h
  rw [h.eq_of_text]
  rfl

/-- A list is read back if its items are. -/
theorem mapM_of_padded {α : Type} {toJson : α → Json} {ofJson? : Json → Option α} {xs : List α}
    (each : ∀ x ∈ xs, ReadsBack toJson ofJson? x) {items : List Json}
    (padded : List.Forall₂ Padded (xs.map toJson) items) : items.mapM ofJson? = some xs := by
  induction xs generalizing items with
  | nil =>
    rw [List.map_nil, List.forall₂_nil_left_iff] at padded
    rw [padded]
    rfl
  | cons x xs ih =>
    obtain ⟨first, later⟩ := List.forall_mem_cons.mp each
    obtain ⟨item, items, here, rest, rfl⟩ := List.forall₂_cons_left_iff.mp padded
    rw [List.mapM_cons, first item here, ih later rest]
    rfl

end Json

/-! ## Plain records -/

/-- A position is read back from its number. -/
theorem Pos.readsBack (p : Pos) : ReadsBack Pos.toJson Pos.ofJson? p := by
  intro v h
  rw [ofJson?, readsBack_number p.index v h]
  rfl

/-- A kind of token is read back from its key. -/
theorem Token.readsBack (t : Token) : ReadsBack Token.toJson Token.ofJson? t := by
  intro v h
  rw [h.eq_of_text]
  exact ofKey?_key t

/-- A diagnostic is read back from its offset and its message. -/
theorem Diagnostic.readsBack (d : Diagnostic) :
    ReadsBack Diagnostic.toJson Diagnostic.ofJson? d := by
  intro v h
  obtain ⟨_, read, each⟩ := record?_of_padded_untagged ["offset", "message"] rfl (by decide) h
  simp only [List.forall₂_cons_left_iff, List.forall₂_nil_left_iff] at each
  obtain ⟨⟨offset, _⟩, _, hOffset, ⟨⟨message, _⟩, _, hMessage, rfl, rfl⟩, rfl⟩ := each
  simp only [ofJson?, read, List.map_cons, List.map_nil, readsBack_number _ _ hOffset,
    readsBack_text _ _ hMessage]
  rfl

/-- A row of diagnostics is read back, each in its place. -/
theorem Diagnostic.readsBack_list (ds : List Diagnostic) :
    ReadsBack Diagnostic.listToJson Diagnostic.listOfJson? ds := by
  intro v h
  obtain ⟨items, rfl, padded⟩ := h.exists_items
  exact mapM_of_padded (fun d _ => Diagnostic.readsBack d) padded

/-- A list of diagnostics is read back. -/
theorem Diagnostics.readsBack (ds : Diagnostics) :
    ReadsBack Diagnostics.toJson Diagnostics.ofJson? ds := by
  intro v h
  rw [ofJson?, Diagnostic.readsBack_list ds.items v h]
  rfl

/-- A failure is read back from its diagnostics. -/
theorem Failure.readsBack (f : Failure) : ReadsBack Failure.toJson Failure.ofJson? f := by
  intro v h
  obtain ⟨_, read, each⟩ := record?_of_padded_untagged ["diagnostics"] rfl (by decide) h
  simp only [List.forall₂_cons_left_iff, List.forall₂_nil_left_iff] at each
  obtain ⟨⟨ds, _⟩, _, hDs, rfl, rfl⟩ := each
  simp only [ofJson?, read, List.map_cons, List.map_nil, Diagnostic.readsBack_list _ _ hDs]
  rfl

/-- A lexeme is read back from its position, its kind and its text. -/
theorem Lexeme.readsBack (l : Lexeme) : ReadsBack Lexeme.toJson Lexeme.ofJson? l := by
  intro v h
  obtain ⟨_, read, each⟩ :=
    record?_of_padded_untagged ["pos", "token", "literal"] rfl (by decide) h
  simp only [List.forall₂_cons_left_iff, List.forall₂_nil_left_iff] at each
  obtain ⟨⟨pos, _⟩, _, hPos, ⟨⟨token, _⟩, _, hToken, ⟨⟨literal, _⟩, _, hLiteral, rfl, rfl⟩, rfl⟩,
    rfl⟩ := each
  simp only [ofJson?, read, List.map_cons, List.map_nil, Pos.readsBack _ _ hPos,
    Token.readsBack _ _ hToken, readsBack_text _ _ hLiteral]
  rfl

/-! ## Names and literals -/

/-- A name is read back from its position and its text. -/
theorem Ident.readsBack (n : Ident) : ReadsBack Ident.toJson Ident.ofJson? n := by
  intro v h
  obtain ⟨_, read, each⟩ := record?_of_padded_untagged ["name_pos", "name"] rfl (by decide) h
  simp only [List.forall₂_cons_left_iff, List.forall₂_nil_left_iff] at each
  obtain ⟨⟨pos, _⟩, _, hPos, ⟨⟨name, _⟩, _, hName, rfl, rfl⟩, rfl⟩ := each
  simp only [ofJson?, read, List.map_cons, List.map_nil, Pos.readsBack _ _ hPos,
    readsBack_text _ _ hName]
  rfl

/-- A literal is read back from its position, its kind and its text. -/
theorem Literal.readsBack (l : Literal) : ReadsBack Literal.toJson Literal.ofJson? l := by
  intro v h
  obtain ⟨_, read, each⟩ :=
    record?_of_padded_untagged ["value_pos", "kind", "value"] rfl (by decide) h
  simp only [List.forall₂_cons_left_iff, List.forall₂_nil_left_iff] at each
  obtain ⟨⟨pos, _⟩, _, hPos, ⟨⟨kind, _⟩, _, hKind, ⟨⟨text, _⟩, _, hText, rfl, rfl⟩, rfl⟩,
    rfl⟩ := each
  simp only [ofJson?, read, List.map_cons, List.map_nil, Pos.readsBack _ _ hPos,
    Token.readsBack _ _ hKind, readsBack_text _ _ hText]
  rfl

/-! ## Expressions

One lemma for each sort, on the assumption that the parts are read back; `Expr.readsBack` puts them
together. -/

namespace Expr

/-- A stretch without an expression is read back from its two ends. -/
theorem readsBack_bad (start stop : Pos) : ReadsBack toJson ofJson? (.bad start stop) := by
  intro v h
  obtain ⟨content, rfl, inside⟩ := h.exists_content (by decide)
  obtain ⟨_, read, each⟩ := record?_of_padded_untagged ["from", "to"] rfl (by decide) inside
  simp only [List.forall₂_cons_left_iff, List.forall₂_nil_left_iff] at each
  obtain ⟨⟨first, _⟩, _, hFirst, ⟨⟨last, _⟩, _, hLast, rfl, rfl⟩, rfl⟩ := each
  simp only [ofJson?, read, List.map_cons, List.map_nil, start.readsBack _ hFirst,
    stop.readsBack _ hLast]
  rfl

/-- A name that is an expression is read back. -/
theorem readsBack_ident (n : Ident) : ReadsBack toJson ofJson? (.ident n) := by
  intro v h
  obtain ⟨content, rfl, inside⟩ := h.exists_content (by decide)
  rw [ofJson?, n.readsBack content inside]
  rfl

/-- A literal that is an expression is read back. -/
theorem readsBack_literal (l : Literal) : ReadsBack toJson ofJson? (.literal l) := by
  intro v h
  obtain ⟨content, rfl, inside⟩ := h.exists_content (by decide)
  rw [ofJson?, l.readsBack content inside]
  rfl

/-- Parentheses are read back if what stands between them is. -/
theorem readsBack_paren (opening closing : Pos) {inner : Expr}
    (ih : ReadsBack toJson ofJson? inner) :
    ReadsBack toJson ofJson? (.paren opening inner closing) := by
  intro v h
  rw [toJson] at h
  obtain ⟨content, rfl, inside⟩ := h.exists_content (by decide)
  obtain ⟨_, read, each⟩ :=
    record?_of_padded_untagged ["lparen", "x", "rparen"] rfl (by decide) inside
  simp only [List.forall₂_cons_left_iff, List.forall₂_nil_left_iff] at each
  obtain ⟨⟨left, _⟩, _, hLeft, ⟨⟨x, _⟩, _, hX, ⟨⟨right, _⟩, _, hRight, rfl, rfl⟩, rfl⟩, rfl⟩ := each
  simp only [ofJson?, read, List.map_cons, List.map_nil, opening.readsBack _ hLeft, ih _ hX,
    closing.readsBack _ hRight]
  rfl

/-- A call is read back if its function and its arguments are. -/
theorem readsBack_call (opening closing : Pos) {function : Expr} {arguments : List Expr}
    (ih : ReadsBack toJson ofJson? function)
    (each : ∀ items, List.Forall₂ Padded (listToJson arguments) items →
      listOfJson? items = some arguments) :
    ReadsBack toJson ofJson? (.call function opening arguments closing) := by
  intro v h
  rw [toJson] at h
  obtain ⟨content, rfl, inside⟩ := h.exists_content (by decide)
  obtain ⟨_, read, parts⟩ :=
    record?_of_padded_untagged ["fun", "lparen", "args", "rparen"] rfl (by decide) inside
  simp only [List.forall₂_cons_left_iff, List.forall₂_nil_left_iff] at parts
  obtain ⟨⟨f, _⟩, _, hF, ⟨⟨left, _⟩, _, hLeft, ⟨⟨args, _⟩, _, hArgs,
    ⟨⟨right, _⟩, _, hRight, rfl, rfl⟩, rfl⟩, rfl⟩, rfl⟩ := parts
  obtain ⟨items, rfl, padded⟩ := hArgs.exists_items
  simp only [ofJson?, read, List.map_cons, List.map_nil, ih _ hF, opening.readsBack _ hLeft,
    each _ padded, closing.readsBack _ hRight]
  rfl

/-- An operator with its operand is read back if the operand is. -/
theorem readsBack_unary (opPos : Pos) (op : Token) {operand : Expr}
    (ih : ReadsBack toJson ofJson? operand) :
    ReadsBack toJson ofJson? (.unary opPos op operand) := by
  intro v h
  rw [toJson] at h
  obtain ⟨content, rfl, inside⟩ := h.exists_content (by decide)
  obtain ⟨_, read, each⟩ :=
    record?_of_padded_untagged ["op_pos", "op", "x"] rfl (by decide) inside
  simp only [List.forall₂_cons_left_iff, List.forall₂_nil_left_iff] at each
  obtain ⟨⟨pos, _⟩, _, hPos, ⟨⟨token, _⟩, _, hToken, ⟨⟨x, _⟩, _, hX, rfl, rfl⟩, rfl⟩, rfl⟩ := each
  simp only [ofJson?, read, List.map_cons, List.map_nil, opPos.readsBack _ hPos,
    op.readsBack _ hToken, ih _ hX]
  rfl

/-- An operator between two operands is read back if both of them are. -/
theorem readsBack_binary (opPos : Pos) (op : Token) {left right : Expr}
    (ihLeft : ReadsBack toJson ofJson? left) (ihRight : ReadsBack toJson ofJson? right) :
    ReadsBack toJson ofJson? (.binary left opPos op right) := by
  intro v h
  rw [toJson] at h
  obtain ⟨content, rfl, inside⟩ := h.exists_content (by decide)
  obtain ⟨_, read, each⟩ :=
    record?_of_padded_untagged ["x", "op_pos", "op", "y"] rfl (by decide) inside
  simp only [List.forall₂_cons_left_iff, List.forall₂_nil_left_iff] at each
  obtain ⟨⟨x, _⟩, _, hX, ⟨⟨pos, _⟩, _, hPos, ⟨⟨token, _⟩, _, hToken,
    ⟨⟨y, _⟩, _, hY, rfl, rfl⟩, rfl⟩, rfl⟩, rfl⟩ := each
  simp only [ofJson?, read, List.map_cons, List.map_nil, ihLeft _ hX, opPos.readsBack _ hPos,
    op.readsBack _ hToken, ihRight _ hY]
  rfl

mutual

/-- **Every expression is read back**, by induction on the expression and on the arguments of its
calls. -/
theorem readsBack : (x : Expr) → ReadsBack toJson ofJson? x
  | bad start stop => readsBack_bad start stop
  | ident n => readsBack_ident n
  | literal l => readsBack_literal l
  | paren opening inner closing => readsBack_paren opening closing (readsBack inner)
  | call function opening arguments closing =>
    readsBack_call opening closing (readsBack function) (readsBack_list arguments)
  | unary opPos op operand => readsBack_unary opPos op (readsBack operand)
  | binary left opPos op right => readsBack_binary opPos op (readsBack left) (readsBack right)

/-- A row of expressions is read back, each in its place. -/
theorem readsBack_list : (xs : List Expr) → (items : List Json) →
    List.Forall₂ Padded (listToJson xs) items → listOfJson? items = some xs
  | [], items, padded => by
    rw [listToJson, List.forall₂_nil_left_iff] at padded
    rw [padded, listOfJson?]
  | x :: xs, items, padded => by
    rw [listToJson] at padded
    obtain ⟨item, items, here, rest, rfl⟩ := List.forall₂_cons_left_iff.mp padded
    rw [listOfJson?, readsBack x item here, readsBack_list xs items rest]
    rfl

end

end Expr

/-! ## Lists of entries -/

/-- What is found of a tag: nothing or null where there is none, else a value that it is read back
from. -/
theorem Field.tag_of_kept {whole : Json} {tag : Option Literal} {part : Option (Part whole)}
    (kept : Kept ("tag", tag.elim .null Literal.toJson) part) :
    (tag = none ∧ (part = none ∨ ∃ inside, part = some ⟨.null, inside⟩)) ∨
      ∃ l value inside, tag = some l ∧ part = some ⟨value, inside⟩ ∧ value ≠ .null ∧
        Literal.ofJson? value = some l := by
  cases tag with
  | none =>
    refine .inl ⟨rfl, ?_⟩
    cases part with
    | none => exact .inl rfl
    | some part =>
      obtain ⟨value, inside⟩ := part
      obtain rfl : value = .null := Padded.eq_of_null kept
      exact .inr ⟨inside, rfl⟩
  | some l =>
    cases part with
    | none => cases (Prod.mk.inj kept).2
    | some part =>
      obtain ⟨value, inside⟩ := part
      have read := l.readsBack value kept
      have something : value ≠ .null := by
        rintro rfl
        cases read
      exact .inr ⟨l, value, inside, rfl, rfl, something, read⟩

/-- An entry is read back, also where its tag is left out because there is none. -/
theorem Field.readsBack (f : Field) : ReadsBack Field.toJson Field.ofJson? f := by
  intro v h
  obtain ⟨names, type, tag⟩ := f
  obtain ⟨_, read, each⟩ := record?_of_padded ["names", "ty", "tag"] rfl (by decide) h
  simp only [List.forall₂_cons_left_iff, List.forall₂_nil_left_iff] at each
  obtain ⟨_, _, hNames, ⟨_, _, hType, ⟨_, _, hTag, rfl, rfl⟩, rfl⟩, rfl⟩ := each
  obtain ⟨⟨value, _⟩, rfl, hNames⟩ := hNames.exists_part (by decide)
  obtain ⟨⟨expr, _⟩, rfl, hType⟩ := hType.exists_part (by decide)
  obtain ⟨items, rfl, padded⟩ := hNames.exists_items
  have named := mapM_of_padded (fun n _ => Ident.readsBack n) padded
  have typed := type.readsBack expr hType
  rcases tag_of_kept hTag with ⟨rfl, rfl | ⟨_, rfl⟩⟩ | ⟨l, _, _, rfl, rfl, something, tagged⟩
  · simp [ofJson?, read, items?, named, typed]
  · simp [ofJson?, read, items?, named, typed]
  · simp [ofJson?, read, items?, named, typed, tagged]

/-- A list of entries is read back, with its parentheses. -/
theorem FieldList.readsBack (l : FieldList) :
    ReadsBack FieldList.toJson FieldList.ofJson? l := by
  intro v h
  obtain ⟨_, read, each⟩ :=
    record?_of_padded_untagged ["opening", "list", "closing"] rfl (by decide) h
  simp only [List.forall₂_cons_left_iff, List.forall₂_nil_left_iff] at each
  obtain ⟨⟨left, _⟩, _, hLeft, ⟨⟨list, _⟩, _, hList, ⟨⟨right, _⟩, _, hRight, rfl, rfl⟩, rfl⟩,
    rfl⟩ := each
  obtain ⟨items, rfl, padded⟩ := hList.exists_items
  have fields := mapM_of_padded (fun f _ => Field.readsBack f) padded
  simp only [ofJson?, read, List.map_cons, List.map_nil, l.opening.readsBack _ hLeft,
    items?, l.closing.readsBack _ hRight, Option.bind_eq_bind, Option.bind_some, fields]
  rfl

/-! ## Faithful exchange -/

/-- Whether values of a type are exchanged faithfully: each is read back from what it is written as,
so no two are written alike, and padding changes nothing. -/
structure Faithful {α : Type} (toJson : α → Json) (ofJson? : Json → Option α) : Prop where
  reads_back : ∀ x, ofJson? (toJson x) = some x
  injective : Function.Injective toJson
  padded : ∀ x v, Padded (toJson x) v → ofJson? v = some x

/-- What is read back from every padded form is exchanged faithfully: it may also be left unpadded,
and two values with one form are both what is read from it. -/
theorem faithful_of_readsBack {α : Type} {toJson : α → Json} {ofJson? : Json → Option α}
    (all : ∀ x, ReadsBack toJson ofJson? x) : Faithful toJson ofJson? := by
  have reads_back : ∀ x, ofJson? (toJson x) = some x := fun x => all x _ (.same _)
  refine ⟨reads_back, ?_, all⟩
  intro x y alike
  have read := reads_back x
  rw [alike, reads_back y] at read
  exact (Option.some.inj read).symm

/-- **Trees, diagnostics and lexemes are exchanged faithfully**, whether or not they come of a
parse. An entry without a tag is read back also if nothing is written about its tag. -/
theorem exchange_faithful :
    Faithful Expr.toJson Expr.ofJson? ∧
    Faithful Field.toJson Field.ofJson? ∧
    Faithful FieldList.toJson FieldList.ofJson? ∧
    Faithful Diagnostics.toJson Diagnostics.ofJson? ∧
    Faithful Failure.toJson Failure.ofJson? ∧
    Faithful Lexeme.toJson Lexeme.ofJson? ∧
    ∀ names type, Field.ofJson? ((Field.toJson ⟨names, type, none⟩).without "tag") =
      some ⟨names, type, none⟩ := by
  refine ⟨faithful_of_readsBack Expr.readsBack, faithful_of_readsBack Field.readsBack,
    faithful_of_readsBack FieldList.readsBack, faithful_of_readsBack Diagnostics.readsBack,
    faithful_of_readsBack Failure.readsBack, faithful_of_readsBack Lexeme.readsBack, ?_⟩
  intro names type
  have record : ["names", "ty", "tag"] ∉ sorts := by decide
  exact Field.readsBack ⟨names, type, none⟩ _ (.without_tag record (by simp))

end SheetFormula

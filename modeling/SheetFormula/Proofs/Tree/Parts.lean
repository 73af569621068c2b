import Mathlib.Data.List.Forall2
import Mathlib.Tactic.Common
import SheetFormula.Lexeme
import SheetFormula.Tree

/-!
# The parts of a tree

A tree stores a position for each of its names, values, operators and parentheses. Together with the
token that it stands for, each of these is a *mark* of the tree, and the marks in the order of the
source are the tree laid flat (`Expr.marks`, `Expr.flatten`).

A tree is read from more than its marks: between arguments stand separators, and a source that is
not well formed has other tokens where the tree has its marks. `Expr.Reads excused x parts` says
that `parts` is what `x` is read from, where only at the offsets that `excused` admits something may
be amiss. With no excuse at all this is what the grammar says of a tree (`Expr.Yields`).

Main results:
* `Expr.Reads.shows` and `FieldList.Reads.shows`: what a tree is read from shows its marks, each as
  far as it fits, with separators between them (`Shows`).
* `Shows.filter_eq` and `Shows.mem_or_comma`: with no excuse, what is read less the commas is
  exactly the marks.
-/

namespace SheetFormula

/-! ## Parts -/

/-- What a lexeme is to the tree that it is read into. -/
inductive Role
  | name
  | value
  | operator
  /-- The parenthesis that opens an expression or an argument list. -/
  | lparen
  | rparen
  /-- The parenthesis that opens a parameter list. -/
  | opening
  | closing
  | separator
  deriving DecidableEq, Repr

/-- Whether a mark of this role is demanded: whatever stands in its place is taken for it. All other
marks are only made where the right token stands. -/
def Role.isDemanded : Role → Bool
  | .rparen | .opening | .closing => true
  | _ => false

/-- A lexeme and its role. -/
structure Part where
  role : Role
  lexeme : Lexeme
  deriving DecidableEq, Repr

namespace Part

/-- Where the lexeme stands. -/
def pos (p : Part) : Pos := p.lexeme.pos

/-- Whether a tree stores the position of the part. -/
def isMark (p : Part) : Bool := p.role != .separator

/-- Whether a part may stand for a mark of a tree: it is that mark, or it is another lexeme in the
place of a mark that is demanded, at an excused offset. -/
def Fits (excused : Nat → Prop) (own found : Part) : Prop :=
  found = own ∨ own.role.isDemanded ∧ found.role = own.role ∧
    found.lexeme.pos = own.lexeme.pos ∧ excused own.lexeme.pos.offset

/-- Whether a part may stand between two entries: a comma, or at an excused offset any lexeme. -/
def Separates (excused : Nat → Prop) (p : Part) : Prop :=
  p.role = .separator ∧ (p.lexeme.token = .comma ∨ excused p.lexeme.pos.offset)

variable {excused : Nat → Prop} {own found : Part}

/-- A part that fits a mark has its role. -/
theorem Fits.role_eq (fits : own.Fits excused found) : found.role = own.role := by
  rcases fits with rfl | ⟨-, same, -⟩
  · rfl
  · exact same

/-- It stands where the mark does. -/
theorem Fits.pos_eq (fits : own.Fits excused found) : found.lexeme.pos = own.lexeme.pos := by
  rcases fits with rfl | ⟨-, -, same, -⟩
  · rfl
  · exact same

/-- It is a mark if the other one is. -/
theorem Fits.isMark_eq (fits : own.Fits excused found) : found.isMark = own.isMark := by
  rw [isMark, isMark, fits.role_eq]

/-- With no excuse a part stands only for itself. -/
theorem fits_false : own.Fits (fun _ => False) found ↔ found = own := by
  simp [Fits]

/-- A separator is no mark. -/
theorem Separates.isMark_eq (separates : found.Separates excused) : found.isMark = false := by
  rw [isMark, separates.1]
  rfl

end Part

/-! ## Marks -/

namespace Expr

mutual

/-- The marks of an expression, in the order of the source. -/
def marks : Expr → List Part
  | bad .. => []
  | ident n => [⟨.name, n.pos, .ident, n.name⟩]
  | literal l => [⟨.value, l.pos, l.kind, l.value⟩]
  | paren p x q => ⟨.lparen, p, .openParen, ""⟩ :: (marks x ++ [⟨.rparen, q, .closeParen, ""⟩])
  | call f p xs q =>
    marks f ++ ⟨.lparen, p, .openParen, ""⟩ :: (marksAll xs ++ [⟨.rparen, q, .closeParen, ""⟩])
  | unary p op x => ⟨.operator, p, op, ""⟩ :: marks x
  | binary x p op y => marks x ++ ⟨.operator, p, op, ""⟩ :: marks y

/-- The marks of several expressions, one behind the other. -/
def marksAll : List Expr → List Part
  | [] => []
  | x :: xs => marks x ++ marksAll xs

end

/-- The marks of several expressions are those of each, one behind the other. -/
theorem marksAll_eq_flatMap (xs : List Expr) : marksAll xs = xs.flatMap marks := by
  induction xs with
  | nil => rfl
  | cons x xs ih => rw [marksAll, ih, List.flatMap_cons]

end Expr

/-- An expression laid flat: the lexemes that its marks stand for. -/
def Expr.flatten (x : Expr) : List Lexeme := x.marks.map Part.lexeme

/-- The marks of an entry: its names, its type and its tag. -/
def Field.marks (f : Field) : List Part :=
  f.names.map (fun n => ⟨.name, n.pos, .ident, n.name⟩) ++ f.type.marks ++
    f.tag.toList.map fun l => ⟨.value, l.pos, l.kind, l.value⟩

/-- The marks of a list. -/
def FieldList.marks (list : FieldList) : List Part :=
  ⟨.opening, list.opening, .openParen, ""⟩ ::
    (list.fields.flatMap Field.marks ++ [⟨.closing, list.closing, .closeParen, ""⟩])

/-- A list laid flat. -/
def FieldList.flatten (list : FieldList) : List Lexeme := list.marks.map Part.lexeme

/-! ## Readings -/

namespace Expr

mutual

/-- What an expression can be read from. -/
def Reads (excused : Nat → Prop) : Expr → List Part → Prop
  | bad p _, parts => excused p.offset ∧ parts = []
  | ident n, parts => parts = [⟨.name, n.pos, .ident, n.name⟩]
  | literal l, parts => parts = [⟨.value, l.pos, l.kind, l.value⟩]
  | paren p x q, parts =>
    ∃ inner last, Reads excused x inner ∧ Part.Fits excused ⟨.rparen, q, .closeParen, ""⟩ last ∧
      parts = ⟨.lparen, p, .openParen, ""⟩ :: (inner ++ [last])
  | call f p xs q, parts =>
    ∃ front inner last, Reads excused f front ∧ ReadsAll excused xs inner ∧
      Part.Fits excused ⟨.rparen, q, .closeParen, ""⟩ last ∧
      parts = front ++ ⟨.lparen, p, .openParen, ""⟩ :: (inner ++ [last])
  | unary p op x, parts =>
    ∃ inner, Reads excused x inner ∧ parts = ⟨.operator, p, op, ""⟩ :: inner
  | binary x p op y, parts =>
    ∃ front back, Reads excused x front ∧ Reads excused y back ∧
      parts = front ++ ⟨.operator, p, op, ""⟩ :: back

/-- What a list of expressions can be read from: there is one separator between any two of them, and
there may be one behind the last. -/
def ReadsAll (excused : Nat → Prop) : List Expr → List Part → Prop
  | [], parts => parts = []
  | x :: xs, parts =>
    ∃ front back, Reads excused x front ∧ parts = front ++ back ∧
      ((xs = [] ∧ back = []) ∨
        ∃ separator later, separator.Separates excused ∧ ReadsAll excused xs later ∧
          back = separator :: later)

end

/-- What an expression is read from in a formula with nothing amiss. -/
def Yields (x : Expr) (parts : List Part) : Prop := x.Reads (fun _ => False) parts

end Expr

/-- What a list of parameters can be read from. Its entries have neither names nor tags. -/
def FieldList.Reads (excused : Nat → Prop) (list : FieldList) (parts : List Part) : Prop :=
  (∀ f ∈ list.fields, f.names = [] ∧ f.tag = none) ∧
    ∃ first inner last, Part.Fits excused ⟨.opening, list.opening, .openParen, ""⟩ first ∧
      Expr.ReadsAll excused (list.fields.map Field.type) inner ∧
      Part.Fits excused ⟨.closing, list.closing, .closeParen, ""⟩ last ∧
      parts = first :: (inner ++ [last])

/-- What a list of parameters is read from with nothing amiss. -/
def FieldList.Yields (list : FieldList) (parts : List Part) : Prop :=
  list.Reads (fun _ => False) parts

/-! ## The marks of a reading

What is read is the marks of the tree one by one, and separators between them.
-/

section Readings

variable {excused : Nat → Prop}

/-- Whether parts are marks `own`, each as far as it fits, with separators between them. -/
structure Shows (excused : Nat → Prop) (own parts : List Part) : Prop where
  marks : List.Forall₂ (Part.Fits excused) own (parts.filter Part.isMark)
  separators : ∀ p ∈ parts, p.isMark = false → p.Separates excused

/-- Parts one behind the other show their marks so. -/
theorem Shows.append {own own' parts parts' : List Part} (first : Shows excused own parts)
    (second : Shows excused own' parts') : Shows excused (own ++ own') (parts ++ parts') := by
  refine ⟨?_, List.forall_mem_append.mpr ⟨first.separators, second.separators⟩⟩
  rw [List.filter_append]
  exact List.rel_append first.marks second.marks

/-- A part that fits a mark shows it, in front of the others. -/
theorem Shows.cons {own : Part} {owns parts : List Part} {found : Part}
    (fits : own.Fits excused found) (mark : own.isMark) (later : Shows excused owns parts) :
    Shows excused (own :: owns) (found :: parts) := by
  have also : found.isMark = true := fits.isMark_eq.trans mark
  refine ⟨?_, List.forall_mem_cons.mpr ⟨?_, later.separators⟩⟩
  · rw [List.filter_cons_of_pos also]
    exact .cons fits later.marks
  · intro other
    rw [also] at other
    cases other

/-- No parts show no marks. -/
theorem shows_nil : Shows excused [] [] := ⟨.nil, fun _ mem => absurd mem List.not_mem_nil⟩

/-- A separator in front shows nothing. -/
theorem Shows.separated {own parts : List Part} {separator : Part}
    (separates : separator.Separates excused) (later : Shows excused own parts) :
    Shows excused own (separator :: parts) := by
  refine ⟨?_, List.forall_mem_cons.mpr ⟨fun _ => separates, later.separators⟩⟩
  rw [List.filter_cons_of_neg (by rw [separates.isMark_eq]; decide)]
  exact later.marks

namespace Expr

mutual

/-- What an expression is read from shows its marks. By induction on the expression. -/
theorem Reads.shows : (x : Expr) → ∀ parts, x.Reads excused parts → Shows excused x.marks parts
  | bad .., parts, h => by
    rw [h.2]
    exact shows_nil
  | ident n, parts, h => by
    unfold Reads at h
    rw [h]
    exact .cons (.inl rfl) rfl shows_nil
  | literal l, parts, h => by
    unfold Reads at h
    rw [h]
    exact .cons (.inl rfl) rfl shows_nil
  | paren p x q, parts, h => by
    unfold Reads at h
    obtain ⟨inner, last, content, closing, rfl⟩ := h
    have inside := Reads.shows x inner content
    exact .cons (.inl rfl) rfl (inside.append (.cons closing rfl shows_nil))
  | call f p xs q, parts, h => by
    unfold Reads at h
    obtain ⟨front, inner, last, function, list, closing, rfl⟩ := h
    have before := Reads.shows f front function
    have inside := ReadsAll.shows xs inner list
    exact before.append (.cons (.inl rfl) rfl (inside.append (.cons closing rfl shows_nil)))
  | unary p op x, parts, h => by
    unfold Reads at h
    obtain ⟨inner, operand, rfl⟩ := h
    exact .cons (.inl rfl) rfl (Reads.shows x inner operand)
  | binary x p op y, parts, h => by
    unfold Reads at h
    obtain ⟨front, back, left, right, rfl⟩ := h
    exact (Reads.shows x front left).append (.cons (.inl rfl) rfl (Reads.shows y back right))

/-- So does what several expressions are read from. -/
theorem ReadsAll.shows :
    (xs : List Expr) → ∀ parts, ReadsAll excused xs parts → Shows excused (marksAll xs) parts
  | [], parts, h => by
    unfold ReadsAll at h
    rw [h]
    exact shows_nil
  | x :: xs, parts, h => by
    unfold ReadsAll at h
    obtain ⟨front, back, first, rfl, ⟨rfl, rfl⟩ | ⟨separator, later, separates, rest, rfl⟩⟩ := h
    · exact (Reads.shows x front first).append shows_nil
    · exact (Reads.shows x front first).append (.separated separates (ReadsAll.shows xs later rest))

end

end Expr

/-- So does what a list is read from. -/
theorem FieldList.Reads.shows {list : FieldList} {parts : List Part}
    (h : list.Reads excused parts) :
    Shows excused list.marks parts := by
  obtain ⟨plain, first, inner, last, opening, entries, closing, rfl⟩ := h
  have types : list.fields.flatMap Field.marks = Expr.marksAll (list.fields.map Field.type) := by
    rw [Expr.marksAll_eq_flatMap, List.flatMap_map]
    apply List.flatMap_congr
    intro f mem
    obtain ⟨names, tag⟩ := plain f mem
    simp [Field.marks, names, tag]
  have inside := Expr.ReadsAll.shows _ inner entries
  rw [← types] at inside
  exact .cons opening rfl (inside.append (.cons closing rfl shows_nil))

/-- Marks stand where the parts stand that fit them. -/
theorem Shows.map_pos {own parts : List Part} (h : Shows excused own parts) :
    own.map Part.pos = (parts.filter Part.isMark).map Part.pos := by
  have fits := h.marks
  clear h
  generalize parts.filter Part.isMark = found at fits ⊢
  induction fits with
  | nil => rfl
  | cons first later ih =>
    rw [List.map_cons, List.map_cons, ih]
    exact congrArg (· :: _) first.pos_eq.symm

/-- A part that is a mark fits some mark of the tree. -/
theorem Shows.exists_fits {own parts : List Part} (h : Shows excused own parts) {p : Part}
    (mem : p ∈ parts) (mark : p.isMark) : ∃ m ∈ own, m.Fits excused p := by
  have among : p ∈ parts.filter Part.isMark := List.mem_filter.mpr ⟨mem, mark⟩
  obtain ⟨i, inside, rfl⟩ := List.getElem_of_mem among
  have fits := List.forall₂_iff_get.mp h.marks
  have bound : i < own.length := fits.1 ▸ inside
  exact ⟨own[i], List.getElem_mem bound, fits.2 i bound inside⟩

/-- With no excuse, what is read less the separators is exactly the marks. -/
theorem Shows.filter_eq {own parts : List Part} (h : Shows (fun _ => False) own parts) :
    parts.filter Part.isMark = own := by
  have same : List.Forall₂ Eq own (parts.filter Part.isMark) :=
    List.Forall₂.imp (fun _ _ fits => (Part.fits_false.mp fits).symm) h.marks
  rw [List.forall₂_eq_eq_eq] at same
  exact same.symm

/-- With no excuse, a part is a mark or a comma. -/
theorem Shows.mem_or_comma {own parts : List Part} (h : Shows (fun _ => False) own parts)
    {p : Part} (mem : p ∈ parts) : p.isMark ∧ p ∈ own ∨ ¬ p.isMark ∧ p.lexeme.token = .comma := by
  by_cases mark : p.isMark
  · left
    refine ⟨mark, ?_⟩
    rw [← h.filter_eq]
    exact List.mem_filter.mpr ⟨mem, mark⟩
  · right
    obtain ⟨-, comma | never⟩ := h.separators p mem (Bool.eq_false_iff.mpr mark)
    · exact ⟨mark, comma⟩
    · exact never.elim

end Readings

end SheetFormula

import Mathlib.Tactic.Common
import SheetFormula.Proofs.Lexeme.Relocation
import SheetFormula.Proofs.Tree.Shape

/-!
# Trees that have moved

A tree is somewhere else if each of its positions is moved by one function on offsets, and nothing
else is touched. What the grammar says of a tree does not depend on where its marks stand, so it
remains true when they move:

* what a tree is read from (`Expr.Yields.relocate`);
* that a tree is canonical (`Expr.Canonical.relocate`);
* the leaves of a tree and their levels (`Expr.leavesAt_relocate`).
-/

namespace SheetFormula

/-! ## Moving what has a place -/

section

variable (move : Nat → Nat)

/-- A name at another place. -/
def Ident.relocate (n : Ident) : Ident := ⟨n.pos.relocate move, n.name⟩

/-- A value at another place. -/
def Literal.relocate (l : Literal) : Literal := ⟨l.pos.relocate move, l.kind, l.value⟩

/-- A part with its lexeme at another place. -/
def Part.relocate (p : Part) : Part := ⟨p.role, p.lexeme.relocate move⟩

namespace Expr

mutual

/-- An expression with all its positions moved. -/
def relocate : Expr → Expr
  | bad p q => bad (p.relocate move) (q.relocate move)
  | ident n => ident (n.relocate move)
  | literal l => literal (l.relocate move)
  | paren p x q => paren (p.relocate move) (relocate x) (q.relocate move)
  | call f p xs q => call (relocate f) (p.relocate move) (relocateAll xs) (q.relocate move)
  | unary p op x => unary (p.relocate move) op (relocate x)
  | binary x p op y => binary (relocate x) (p.relocate move) op (relocate y)

/-- Several expressions with all their positions moved. -/
def relocateAll : List Expr → List Expr
  | [] => []
  | x :: xs => relocate x :: relocateAll xs

end

/-- Several expressions are moved one by one. -/
theorem relocateAll_eq_map (xs : List Expr) : relocateAll move xs = xs.map (relocate move) := by
  induction xs with
  | nil => rfl
  | cons x xs ih => rw [relocateAll, ih, List.map_cons]

end Expr

/-- An entry with all its positions moved. -/
def Field.relocate (f : Field) : Field :=
  ⟨f.names.map (Ident.relocate move), f.type.relocate move, f.tag.map (Literal.relocate move)⟩

/-- A list with all its positions moved. -/
def FieldList.relocate (list : FieldList) : FieldList :=
  ⟨list.opening.relocate move, list.fields.map (Field.relocate move),
    list.closing.relocate move⟩

end

variable {move : Nat → Nat}

/-! ## What a moved tree is read from -/

/-- What stands for itself does so at another place. -/
theorem Part.Fits.relocate {own found : Part} (fits : own.Fits (fun _ => False) found) :
    (own.relocate move).Fits (fun _ => False) (found.relocate move) := by
  rw [Part.fits_false.mp fits]
  exact Part.fits_false.mpr rfl

/-- A comma is a comma at another place. -/
theorem Part.Separates.relocate {p : Part} (separates : p.Separates fun _ => False) :
    (p.relocate move).Separates fun _ => False :=
  ⟨separates.1, .inl (separates.2.resolve_right id)⟩

namespace Expr

mutual

/-- **A moved tree is read from the moved parts.** -/
theorem Yields.relocate : (x : Expr) → ∀ parts, x.Yields parts →
    (x.relocate move).Yields (parts.map (Part.relocate move))
  | bad .., parts, h => h.1.elim
  | ident n, parts, h => by
    unfold Yields Reads at h
    rw [h]
    rfl
  | literal l, parts, h => by
    unfold Yields Reads at h
    rw [h]
    rfl
  | paren p x q, parts, h => by
    obtain ⟨inner, last, content, closing, rfl⟩ := h
    refine ⟨_, _, Yields.relocate x inner content, closing.relocate, ?_⟩
    simp [Part.relocate, Lexeme.relocate]
  | call f p xs q, parts, h => by
    obtain ⟨front, inner, last, function, list, closing, rfl⟩ := h
    refine ⟨_, _, _, Yields.relocate f front function, Yields.relocate_all xs inner list,
      closing.relocate, ?_⟩
    simp [Part.relocate, Lexeme.relocate]
  | unary p op x, parts, h => by
    obtain ⟨inner, operand, rfl⟩ := h
    refine ⟨_, Yields.relocate x inner operand, ?_⟩
    simp [Part.relocate, Lexeme.relocate]
  | binary x p op y, parts, h => by
    obtain ⟨front, back, left, right, rfl⟩ := h
    refine ⟨_, _, Yields.relocate x front left, Yields.relocate y back right, ?_⟩
    simp [Part.relocate, Lexeme.relocate]

/-- So are several moved trees. -/
theorem Yields.relocate_all : (xs : List Expr) → ∀ parts, ReadsAll (fun _ => False) xs parts →
    ReadsAll (fun _ => False) (relocateAll move xs) (parts.map (Part.relocate move))
  | [], parts, h => by
    unfold ReadsAll at h
    rw [h]
    rfl
  | x :: xs, parts, h => by
    unfold ReadsAll at h
    unfold relocateAll ReadsAll
    obtain ⟨front, back, first, rfl, ⟨rfl, rfl⟩ | ⟨separator, later, separates, rest, rfl⟩⟩ := h
    · exact ⟨_, [], Yields.relocate x front first, by simp, .inl ⟨rfl, rfl⟩⟩
    · exact ⟨_, _, Yields.relocate x front first, List.map_append, .inr
        ⟨_, _, separates.relocate, Yields.relocate_all xs later rest, List.map_cons⟩⟩

end

/-! ## The shape of a moved tree -/

section

variable {x : Expr}

/-- What is missing is missing at every place. -/
@[simp] theorem isBad_relocate : (x.relocate move).isBad = x.isBad := by
  cases x <;> rfl

/-- A moved expression has the same operator at its top. -/
@[simp] theorem isBinary_relocate : (x.relocate move).isBinary = x.isBinary := by
  cases x <;> rfl

/-- It is an operation if the other one is. -/
@[simp] theorem isOperation_relocate : (x.relocate move).isOperation = x.isOperation := by
  cases x <;> rfl

/-- What is inside the parentheses of a moved expression has moved with them. -/
theorem unparen_relocate : (x : Expr) → (x.relocate move).unparen = x.unparen.relocate move
  | paren _ x _ => unparen_relocate x
  | bad .. | ident _ | literal _ | call .. | unary .. | binary .. => rfl

/-- Whether an expression can stand does not depend on where it stands. -/
@[simp] theorem isValueless_relocate : (x.relocate move).isValueless = x.isValueless := by
  rw [isValueless, isValueless, unparen_relocate]
  cases x.unparen <;> rfl

/-- It binds as tightly as the other one does. -/
theorem BindsFrom.relocate {least : Nat} (binds : x.BindsFrom least) :
    (x.relocate move).BindsFrom least := by
  cases x <;> exact binds

end

mutual

/-- **A canonical tree stays canonical where it is moved.** -/
theorem Canonical.relocate : (x : Expr) → x.Canonical → (x.relocate move).Canonical
  | bad .., canonical => canonical.elim
  | ident _, _ => trivial
  | literal _, canonical => canonical
  | paren _ x _, canonical => Canonical.relocate x canonical
  | call f _ xs _, ⟨single, present, function, list⟩ =>
    ⟨by simpa using single, by simpa using present, Canonical.relocate f function,
      Canonical.relocate_all xs list⟩
  | unary _ _ x, ⟨operator, single, operand⟩ =>
    ⟨operator, by simpa using single, Canonical.relocate x operand⟩
  | binary x _ _ y, ⟨operator, left, right, first, second⟩ =>
    ⟨operator, left.relocate, right.relocate, Canonical.relocate x first,
      Canonical.relocate y second⟩

/-- So do several canonical trees. -/
theorem Canonical.relocate_all : (xs : List Expr) → ShapedAll (fun _ _ => False) xs →
    ShapedAll (fun _ _ => False) (relocateAll move xs)
  | [], _ => trivial
  | x :: xs, ⟨first, later⟩ => ⟨Canonical.relocate x first, Canonical.relocate_all xs later⟩

end

mutual

/-- A moved tree has the moved leaves, at the same levels. -/
theorem leavesAt_relocate : (x : Expr) → ∀ level, (x.relocate move).leavesAt level =
    (x.leavesAt level).map fun leaf => (leaf.1.relocate move, leaf.2)
  | bad .., _ | ident _, _ | literal _, _ => rfl
  | paren _ x _, level => leavesAt_relocate x (level + 1)
  | call f _ xs _, level => by
    simp only [relocate, leavesAt, leavesAt_relocate f, leavesAllAt_relocateAll xs,
      List.map_append]
  | unary _ _ x, level => leavesAt_relocate x (level + 1)
  | binary x _ _ y, level => by
    simp only [relocate, leavesAt, leavesAt_relocate x, leavesAt_relocate y, List.map_append]

/-- So have several moved trees. -/
theorem leavesAllAt_relocateAll : (xs : List Expr) → ∀ level,
    leavesAllAt level (relocateAll move xs) =
      (leavesAllAt level xs).map fun leaf => (leaf.1.relocate move, leaf.2)
  | [], _ => rfl
  | x :: xs, level => by
    simp only [relocateAll, leavesAllAt, leavesAt_relocate x, leavesAllAt_relocateAll xs,
      List.map_append]

end

end Expr

end SheetFormula

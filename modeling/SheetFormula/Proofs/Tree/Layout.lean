import Mathlib.Tactic.Common
import SheetFormula.Proofs.Tree.Nodes

/-!
# How a tree is laid out

Nodes extend over parts of a source, and what is below a node should extend over parts of the part
that the node has: its children lie in a row, one behind the other, between where the node starts
and where it stops. The marks that a node stores itself lie between the children.

* `Node.InRow` says that nodes lie in a row; `Node.InRow.pairwise` and `Node.InRow.bounds` say what
  comes of that.
* `Node.Punctuated` says where the marks of a node are, and `Node.Nested` puts all of this together.
-/

namespace SheetFormula

namespace Node

/-- Whether nodes extend one behind the other, none before `low` and none beyond `high`. -/
def InRow : (low : Nat) → List Node → (high : Nat) → Prop
  | low, [], high => low ≤ high
  | low, n :: later, high =>
    low ≤ (start n).index ∧ (start n).index ≤ (stop n).index ∧ InRow (stop n).index later high

namespace InRow

variable {low low' high high' : Nat} {row : List Node}

/-- A row takes no more than the room there is. -/
theorem le (h : InRow low row high) : low ≤ high := by
  induction row generalizing low with
  | nil => exact h
  | cons n later ih => exact Nat.le_trans h.1 (Nat.le_trans h.2.1 (ih h.2.2))

/-- There may be more room on either side. -/
theorem mono (h : InRow low row high) (below : low' ≤ low) (above : high ≤ high') :
    InRow low' row high' := by
  induction row generalizing low low' with
  | nil => exact Nat.le_trans below (Nat.le_trans h above)
  | cons n later ih => exact ⟨Nat.le_trans below h.1, h.2.1, ih h.2.2 (Nat.le_refl _)⟩

/-- Each node of a row lies between its bounds. -/
theorem bounds (h : InRow low row high) {n : Node} (mem : n ∈ row) :
    low ≤ (start n).index ∧ (stop n).index ≤ high := by
  induction row generalizing low with
  | nil => exact absurd mem List.not_mem_nil
  | cons m later ih =>
    obtain ⟨before, across, behind⟩ := h
    rcases List.mem_cons.mp mem with rfl | mem
    · exact ⟨before, behind.le⟩
    · have inside := ih behind mem
      exact ⟨Nat.le_trans (Nat.le_trans before across) inside.1, inside.2⟩

/-- Of two nodes in a row the earlier one stops before the later one starts. -/
theorem pairwise (h : InRow low row high) :
    row.Pairwise fun n m => (stop n).index ≤ (start m).index := by
  induction row generalizing low with
  | nil => exact .nil
  | cons n later ih =>
    obtain ⟨before, across, behind⟩ := h
    exact .cons (fun m mem => (behind.bounds mem).1) (ih behind)

end InRow

/-- Whether the marks that a node stores itself lie between its children. -/
def Punctuated : Node → Prop
  | expr (.paren opening inner _) => opening < start inner
  | expr (.call function opening arguments _) =>
    (stop function).index ≤ opening.index ∧ ∀ x ∈ arguments, opening < start x
  | expr (.unary opPos _ operand) => opPos < start operand
  | expr (.binary left opPos _ right) =>
    (stop left).index ≤ opPos.index ∧ opPos < start right
  | _ => True

/-- Whether a node extends over a part of what lies before `bound`, with its children in a row. -/
structure Nested (bound : Nat) (n : Node) : Prop where
  start_pos : 1 ≤ (start n).index
  stop_le : (stop n).index ≤ bound
  row : InRow (start n).index n.children (stop n).index
  punctuated : n.Punctuated

end Node

end SheetFormula

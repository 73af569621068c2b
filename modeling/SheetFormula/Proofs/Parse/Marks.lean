import Mathlib.Tactic.Common
import SheetFormula.Proofs.Parse.Whole
import SheetFormula.Proofs.Tree.Nodes

/-!
# Marks are lexemes

A mark that is not demanded is only made where its own token stands (`Part.isCertain`). So whatever
the source, the names, the values, the operators and the parentheses that open expressions and
argument lists are, in their order, lexemes of the source: no lexeme stands for two of them, and
none is made up.

Main results:
* `Reading.certain_sublist`: the certain marks of what is read are lexemes of the source.
* `certain_marks_formula` and `certain_marks_parametersOnly`: this of the trees of the two whole
  productions.
-/

namespace SheetFormula

open Grammar

/-- Whether a mark is only made where its own token stands. -/
def Part.isCertain (p : Part) : Bool := !p.role.isDemanded

/-- A part that fits a certain mark is that mark. -/
theorem Part.Fits.eq_of_isCertain {excused : Nat → Prop} {own found : Part}
    (fits : own.Fits excused found) (certain : own.isCertain) : found = own := by
  refine fits.resolve_right ?_
  rintro ⟨demanded, -⟩
  simp [Part.isCertain, demanded] at certain

/-- What is read for certain marks is these marks. -/
theorem Shows.filter_isCertain {excused : Nat → Prop} {own parts : List Part}
    (h : Shows excused own parts) :
    own.filter Part.isCertain = (parts.filter Part.isMark).filter Part.isCertain := by
  have fits := h.marks
  clear h
  generalize parts.filter Part.isMark = found at fits ⊢
  induction fits with
  | nil => rfl
  | @cons m p own found first later ih =>
    have same : p.isCertain = m.isCertain := by
      rw [Part.isCertain, Part.isCertain, first.role_eq]
    by_cases certain : m.isCertain
    · rw [List.filter_cons_of_pos certain, List.filter_cons_of_pos (same.trans certain), ih,
        first.eq_of_isCertain certain]
    · rw [List.filter_cons_of_neg certain, List.filter_cons_of_neg (by rwa [same]), ih]

section

variable {α : Type} {reads : (Nat → Prop) → List Part → Prop} {lead : List Lexeme}
  {marks : List Part} {s : TokenStream} {ran : Outcome α}

/-- **The certain marks of what is read are lexemes of the source**, in their order. -/
theorem Reading.certain_sublist (reading : Reading reads lead ran) (start : s.Orderly)
    (leads : Journal.Leads s ran.journal ran.rest)
    (shown : ∀ excused parts, reads excused parts → Shows excused marks parts)
    (solid : ∀ m ∈ marks, m.lexeme.token.IsSolid) :
    ((marks.filter Part.isCertain).map Part.lexeme).Sublist s.lexemes := by
  obtain ⟨parts, consumed, read⟩ := reading.accounts (fun _ => True) fun _ _ => trivial
  have certain : ((marks.filter Part.isCertain).map Part.lexeme).Sublist ran.journal.consumed := by
    rw [consumed, (shown _ parts read).filter_isCertain]
    have among := ((parts.filter Part.isMark).filter_sublist (p := Part.isCertain)).trans
      (parts.filter_sublist (p := Part.isMark))
    exact (among.map Part.lexeme).trans (List.sublist_append_right ..)
  have more : ((marks.filter Part.isCertain).map Part.lexeme).filter (·.token ≠ .endOfFormula) =
      (marks.filter Part.isCertain).map Part.lexeme := by
    rw [List.filter_eq_self]
    intro l mem
    obtain ⟨m, mark, rfl⟩ := List.mem_map.mp mem
    exact decide_eq_true (solid m (List.mem_of_mem_filter mark)).2
  rw [leads.lexemes_eq start, ← more]
  exact (certain.filter _).trans (List.sublist_append_left ..)

end

variable {s : TokenStream}

/-- **The certain marks of a formula are lexemes of its source**, in their order. -/
theorem certain_marks_formula (start : s.Orderly) :
    (((formula.run s).value.marks.filter Part.isCertain).map Part.lexeme).Sublist s.lexemes := by
  have shaped : (formula.run s).value.Shaped fun _ _ => True :=
    shaped_formula fun _ _ _ _ _ _ => trivial
  exact (reading_formula start).certain_sublist start (leads_formula s)
    (fun _ => Expr.Reads.shows _) (Expr.Shaped.isSolid _ shaped)

/-- The entries of a list that is parsed have neither names nor tags. -/
theorem plain_parametersOnly (start : s.Orderly) :
    ∀ f ∈ (parametersOnly.run s).value.fields, f.names = [] ∧ f.tag = .none := by
  obtain ⟨parts, -, reads⟩ :=
    (reading_parametersOnly start).accounts (fun _ => True) (fun _ _ => trivial)
  exact reads.1

/-- **The certain marks of a parameter list are lexemes of its source**, in their order. -/
theorem certain_marks_parametersOnly (start : s.Orderly) :
    (((parametersOnly.run s).value.marks.filter Part.isCertain).map Part.lexeme).Sublist
      s.lexemes := by
  have shaped : ∀ f ∈ (parametersOnly.run s).value.fields, f.type.Shaped fun _ _ => True :=
    shaped_parametersOnly fun _ _ _ _ _ _ => trivial
  exact (reading_parametersOnly start).certain_sublist start (leads_parametersOnly s)
    (fun _ _ reads => reads.shows) (FieldList.isSolid (plain_parametersOnly start) shaped)

end SheetFormula

import Mathlib.Tactic.Common
import SheetFormula.Proofs.Parse.Derivation
import SheetFormula.Proofs.Tree.Shape

/-!
# The shape of what is parsed

Whatever the source, derivations make trees of the shape that the grammar gives them, and with no
leaf deeper than the room that they were given. The first is proved of operators in one loop: what
has been read so far binds at least as tightly as the operator in front, as otherwise that operator
would have been taken by an operand further to the left.

Main results:
* `Derives.shapes`: what is parsed is shaped, and where an operand is missing, a fault that says so
  has been noted (`AdmitsGaps`).
* `Derives.bounded`: nothing is parsed deeper than there is room, and where the room ends there are
  only missing operands.
-/

namespace SheetFormula

open Production Grammar

/-! ## Shape -/

/-- What a derivation of a phrase, which leaves the stream `t`, makes of the shape of its tree. -/
def Phrase.Shapes (missing : Pos → Pos → Prop) (s t : TokenStream) : Phrase → Prop
  | .expression _ x => x.Shaped missing
  | .climb _ least x =>
    x.Shaped missing ∧ x.BindsFrom least ∧ t.lookahead.token.precedence < least
  | .operators _ least left x =>
    left.Shaped missing → left.BindsFrom least → left.BindsFrom s.lookahead.token.precedence →
      x.Shaped missing ∧ x.BindsFrom least ∧ t.lookahead.token.precedence < least
  | .unary _ x => x.Shaped missing ∧ ¬ x.isBinary
  | .primary _ x => x.Shaped missing ∧ ¬ x.isOperation
  | .operand _ x =>
    x.Shaped missing ∧ ¬ x.isOperation ∧ (x.isBad → t.lookahead.token ≠ .openParen)
  | .calls _ function x =>
    function.Shaped missing → ¬ function.isOperation →
      (function.isBad → s.lookahead.token ≠ .openParen) → x.Shaped missing ∧ ¬ x.isOperation
  | .arguments _ xs => Expr.ShapedAll missing xs
  | .entries fields => ∀ f ∈ fields, f.type.Shaped missing

/-- Whether a fault tells of an operand that is missing. -/
def SyntaxFault.IsGap : SyntaxFault → Prop
  | .expected .operand (some _) | .nestingExceeded => True
  | _ => False

/-- Whether an operand may be missing at each lexeme of a stream at whose offset a fault that says
so has been noted. -/
def AdmitsGaps (missing : Pos → Pos → Prop) (noted : List (Nat × SyntaxFault))
    (s : TokenStream) : Prop :=
  ∀ n ∈ noted, n.2.IsGap → ∀ l ∈ s.lexemes, l.pos.offset = n.1 → missing l.pos l.pos

section Gaps

variable {missing : Pos → Pos → Prop} {noted later : List (Nat × SyntaxFault)} {s t : TokenStream}

/-- Where no fault is noted, nothing need be missing. -/
@[simp] theorem admitsGaps_nil : AdmitsGaps missing [] s :=
  fun _ mem => absurd mem List.not_mem_nil

/-- Faults one behind the other admit the gaps that each of them tells of. -/
@[simp] theorem admitsGaps_append :
    AdmitsGaps missing (noted ++ later) s ↔
      AdmitsGaps missing noted s ∧ AdmitsGaps missing later s :=
  List.forall_mem_append

/-- The first fault admits its gap, and the others theirs. -/
@[simp] theorem admitsGaps_cons {n : Nat × SyntaxFault} :
    AdmitsGaps missing (n :: later) s ↔
      AdmitsGaps missing [n] s ∧ AdmitsGaps missing later s := by
  rw [← admitsGaps_append]
  rfl

/-- What holds of a stream holds of what is left of it. -/
theorem AdmitsGaps.behind {journal : Journal} (gaps : AdmitsGaps missing noted s)
    (leads : Journal.Leads s journal t) : AdmitsGaps missing noted t :=
  fun n mem gap l ahead => gaps n mem gap l (leads.subset_lexemes.2 ahead)

/-- What holds of a stream holds behind the lexeme in front. -/
theorem AdmitsGaps.advance (gaps : AdmitsGaps missing noted s) :
    AdmitsGaps missing noted s.advance :=
  gaps.behind (.consume false (.nothing _))

/-- At the lexeme in front an operand may be missing if a fault says so of it. -/
theorem AdmitsGaps.in_front {fault : SyntaxFault}
    (gaps : AdmitsGaps missing [(s.lookahead.pos.offset, fault)] s) (gap : fault.IsGap) :
    missing s.lookahead.pos s.lookahead.pos :=
  gaps _ (List.mem_singleton.mpr rfl) gap _ s.mem_lexemes_lookahead rfl

end Gaps

variable {p : Phrase} {s t : TokenStream} {journal : Journal}

/-- **What is parsed is shaped**, and where an operand is missing, a fault that says so has been
noted. By induction on the derivation; in the loops what is held so far is shaped by assumption. -/
theorem Derives.shapes {missing : Pos → Pos → Prop} (h : Derives p s journal t)
    (binary : p.Binary) (gaps : AdmitsGaps missing journal.noted s) : p.Shapes missing s t := by
  induction h with
  | expression all ih =>
    rw [Journal.noted_around] at gaps
    exact (ih (Nat.succ_pos _) gaps).1
  | climb operand further ih ihLater =>
    simp only [Journal.noted_around, Journal.noted_append, admitsGaps_append] at gaps
    obtain ⟨shaped, single⟩ := ih trivial gaps.1
    have tight := Expr.bindsFrom_of_not_isBinary single
    exact ihLater binary (gaps.2.behind operand.leads) shaped (tight _) (tight _)
  | noOperator loose => exact fun shaped tight _ => ⟨shaped, tight, Nat.lt_of_not_le loose⟩
  | @operator room least s m t left right x first later binds operand further ih ihLater =>
    intro shaped tight front
    simp only [Journal.noted_taking, Journal.noted_append, admitsGaps_append] at gaps
    obtain ⟨shapedRight, tightRight, behind⟩ := ih (Nat.succ_pos _) gaps.1.advance
    have positive : 1 ≤ s.lookahead.token.precedence := Nat.le_trans binary binds
    exact ihLater binary (gaps.2.advance.behind operand.leads)
      ⟨positive, front, tightRight, shaped, shapedRight⟩ binds
      (Nat.le_of_lt_succ behind)
  | tooDeep => exact ⟨gaps.in_front trivial, Bool.false_ne_true⟩
  | prefixed operator operand ih =>
    simp only [Journal.noted_around, Journal.noted_taking] at gaps
    obtain ⟨shaped, single⟩ := ih trivial gaps.advance
    exact ⟨⟨operator, single, shaped⟩, Bool.false_ne_true⟩
  | plain none operand ih =>
    rw [Journal.noted_around] at gaps
    obtain ⟨shaped, single⟩ := ih trivial gaps
    exact ⟨shaped, Expr.not_isBinary_of_not_isOperation single⟩
  | primary operand further ih ihLater =>
    simp only [Journal.noted_around, Journal.noted_append, admitsGaps_append] at gaps
    obtain ⟨shaped, single, open_⟩ := ih trivial gaps.1
    exact ihLater trivial (gaps.2.behind operand.leads) shaped single open_
  | noCall other => exact fun shaped single _ => ⟨shaped, single⟩
  | @call room s m t function x xs inner later opening list further ih ihLater =>
    intro shaped single open_
    simp only [Journal.noted_append, Journal.noted_around, Journal.noted_taking,
      admitsGaps_append] at gaps
    have present : ¬ function.isBad := fun missing => open_ missing opening
    have arguments := ih trivial gaps.1.1.advance
    exact ihLater trivial (gaps.2.advance.behind list.leads).advance
      ⟨single, present, shaped, arguments⟩
      Bool.false_ne_true fun missing => absurd missing Bool.false_ne_true
  | noArgument last => trivial
  | lastArgument more argument last ih => exact ⟨ih trivial gaps, trivial⟩
  | argument more argument comma further ih ihLater =>
    simp only [Journal.noted_append, Journal.noted_taking, admitsGaps_append] at gaps
    exact ⟨ih trivial gaps.1, ihLater trivial (gaps.2.behind argument.leads).advance⟩
  | strayArgument more argument stray further ih ihLater =>
    simp only [Journal.noted_append, Journal.noted_noting, Journal.noted_taking,
      admitsGaps_append] at gaps
    have further := (admitsGaps_cons.mp gaps.2).2
    exact ⟨ih trivial gaps.1, ihLater trivial (further.behind argument.leads).advance⟩
  | ident name =>
    exact ⟨trivial, Bool.false_ne_true, fun missing => absurd missing Bool.false_ne_true⟩
  | literal value =>
    exact ⟨value, Bool.false_ne_true, fun missing => absurd missing Bool.false_ne_true⟩
  | paren opening content ih =>
    simp only [Journal.noted_around, Journal.noted_taking, Journal.noted_append,
      admitsGaps_append] at gaps
    exact ⟨ih trivial gaps.1.advance, Bool.false_ne_true,
      fun missing => absurd missing Bool.false_ne_true⟩
  | missing other => exact ⟨gaps.in_front trivial, Bool.false_ne_true, fun _ => other.2.2⟩
  | lastEntry type last ih =>
    intro f mem
    obtain rfl := List.mem_singleton.mp mem
    exact ih trivial gaps
  | trailedEntry type comma last ih =>
    simp only [Journal.noted_append, admitsGaps_append] at gaps
    intro f mem
    obtain rfl := List.mem_singleton.mp mem
    exact ih trivial gaps.1
  | entry type comma more further ih ihLater =>
    simp only [Journal.noted_append, Journal.noted_taking, admitsGaps_append] at gaps
    intro f mem
    rcases List.mem_cons.mp mem with rfl | mem
    · exact ih trivial gaps.1
    · exact ihLater trivial (gaps.2.behind type.leads).advance f mem

/-! ## Levels -/

/-- Whether no leaf of an expression stands more than `room` levels deeper than the expression, nor
any that deep that is not a missing operand. -/
def Expr.Within (room : Nat) (x : Expr) : Prop :=
  ∀ level, ∀ leaf ∈ x.leavesAt level,
    leaf.2 ≤ level + room ∧ (¬ leaf.1.isBad → leaf.2 < level + room)

/-- Whether all leaves of expressions stand within some room. -/
def Expr.WithinAll (room : Nat) (xs : List Expr) : Prop :=
  ∀ level, ∀ leaf ∈ leavesAllAt level xs,
    leaf.2 ≤ level + room ∧ (¬ leaf.1.isBad → leaf.2 < level + room)

namespace Expr

variable {room : Nat} {x y : Expr} {xs : List Expr}

/-- A leaf needs room for itself. -/
theorem within_of_leaf (single : ∀ level, x.leavesAt level = [(x, level)]) :
    x.Within (room + 1) := by
  intro level leaf mem
  rw [single] at mem
  obtain rfl := List.mem_singleton.mp mem
  exact ⟨Nat.le_add_right .., fun _ => Nat.lt_add_of_pos_right (Nat.succ_pos _)⟩

/-- One more level takes one more of the room. -/
theorem within_of_deeper (deeper : ∀ level, x.leavesAt level = y.leavesAt (level + 1))
    (inside : y.Within room) : x.Within (room + 1) := by
  intro level leaf mem
  rw [deeper] at mem
  have bounds := inside (level + 1) leaf mem
  rwa [Nat.add_right_comm] at bounds

/-- An operation stands at the level of its operands. -/
theorem within_binary {p : Pos} {op : Token} (left : x.Within room) (right : y.Within room) :
    (binary x p op y).Within room := by
  intro level leaf mem
  rcases List.mem_append.mp mem with first | second
  · exact left level leaf first
  · exact right level leaf second

/-- A call takes a level for its arguments, but not for its function. -/
theorem within_call {p q : Pos} (function : x.Within (room + 1)) (list : WithinAll room xs) :
    (call x p xs q).Within (room + 1) := by
  intro level leaf mem
  rcases List.mem_append.mp mem with first | second
  · exact function level leaf first
  · have bounds := list (level + 1) leaf second
    rwa [Nat.add_right_comm] at bounds

/-- No expressions need no room. -/
theorem withinAll_nil : WithinAll room [] := fun _ _ mem => absurd mem List.not_mem_nil

/-- The first expression needs its room, and the others theirs. -/
theorem withinAll_cons (first : x.Within room) (rest : WithinAll room xs) :
    WithinAll room (x :: xs) := by
  intro level leaf mem
  rcases List.mem_append.mp mem with front | back
  · exact first level leaf front
  · exact rest level leaf back

end Expr

/-- How deep the leaves of the tree of a phrase may stand. What stands in an argument list or in
parentheses has one level less. -/
def Phrase.Bounded : Phrase → Prop
  | .expression room x | .climb room _ x | .unary room x => x.Within room
  | .operators room _ left x => left.Within room → x.Within room
  | .primary room x | .operand room x => x.Within (room + 1)
  | .calls room function x => function.Within (room + 1) → x.Within (room + 1)
  | .arguments room xs => Expr.WithinAll room xs
  | .entries fields => ∀ f ∈ fields, f.type.Within nestingLimit

/-- **Nothing is parsed deeper than there is room**, and where the room ends there are only missing
operands. -/
theorem Derives.bounded (h : Derives p s journal t) : p.Bounded := by
  induction h with
  | expression all ih => exact ih
  | climb operand further ih ihLater => exact ihLater ih
  | noOperator loose => exact id
  | operator binds operand further ih ihLater =>
    intro left
    exact ihLater (Expr.within_binary left ih)
  | tooDeep =>
    intro level leaf mem
    obtain rfl := List.mem_singleton.mp mem
    exact ⟨Nat.le_refl _, fun present => absurd rfl present⟩
  | prefixed operator operand ih => exact Expr.within_of_deeper (fun _ => rfl) ih
  | plain none operand ih => exact ih
  | primary operand further ih ihLater => exact ihLater ih
  | noCall other => exact id
  | call opening list further ih ihLater =>
    intro function
    exact ihLater (Expr.within_call function ih)
  | noArgument last => exact Expr.withinAll_nil
  | lastArgument more argument last ih => exact Expr.withinAll_cons ih Expr.withinAll_nil
  | argument more argument comma further ih ihLater => exact Expr.withinAll_cons ih ihLater
  | strayArgument more argument stray further ih ihLater => exact Expr.withinAll_cons ih ihLater
  | ident name => exact Expr.within_of_leaf fun _ => rfl
  | literal value => exact Expr.within_of_leaf fun _ => rfl
  | paren opening content ih => exact Expr.within_of_deeper (fun _ => rfl) ih
  | missing other => exact Expr.within_of_leaf fun _ => rfl
  | lastEntry type last ih =>
    intro f mem
    obtain rfl := List.mem_singleton.mp mem
    exact ih
  | trailedEntry type comma last ih =>
    intro f mem
    obtain rfl := List.mem_singleton.mp mem
    exact ih
  | entry type comma more further ih ihLater =>
    intro f mem
    rcases List.mem_cons.mp mem with rfl | mem
    · exact ih
    · exact ihLater f mem

end SheetFormula

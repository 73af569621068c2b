import Mathlib.Tactic.Common
import SheetFormula.Proofs.Location.LineTable

/-!
# Looking lines up

A line table ascends, and an offset is on the last line that starts at or before it. Whoever looks
the offset itself up in the table gets one of two answers, the index at which it is or the index at
which it is missing. Both tell the line, but the second one is an index too far.

Main results:
* `Lookup.line_eq`: a hit and a miss tell the same line.
* `Location.line_inLines`: the line of an offset is the number of entries that are at most the
  offset.
* `Location.column_inLines`: its column counts from the last of these.
* `Location.column_inLines_of_none`: if there are none, it is on the first line all the same, and
  its column depends on whether there is an entry at all.
* `Location.line_table_counts`: all of this of any ascending table.
-/

namespace SheetFormula

/-! ## Hits and misses -/

/-- What comes of looking a number up in an ascending array: the index at which it is, or the index
at which it would have to be put in. -/
inductive Lookup
  | hit (index : Nat)
  | miss (index : Nat)
  deriving DecidableEq, Repr

namespace Lookup

variable {entries : Array Nat} {x : Nat}

/-- Whether an answer is right. -/
def Finds (entries : Array Nat) (x : Nat) : Lookup → Prop
  | hit index => entries[index]? = some x
  | miss index => x ∉ entries.toList ∧ Ascending.Splits entries x index

/-- The index of the line that an answer tells: that of the number itself, or the one before the
number would be. If nothing is before, it is the first one. -/
def line : Lookup → Nat
  | hit index => index
  | miss index => index - 1

/-- The entries that are at most a number which is hit end with that one. -/
theorem splits_of_hit (ascending : entries.toList.Pairwise (· < ·)) {index : Nat}
    (found : (hit index).Finds entries x) : Ascending.Splits entries x (index + 1) := by
  obtain ⟨inside, same⟩ := Array.getElem?_eq_some_iff.mp found
  have here : entries.getD index 0 = x := by
    rw [Ascending.getD_eq_getElem inside, Array.getElem_toList, same]
  refine ⟨inside, ?_, ?_⟩
  · intro i lt
    have weak := ascending.imp Nat.le_of_lt
    exact here ▸ Ascending.getD_le_getD weak (Nat.le_of_lt_succ lt) inside
  · intro i le lt
    rw [← here, Ascending.getD_eq_getElem inside, Ascending.getD_eq_getElem lt]
    exact List.pairwise_iff_getElem.mp ascending index i inside lt le

/-- **A hit and a miss tell the same line**, the last one of those that start at or before the
number. -/
theorem line_eq (ascending : entries.toList.Pairwise (· < ·)) {answer : Lookup}
    (found : answer.Finds entries x) : answer.line = entries.toList.countP (· ≤ x) - 1 := by
  cases answer with
  | hit index => rw [line, ← (splits_of_hit ascending found).eq_countP, Nat.add_sub_cancel]
  | miss index => rw [line, ← found.2.eq_countP]

end Lookup

/-! ## Counting lines -/

namespace Location

variable {starts : Array Nat}

/-- The line of an offset is the number of lines that start at or before it, and the first if there
are none. -/
theorem line_inLines (ascending : starts.toList.Pairwise (· < ·)) (offset : Nat) :
    (inLines starts offset).line = max 1 (starts.toList.countP (· ≤ offset)) := by
  have count := Ascending.countUpTo_eq_countP (ascending.imp Nat.le_of_lt) offset
  rw [inLines, count]
  dsimp only
  omega

/-- The column of an offset counts from the last line that starts at or before it. -/
theorem column_inLines (ascending : starts.toList.Pairwise (· < ·)) {offset : Nat}
    (counted : 1 ≤ starts.toList.countP (· ≤ offset)) :
    ∃ start, starts[starts.toList.countP (· ≤ offset) - 1]? = some start ∧ start ≤ offset ∧
      (inLines starts offset).column = offset - start + 1 := by
  have split := Ascending.splits_countUpTo (ascending.imp Nat.le_of_lt) offset
  rw [inLines]
  rw [← split.eq_countP] at counted ⊢
  have inside : Ascending.countUpTo starts offset - 1 < starts.size := by
    have within := split.le_size
    omega
  refine ⟨starts.getD (Ascending.countUpTo starts offset - 1) 0, ?_, ?_, rfl⟩
  · rw [Ascending.getD_eq_getElem inside, Array.getElem_toList]
    exact Array.getElem?_eq_getElem inside
  · exact split.atMost _ (by omega)

/-- In front of all lines every offset is at the first column, unless there are no lines. -/
theorem column_inLines_of_none (ascending : starts.toList.Pairwise (· < ·)) {offset : Nat}
    (none : starts.toList.countP (· ≤ offset) = 0) :
    (inLines starts offset).column = if starts = #[] then offset + 1 else 1 := by
  have split := Ascending.splits_countUpTo (ascending.imp Nat.le_of_lt) offset
  have count : Ascending.countUpTo starts offset = 0 := split.eq_countP.trans none
  rw [inLines, count, Nat.zero_sub]
  split_ifs with empty
  · rw [empty]
    rfl
  · have inside : 0 < starts.size := Array.size_pos_iff.mpr empty
    have later := split.above 0 (Nat.le_of_eq count) inside
    dsimp only
    omega

/-- **A line table counts lines.** Of any offset, and by any ascending table of offsets at which
lines start, even one that does not begin at zero or is empty, the location has that offset, and as
its line the number of starts that are at most the offset, or the first line if there are none. The
column counts from the last of these starts. Without any it is the first one, or one more than the
offset if the table is empty. Looking the offset up in the table tells the same line, whether it is
hit or missed. -/
theorem line_table_counts (starts : Array Nat) (ascending : starts.toList.Pairwise (· < ·))
    (offset : Nat) :
    let here := inLines starts offset
    let count := starts.toList.countP (· ≤ offset)
    here.offset = offset ∧ here.line = max 1 count ∧
      (1 ≤ count → ∃ start, starts[count - 1]? = some start ∧ start ≤ offset ∧
        here.column = offset - start + 1) ∧
      (count = 0 → here.column = if starts = #[] then offset + 1 else 1) ∧
      ∀ answer : Lookup, answer.Finds starts offset → here.line = answer.line + 1 := by
  intro here count
  have line : here.line = max 1 count := line_inLines ascending offset
  refine ⟨rfl, line, column_inLines ascending, column_inLines_of_none ascending, ?_⟩
  intro answer found
  have same := Lookup.line_eq ascending found
  omega

/-- Three offsets and a table that does not begin at zero: one in front of the first line, one
inside it, which the table does not have, and one at which the second line starts. -/
theorem line_table_counts_headless :
    let starts : Array Nat := #[3, 7, 8]
    starts.toList.Pairwise (· < ·) ∧
      ((inLines starts 2).line = 1 ∧ (inLines starts 2).column = 1) ∧
      ((Lookup.miss 1).Finds starts 5 ∧ (inLines starts 5).line = 1 ∧
        (inLines starts 5).column = 3) ∧
      ((Lookup.hit 1).Finds starts 7 ∧ (inLines starts 7).line = 2 ∧
        (inLines starts 7).column = 1) := by
  intro starts
  have ascending : starts.toList.Pairwise (· < ·) := by decide
  have missing : (Lookup.miss 1).Finds starts 5 := by
    have later : ∀ i < 3, 1 ≤ i → 5 < starts.getD i 0 := by decide
    exact ⟨by decide, by decide, by decide, fun i le lt => later i lt le⟩
  have present : (Lookup.hit 1).Finds starts 7 := rfl
  obtain ⟨-, first, -, front, -⟩ := line_table_counts starts ascending 2
  obtain ⟨-, -, within, -, miss⟩ := line_table_counts starts ascending 5
  obtain ⟨-, -, upon, -, hit⟩ := line_table_counts starts ascending 7
  obtain ⟨_, start₅, -, column₅⟩ := within (by decide)
  obtain ⟨_, start₇, -, column₇⟩ := upon (by decide)
  cases start₅
  cases start₇
  exact ⟨ascending, ⟨first, front (by decide)⟩, ⟨missing, miss _ missing, column₅⟩,
    present, hit _ present, column₇⟩

end Location

end SheetFormula

import Mathlib.Data.List.Induction
import Mathlib.Tactic.Common
import SheetFormula.Location

/-!
# Lines of a source

The lines of some bytes start at offset zero and right behind each line feed (`Location.lineTable`).
An offset that is looked up in a line table has the line and the column that reading up to it finds;
how far the table reaches beyond the offset does not matter.

Main results:
* `Ascending.countUpTo_eq_countP`: bisection counts the entries of an ascending array that are at
  most a given one.
* `Location.inSource_eq`: reading up to an offset counts the lines that start in front of it.
* `Location.inLines_lineTable`: the line table finds what reading finds.
-/

namespace SheetFormula

/-! ## Bisection -/

namespace Ascending

variable {entries : Array Nat} {x : Nat}

/-- Whether the first `n` entries are at most `x`, and all others above it. -/
structure Splits (entries : Array Nat) (x n : Nat) : Prop where
  le_size : n ≤ entries.size
  atMost : ∀ i < n, entries.getD i 0 ≤ x
  above : ∀ i, n ≤ i → i < entries.size → x < entries.getD i 0

/-- Inside the array the entry is there. -/
theorem getD_eq_getElem {i : Nat} (inside : i < entries.size) :
    entries.getD i 0 = entries.toList[i] := by
  rw [Array.getD_eq_getD_getElem?, Array.getElem?_eq_getElem inside, Option.getD_some,
    Array.getElem_toList]

/-- A later entry is not smaller. -/
theorem getD_le_getD (ascending : entries.toList.Pairwise (· ≤ ·)) {i j : Nat} (le : i ≤ j)
    (inside : j < entries.size) : entries.getD i 0 ≤ entries.getD j 0 := by
  have before : i < entries.size := Nat.lt_of_le_of_lt le inside
  rw [getD_eq_getElem before, getD_eq_getElem inside]
  rcases Nat.eq_or_lt_of_le le with rfl | lt
  · exact Nat.le_refl _
  · exact List.pairwise_iff_getElem.mp ascending i j before inside lt

/-- **Bisection finds the split**, if the window holds it. By induction on the window: the middle
entry tells which half the split is in. -/
theorem splits_countWithin (ascending : entries.toList.Pairwise (· ≤ ·)) {low high : Nat}
    (window : low ≤ high) (inside : high ≤ entries.size)
    (atMost : ∀ i < low, entries.getD i 0 ≤ x)
    (above : ∀ i, high ≤ i → i < entries.size → x < entries.getD i 0) :
    Splits entries x (countWithin entries x low high) := by
  fun_induction countWithin entries x low high with
  | case1 low high nonempty middle small ih =>
    apply ih (by omega) inside _ above
    intro i lt
    exact Nat.le_trans (getD_le_getD ascending (by omega) (by omega)) small
  | case2 low high nonempty middle large ih =>
    apply ih (by omega) (by omega) atMost
    intro i le lt
    exact Nat.lt_of_lt_of_le (by omega) (getD_le_getD ascending le lt)
  | case3 low high empty =>
    refine ⟨by omega, atMost, ?_⟩
    intro i le lt
    exact above i (by omega) lt

/-- The split is at the number of entries that are at most `x`. -/
theorem Splits.eq_countP {n : Nat} (split : Splits entries x n) :
    n = entries.toList.countP (· ≤ x) := by
  obtain ⟨inside, atMost, above⟩ := split
  have front : (entries.toList.take n).countP (· ≤ x) = (entries.toList.take n).length := by
    apply List.countP_eq_length.mpr
    intro entry mem
    obtain ⟨i, lt, rfl⟩ := List.mem_take_iff_getElem.mp mem
    rw [Array.length_toList] at lt
    have small := atMost i (by omega)
    rw [getD_eq_getElem (by omega)] at small
    exact decide_eq_true small
  have back : (entries.toList.drop n).countP (· ≤ x) = 0 := by
    apply List.countP_eq_zero.mpr
    intro entry mem
    obtain ⟨i, lt, rfl⟩ := List.mem_drop_iff_getElem.mp mem
    rw [Array.length_toList] at lt
    have large := above (n + i) (by omega) (by omega)
    rw [getD_eq_getElem (by omega)] at large
    simpa using large
  have whole := congrArg (List.countP (· ≤ x)) (List.take_append_drop n entries.toList)
  rw [List.countP_append, front, back, List.length_take, Array.length_toList] at whole
  omega

/-- Bisection finds the split of an ascending array. -/
theorem splits_countUpTo (ascending : entries.toList.Pairwise (· ≤ ·)) (x : Nat) :
    Splits entries x (countUpTo entries x) := by
  apply splits_countWithin ascending (Nat.zero_le _) (Nat.le_refl _)
  · intro i lt
    exact absurd lt (Nat.not_lt_zero i)
  · intro i le lt
    omega

/-- **Bisection counts**: in an ascending array it finds how many entries are at most `x`. -/
theorem countUpTo_eq_countP (ascending : entries.toList.Pairwise (· ≤ ·)) (x : Nat) :
    countUpTo entries x = entries.toList.countP (· ≤ x) :=
  (splits_countUpTo ascending x).eq_countP

end Ascending

/-! ## Line tables -/

namespace Location

/-- The offsets right behind the line feeds of some bytes, the first of which is at `offset`. -/
def breaksFrom (offset : Nat) : List UInt8 → List Nat
  | [] => []
  | b :: rest =>
    if b = lineFeed then (offset + 1) :: breaksFrom (offset + 1) rest
    else breaksFrom (offset + 1) rest

/-- The offsets at which the lines of some bytes start: zero, and right behind each line feed. -/
def lineTable (bytes : List UInt8) : List Nat := 0 :: breaksFrom 0 bytes

/-- The line feeds of two parts are those of the one and those of the other. -/
theorem breaksFrom_append (offset : Nat) (first later : List UInt8) :
    breaksFrom offset (first ++ later) =
      breaksFrom offset first ++ breaksFrom (offset + first.length) later := by
  induction first generalizing offset with
  | nil => rfl
  | cons b first ih =>
    have further : offset + (first.length + 1) = offset + 1 + first.length := by omega
    simp only [List.cons_append, breaksFrom, ih, List.length_cons, further]
    split <;> rfl

/-- Bytes without a line feed start no line. -/
theorem breaksFrom_eq_nil {bytes : List UInt8} (unbroken : lineFeed ∉ bytes) (offset : Nat) :
    breaksFrom offset bytes = [] := by
  induction bytes generalizing offset with
  | nil => rfl
  | cons b bytes ih =>
    rw [List.mem_cons, not_or] at unbroken
    rw [breaksFrom, if_neg (Ne.symm unbroken.1), ih unbroken.2]

/-- Lines start behind the first byte and not behind the end. -/
theorem bounds_breaksFrom {offset start : Nat} {bytes : List UInt8}
    (mem : start ∈ breaksFrom offset bytes) : offset < start ∧ start ≤ offset + bytes.length := by
  induction bytes generalizing offset with
  | nil => exact absurd mem List.not_mem_nil
  | cons b bytes ih =>
    rw [List.length_cons]
    rw [breaksFrom] at mem
    split at mem
    · rcases List.mem_cons.mp mem with rfl | later
      · omega
      · have := ih later
        omega
    · have := ih mem
      omega

/-- Lines start one behind the other. -/
theorem pairwise_breaksFrom (offset : Nat) (bytes : List UInt8) :
    (breaksFrom offset bytes).Pairwise (· < ·) := by
  induction bytes generalizing offset with
  | nil => exact .nil
  | cons b bytes ih =>
    rw [breaksFrom]
    split
    · exact .cons (fun start mem => (bounds_breaksFrom mem).1) (ih _)
    · exact ih _

/-- A line table ascends. -/
theorem pairwise_lineTable (bytes : List UInt8) : (lineTable bytes).Pairwise (· < ·) := by
  refine .cons (fun start mem => ?_) (pairwise_breaksFrom 0 bytes)
  exact (bounds_breaksFrom mem).1

/-- No line of some bytes starts behind their end. -/
theorem le_of_mem_lineTable {bytes : List UInt8} {start : Nat} (mem : start ∈ lineTable bytes) :
    start ≤ bytes.length := by
  rcases List.mem_cons.mp mem with rfl | later
  · exact Nat.zero_le _
  · have bounds := bounds_breaksFrom later
    omega

/-- A line table has a last entry. -/
theorem getLast?_lineTable (bytes : List UInt8) :
    (lineTable bytes).getLast? = some ((lineTable bytes).getLastD 0) := by
  rw [lineTable, List.getLast?_cons, List.getLastD_cons, List.getLastD_eq_getLast?]

/-- The last line of some bytes starts inside them or at their end. -/
theorem getLastD_lineTable_le (bytes : List UInt8) :
    (lineTable bytes).getLastD 0 ≤ bytes.length :=
  le_of_mem_lineTable (List.mem_of_getLast? (getLast?_lineTable bytes))

/-- Further bytes add the lines that they start. -/
theorem lineTable_append (first later : List UInt8) :
    lineTable (first ++ later) = lineTable first ++ breaksFrom first.length later := by
  rw [lineTable, breaksFrom_append, Nat.zero_add]
  rfl

/-- **Reading up to an offset counts lines**: its line is the number of lines that start in front of
it, and its column counts from the last of them on. -/
theorem inSource_eq (source : List UInt8) (offset : Nat) :
    inSource source offset =
      ⟨(source.take offset).length, (lineTable (source.take offset)).length,
        (source.take offset).length - (lineTable (source.take offset)).getLastD 0 + 1⟩ := by
  rw [inSource]
  generalize source.take offset = bytes
  induction bytes using List.reverseRecOn with
  | nil => rfl
  | append_singleton bytes b ih =>
    rw [List.foldl_append, ih, lineTable_append, List.length_append, List.length_append]
    simp only [List.foldl_cons, List.foldl_nil, step, breaksFrom]
    by_cases breaks : b = lineFeed
    · simp [breaks]
    · have started := getLastD_lineTable_le bytes
      simp only [breaks, if_false, List.append_nil, List.length_cons, List.length_nil]
      congr 1
      omega

/-- **The line table finds what reading finds**, as far as it reaches. -/
theorem inLines_lineTable {source before after : List UInt8} (source_eq : source = before ++ after)
    {offset : Nat} (reached : offset ≤ before.length) :
    inLines (lineTable before).toArray offset = inSource source offset := by
  have front : source.take offset = before.take offset := by
    rw [source_eq, List.take_append_of_le_length reached]
  have length : (before.take offset).length = offset := List.length_take_of_le reached
  have split : lineTable before =
      lineTable (before.take offset) ++ breaksFrom offset (before.drop offset) := by
    conv_lhs => rw [← List.take_append_drop offset before, lineTable_append, length]
  have started : (lineTable (before.take offset)).countP (· ≤ offset) =
      (lineTable (before.take offset)).length := by
    apply List.countP_eq_length.mpr
    intro start mem
    exact decide_eq_true (length ▸ le_of_mem_lineTable mem)
  -- A line break at `offset` itself starts the line behind it, so it does not count yet.
  have further : (breaksFrom offset (before.drop offset)).countP (· ≤ offset) = 0 := by
    apply List.countP_eq_zero.mpr
    intro start mem
    have bounds := bounds_breaksFrom mem
    simpa using bounds.1
  have count : Ascending.countUpTo (lineTable before).toArray offset =
      (lineTable (before.take offset)).length := by
    have ascending : (lineTable before).toArray.toList.Pairwise (· ≤ ·) :=
      (pairwise_lineTable before).imp Nat.le_of_lt
    rw [Ascending.countUpTo_eq_countP ascending, split, List.countP_append, started, further,
      Nat.add_zero]
  have lines : 0 < (lineTable (before.take offset)).length := Nat.succ_pos _
  have last : (lineTable before).toArray.getD ((lineTable (before.take offset)).length - 1) 0 =
      (lineTable (before.take offset)).getLastD 0 := by
    rw [Array.getD_eq_getD_getElem?, List.getElem?_toArray, split,
      List.getElem?_append_left (by omega), ← List.getLast?_eq_getElem?,
      List.getLastD_eq_getLast?]
  rw [inSource_eq, front, length, inLines, count, last, Nat.sub_add_cancel lines]

end Location

end SheetFormula

import Mathlib.Data.List.Basic
import Mathlib.Data.List.Induction
import Mathlib.Tactic.Common
import SheetFormula.Proofs.Location.LineTable

/-!
# Lines and columns in order

Each byte that is read moves a location on, to the next column or to the next line. So the locations
of a source come in the order of its offsets, line before column. And an offset can be had back from
its line and column, as lines start right behind line feeds and have none inside.

Main results:
* `Location.before_step` and `Location.before_of_lt`: locations come in the order of offsets.
* `Location.exists_lineStart`: line and column tell where an offset is.
* `Location.locations_identify_offsets`: no two offsets in a source have the same line and column,
  and each can be had back from them.
-/

namespace SheetFormula.Location

/-! ## Line starts and line feeds -/

/-- Behind zero, a line table has the offsets right behind the line feeds. -/
theorem lineTable_eq_idxsOf (bytes : List UInt8) :
    lineTable bytes = 0 :: (bytes.idxsOf lineFeed).map (· + 1) := by
  have breaks (offset : Nat) :
      breaksFrom offset bytes = (bytes.idxsOf lineFeed offset).map (· + 1) := by
    induction bytes generalizing offset with
    | nil => rfl
    | cons b bytes ih =>
      rw [breaksFrom, List.idxsOf_cons, ih]
      by_cases breaks : b = lineFeed <;> simp [breaks]
  rw [lineTable, breaks]

/-- Some bytes have one line more than line feeds. -/
theorem length_lineTable (bytes : List UInt8) :
    (lineTable bytes).length = 1 + bytes.count lineFeed := by
  rw [lineTable_eq_idxsOf, List.length_cons, List.length_map, List.length_idxsOf, Nat.add_comm]

/-- Behind the start of the last line there is no line feed. -/
theorem lineFeed_notMem_lastLine (bytes : List UInt8) :
    lineFeed ∉ bytes.drop ((lineTable bytes).getLastD 0) := by
  induction bytes using List.reverseRecOn with
  | nil => exact List.not_mem_nil
  | append_singleton bytes b ih =>
    rw [lineTable_append]
    by_cases breaks : b = lineFeed
    · simp [breaksFrom, breaks]
    · have unbroken : lineFeed ∉ [b] := by simpa using Ne.symm breaks
      rw [breaksFrom_eq_nil unbroken, List.append_nil,
        List.drop_append_of_le_length (getLastD_lineTable_le bytes), List.mem_append]
      exact not_or.mpr ⟨ih, unbroken⟩

/-- **The location of an offset tells where it is**: the last line that starts in front of it starts
as many bytes before as the column says, and there is no line feed in between. -/
theorem exists_lineStart (source : List UInt8) (offset : Nat) :
    ∃ start, (lineTable source)[(inSource source offset).line - 1]? = some start ∧
      (inSource source offset).offset = (inSource source offset).column - 1 + start ∧
      lineFeed ∉ (source.take offset).drop start := by
  have last := getLast?_lineTable (source.take offset)
  have started := getLastD_lineTable_le (source.take offset)
  have unbroken := lineFeed_notMem_lastLine (source.take offset)
  rw [inSource_eq]
  refine ⟨(lineTable (source.take offset)).getLastD 0, ?_, ?_, unbroken⟩
  · have split := lineTable_append (source.take offset) (source.drop offset)
    rw [List.take_append_drop] at split
    have nonempty : 0 < (lineTable (source.take offset)).length := Nat.succ_pos _
    dsimp only
    rw [split, List.getElem?_append_left (Nat.sub_lt nonempty Nat.one_pos),
      ← List.getLast?_eq_getElem?, last]
  · dsimp only
    omega

/-! ## Reading on -/

/-- Whether a location comes before another one: on an earlier line, or in front of it on the same
line. -/
def Before (here there : Location) : Prop :=
  here.line < there.line ∨ here.line = there.line ∧ here.column < there.column

instance (here there : Location) : Decidable (here.Before there) :=
  inferInstanceAs (Decidable (_ ∨ _))

variable {here there beyond : Location}

/-- The order of locations is transitive. -/
theorem Before.trans (first : here.Before there) (second : there.Before beyond) :
    here.Before beyond := by
  unfold Before at first second ⊢
  omega

/-- A location that comes before another one differs from it in line or column. -/
theorem Before.ne (before : here.Before there) :
    ¬(here.line = there.line ∧ here.column = there.column) := by
  unfold Before at before
  omega

/-- **Each byte moves a location on.** -/
theorem before_step (here : Location) (b : UInt8) : here.Before (here.step b) := by
  unfold Before step
  split
  · exact .inl (Nat.lt_succ_self _)
  · exact .inr ⟨rfl, Nat.lt_succ_self _⟩

/-- Reading on by at least one byte moves a location on. -/
theorem before_foldl (here : Location) {bytes : List UInt8} (some_ : bytes ≠ []) :
    here.Before (bytes.foldl step here) := by
  induction bytes generalizing here with
  | nil => exact absurd rfl some_
  | cons b bytes ih =>
    cases bytes with
    | nil => exact before_step here b
    | cons c bytes => exact (before_step here b).trans (ih _ (List.cons_ne_nil c bytes))

/-- **Locations come in the order of offsets**, inside a source. -/
theorem before_of_lt {source : List UInt8} {a b : Nat} (lt : a < b)
    (inside : b ≤ source.length) : (inSource source a).Before (inSource source b) := by
  have split : source.take b = source.take a ++ (source.drop a).take (b - a) := by
    rw [← List.take_add, Nat.add_sub_of_le (Nat.le_of_lt lt)]
  have further : (source.drop a).take (b - a) ≠ [] := by
    rw [← List.length_pos_iff, List.length_take, List.length_drop]
    omega
  rw [inSource, inSource, split, List.foldl_append]
  exact before_foldl _ further

/-- **Line and column identify an offset.** Of two offsets in a source the smaller one has the
earlier location, line before column, so that no two of them share line and column. Of any offset,
inside the source or not, the location tells the offset itself or the end of the source if that
comes first; its line is one more than the number of line feeds in front of it; and it stands as
many bytes behind the line feed that ends the line before, or behind the start of the source on the
first line, as there are columns in front of its own, with no line feed among these. -/
theorem locations_identify_offsets (source : List UInt8) :
    (∀ a b, a < b → b ≤ source.length → (inSource source a).Before (inSource source b)) ∧
    (∀ a b, a ≤ source.length → b ≤ source.length → a ≠ b →
      ¬((inSource source a).line = (inSource source b).line ∧
        (inSource source a).column = (inSource source b).column)) ∧
    ∀ offset, let here := inSource source offset
      here.offset = min offset source.length ∧
      here.line = 1 + (source.take here.offset).count lineFeed ∧
      0 < here.column ∧
      (∃ start, (0 :: (source.idxsOf lineFeed).map (· + 1))[here.line - 1]? = some start ∧
        here.offset = here.column - 1 + start) ∧
      lineFeed ∉ (source.take here.offset).drop (here.offset - (here.column - 1)) := by
  refine ⟨fun a b lt inside => before_of_lt lt inside, ?_, ?_⟩
  · intro a b insideA insideB different
    rcases Nat.lt_or_gt_of_ne different with lt | gt
    · exact (before_of_lt lt insideB).ne
    · rintro ⟨line, column⟩
      exact (before_of_lt gt insideA).ne ⟨line.symm, column.symm⟩
  · intro offset
    dsimp only
    obtain ⟨start, starts, further, unbroken⟩ := exists_lineStart source offset
    have reached : (inSource source offset).offset = (source.take offset).length := by
      rw [inSource_eq]
    have front : source.take (inSource source offset).offset = source.take offset := by
      rw [reached, List.length_take, ← List.take_eq_take_min]
    rw [front]
    refine ⟨?_, ?_, ?_, ⟨start, ?_, further⟩, ?_⟩
    · rw [reached, List.length_take]
    · rw [inSource_eq, ← length_lineTable]
    · rw [inSource_eq]
      exact Nat.succ_pos _
    · rw [← lineTable_eq_idxsOf]
      exact starts
    · rwa [further, Nat.add_sub_cancel_left]

/-- Three offsets around two line feeds in a row: in front of the first, between them, and behind
the second. -/
theorem locations_identify_offsets_blank_line :
    let source : List UInt8 := [0x31, 0x2B, 0x0A, 0x0A, 0x32]
    (2 < 3 ∧ 4 ≤ source.length) ∧
      (inSource source 2 = ⟨2, 1, 3⟩ ∧ inSource source 3 = ⟨3, 2, 1⟩ ∧
        inSource source 4 = ⟨4, 3, 1⟩ ∧ inSource source 9 = ⟨5, 3, 2⟩) ∧
      (inSource source 2).Before (inSource source 3) ∧
      ¬((inSource source 4).line = (inSource source 3).line ∧
        (inSource source 4).column = (inSource source 3).column) := by
  intro source
  obtain ⟨ascends, differs, -⟩ := locations_identify_offsets source
  exact ⟨by decide, by decide, ascends 2 3 (by decide) (by decide),
    differs 4 3 (by decide) (by decide) (by decide)⟩

end SheetFormula.Location

import Mathlib.Tactic.Common
import SheetFormula.Proofs.Lexeme.Relocation

/-!
# Rows of slots

A slot is a tile with another gap for its text. So a row of slots tells of two sources at once, the
one that the tiles cover and the one with the same texts behind the other gaps. Each offset along a
text goes where that text goes, and the end of the one source goes to the end of the other one
(`Respaces`).

Main results:
* `Respaces.of_alike`: if gaps stay gaps and none comes up where there was none, offsets can go so.
* `Slot.move_lt_move`: they keep their order, and so they are a relocation (`Respaces.relocation`).
* `Slot.exists_of_covers`: what is covered lies along the text of a slot, or is the end.
-/

namespace SheetFormula

/-! ## Two sources in a row -/

/-- A tile, and another gap for its text. -/
structure Slot where
  tile : Tile
  gap : List UInt8
  deriving DecidableEq, Repr

namespace Slot

/-- The text of the tile behind the other gap. -/
def bytes (slot : Slot) : List UInt8 := slot.gap ++ slot.tile.text

/-- The bytes of a row with the other gaps. -/
def cover (slots : List Slot) : List UInt8 := slots.flatMap bytes

end Slot

/-- Whether one gap may stand for another: it is blank, and the two agree in whether they are empty,
hold a line feed and end with one. -/
structure GapsAlike (gap gap' : List UInt8) : Prop where
  blank : ∀ b ∈ gap', isBlankByte b
  empty_iff : gap' = [] ↔ gap = []
  break_iff : lineFeed ∈ gap' ↔ lineFeed ∈ gap
  last_iff : gap'.getLast? = some lineFeed ↔ gap.getLast? = some lineFeed

/-- Whether offsets go where the lexemes go when a row gets its other gaps: those along the text of
a slot, up to its end, go along the same text, and the end of the source goes to the end. -/
structure Respaces (move : Nat → Nat) (slots : List Slot) (last last' : List UInt8) : Prop where
  along : ∀ front slot later, slots = front ++ slot :: later →
    ∀ d ≤ slot.tile.text.length,
      move ((Tile.cover (front.map Slot.tile) ++ slot.tile.gap).length + d) =
        (Slot.cover front ++ slot.gap).length + d
  ends : move (Tile.cover (slots.map Slot.tile) ++ last).length =
    (Slot.cover slots ++ last').length

/-! ## Where offsets go -/

namespace Slot

/-- Whether an offset lies along the text of a slot of a row that begins at `here`, or is that of
the end. -/
def Covers (last : List UInt8) : (slots : List Slot) → (here offset : Nat) → Prop
  | [], here, offset => offset = here + last.length
  | slot :: slots, here, offset =>
    (here + slot.tile.gap.length ≤ offset ∧ offset ≤ here + slot.tile.bytes.length) ∨
      Covers last slots (here + slot.tile.bytes.length) offset

/-- Where an offset goes when a row that begins at `here` gets its other gaps, and begins at `there`
then. -/
def move (last' : List UInt8) : (slots : List Slot) → (here there offset : Nat) → Nat
  | [], _, there, _ => there + last'.length
  | slot :: slots, here, there, offset =>
    if offset ≤ here + slot.tile.bytes.length then
      there + slot.gap.length + (offset - (here + slot.tile.gap.length))
    else move last' slots (here + slot.tile.bytes.length) (there + slot.bytes.length) offset

variable {last last' : List UInt8} {slots : List Slot} {here there offset offset' : Nat}

/-- A slot is as long as its other gap and its text. -/
theorem length_bytes (slot : Slot) :
    slot.bytes.length = slot.gap.length + slot.tile.text.length := List.length_append

/-- Its tile is as long as its own gap and its text. -/
theorem length_tile_bytes (slot : Slot) :
    slot.tile.bytes.length = slot.tile.gap.length + slot.tile.text.length := List.length_append

/-- What is covered by a row lies behind where the row begins. -/
theorem le_of_covers (covers : Covers last slots here offset) : here ≤ offset := by
  induction slots generalizing here with
  | nil =>
    obtain rfl : offset = here + last.length := covers
    exact Nat.le_add_right ..
  | cons slot slots ih =>
    rcases covers with ⟨le, -⟩ | later
    · exact Nat.le_trans (Nat.le_add_right ..) le
    · exact Nat.le_trans (Nat.le_add_right ..) (ih later)

/-- Of two gaps that are alike none is missing, or both are. -/
theorem length_eq_zero_iff {gap gap' : List UInt8} (alike : GapsAlike gap gap') :
    gap'.length = 0 ↔ gap.length = 0 := by
  rw [List.length_eq_zero_iff, List.length_eq_zero_iff, alike.empty_iff]

/-- Where a row begins it begins, and further on it is further on. -/
theorem move_of_covers (there : Nat)
    (alike : ∀ slot ∈ slots, GapsAlike slot.tile.gap slot.gap)
    (alikeLast : GapsAlike last last') (covers : Covers last slots here offset) :
    (offset = here → move last' slots here there offset = there) ∧
      (here < offset → there < move last' slots here there offset) := by
  induction slots generalizing here there with
  | nil =>
    obtain rfl : offset = here + last.length := covers
    have empty := length_eq_zero_iff alikeLast
    simp only [move]
    omega
  | cons slot slots ih =>
    obtain ⟨first, others⟩ := List.forall_mem_cons.mp alike
    have empty := length_eq_zero_iff first
    have wide := slot.length_tile_bytes
    have wide' := slot.length_bytes
    by_cases inside : offset ≤ here + slot.tile.bytes.length
    · have begun : here + slot.tile.gap.length ≤ offset := by
        rcases covers with ⟨le, -⟩ | later
        · exact le
        · have beyond := le_of_covers later
          omega
      rw [move, if_pos inside]
      omega
    · have later : Covers last slots (here + slot.tile.bytes.length) offset := by
        rcases covers with ⟨-, le⟩ | later
        · exact absurd le inside
        · exact later
      have further := (ih (there + slot.bytes.length) others later).2 (by omega)
      rw [move, if_neg inside]
      omega

/-- **The order of offsets is kept.** -/
theorem move_lt_move (there : Nat)
    (alike : ∀ slot ∈ slots, GapsAlike slot.tile.gap slot.gap)
    (alikeLast : GapsAlike last last') (covers : Covers last slots here offset)
    (covers' : Covers last slots here offset') (lt : offset < offset') :
    move last' slots here there offset < move last' slots here there offset' := by
  induction slots generalizing here there with
  | nil =>
    obtain rfl : offset = here + last.length := covers
    exact absurd (show offset' = here + last.length from covers') (Nat.ne_of_gt lt)
  | cons slot slots ih =>
    obtain ⟨first, others⟩ := List.forall_mem_cons.mp alike
    have wide := slot.length_tile_bytes
    have wide' := slot.length_bytes
    have later : ∀ {n}, Covers last (slot :: slots) here n →
        ¬ n ≤ here + slot.tile.bytes.length →
        Covers last slots (here + slot.tile.bytes.length) n := by
      rintro n (⟨-, le⟩ | later) beyond
      · exact absurd le beyond
      · exact later
    -- Both offsets are in this slot, or the first one only, or both are further on.
    by_cases inside : offset ≤ here + slot.tile.bytes.length
    · have begun : here + slot.tile.gap.length ≤ offset := by
        rcases covers with ⟨le, -⟩ | later
        · exact le
        · have beyond := le_of_covers later
          omega
      rw [move, if_pos inside]
      by_cases inside' : offset' ≤ here + slot.tile.bytes.length
      · rw [move, if_pos inside']
        omega
      · have further := (move_of_covers (there + slot.bytes.length) others alikeLast
          (later covers' inside')).2 (by omega)
        rw [move, if_neg inside']
        omega
    · have beyond : ¬ offset' ≤ here + slot.tile.bytes.length := by omega
      rw [move, move, if_neg inside, if_neg beyond]
      exact ih _ others (later covers inside) (later covers' beyond)

/-- Behind its first slot a row moves offsets as the row of the other slots does. -/
theorem move_cons (alike : ∀ slot ∈ slots, GapsAlike slot.tile.gap slot.gap)
    (alikeLast : GapsAlike last last') {slot : Slot}
    (covers : Covers last slots (here + slot.tile.bytes.length) offset) :
    move last' (slot :: slots) here there offset =
      move last' slots (here + slot.tile.bytes.length) (there + slot.bytes.length) offset := by
  have wide := slot.length_tile_bytes
  have wide' := slot.length_bytes
  rw [move]
  split
  · next le =>
    -- Both the first slot and the others have this offset, where the one ends and the others begin.
    have begun := le_of_covers covers
    have begins := (move_of_covers (there + slot.bytes.length) alike alikeLast covers).1 (by omega)
    rw [begins]
    omega
  · rfl

/-- The offsets along the text of a slot are covered, and where they go. -/
theorem move_along (here there : Nat)
    (alike : ∀ slot ∈ slots, GapsAlike slot.tile.gap slot.gap)
    (alikeLast : GapsAlike last last') {front later : List Slot} {slot : Slot}
    (row : slots = front ++ slot :: later) {d : Nat} (inside : d ≤ slot.tile.text.length) :
    Covers last slots here
        (here + ((Tile.cover (front.map Slot.tile) ++ slot.tile.gap).length + d)) ∧
      move last' slots here there
          (here + ((Tile.cover (front.map Slot.tile) ++ slot.tile.gap).length + d)) =
        there + ((cover front ++ slot.gap).length + d) := by
  induction front generalizing slots here there with
  | nil =>
    obtain rfl := row
    have wide := slot.length_tile_bytes
    simp only [List.map_nil, Tile.cover, cover, List.flatMap_nil, List.nil_append, Covers]
    refine ⟨.inl (by omega), ?_⟩
    rw [move, if_pos (by omega)]
    omega
  | cons first front ih =>
    obtain rfl := row
    rw [List.cons_append] at alike
    obtain ⟨covers, goes⟩ := ih (here + first.tile.bytes.length) (there + first.bytes.length)
      (List.forall_mem_cons.mp alike).2 rfl
    have split : (Tile.cover ((first :: front).map Slot.tile) ++ slot.tile.gap).length =
        first.tile.bytes.length +
          (Tile.cover (front.map Slot.tile) ++ slot.tile.gap).length := by
      simp [Tile.cover]
    have split' : (cover (first :: front) ++ slot.gap).length =
        first.bytes.length + (cover front ++ slot.gap).length := by
      simp [cover]
    rw [split, split', Nat.add_assoc, Nat.add_assoc, ← Nat.add_assoc here,
      ← Nat.add_assoc there, ← goes]
    exact ⟨.inr covers, move_cons (List.forall_mem_cons.mp alike).2 alikeLast covers⟩

/-- The end of a row is covered, and where it goes. -/
theorem move_end (here there : Nat)
    (alike : ∀ slot ∈ slots, GapsAlike slot.tile.gap slot.gap)
    (alikeLast : GapsAlike last last') :
    Covers last slots here (here + (Tile.cover (slots.map Slot.tile) ++ last).length) ∧
      move last' slots here there (here + (Tile.cover (slots.map Slot.tile) ++ last).length) =
        there + (cover slots ++ last').length := by
  induction slots generalizing here there with
  | nil => exact ⟨rfl, rfl⟩
  | cons slot slots ih =>
    have others := (List.forall_mem_cons.mp alike).2
    obtain ⟨covers, goes⟩ := ih (here + slot.tile.bytes.length)
      (there + slot.bytes.length) others
    have split : (Tile.cover ((slot :: slots).map Slot.tile) ++ last).length =
        slot.tile.bytes.length + (Tile.cover (slots.map Slot.tile) ++ last).length := by
      simp [Tile.cover]
    have split' : (cover (slot :: slots) ++ last').length =
        slot.bytes.length + (cover slots ++ last').length := by
      simp [cover]
    rw [split, split', ← Nat.add_assoc here, ← Nat.add_assoc there, ← goes]
    exact ⟨.inr covers, move_cons others alikeLast covers⟩

/-- What is covered lies along the text of a slot, or is the end. -/
theorem exists_of_covers (covers : Covers last slots here offset) :
    (∃ front slot later d, slots = front ++ slot :: later ∧ d ≤ slot.tile.text.length ∧
      offset = here + ((Tile.cover (front.map Slot.tile) ++ slot.tile.gap).length + d)) ∨
    offset = here + (Tile.cover (slots.map Slot.tile) ++ last).length := by
  induction slots generalizing here with
  | nil => exact .inr covers
  | cons slot slots ih =>
    have wide := slot.length_tile_bytes
    rcases covers with ⟨le, le'⟩ | covers
    · refine .inl ⟨[], slot, slots, offset - (here + slot.tile.gap.length), rfl, by omega, ?_⟩
      simp only [List.map_nil, Tile.cover, List.flatMap_nil, List.nil_append]
      omega
    · rcases ih covers with ⟨front, inner, later, d, rfl, inside, is⟩ | is
      · refine .inl ⟨slot :: front, inner, later, d, rfl, inside, ?_⟩
        rw [is]
        simp [Tile.cover, Nat.add_assoc]
      · right
        rw [is]
        simp [Tile.cover, Nat.add_assoc]

end Slot

namespace Respaces

variable {move : Nat → Nat} {slots : List Slot} {last last' : List UInt8}

/-- **Offsets can go where the lexemes go**, as there is room for them. -/
theorem of_alike (alike : ∀ slot ∈ slots, GapsAlike slot.tile.gap slot.gap)
    (alikeLast : GapsAlike last last') :
    Respaces (Slot.move last' slots 0 0) slots last last' := by
  constructor
  · intro front slot later row d inside
    simpa only [Nat.zero_add] using
      (Slot.move_along 0 0 alike alikeLast row inside).2
  · simpa only [Nat.zero_add] using (Slot.move_end 0 0 alike alikeLast).2

/-- Where an offset goes is settled if it is covered. -/
theorem move_eq (respaces : Respaces move slots last last')
    (alike : ∀ slot ∈ slots, GapsAlike slot.tile.gap slot.gap) (alikeLast : GapsAlike last last')
    {offset : Nat} (covers : Slot.Covers last slots 0 offset) :
    move offset = Slot.move last' slots 0 0 offset := by
  have same := of_alike alike alikeLast
  rcases Slot.exists_of_covers covers with ⟨front, slot, later, d, row, inside, is⟩ | is
  · rw [is, Nat.zero_add, respaces.along front slot later row d inside,
      same.along front slot later row d inside]
  · rw [is, Nat.zero_add, respaces.ends, same.ends]

/-- Other gaps as a relocation of the offsets along the lexemes and of the end. -/
def relocation (respaces : Respaces move slots last last')
    (alike : ∀ slot ∈ slots, GapsAlike slot.tile.gap slot.gap)
    (alikeLast : GapsAlike last last') : Relocation where
  move := move
  Covers := Slot.Covers last slots 0
  le_iff {m n} covers covers' := by
    rw [respaces.move_eq alike alikeLast covers, respaces.move_eq alike alikeLast covers']
    have forward := Slot.move_lt_move 0 alike alikeLast covers covers'
    have backward := Slot.move_lt_move 0 alike alikeLast covers' covers
    rcases Nat.lt_trichotomy m n with lt | rfl | lt
    · have further := forward lt
      omega
    · exact iff_of_true (Nat.le_refl _) (Nat.le_refl _)
    · have further := backward lt
      omega

end Respaces

/-- Whether a relocation takes the offsets along each text of a row, and the end of the row, to
where they are with the other gaps. -/
structure Relocation.Follows (r : Relocation) (slots : List Slot) (last last' : List UInt8) : Prop
    where
  covers : ∀ front slot later, slots = front ++ slot :: later → ∀ d ≤ slot.tile.text.length,
    r.Covers ((Tile.cover (front.map Slot.tile) ++ slot.tile.gap).length + d)
  covers_end : r.Covers (Tile.cover (slots.map Slot.tile) ++ last).length
  moves : Respaces r.move slots last last'

/-- A row with its other gaps is followed by the relocation that it makes. -/
theorem Respaces.follows {move : Nat → Nat} {slots : List Slot} {last last' : List UInt8}
    (respaces : Respaces move slots last last')
    (alike : ∀ slot ∈ slots, GapsAlike slot.tile.gap slot.gap)
    (alikeLast : GapsAlike last last') :
    (respaces.relocation alike alikeLast).Follows slots last last' where
  covers front slot later row d inside := by
    have along := (Slot.move_along 0 0 alike alikeLast row inside).1
    rwa [Nat.zero_add] at along
  covers_end := by
    have ends := (Slot.move_end 0 0 alike alikeLast).1
    rwa [Nat.zero_add] at ends
  moves := respaces

end SheetFormula

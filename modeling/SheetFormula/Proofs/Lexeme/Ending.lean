import Mathlib.Tactic.Common
import SheetFormula.Proofs.Lexeme.Lines
import SheetFormula.Proofs.Lexeme.Report

/-!
# How scanning ends

A scan moves on until nothing is ahead. There are no more lexemes in front of the end than bytes in
the source, and with nothing ahead any number of scans do no more than one.

Main results:
* `Scanner.offset_scan_lt`: a scan that does not yield the end moves on by at least one byte.
* `Tiled.length_le`: so there are at most as many lexemes in front of the end as bytes.
* `Scanner.scan_at_rest`: with nothing ahead a scan yields the end and leaves the reader, and with
  it the line table, as it was.
* `scanning_ends`: how the scans of any source come to that, and stay there.
-/

namespace SheetFormula

open Text (Symbol bytesOf)

/-- There are at most as many tiles as bytes. -/
theorem Tiled.length_le {before last : List UInt8} {tiles : List Tile}
    (tiled : Tiled before tiles last) : tiles.length ≤ (Tile.cover tiles).length := by
  induction tiled with
  | last blank => exact Nat.le_refl 0
  | @tile before last t tiles lies behind ih =>
    have text := List.length_pos_iff.mpr lies.text_ne_nil
    simp only [Tile.cover, List.flatMap_cons, Tile.bytes, List.length_append, List.length_cons]
    rw [Tile.cover] at ih
    omega

namespace Scanner

variable {source : List UInt8} {passed : List Symbol} {s : Scanner}

/-! ## On the way to the end -/

/-- **A scan that does not yield the end moves on.** -/
theorem offset_scan_lt (stands : s.reader.Behind source passed)
    (more : s.scan.1.token ≠ .endOfFormula) : s.reader.offset < s.scan.2.reader.offset := by
  cases scan_lays stands with
  | ends last => exact absurd last more
  | tile t taken _ _ behind bytes _ lies =>
    have text := List.length_pos_iff.mpr lies.text_ne_nil
    rw [stands.offset_eq, behind.offset_eq, Text.bytesOf_append, bytes, Tile.bytes,
      List.length_append, List.length_append]
    omega

/-! ## At the end -/

/-- **With nothing ahead a scan finds the end and leaves all as it was**, the line table included.
-/
theorem scan_at_rest (rest : s.reader.rest = []) :
    s.scan = (⟨⟨.ofOffset s.reader.offset, .endOfFormula, ""⟩, false, s.previous, []⟩,
      ⟨s.source, s.reader, false, .endOfFormula⟩) := by
  simp [scan, rest, gap, hasBreak, Reader.consume, Recognition.ofSymbols]

/-- With nothing ahead, any number of scans leave the source and the reader as they were. -/
theorem after_rest (rest : s.reader.rest = []) (last : s.previous = .endOfFormula) (n : Nat) :
    (s.after n).source = s.source ∧ (s.after n).reader = s.reader ∧
      (s.after n).previous = .endOfFormula := by
  induction n generalizing s with
  | zero => exact ⟨rfl, rfl, last⟩
  | succ n ih =>
    have stays := scan_at_rest rest
    have later := ih (s := s.scan.2) (by rw [stays]; exact rest) (by rw [stays])
    rw [after, later.1, later.2.1, stays]
    rw [stays] at later
    exact ⟨rfl, rfl, later.2.2⟩

/-- Scans that follow other scans start from the scanner that those leave. -/
theorem after_add (s : Scanner) (m n : Nat) : s.after (m + n) = (s.after m).after n := by
  induction m generalizing s with
  | zero => rw [Nat.zero_add, after]
  | succ m ih =>
    rw [Nat.succ_add, after, after]
    exact ih s.scan.2

/-- Where a scan yields the end, it stands at the end of the source, with nothing ahead. -/
theorem scan_of_end (stands : s.reader.Behind source passed)
    (last : s.scan.1.token = .endOfFormula) :
    s.scan.1.lexeme = ⟨.ofOffset source.length, .endOfFormula, ""⟩ ∧
      s.scan.2.reader.rest = [] ∧ s.scan.2.reader.offset = source.length := by
  cases scan_lays stands with
  | ends _ yields nothing offset => exact ⟨yields, nothing, offset⟩
  | tile t taken more => exact absurd last more

end Scanner

/-! ## Whole sources -/

/-- The lexemes of a source are those of so many tiles, none of them an end, and the end. -/
theorem exists_front_lexemes (source : List UInt8) :
    ∃ front, (lex source).lexemes = front ++ [⟨.ofOffset source.length, .endOfFormula, ""⟩] ∧
      (∀ l ∈ front, l.token ≠ .endOfFormula) ∧ front.length ≤ source.length := by
  obtain ⟨tiles, last, tiled, covers, lexemes, ends⟩ := exists_tiling source
  refine ⟨tiles.map Tile.lexeme, ?_, ?_, ?_⟩
  · simp only [lex, TokenStream.lexemes, lexemes, StreamEnd.scanned, ends]
  · intro l mem
    obtain ⟨t, tile, rfl⟩ := List.mem_map.mp mem
    obtain ⟨front, later, row⟩ := List.append_of_mem tile
    exact Scanner.token_ne_end_of_lies (tiled.lies_of_eq row)
  · have few := tiled.length_le
    rw [List.length_map, covers, List.length_append]
    omega

/-- The lexemes of a source are what so many scans come upon one by one. -/
theorem lexemes_eq_scanned (source : List UInt8) : (lex source).lexemes =
    (List.range (lex source).lexemes.length).map fun n =>
      ((Scanner.start source).after n).scan.1.lexeme := by
  apply List.ext_getElem?
  intro n
  rw [List.getElem?_map]
  cases is : (lex source).lexemes[n]? with
  | none =>
    have beyond := List.getElem?_eq_none_iff.mp is
    rw [List.getElem?_eq_none (by simpa using beyond)]
    rfl
  | some l =>
    have inside := (List.getElem?_eq_some_iff.mp is).1
    rw [List.getElem?_range inside, Option.map_some, Scanner.lexeme_scan_after is]

/-- **Scanning comes to an end, and stays there.** Every scan of a source that does not yield the
end moves on by at least one byte. After so many of these, not more than there are bytes, one yields
the end, at the end of the source; the lexemes of the source are those of these scans and of this
one, so they are at most one more than the bytes, and only the last of them is an end. And behind
any scan that yields the end, however many scans follow, each yields the same end once more, finds
no line break and reports nothing, and the scanner finds every location as it did before. -/
theorem scanning_ends (source : List UInt8) :
    let behind := (Scanner.start source).after
    (∀ n, (behind n).scan.1.token ≠ .endOfFormula →
      (behind n).reader.offset < (behind (n + 1)).reader.offset) ∧
    (∃ n ≤ source.length,
      (∀ m < n, (behind m).scan.1.token ≠ .endOfFormula) ∧
      (behind n).scan.1.lexeme = ⟨⟨source.length + 1⟩, .endOfFormula, ""⟩ ∧
      (lex source).lexemes = (List.range (n + 1)).map fun m => (behind m).scan.1.lexeme) ∧
    (lex source).lexemes.length ≤ source.length + 1 ∧
    ∀ n, (behind n).scan.1.token = .endOfFormula → ∀ k,
      (behind (n + 1 + k)).scan.1 = ⟨(behind n).scan.1.lexeme, false, .endOfFormula, []⟩ ∧
      (behind (n + 1 + k)).scan.2.previous = .endOfFormula ∧
      (behind (n + 1 + k)).scan.2.newlineBefore = false ∧
      ∀ p, (behind (n + 1 + k)).scan.2.location? p = (behind (n + 1)).location? p := by
  intro behind
  obtain ⟨front, lexemes, solid, few⟩ := exists_front_lexemes source
  have length : (lex source).lexemes.length = front.length + 1 := by rw [lexemes]; simp
  refine ⟨?_, ⟨front.length, few, ?_, ?_, ?_⟩, ?_, ?_⟩
  · intro n more
    obtain ⟨passed, stands⟩ := Scanner.stands_after source n
    rw [show behind (n + 1) = (behind n).scan.2 from Scanner.after_succ _ n]
    exact Scanner.offset_scan_lt stands more
  · intro m inside
    have is : (lex source).lexemes[m]? = some front[m] := by
      rw [lexemes, List.getElem?_append_left inside, List.getElem?_eq_getElem inside]
    rw [Scanned.token, Scanner.lexeme_scan_after is]
    exact solid _ (List.getElem_mem inside)
  · apply Scanner.lexeme_scan_after
    rw [lexemes, List.getElem?_append_right (Nat.le_refl _), Nat.sub_self]
    rfl
  · have scanned := lexemes_eq_scanned source
    rwa [length] at scanned
  · rw [length]
    exact Nat.succ_le_succ few
  · intro n last k
    obtain ⟨passed, stands⟩ := Scanner.stands_after source n
    obtain ⟨yields, rest, offset⟩ := Scanner.scan_of_end stands last
    have next : behind (n + 1) = (behind n).scan.2 := Scanner.after_succ _ n
    -- The scan of the end is taken first: only behind it is the scanner at rest, where each further
    -- scan repeats the same lexeme with no line break in front.
    have previous : (behind (n + 1)).previous = .endOfFormula := by
      rw [next, Scanner.previous_scan, last]
    rw [← next] at rest offset
    have rested := Scanner.after_rest rest previous k
    rw [show (behind (n + 1)).after k = behind (n + 1 + k) from
      (Scanner.after_add ..).symm] at rested
    obtain ⟨kept, reader, still⟩ := rested
    rw [Scanner.scan_at_rest (reader ▸ rest), reader, kept, still, offset, yields]
    exact ⟨rfl, rfl, rfl, fun p => rfl⟩

end SheetFormula

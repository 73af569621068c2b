import Mathlib.Tactic.Common
import SheetFormula.Proofs.Lexeme.Tiling
import SheetFormula.Proofs.Location.LineTable

/-!
# The lines that a scanner knows

A scanner finds lines and columns in two ways: up to where it stands it looks them up in the table
of the line starts that it has passed, and further on it reads its source. A line start is noted as
its line feed is passed, be that in a gap, in front of a token or at the end of the source.

Main results:
* `Reader.Charted.advance`: moving over one symbol keeps the table complete.
* `Scanner.charted_after`: so does any number of scans.
* `Scanner.location_agrees`: whichever way is taken, at whatever moment, the answer is the one that
  reading the source up to the position finds.
-/

namespace SheetFormula

open Text (Symbol bytesOf)

/-! ## Line starts and symbols -/

/-- A symbol that is no line feed has none among its bytes. -/
theorem Text.Symbol.lineFeed_not_mem_bytes {s : Symbol} (genuine : s.Genuine)
    (other : s.toChar ≠ '\n') : lineFeed ∉ s.bytes := by
  intro mem
  rw [s.eq_character_of_mem_bytes genuine mem (by decide)] at other
  exact other rfl

/-- The line feed is one byte. -/
theorem Text.Symbol.bytes_of_newline {s : Symbol} (newline : s.toChar = '\n') :
    s.bytes = [lineFeed] := by
  rw [s.bytes_of_toChar (by rw [newline]; decide), newline]
  rfl

/-! ## Readers -/

namespace Reader

/-- A reader behind some symbols of a source that knows where their lines start. -/
structure Charted (source : List UInt8) (passed : List Symbol) (r : Reader) : Prop
    extends Behind source passed r where
  lineStarts_eq : r.lineStarts = Location.lineTable (bytesOf passed)

variable {source : List UInt8} {passed : List Symbol} {r : Reader}

/-- In front of its source a reader knows of the line that starts there. -/
theorem charted_start (source : List UInt8) : Charted source [] (start source) :=
  ⟨behind_start source, rfl⟩

/-- **One step keeps the table of line starts complete.** -/
theorem Charted.advance (h : Charted source passed r) :
    Charted source (passed ++ r.rest.take 1) r.advance := by
  refine ⟨h.toBehind.advance, ?_⟩
  cases front : r.rest with
  | nil =>
    rw [advance_of_nil front, List.take_nil, List.append_nil]
    exact h.lineStarts_eq
  | cons s rest =>
    have genuine : s.Genuine := h.genuine (by simp [front])
    have further : Location.lineTable (bytesOf (passed ++ [s])) =
        Location.lineTable (bytesOf passed) ++ Location.breaksFrom r.offset s.bytes := by
      rw [Text.bytesOf_append, Location.lineTable_append, h.offset_eq]
      simp
    rw [List.take_succ_cons, List.take_zero, further, ← h.lineStarts_eq]
    by_cases newline : s.toChar = '\n'
    · have wide : s.width = 1 := by rw [← s.length_bytes, s.bytes_of_newline newline]; rfl
      simp [Reader.advance, front, newline, wide, lineStarts, s.bytes_of_newline newline,
        Location.breaksFrom]
    · rw [Location.breaksFrom_eq_nil (s.lineFeed_not_mem_bytes genuine newline)]
      simp [Reader.advance, front, newline, lineStarts]

/-- Moving over several symbols keeps the table of line starts complete. -/
theorem Charted.consume (h : Charted source passed r) (count : Nat) :
    Charted source (passed ++ r.rest.take count) (r.consume count).1 :=
  consume_induction Charted.advance h count

/-- Moving over a token keeps the table of line starts complete. -/
theorem Charted.follow (h : Charted source passed r) (tokenStart : Nat) (legs : List Leg) :
    Charted source (passed ++ r.rest.take (Leg.total legs)) (r.follow tokenStart legs).1 :=
  follow_induction Charted.advance h tokenStart legs

/-- A reader finds every location that is not behind it in its table. -/
theorem Charted.inLines_eq (h : Charted source passed r) {offset : Nat}
    (reached : offset ≤ r.offset) :
    Location.inLines r.lineStarts.toArray offset = Location.inSource source offset := by
  rw [h.offset_eq] at reached
  rw [h.lineStarts_eq]
  exact Location.inLines_lineTable h.source_eq reached

end Reader

/-! ## Scanners -/

namespace Scanner

variable {source : List UInt8} {passed : List Symbol} {s : Scanner}

/-- The scanner behind so many scans. -/
def after (s : Scanner) : Nat → Scanner
  | 0 => s
  | n + 1 => s.scan.2.after n

/-- One scan more is a scan behind the others. -/
theorem after_succ (s : Scanner) (n : Nat) : s.after (n + 1) = (s.after n).scan.2 := by
  induction n generalizing s with
  | zero => rfl
  | succ n ih => exact ih s.scan.2

/-- The scan of a number is what the scanner behind so many scans yields. -/
theorem nthScan_eq_scan_after (s : Scanner) (n : Nat) : s.nthScan n = (s.after n).scan.1 := by
  induction n generalizing s with
  | zero => rfl
  | succ n ih => exact ih s.scan.2

/-- A scan keeps its source. -/
theorem source_scan (s : Scanner) : s.scan.2.source = s.source := by
  simp only [scan]
  split <;> rfl

/-- **One scan keeps the table of line starts complete.** -/
theorem charted_scan (charted : s.reader.Charted source passed) :
    ∃ passed', s.scan.2.reader.Charted source passed' := by
  have here : s.behindGap.Charted source _ := charted.consume (gap s.reader.rest).length
  cases found? : s.recognized? with
  | none =>
    rw [(scan_of_none found?).2]
    exact ⟨_, here⟩
  | some found =>
    rw [(scan_of_some found?).2]
    exact ⟨_, here.follow _ _⟩

/-- Any number of scans keep the source and the table of line starts. -/
theorem charted_after (charted : s.reader.Charted source passed) (n : Nat) :
    (s.after n).source = s.source ∧ ∃ passed', (s.after n).reader.Charted source passed' := by
  induction n generalizing s passed with
  | zero => exact ⟨rfl, passed, charted⟩
  | succ n ih =>
    obtain ⟨passed', behind⟩ := charted_scan charted
    obtain ⟨kept, later⟩ := ih behind
    exact ⟨kept.trans (source_scan s), later⟩

/-- Behind any number of scans the reader of a scanner stands somewhere in its source. -/
theorem stands_after (source : List UInt8) (n : Nat) :
    ∃ passed, ((start source).after n).reader.Behind source passed := by
  obtain ⟨-, passed, charted⟩ :=
    charted_after (s := start source) (Reader.charted_start source) n
  exact ⟨passed, charted.toBehind⟩

/-- The scans of a source come upon its lexemes one by one. -/
theorem lexeme_scan_after {source : List UInt8} {n : Nat} {l : Lexeme}
    (is : (lex source).lexemes[n]? = some l) : ((start source).after n).scan.1.lexeme = l := by
  have scanned := (nthScan_eq (s := start source) (Reader.behind_start source) n).1
  rw [nthScan_eq_scan_after] at scanned
  rw [scanned, List.getD_eq_getElem?_getD]
  exact congrArg (Option.getD · _) is

/-- With a complete table, a scanner finds the location of any offset. -/
theorem location?_ofOffset (kept : s.source = source) (charted : s.reader.Charted source passed)
    (offset : Nat) : s.location? (.ofOffset offset) = some (.inSource source offset) := by
  have looked : s.location? (.ofOffset offset) =
      some (if offset ≤ s.reader.offset then .inLines s.reader.lineStarts.toArray offset
        else .inSource s.source offset) := rfl
  rw [looked, kept]
  by_cases reached : offset ≤ s.reader.offset
  · rw [if_pos reached, charted.inLines_eq reached]
  · rw [if_neg reached]

/-- **Locations agree with the source at every moment.** Behind any number of scans, those at the
end of the source included, a scanner knows no location of no position, and of any other position
the one that reading the source up to it finds, wherever the position lies. -/
theorem location_agrees (source : List UInt8) (n : Nat) (p : Pos) :
    ((start source).after n).location? p =
      if p = .none then none else some (.inSource source (p.index - 1)) := by
  obtain ⟨kept, passed, charted⟩ :=
    charted_after (s := start source) (Reader.charted_start source) n
  obtain ⟨index⟩ := p
  cases index with
  | zero => rfl
  | succ offset =>
    have valid : Pos.mk (offset + 1) ≠ .none := by
      rintro ⟨⟩
    rw [if_neg valid]
    exact location?_ofOffset kept charted offset

end Scanner

end SheetFormula

import Mathlib.Data.List.TakeWhile
import Mathlib.Tactic.Common
import SheetFormula.Lexeme.Stream
import SheetFormula.Proofs.Lexeme.Accord

/-!
# Lexemes tile their source

A source is a row of tiles: each lexeme with the bytes that it was scanned from and the blank gap in
front of it, and a last gap behind them. That tiles lie one behind the other gives the positions of
lexemes their order.

Main results:
* `Scanner.scan_lays`: one scan lays one tile.
* `Scanner.tiled_stream`: so a whole run lays them all.
* `Scanner.nthScan_eq`: a scanner driven by hand comes upon the same lexemes.
* `lexemes_tile_source`: of any source, where the lexemes stand, what text they have, and what a
  scanner driven by hand finds.
-/

namespace SheetFormula

open Text (Symbol bytesOf)

/-! ## Tiles -/

/-- Whether a byte is blank: a space, a tab, a carriage return or a line feed. -/
def isBlankByte (b : UInt8) : Bool := b = 0x20 || b = 0x09 || b = 0x0D || b = 0x0A

/-- A lexeme with the bytes that it stands for and the gap in front of it. -/
structure Tile where
  gap : List UInt8
  text : List UInt8
  lexeme : Lexeme
  deriving DecidableEq, Repr

/-- The bytes of a tile. -/
def Tile.bytes (t : Tile) : List UInt8 := t.gap ++ t.text

/-- The bytes of a row of tiles. -/
def Tile.cover (tiles : List Tile) : List UInt8 := tiles.flatMap Tile.bytes

/-- Whether a tile may lie where the bytes `before` precede it and the bytes `after` follow. -/
structure Tile.Lies (before : List UInt8) (t : Tile) (after : List UInt8) : Prop where
  gap_blank : ∀ b ∈ t.gap, isBlankByte b
  text_ne_nil : t.text ≠ []
  text_head : ∀ b ∈ t.text.head?, ¬ isBlankByte b
  pos_eq : t.lexeme.pos = .ofOffset (before.length + t.gap.length)
  accords : t.lexeme.token.Accords (before ++ t.gap) t.text after t.lexeme.literal

/-- Tiles that lie one behind the other behind the bytes `before`, and a last gap. -/
inductive Tiled : (before : List UInt8) → List Tile → (last : List UInt8) → Prop
  | last {before last : List UInt8} (blank : ∀ b ∈ last, isBlankByte b) : Tiled before [] last
  | tile {before last : List UInt8} {t : Tile} {tiles : List Tile}
      (lies : t.Lies before (Tile.cover tiles ++ last))
      (behind : Tiled (before ++ t.bytes) tiles last) : Tiled before (t :: tiles) last

/-! ## Gaps -/

/-- The bytes of blank symbols are blank. -/
theorem isBlankByte_of_blank {s : Symbol} (blank : Text.isBlank s.toChar) {b : UInt8}
    (mem : b ∈ s.bytes) : isBlankByte b := by
  simp only [Text.isBlank, Bool.or_eq_true, beq_iff_eq] at blank
  have legible : s.toChar ≠ Text.replacement := by
    rintro same
    rw [same] at blank
    exact absurd blank (by decide)
  rw [s.bytes_of_toChar legible] at mem
  rcases blank with ((is | is) | is) | is
  all_goals
    rw [is] at mem
    obtain rfl := List.mem_singleton.mp mem
    rfl

/-- The first byte of a symbol that is not blank is not blank. -/
theorem not_isBlankByte_head {s : Symbol} (genuine : s.Genuine) (solid : ¬ Text.isBlank s.toChar)
    {b : UInt8} (head : b ∈ s.bytes.head?) : ¬ isBlankByte b := by
  intro blank
  have ascii : b.toNat < 0x80 := by
    simp only [isBlankByte, Bool.or_eq_true, decide_eq_true_eq] at blank
    rcases blank with ((rfl | rfl) | rfl) | rfl <;> decide
  have same := s.eq_character_of_mem_bytes genuine (List.mem_of_mem_head? head) ascii
  apply solid
  rw [same]
  simp only [isBlankByte, Bool.or_eq_true, decide_eq_true_eq] at blank
  rcases blank with ((rfl | rfl) | rfl) | rfl <;> rfl

/-- A gap takes all blank symbols in front, and nothing else. -/
theorem blank_of_mem_gap {rest : List Symbol} {s : Symbol} (mem : s ∈ Scanner.gap rest) :
    Text.isBlank s.toChar :=
  List.mem_takeWhile_imp (p := fun t : Symbol => Text.isBlank t.toChar) mem

/-- The first symbols, as many as the gap has, are the gap. -/
theorem take_length_gap (rest : List Symbol) :
    rest.take (Scanner.gap rest).length = Scanner.gap rest :=
  (List.prefix_iff_eq_take.mp (List.takeWhile_prefix _)).symm

/-- Behind a gap no blank symbol stands. -/
theorem solid_behind_gap {rest later : List Symbol} {s : Symbol}
    (front : rest.drop (Scanner.gap rest).length = s :: later) : ¬ Text.isBlank s.toChar := by
  intro blank
  induction rest with
  | nil => simp at front
  | cons t rest ih =>
    by_cases first : Text.isBlank t.toChar
    · simp only [Scanner.gap, List.takeWhile_cons, first, if_true, List.length_cons,
        List.drop_succ_cons] at front
      exact ih front
    · simp only [Scanner.gap, List.takeWhile_cons, first, Bool.false_eq_true, if_false,
        List.length_nil, List.drop_zero] at front
      obtain ⟨rfl, -⟩ := List.cons.inj front
      exact first blank

/-! ## One scan -/

namespace Scanner

variable {source : List UInt8} {passed : List Symbol} {s : Scanner}

/-- The reader of a scanner behind the gap in front of it. -/
def behindGap (s : Scanner) : Reader := (s.reader.consume (gap s.reader.rest).length).1

/-- With no gap in front, the reader stays where it is. -/
theorem behindGap_of_solid (solid : gap s.reader.rest = []) : s.behindGap = s.reader := by
  rw [behindGap, solid]
  rfl

/-- What a scanner recognizes behind the gap. -/
def recognized? (s : Scanner) : Option Recognition :=
  Recognition.ofSymbols (decide (s.behindGap.offset = s.behindGap.lineStart)) s.behindGap.rest

/-- A scan that recognizes nothing yields the end, and leaves its reader behind the gap. -/
theorem scan_of_none (h : s.recognized? = none) :
    s.scan.1.lexeme = ⟨.ofOffset s.behindGap.offset, .endOfFormula, ""⟩ ∧
      s.scan.2.reader = s.behindGap := by
  simp only [scan]
  split
  · exact ⟨rfl, rfl⟩
  · next found other => exact absurd (other.symm.trans h) (by simp)

/-- A scan that recognizes a token yields it, and leaves its reader behind it. -/
theorem scan_of_some {found : Recognition} (h : s.recognized? = some found) :
    s.scan.1.lexeme = ⟨.ofOffset s.behindGap.offset, found.token,
        literal found.token (s.behindGap.rest.take found.count)⟩ ∧
      s.scan.2.reader = (s.behindGap.follow s.behindGap.offset found.legs).1 := by
  simp only [scan]
  split
  · next other => exact absurd (other.symm.trans h) (by simp)
  · next found' same =>
    obtain rfl := Option.some.inj (same.symm.trans h)
    exact ⟨rfl, rfl⟩

/-- A scan yields its lexeme where it stands behind the gap. -/
theorem pos_scan (s : Scanner) : s.scan.1.pos = .ofOffset s.behindGap.offset := by
  cases recognized : s.recognized? with
  | none => rw [Scanned.pos, (scan_of_none recognized).1]
  | some found => rw [Scanned.pos, (scan_of_some recognized).1]

/-- Behind the gap, the symbols of the gap have been passed too. -/
theorem behindGap_stands (stands : s.reader.Behind source passed) :
    s.behindGap.Behind source (passed ++ gap s.reader.rest) := by
  have moved := stands.consume (gap s.reader.rest).length
  rwa [take_length_gap] at moved

/-- The bytes of a gap are blank. -/
theorem gap_bytes_blank (rest : List Symbol) : ∀ b ∈ bytesOf (gap rest), isBlankByte b := by
  intro b mem
  obtain ⟨t, inGap, byte⟩ := List.mem_flatMap.mp mem
  exact isBlankByte_of_blank (blank_of_mem_gap inGap) byte

/-- No lexeme that lies as a tile is the end. -/
theorem token_ne_end_of_lies {before after : List UInt8} {t : Tile} (lies : t.Lies before after) :
    t.lexeme.token ≠ .endOfFormula := by
  intro last
  have accords := lies.accords
  rw [last] at accords
  exact accords

/-- What a scan does behind the symbols `passed` of a source. It comes to the end, with nothing but
a last gap ahead; or else it moves over the symbols of a tile, and yields the lexeme of that. -/
inductive Lays (source : List UInt8) (passed : List Symbol) (s : Scanner) : Prop
  | ends (last : s.scan.1.token = .endOfFormula)
      (yields : s.scan.1.lexeme = ⟨.ofOffset source.length, .endOfFormula, ""⟩)
      (nothing : s.scan.2.reader.rest = []) (offset : s.scan.2.reader.offset = source.length)
      (blank : ∀ b ∈ bytesOf s.reader.rest, isBlankByte b)
  | tile (t : Tile) (taken : List Symbol) (more : s.scan.1.token ≠ .endOfFormula)
      (yields : s.scan.1.lexeme = t.lexeme)
      (behind : s.scan.2.reader.Behind source (passed ++ taken)) (bytes : bytesOf taken = t.bytes)
      (ahead : bytesOf s.reader.rest = t.bytes ++ bytesOf s.scan.2.reader.rest)
      (lies : t.Lies (bytesOf passed) (bytesOf s.scan.2.reader.rest))

/-- What is recognized has a text, which does not begin with a blank. -/
theorem recognized_solid (stands : s.reader.Behind source passed) {found : Recognition}
    (found? : s.recognized? = some found) :
    bytesOf (s.behindGap.rest.take found.count) ≠ [] ∧
      ∀ b ∈ (bytesOf (s.behindGap.rest.take found.count)).head?, ¬ isBlankByte b := by
  obtain ⟨t, later, front⟩ := Recognition.exists_cons_of_ofSymbols found?
  have takes : 0 < found.count := Recognition.count_pos_of_ofSymbols found?
  have text : bytesOf (s.behindGap.rest.take found.count) =
      t.bytes ++ bytesOf (later.take (found.count - 1)) := by
    rw [front, show found.count = (found.count - 1) + 1 by omega, List.take_succ_cons,
      Text.bytesOf_cons, Nat.add_sub_cancel]
  have solid : ¬ Text.isBlank t.toChar := by
    have behindGap : s.reader.rest.drop (gap s.reader.rest).length = t :: later := by
      rw [← Reader.rest_consume]
      exact front
    exact solid_behind_gap behindGap
  obtain ⟨first, following, starts⟩ := List.exists_cons_of_ne_nil t.bytes_ne_nil
  rw [text]
  refine ⟨by simp [t.bytes_ne_nil], ?_⟩
  intro b head
  rw [starts, List.cons_append, List.head?_cons] at head
  exact not_isBlankByte_head ((behindGap_stands stands).genuine (front ▸ List.mem_cons_self)) solid
    (by rwa [starts, List.head?_cons])

/-- **One scan lays one tile**: it yields the end behind a last gap, or a lexeme that lies as a tile
between what has been passed and what is still ahead. What is recognized tells the text, and that
the lexeme accords with it. -/
theorem scan_lays (stands : s.reader.Behind source passed) : Lays source passed s := by
  have here := behindGap_stands stands
  cases found? : s.recognized? with
  | none =>
    obtain ⟨yields, leaves⟩ := scan_of_none found?
    have nothing : s.behindGap.rest = [] := by
      cases front : s.behindGap.rest with
      | nil => rfl
      | cons t rest => simp [recognized?, front, Recognition.ofSymbols] at found?
    have all : s.reader.rest = gap s.reader.rest := by
      have split := stands.symbols_eq.symm.trans here.symbols_eq
      rw [nothing, List.append_nil] at split
      exact List.append_cancel_left split
    have length : s.behindGap.offset = source.length := here.offset_eq_length_iff.mpr nothing
    refine .ends (by rw [Scanned.token, yields]) (by rw [yields, length]) (by rw [leaves, nothing])
      (by rw [leaves, length]) ?_
    rw [all]
    exact gap_bytes_blank _
  | some found =>
    obtain ⟨yields, leaves⟩ := scan_of_some found?
    have behind := here.follow s.behindGap.offset found.legs
    rw [← leaves, List.append_assoc] at behind
    have ahead : s.scan.2.reader.rest = s.behindGap.rest.drop found.count := by
      rw [leaves, Reader.rest_follow]
      rfl
    have accords := here.accords found?
    obtain ⟨nonempty, solid⟩ := recognized_solid stands found?
    let tile : Tile := ⟨bytesOf (gap s.reader.rest),
      bytesOf (s.behindGap.rest.take found.count), s.scan.1.lexeme⟩
    have bytes : bytesOf (gap s.reader.rest ++ s.behindGap.rest.take found.count) = tile.bytes :=
      Text.bytesOf_append ..
    have lies : tile.Lies (bytesOf passed) (bytesOf s.scan.2.reader.rest) := by
      refine ⟨gap_bytes_blank _, nonempty, solid, ?_, ?_⟩
      · dsimp only [tile]
        rw [yields, here.offset_eq, Text.bytesOf_append, List.length_append]
      · dsimp only [tile]
        rw [yields, ahead, ← Text.bytesOf_append]
        exact accords
    have split : bytesOf s.reader.rest = tile.bytes ++ bytesOf s.scan.2.reader.rest := by
      have same := stands.source_eq.symm.trans behind.source_eq
      rw [Text.bytesOf_append, List.append_assoc] at same
      rw [← bytes]
      exact List.append_cancel_left same
    exact .tile tile _ (token_ne_end_of_lies lies) rfl behind bytes split lies

/-! ## A whole run -/

/-- A stream is its first scan and the stream behind it, unless that scan yields the end. -/
theorem stream_of_ne (h : s.scan.1.token ≠ .endOfFormula) :
    s.stream = ⟨s.scan.1 :: s.scan.2.stream.tokens, s.scan.2.stream.finish⟩ := by
  rw [stream]
  split
  next scanned next result =>
    have first : s.scan.1 = scanned := by rw [result]
    have second : s.scan.2 = next := by rw [result]
    rw [first] at h
    rw [dif_pos h, first, second]

/-- If the first scan yields the end, the stream is at its end. -/
theorem stream_of_eq (h : s.scan.1.token = .endOfFormula) :
    s.stream =
      ⟨[], ⟨s.scan.1.pos, s.scan.1.newlineBefore, s.scan.1.previous, s.scan.1.reports⟩⟩ := by
  rw [stream]
  split
  next scanned next result =>
    have first : s.scan.1 = scanned := by rw [result]
    rw [first] at h
    rw [dif_neg (not_not.mpr h), first]

/-- **A run lays all tiles**: the lexemes of a stream in front of its end are those of tiles that
lie one behind the other and cover, with a last gap, all that is ahead of the scanner. The induction
is on the stream; each scan lays one more tile in front. -/
theorem tiled_stream (stands : s.reader.Behind source passed) :
    ∃ (tiles : List Tile) (last : List UInt8), Tiled (bytesOf passed) tiles last ∧
      bytesOf s.reader.rest = Tile.cover tiles ++ last ∧
      s.stream.tokens.map Scanned.lexeme = tiles.map Tile.lexeme ∧
      s.stream.finish.pos = .ofOffset source.length := by
  induction size : s.reader.rest.length using Nat.strongRecOn generalizing s passed with
  | ind size ih =>
    cases scan_lays stands with
    | ends last yields nothing offset blank =>
      refine ⟨[], bytesOf s.reader.rest, .last blank, rfl, ?_, ?_⟩
      · rw [stream_of_eq last]
        rfl
      · rw [stream_of_eq last]
        simp only [Scanned.pos, yields]
    | tile t taken more yields behind bytes ahead lies =>
      obtain ⟨tiles, last, tiled, covers, lexemes, ends⟩ :=
        ih _ (size ▸ rest_scan_lt more) behind rfl
      refine ⟨t :: tiles, last, .tile (covers ▸ lies) ?_, ?_, ?_, ?_⟩
      · rwa [Text.bytesOf_append, bytes] at tiled
      · rw [ahead, covers, Tile.cover, Tile.cover, List.flatMap_cons, List.append_assoc]
      · rw [stream_of_ne more]
        simp [yields, lexemes]
      · rw [stream_of_ne more]
        exact ends

/-! ## A scanner driven by hand -/

/-- The scan that comes after `n` others. -/
def nthScan (s : Scanner) : Nat → Scanned
  | 0 => s.scan.1
  | n + 1 => s.scan.2.nthScan n

/-- With nothing ahead, a scan yields the end, skips nothing, reports nothing and stays. -/
theorem scan_of_nothing (h : s.reader.rest = []) :
    s.scan.1 = ⟨⟨.ofOffset s.reader.offset, .endOfFormula, ""⟩, false, s.previous, []⟩ ∧
      s.scan.2.reader = s.reader := by
  simp [scan, h, gap, hasBreak, Reader.consume, Recognition.ofSymbols]

/-- With nothing ahead, all scans yield the end and report nothing. -/
theorem nthScan_of_nothing (h : s.reader.rest = []) (n : Nat) :
    (s.nthScan n).lexeme = ⟨.ofOffset s.reader.offset, .endOfFormula, ""⟩ ∧
      (s.nthScan n).reports = [] ∧ (s.nthScan n).newlineBefore = false := by
  induction n generalizing s with
  | zero =>
    rw [nthScan, (scan_of_nothing h).1]
    exact ⟨rfl, rfl, rfl⟩
  | succ n ih =>
    have stays := (scan_of_nothing h).2
    have later := ih (s := s.scan.2) (stays ▸ h)
    rwa [stays] at later

/-- Scanning by hand comes upon the lexemes of the stream, and from then on upon the end again and
again, with nothing to report. -/
theorem nthScan_eq (stands : s.reader.Behind source passed) (n : Nat) :
    (s.nthScan n).lexeme = s.stream.lexemes.getD n ⟨.ofOffset source.length, .endOfFormula, ""⟩ ∧
      (s.stream.lexemes.length ≤ n → (s.nthScan n).reports = []) := by
  induction n generalizing s passed with
  | zero =>
    cases scan_lays stands with
    | ends last yields =>
      rw [stream_of_eq last]
      simp only [nthScan, yields, TokenStream.lexemes, StreamEnd.scanned, Scanned.pos]
      exact ⟨rfl, by simp⟩
    | tile t taken more =>
      rw [stream_of_ne more]
      exact ⟨rfl, by simp [TokenStream.lexemes]⟩
  | succ n ih =>
    cases scan_lays stands with
    | ends last yields nothing offset =>
      have again := nthScan_of_nothing nothing n
      rw [stream_of_eq last]
      rw [offset] at again
      exact ⟨again.1, fun _ => again.2.1⟩
    | tile t taken more yields behind =>
      obtain ⟨later, silent⟩ := ih behind
      rw [stream_of_ne more]
      refine ⟨later, fun beyond => silent ?_⟩
      simpa [TokenStream.lexemes] using beyond

end Scanner

/-! ## Tiles in a row -/

namespace Tiled

variable {before last : List UInt8} {tiles : List Tile}

/-- In a row of tiles each one lies between those in front of it and those behind it. -/
theorem lies_of_eq (tiled : Tiled before tiles last) {front later : List Tile} {t : Tile}
    (row : tiles = front ++ t :: later) :
    t.Lies (before ++ Tile.cover front) (Tile.cover later ++ last) := by
  induction tiled generalizing front with
  | last blank => simp at row
  | @tile before last first tiles lies behind ih =>
    cases front with
    | nil =>
      obtain ⟨rfl, rfl⟩ := List.cons.inj row
      simpa [Tile.cover] using lies
    | cons u front =>
      obtain ⟨rfl, row'⟩ := List.cons.inj row
      have inner := ih row'
      rwa [List.append_assoc, show first.bytes ++ Tile.cover front =
        Tile.cover (first :: front) from List.flatMap_cons.symm] at inner

/-- The last gap of a row is blank. -/
theorem last_blank (tiled : Tiled before tiles last) : ∀ b ∈ last, isBlankByte b := by
  induction tiled with
  | last blank => exact blank
  | tile lies behind ih => exact ih

/-- A tile of a row starts behind what precedes the row, and inside what the row covers. -/
theorem pos_bounds (tiled : Tiled before tiles last) {t : Tile} (mem : t ∈ tiles) :
    before.length < t.lexeme.pos.index ∧
      t.lexeme.pos.index ≤ (before ++ Tile.cover tiles).length := by
  obtain ⟨front, later, rfl⟩ := List.append_of_mem mem
  have lies := tiled.lies_of_eq rfl
  have text := List.length_pos_iff.mpr lies.text_ne_nil
  rw [lies.pos_eq]
  simp only [Pos.ofOffset, Tile.cover, List.flatMap_append, List.flatMap_cons, Tile.bytes,
    List.length_append]
  omega

/-- Along a row of tiles positions grow. -/
theorem pairwise_pos (tiled : Tiled before tiles last) :
    tiles.Pairwise fun t u => t.lexeme.pos < u.lexeme.pos := by
  induction tiled with
  | last blank => exact .nil
  | @tile before last t tiles lies behind ih =>
    refine .cons ?_ ih
    intro u mem
    have further := (behind.pos_bounds mem).1
    have text := List.length_pos_iff.mpr lies.text_ne_nil
    show t.lexeme.pos.index < u.lexeme.pos.index
    rw [lies.pos_eq]
    simp only [Pos.ofOffset, Tile.bytes, List.length_append] at further ⊢
    omega

end Tiled

/-! ## Any source -/

/-- The lexemes of a source, as those of tiles and the end. -/
theorem exists_tiling (source : List UInt8) :
    ∃ (tiles : List Tile) (last : List UInt8), Tiled [] tiles last ∧
      source = Tile.cover tiles ++ last ∧
      (TokenStream.ofSource source).tokens.map Scanned.lexeme = tiles.map Tile.lexeme ∧
      (TokenStream.ofSource source).finish.pos = .ofOffset source.length := by
  obtain ⟨tiles, last, tiled, covers, lexemes, ends⟩ :=
    Scanner.tiled_stream (s := .start source) (Reader.behind_start source)
  refine ⟨tiles, last, tiled, ?_, lexemes, ends⟩
  rw [← covers]
  exact (Text.bytesOf_symbols source).symm

/-- Each lexeme of a source in front of the end lies in it as a tile. -/
theorem exists_lies_of_mem_tokens {source : List UInt8} {scan : Scanned}
    (mem : scan ∈ (TokenStream.ofSource source).tokens) :
    ∃ (t : Tile) (before after : List UInt8), t.lexeme = scan.lexeme ∧ t.Lies before after := by
  obtain ⟨tiles, last, tiled, -, lexemes, -⟩ := exists_tiling source
  have inTiles : scan.lexeme ∈ tiles.map Tile.lexeme := by
    rw [← lexemes]
    exact List.mem_map_of_mem mem
  obtain ⟨t, tile, same⟩ := List.mem_map.mp inTiles
  obtain ⟨front, later, row⟩ := List.append_of_mem tile
  exact ⟨t, _, _, same, tiled.lies_of_eq row⟩

/-- The lexemes of a source, in a row from its start to its end, have growing positions. -/
theorem pairwise_pos_lexemes (source : List UInt8) :
    (TokenStream.ofSource source).lexemes.Pairwise fun l m => l.pos < m.pos := by
  obtain ⟨tiles, last, tiled, covers, lexemes, ends⟩ := exists_tiling source
  rw [TokenStream.lexemes, lexemes, List.pairwise_append]
  refine ⟨List.pairwise_map.mpr tiled.pairwise_pos, List.pairwise_singleton .., ?_⟩
  intro l mem m isEnd
  obtain ⟨t, tile, rfl⟩ := List.mem_map.mp mem
  obtain rfl := List.mem_singleton.mp isEnd
  have inside := (tiled.pos_bounds tile).2
  show t.lexeme.pos.index < (TokenStream.ofSource source).finish.pos.index
  rw [ends, covers]
  simp only [List.nil_append, Pos.ofOffset, List.length_append] at inside ⊢
  omega

/-- The lexemes of a source stand in it, and the end stands right behind it. -/
theorem pos_bounds_lexemes {source : List UInt8} {l : Lexeme}
    (mem : l ∈ (TokenStream.ofSource source).lexemes) :
    1 ≤ l.pos.index ∧ l.pos.index ≤ source.length + 1 := by
  obtain ⟨tiles, last, tiled, covers, lexemes, ends⟩ := exists_tiling source
  rw [TokenStream.lexemes, lexemes] at mem
  rcases List.mem_append.mp mem with front | isEnd
  · obtain ⟨t, tile, rfl⟩ := List.mem_map.mp front
    have bounds := tiled.pos_bounds tile
    rw [covers, List.length_append]
    simp only [List.nil_append, List.length_nil] at bounds
    omega
  · obtain rfl := List.mem_singleton.mp isEnd
    have here : (TokenStream.ofSource source).finish.scanned.lexeme.pos.index =
        source.length + 1 := congrArg Pos.index ends
    omega

/-- **The lexemes of a source tile it.** A source is a row of tiles and a last gap: each tile is a
blank gap and the text of one lexeme, which starts where the position of the lexeme says, is not
empty, does not start blank, and accords with the kind and the literal of the lexeme. The end stands
behind the last byte, positions grow from lexeme to lexeme, and a scanner that is driven by hand
comes upon these lexemes one after the other, and then upon the end forever. -/
theorem lexemes_tile_source (source : List UInt8) :
    ∃ (tiles : List Tile) (last : List UInt8),
      (lex source).lexemes =
        tiles.map Tile.lexeme ++ [⟨.ofOffset source.length, .endOfFormula, ""⟩] ∧
      source = Tile.cover tiles ++ last ∧
      (∀ b ∈ last, isBlankByte b) ∧
      (∀ front t later, tiles = front ++ t :: later →
        t.Lies (Tile.cover front) (Tile.cover later ++ last)) ∧
      (lex source).lexemes.Pairwise (fun l m => l.pos < m.pos) ∧
      ∀ n, ((Scanner.start source).nthScan n).lexeme =
          (lex source).lexemes.getD n ⟨.ofOffset source.length, .endOfFormula, ""⟩ ∧
        ((lex source).lexemes.length ≤ n → ((Scanner.start source).nthScan n).reports = []) := by
  obtain ⟨tiles, last, tiled, covers, lexemes, ends⟩ := exists_tiling source
  refine ⟨tiles, last, ?_, covers, tiled.last_blank, ?_, pairwise_pos_lexemes source, ?_⟩
  · simp only [lex, TokenStream.lexemes, lexemes, StreamEnd.scanned, ends]
  · intro front t later row
    exact tiled.lies_of_eq row
  · exact Scanner.nthScan_eq (Reader.behind_start source)

end SheetFormula

import Mathlib.Tactic.Common
import SheetFormula.Proofs.Lexeme.Outlook
import SheetFormula.Proofs.Lexeme.Shift
import SheetFormula.Proofs.Lexeme.Slot
import SheetFormula.Proofs.Lexeme.Unique

/-!
# Scanning with other gaps

The scanner makes no more of a gap than whether there is one, whether it holds a line break, and
whether a line starts behind it (`GapsAlike`). If all this remains when a source gets other gaps,
then so do its lexemes and what is reported of them, each where its text has gone.

Main results:
* `Scanner.gap_of_bytes`: blank bytes in front of what does not begin blank are the gap there.
* `Scanner.Respaced.recognized`: behind the gaps, scanners of both sources recognize the text of the
  slot and see the same behind it.
* `Scanner.Respaced.scan`: after a scan of each, both stand behind the slot.
* `Scanner.stream_respaced` and `TokenStream.ofSource_respaced`: so their streams are the same but
  for the places.
-/

namespace SheetFormula

open Text (Symbol bytesOf symbols)

/-! ## Gaps as bytes -/

namespace Scanner

/-- A blank byte in front is a blank symbol, and the bytes behind it are the other symbols. -/
theorem symbols_of_blank {b : UInt8} (blank : isBlankByte b) (rest : List UInt8) :
    ∃ s : Symbol, symbols (b :: rest) = s :: symbols rest ∧ s.bytes = [b] ∧
      Text.isBlank s.toChar ∧ (s.toChar = '\n' ↔ b = lineFeed) := by
  have ascii : b.toNat < 0x80 :=
    @Text.severs_of_blank [b] (by simpa using blank) b rfl
  refine ⟨_, Text.symbols_cons_of_ascii ascii rest, Text.encode_of_ascii ascii, ?_⟩
  simp only [isBlankByte, Bool.or_eq_true, decide_eq_true_eq] at blank
  rcases blank with ((rfl | rfl) | rfl) | rfl <;> decide

/-- No gap is in front of what does not begin blank. -/
theorem gap_of_solid {body : List UInt8} (solid : ∀ b ∈ body.head?, ¬ isBlankByte b) :
    gap (symbols body) = [] := by
  have whole := Text.bytesOf_symbols body
  cases ahead : symbols body with
  | nil => rfl
  | cons s rest =>
    have filled : ¬ Text.isBlank s.toChar := by
      intro blank
      obtain ⟨b, later, bytes⟩ := List.exists_cons_of_ne_nil s.bytes_ne_nil
      apply solid b
      · rw [← whole, ahead, Text.bytesOf_cons, bytes]
        rfl
      · exact isBlankByte_of_blank blank (bytes ▸ List.mem_cons_self)
    simp [gap, filled]

/-- **Blank bytes in front of what does not begin blank are the gap there.** -/
theorem gap_of_bytes {blanks body : List UInt8} (blank : ∀ b ∈ blanks, isBlankByte b)
    (solid : ∀ b ∈ body.head?, ¬ isBlankByte b) :
    bytesOf (gap (symbols (blanks ++ body))) = blanks ∧
      (symbols (blanks ++ body)).drop (gap (symbols (blanks ++ body))).length = symbols body ∧
      (hasBreak (gap (symbols (blanks ++ body))) ↔ lineFeed ∈ blanks) := by
  induction blanks with
  | nil =>
    rw [List.nil_append, gap_of_solid solid]
    exact ⟨rfl, rfl, by simp [hasBreak]⟩
  | cons b blanks ih =>
    obtain ⟨here, later⟩ := List.forall_mem_cons.mp blank
    obtain ⟨bytes, rest, breaks⟩ := ih later
    obtain ⟨s, front, one, inGap, line⟩ := symbols_of_blank here (blanks ++ body)
    have longer : gap (s :: symbols (blanks ++ body)) = s :: gap (symbols (blanks ++ body)) := by
      simp [gap, inGap]
    rw [List.cons_append, front, longer]
    refine ⟨?_, rest, ?_⟩
    · rw [Text.bytesOf_cons, one, bytes, List.singleton_append]
    · simp only [hasBreak, List.any_cons, Bool.or_eq_true, beq_iff_eq, line, List.mem_cons]
        at breaks ⊢
      rw [breaks, eq_comm]

end Scanner

/-- Bytes that do not begin but blank are a pause. -/
theorem atPause_symbols {bytes : List UInt8} (blank : ∀ b ∈ bytes.head?, isBlankByte b) :
    AtPause (symbols bytes) := by
  cases bytes with
  | nil =>
    intro c front
    rw [symbols] at front
    cases front
  | cons b rest =>
    obtain ⟨s, front, -, is, -⟩ := Scanner.symbols_of_blank (blank b rfl) rest
    rw [front]
    rintro c ⟨⟩
    exact is

/-- Nothing is wrong with what stands at a pause. -/
theorem frontFault?_of_pause {rest : List Symbol} (pause : AtPause rest) :
    frontFault? rest = none := by
  cases rest with
  | nil => rfl
  | cons s rest => exact Reader.fault?_of_blank (pause s.toChar rfl)

/-- What is wrong with the first symbol does not depend on what follows a pause. -/
theorem frontFault?_append {ahead later later' : List Symbol} (pause : AtPause later)
    (pause' : AtPause later') : frontFault? (ahead ++ later) = frontFault? (ahead ++ later') := by
  cases ahead with
  | nil => exact (frontFault?_of_pause pause).trans (frontFault?_of_pause pause').symm
  | cons s ahead => rfl

/-- Behind gaps that are alike, a line starts behind both or behind none, as it did in front. -/
theorem GapsAlike.atLineStart {before before' gap gap' : List UInt8} (alike : GapsAlike gap gap')
    (line : AtLineStart before ↔ AtLineStart before') :
    AtLineStart (before ++ gap) ↔ AtLineStart (before' ++ gap') := by
  by_cases empty : gap = []
  · rw [empty, alike.empty_iff.mpr empty, List.append_nil, List.append_nil]
    exact line
  · have filled : gap' ≠ [] := fun is => empty (alike.empty_iff.mp is)
    rw [atLineStart_append empty, atLineStart_append filled, AtLineStart, AtLineStart,
      alike.empty_iff, alike.last_iff]

/-- What follows a slot is the same, with the one gaps and with the others, up to a pause. -/
theorem Tiled.exists_common {before last last' : List UInt8} {slots : List Slot}
    (tiled : Tiled before (slots.map Slot.tile) last)
    (alike : ∀ slot ∈ slots, GapsAlike slot.tile.gap slot.gap) (alikeLast : GapsAlike last last') :
    ∃ common more more', Tile.cover (slots.map Slot.tile) ++ last = common ++ more ∧
      Slot.cover slots ++ last' = common ++ more' ∧
      (∀ b ∈ more.head?, isBlankByte b) ∧ ∀ b ∈ more'.head?, isBlankByte b := by
  induction slots generalizing before with
  | nil =>
    refine ⟨[], last, last', rfl, rfl, ?_, ?_⟩
    · exact fun b head => tiled.last_blank b (List.mem_of_mem_head? head)
    · exact fun b head => alikeLast.blank b (List.mem_of_mem_head? head)
  | cons slot slots ih =>
    obtain ⟨first, others⟩ := List.forall_mem_cons.mp alike
    cases tiled with
    | tile lies behind =>
      by_cases empty : slot.tile.gap = []
      · obtain ⟨common, more, more', row, row', pauses⟩ := ih behind others
        refine ⟨slot.tile.text ++ common, more, more', ?_, ?_, pauses⟩
        · rw [List.append_assoc, ← row]
          simp [Tile.cover, Tile.bytes, empty]
        · rw [List.append_assoc, ← row']
          simp [Slot.cover, Slot.bytes, first.empty_iff.mpr empty]
      · have filled : slot.gap ≠ [] := fun is => empty (first.empty_iff.mp is)
        obtain ⟨b, gap, is⟩ := List.exists_cons_of_ne_nil empty
        obtain ⟨b', gap', is'⟩ := List.exists_cons_of_ne_nil filled
        refine ⟨[], _, _, rfl, rfl, ?_, ?_⟩
        · simp only [Tile.cover, Tile.bytes, List.map_cons, List.flatMap_cons, is]
          rintro _ ⟨⟩
          exact lies.gap_blank b (is ▸ List.mem_cons_self)
        · simp only [Slot.cover, Slot.bytes, List.flatMap_cons, is']
          rintro _ ⟨⟩
          exact first.blank b' (is' ▸ List.mem_cons_self)

/-! ## One scan -/

/-- The faults of the legs of a token are among what is reported on the way over it. -/
theorem Reader.mem_follow {start : Nat} {legs : List Leg} (r : Reader) {leg : Leg}
    (mem : leg ∈ legs) {fault : Nat × LexicalFault} (noted : fault ∈ leg.faults) :
    ⟨start + fault.1, fault.2.message⟩ ∈ (r.follow start legs).2 := by
  induction legs generalizing r with
  | nil => cases mem
  | cons first legs ih =>
    rcases List.mem_cons.mp mem with rfl | later
    · apply List.mem_append_left
      apply List.mem_append_right
      exact List.mem_map_of_mem noted
    · exact List.mem_append_right _ (ih _ later)

namespace Scanner

variable {a b : Scanner} {front slots later : List Slot} {slot : Slot} {last last' : List UInt8}

/-- A scanner in front of blank bytes and of what does not begin blank. -/
theorem behindGap_of_bytes {source : List UInt8} {passed : List Symbol} {s : Scanner}
    (stands : s.reader.Behind source passed) {blanks body : List UInt8}
    (ahead : bytesOf s.reader.rest = blanks ++ body) (blank : ∀ b ∈ blanks, isBlankByte b)
    (solid : ∀ b ∈ body.head?, ¬ isBlankByte b) :
    bytesOf (gap s.reader.rest) = blanks ∧ s.behindGap.rest = symbols body ∧
      (hasBreak (gap s.reader.rest) ↔ lineFeed ∈ blanks) := by
  have rest : symbols (blanks ++ body) = s.reader.rest := by
    rw [← ahead]
    exact Text.symbols_drop stands.symbols_eq
  obtain ⟨bytes, behind, breaks⟩ := gap_of_bytes blank solid
  rw [rest] at bytes behind breaks
  refine ⟨bytes, ?_, breaks⟩
  rw [behindGap, Reader.rest_consume]
  exact behind

/-- The gap in front is as wide as its blank bytes. -/
theorem offset_behindGap_of_bytes {source : List UInt8} {passed : List Symbol} {s : Scanner}
    (stands : s.reader.Behind source passed) {blanks body : List UInt8}
    (ahead : bytesOf s.reader.rest = blanks ++ body) (blank : ∀ b ∈ blanks, isBlankByte b)
    (solid : ∀ b ∈ body.head?, ¬ isBlankByte b) :
    s.behindGap.offset = s.reader.offset + blanks.length := by
  obtain ⟨gap, -, -⟩ := behindGap_of_bytes stands ahead blank solid
  rw [(behindGap_stands stands).offset_eq, Text.bytesOf_append, gap, List.length_append,
    stands.offset_eq]

/-- Whether two scanners stand behind the same slots of a row, the one in the source with the gaps
of the tiles, where no string of those ahead lacks its end, and the other one in the source with the
other gaps. -/
structure Respaced (front slots : List Slot) (last last' : List UInt8) (a b : Scanner) : Prop where
  stands : ∃ source passed, a.reader.Behind source passed ∧
    bytesOf passed = Tile.cover (front.map Slot.tile)
  stands' : ∃ source passed, b.reader.Behind source passed ∧ bytesOf passed = Slot.cover front
  ahead : bytesOf a.reader.rest = Tile.cover (slots.map Slot.tile) ++ last
  ahead' : bytesOf b.reader.rest = Slot.cover slots ++ last'
  tiled : Tiled (Tile.cover (front.map Slot.tile)) (slots.map Slot.tile) last
  alike : ∀ slot ∈ slots, GapsAlike slot.tile.gap slot.gap
  alikeLast : GapsAlike last last'
  line_iff : AtLineStart (Tile.cover (front.map Slot.tile)) ↔ AtLineStart (Slot.cover front)
  lexemes : a.stream.tokens.map Scanned.lexeme = (slots.map Slot.tile).map Tile.lexeme
  closed : ∀ scan ∈ a.stream.scans, ∀ d ∈ scan.reports,
    d.message ≠ LexicalFault.unterminatedString.message

namespace Respaced

/-- Behind the gaps in front of them, both scanners stand in front of the same text, and both at the
start of a line or neither. -/
theorem behindGaps (respaced : Respaced front slots last last' a b)
    {blanks blanks' body body' : List UInt8} (alike : GapsAlike blanks blanks')
    (blank : ∀ b ∈ blanks, isBlankByte b)
    (row : Tile.cover (slots.map Slot.tile) ++ last = blanks ++ body)
    (row' : Slot.cover slots ++ last' = blanks' ++ body')
    (solid : ∀ b ∈ body.head?, ¬ isBlankByte b) (solid' : ∀ b ∈ body'.head?, ¬ isBlankByte b) :
    (gap b.reader.rest = [] ↔ gap a.reader.rest = []) ∧
      hasBreak (gap b.reader.rest) = hasBreak (gap a.reader.rest) ∧
      a.behindGap.rest = symbols body ∧ b.behindGap.rest = symbols body' ∧
      a.behindGap.offset = (Tile.cover (front.map Slot.tile) ++ blanks).length ∧
      b.behindGap.offset = (Slot.cover front ++ blanks').length ∧
      (a.behindGap.offset = a.behindGap.lineStart ↔
        b.behindGap.offset = b.behindGap.lineStart) := by
  obtain ⟨source, passed, stands, bytes⟩ := respaced.stands
  obtain ⟨source', passed', stands', bytes'⟩ := respaced.stands'
  obtain ⟨gaps, rest, breaks⟩ :=
    behindGap_of_bytes stands (respaced.ahead.trans row) blank solid
  obtain ⟨gaps', rest', breaks'⟩ :=
    behindGap_of_bytes stands' (respaced.ahead'.trans row') alike.blank solid'
  have here := behindGap_stands stands
  have here' := behindGap_stands stands'
  have nothing : ∀ {blanks : List Symbol}, blanks = [] ↔ bytesOf blanks = [] := by
    intro blanks
    cases blanks with
    | nil => exact iff_of_true rfl rfl
    | cons s blanks => simp [s.bytes_ne_nil]
  have offset := here.offset_eq
  have offset' := here'.offset_eq
  have line := here.lineStart_iff
  have line' := here'.lineStart_iff
  rw [Text.bytesOf_append, bytes, gaps] at offset line
  rw [Text.bytesOf_append, bytes', gaps'] at offset' line'
  refine ⟨?_, ?_, rest, rest', offset, offset', ?_⟩
  · rw [nothing, nothing, gaps, gaps', alike.empty_iff]
  · rw [Bool.eq_iff_iff, breaks, breaks', alike.break_iff]
  · rw [line, line', alike.atLineStart respaced.line_iff]

/-- The slot in front, taken apart. -/
theorem row_cons (slot : Slot) (later : List Slot) (last last' : List UInt8) :
    Tile.cover ((slot :: later).map Slot.tile) ++ last =
        slot.tile.gap ++ (slot.tile.text ++ (Tile.cover (later.map Slot.tile) ++ last)) ∧
      Slot.cover (slot :: later) ++ last' =
        slot.gap ++ (slot.tile.text ++ (Slot.cover later ++ last')) := by
  constructor
  · simp [Tile.cover, Tile.bytes]
  · simp [Slot.cover, Slot.bytes]

/-- A text that a tile may have does not begin blank, whatever follows. -/
theorem solid_of_lies {t : Tile} {before after : List UInt8} (lies : t.Lies before after)
    (rest : List UInt8) : ∀ b ∈ (t.text ++ rest).head?, ¬ isBlankByte b := by
  intro b head
  rw [List.head?_append_of_ne_nil _ lies.text_ne_nil] at head
  exact lies.text_head b head

/-- The tile of the slot in front, and those behind it. -/
theorem lies (respaced : Respaced front (slot :: later) last last' a b) :
    slot.tile.Lies (Tile.cover (front.map Slot.tile)) (Tile.cover (later.map Slot.tile) ++ last) ∧
      Tiled (Tile.cover (front.map Slot.tile) ++ slot.tile.bytes) (later.map Slot.tile) last := by
  cases respaced.tiled with
  | tile lies behind => exact ⟨lies, behind⟩

/-- The scan of the slot in front. -/
theorem scan_front (respaced : Respaced front (slot :: later) last last' a b) :
    a.scan.1.lexeme = slot.tile.lexeme ∧ a.scan.1.token ≠ .endOfFormula ∧
      bytesOf a.scan.2.reader.rest = Tile.cover (later.map Slot.tile) ++ last ∧
      a.scan.2.stream.tokens.map Scanned.lexeme = (later.map Slot.tile).map Tile.lexeme := by
  obtain ⟨source, passed, stands, bytes⟩ := respaced.stands
  have tiled := respaced.tiled
  rw [← bytes] at tiled
  obtain ⟨yields, ahead, lexemes⟩ := scan_tiled stands tiled respaced.ahead respaced.lexemes
  refine ⟨yields, ?_, ahead, lexemes⟩
  rw [Scanned.token, yields]
  exact token_ne_end_of_lies respaced.lies.1

/-- What one scanner recognizes is not a string without its end. -/
theorem closed_of_recognized (respaced : Respaced front slots last last' a b)
    {found : Recognition} (recognized : a.recognized? = some found)
    (more : a.scan.1.token ≠ .endOfFormula) :
    ∀ leg ∈ found.legs, ∀ fault ∈ leg.faults, fault.2 ≠ .unterminatedString := by
  intro leg mem fault noted is
  have reported := @Reader.mem_follow a.behindGap.offset _ a.behindGap _ mem _ noted
  have among : a.scan.1 ∈ a.stream.scans := by
    rw [TokenStream.scans, stream_of_ne more]
    simp
  refine respaced.closed a.scan.1 among ⟨a.behindGap.offset + fault.1, fault.2.message⟩ ?_ ?_
  · rw [(scan_reports a).2, recognized]
    exact List.mem_append_right _ reported
  · rw [is]

/-- **Behind the gaps, both scanners recognize the text of the slot**, and see the same behind
it. -/
theorem recognized (respaced : Respaced front (slot :: later) last last' a b) :
    ∃ found taken more more', a.recognized? = some found ∧ b.recognized? = some found ∧
      found.count = taken.length ∧ bytesOf taken = slot.tile.text ∧
      a.behindGap.rest = taken ++ more ∧ b.behindGap.rest = taken ++ more' ∧
      frontFault? more = frontFault? more' := by
  obtain ⟨row, row'⟩ := row_cons slot later last last'
  obtain ⟨first, others⟩ := List.forall_mem_cons.mp respaced.alike
  obtain ⟨-, furtherThanEnd, ahead, -⟩ := respaced.scan_front
  obtain ⟨lies, behind⟩ := respaced.lies
  obtain ⟨-, -, rest, rest', -, -, line⟩ := respaced.behindGaps first lies.gap_blank row row'
    (solid_of_lies lies _) (solid_of_lies lies _)
  obtain ⟨common, pause, pause', after, after', blank, blank'⟩ :=
    behind.exists_common others respaced.alikeLast
  have split : ∀ {pause : List UInt8}, (∀ b ∈ pause.head?, isBlankByte b) →
      symbols (slot.tile.text ++ (common ++ pause)) =
        symbols (slot.tile.text ++ common) ++ symbols pause := by
    intro pause blank
    rw [← List.append_assoc, Text.symbols_append _ (Text.severs_of_blank blank)]
  rw [after, split blank] at rest
  rw [after', split blank'] at rest'
  obtain ⟨found, recognized⟩ : ∃ found, a.recognized? = some found := by
    cases found? : a.recognized? with
    | some found => exact ⟨found, rfl⟩
    | none =>
      rw [Scanned.token, (scan_of_none found?).1] at furtherThanEnd
      exact absurd rfl furtherThanEnd
  -- The symbols that are taken have the bytes of the text, and so they end in front of the pause.
  have taken : bytesOf (a.behindGap.rest.take found.count) = slot.tile.text := by
    have whole := congrArg bytesOf (List.take_append_drop found.count a.behindGap.rest)
    have left : a.scan.2.reader.rest = a.behindGap.rest.drop found.count := by
      rw [(scan_of_some recognized).2, Reader.rest_follow]
      rfl
    have text : bytesOf a.behindGap.rest =
        slot.tile.text ++ (Tile.cover (later.map Slot.tile) ++ last) := by
      rw [rest, ← split blank, Text.bytesOf_symbols, after]
    rw [Text.bytesOf_append, ← left, ahead, text] at whole
    exact List.append_cancel_right whole
  have within : found.count ≤ (symbols (slot.tile.text ++ common)).length := by
    have count := Recognition.count_le_length recognized
    by_contra beyond
    have bytes := congrArg List.length taken
    rw [rest, List.take_append, List.take_of_length_le (by omega), Text.bytesOf_append,
      Text.bytesOf_symbols, List.length_append, List.length_append] at bytes
    have few := Text.length_le_length_bytesOf ((symbols pause).take
      (found.count - (symbols (slot.tile.text ++ common)).length))
    rw [rest, List.length_append] at count
    rw [List.length_take] at few
    omega
  refine ⟨found, (symbols (slot.tile.text ++ common)).take found.count,
    (symbols (slot.tile.text ++ common)).drop found.count ++ symbols pause,
    (symbols (slot.tile.text ++ common)).drop found.count ++ symbols pause', recognized, ?_, ?_,
    ?_, ?_, ?_, ?_⟩
  · have closed := respaced.closed_of_recognized recognized furtherThanEnd
    unfold recognized? at recognized ⊢
    rw [rest] at recognized
    simp only [rest', ← line]
    exact Recognition.ofSymbols_swap (atPause_symbols blank) (atPause_symbols blank') recognized
      within closed
  · rw [List.length_take, Nat.min_eq_left within]
  · rwa [rest, List.take_append_of_le_length within] at taken
  · rw [← List.append_assoc, List.take_append_drop, rest]
  · rw [← List.append_assoc, List.take_append_drop, rest']
  · exact frontFault?_append (atPause_symbols blank) (atPause_symbols blank')

/-- Both scanners are in step. -/
theorem inStep {r : Relocation} {all : List Slot} (follows : r.Follows all last last')
    (row : all = front ++ slots) (respaced : Respaced front slots last last' a b) :
    ∃ taken more more', InStep r taken more more' a b := by
  -- At the end both scanners see nothing, and in front of a slot both see the text of that slot,
  -- whatever blanks stand around it.
  cases slots with
  | nil =>
    have solid : ∀ b ∈ ([] : List UInt8).head?, ¬ isBlankByte b := by simp
    obtain ⟨gaps, breaks, rest, rest', offset, offset', -⟩ :=
      respaced.behindGaps respaced.alikeLast respaced.tiled.last_blank
        (List.append_nil _).symm (List.append_nil _).symm solid solid
    have nothing : symbols [] = [] := by simp [symbols]
    rw [nothing] at rest rest'
    have none_ : ∀ {s : Scanner}, s.behindGap.rest = [] → s.recognized? = none := by
      intro s ends
      rw [recognized?, ends]
      rfl
    rw [List.append_nil] at row
    refine ⟨[], [], [], gaps, breaks, (none_ rest').trans (none_ rest).symm, ?_, rfl, rest, rest',
      ?_⟩
    · intro found is
      rw [none_ rest] at is
      cases is
    · intro d within
      obtain rfl := Nat.le_zero.mp within
      rw [offset, offset', Nat.add_zero, Nat.add_zero, ← row]
      exact ⟨follows.covers_end, follows.moves.ends⟩
  | cons slot later =>
    obtain ⟨found, taken, more, more', recognized, recognized', count, bytes, ahead, ahead',
      same⟩ := respaced.recognized
    obtain ⟨rowHere, rowHere'⟩ := row_cons slot later last last'
    have lies := respaced.lies.1
    obtain ⟨gaps, breaks, -, -, offset, offset', -⟩ :=
      respaced.behindGaps (respaced.alike slot List.mem_cons_self) lies.gap_blank rowHere rowHere'
        (solid_of_lies lies _) (solid_of_lies lies _)
    refine ⟨taken, more, more', gaps, breaks, recognized'.trans recognized.symm, ?_, same, ahead,
      ahead', ?_⟩
    · intro other is
      obtain rfl := Option.some.inj (is.symm.trans recognized)
      exact count
    · intro d within
      rw [bytes] at within
      rw [offset, offset']
      exact ⟨follows.covers front slot later row d within,
        follows.moves.along front slot later row d within⟩

/-- A scanner that has scanned some bytes stands behind them. -/
theorem stands_behind {s : Scanner} {before taken after : List UInt8}
    (stands : ∃ source passed, s.reader.Behind source passed ∧ bytesOf passed = before)
    (ahead : bytesOf s.reader.rest = taken ++ after)
    (behind : bytesOf s.scan.2.reader.rest = after) :
    ∃ source passed, s.scan.2.reader.Behind source passed ∧
      bytesOf passed = before ++ taken := by
  obtain ⟨source, passed, stands, bytes⟩ := stands
  obtain ⟨passed', stands'⟩ := scan_stands stands
  refine ⟨source, passed', stands', ?_⟩
  have same := stands'.source_eq.symm.trans stands.source_eq
  rw [ahead, behind, bytes, ← List.append_assoc] at same
  exact List.append_cancel_right same

/-- After a scan of each, both scanners stand behind the slot. -/
theorem scan (respaced : Respaced front (slot :: later) last last' a b) :
    Respaced (front ++ [slot]) later last last' a.scan.2 b.scan.2 := by
  obtain ⟨row, row'⟩ := row_cons slot later last last'
  obtain ⟨first, others⟩ := List.forall_mem_cons.mp respaced.alike
  obtain ⟨lies, behind⟩ := respaced.lies
  obtain ⟨-, more, ahead, lexemes⟩ := respaced.scan_front
  have ahead' : bytesOf b.scan.2.reader.rest = Slot.cover later ++ last' := by
    obtain ⟨-, -, -, text, -⟩ := respaced.behindGaps first lies.gap_blank row row'
      (solid_of_lies lies _) (solid_of_lies lies _)
    obtain ⟨found, taken, more, more', -, recognized, count, bytes, -, rest, -⟩ :=
      respaced.recognized
    have left : b.scan.2.reader.rest = more' := by
      rw [(scan_of_some recognized).2, Reader.rest_follow, rest]
      exact List.drop_left' count.symm
    have whole := congrArg bytesOf (rest.symm.trans text)
    rw [Text.bytesOf_append, bytes, Text.bytesOf_symbols] at whole
    rw [left]
    exact List.append_cancel_left whole
  have cover : Tile.cover ((front ++ [slot]).map Slot.tile) =
      Tile.cover (front.map Slot.tile) ++ (slot.tile.gap ++ slot.tile.text) := by
    simp [Tile.cover, Tile.bytes]
  have cover' : Slot.cover (front ++ [slot]) =
      Slot.cover front ++ (slot.gap ++ slot.tile.text) := by
    simp [Slot.cover, Slot.bytes]
  refine ⟨?_, ?_, ahead, ahead', ?_, others, respaced.alikeLast, ?_, lexemes, ?_⟩
  · rw [cover]
    refine stands_behind respaced.stands ?_ ahead
    rw [respaced.ahead, row, List.append_assoc]
  · rw [cover']
    refine stands_behind respaced.stands' ?_ ahead'
    rw [respaced.ahead', row', List.append_assoc]
  · rw [cover]
    exact behind
  · rw [cover, cover', ← List.append_assoc, ← List.append_assoc,
      atLineStart_append lies.text_ne_nil, atLineStart_append lies.text_ne_nil]
  · intro scan mem
    apply respaced.closed scan
    rw [TokenStream.scans, stream_of_ne more]
    exact List.mem_cons_of_mem _ mem

end Respaced

/-- **What is scanned remains when a source gets other gaps**, each lexeme where its text is. -/
theorem stream_respaced {r : Relocation} {all : List Slot} (follows : r.Follows all last last')
    (row : all = front ++ slots) (respaced : Respaced front slots last last' a b) :
    a.stream.Moved r b.stream := by
  have step : ∀ a b, (∃ front slots, all = front ++ slots ∧
      Respaced front slots last last' a b) → a.scan.1.Moved r b.scan.1 ∧
        (a.scan.1.token ≠ .endOfFormula → ∃ front slots, all = front ++ slots ∧
          Respaced front slots last last' a.scan.2 b.scan.2) := by
    rintro a b ⟨front, slots, row, respaced⟩
    obtain ⟨taken, more, more', step⟩ := respaced.inStep follows row
    refine ⟨(scan_moved step).1, ?_⟩
    intro further
    cases slots with
    | cons slot later => exact ⟨front ++ [slot], later, by rw [row]; simp, respaced.scan⟩
    | nil =>
      obtain ⟨source, passed, stands, -⟩ := respaced.stands
      have lexemes := respaced.lexemes
      rw [stream_of_ne further] at lexemes
      cases lexemes
  exact stream_moved step ⟨front, slots, row, respaced⟩

/-- What is wrong with the first symbol of a source remains too. -/
theorem InStep.opening {r : Relocation} {taken more more' : List Symbol}
    (step : InStep r taken more more' a b) : r.Moves a.reader.faults b.reader.faults := by
  have quiet : ∀ {s : Scanner}, gap s.reader.rest ≠ [] → s.reader.faults = [] := by
    intro s filled
    rw [Reader.faults_eq]
    cases ahead : s.reader.rest with
    | nil => rfl
    | cons t rest =>
      have blank : Text.isBlank t.toChar := by
        by_contra solid
        rw [ahead] at filled
        exact filled (by simp [gap, solid])
      simp [frontFault?, Reader.fault?_of_blank blank]
  by_cases solid : gap a.reader.rest = []
  · have front := step.readers.faults step.fault_eq
    rwa [behindGap_of_solid solid, behindGap_of_solid (step.gap_iff.mpr solid)] at front
  · rw [quiet solid, quiet fun is => solid (step.gap_iff.mp is)]
    exact .nil

end Scanner

/-- **The stream of a source with other gaps**, and what is reported in front of it. -/
theorem TokenStream.ofSource_respaced {r : Relocation} {slots : List Slot}
    {last last' : List UInt8} {source source' : List UInt8}
    (follows : r.Follows slots last last') (tiled : Tiled [] (slots.map Slot.tile) last)
    (alike : ∀ slot ∈ slots, GapsAlike slot.tile.gap slot.gap) (alikeLast : GapsAlike last last')
    (covers : source = Tile.cover (slots.map Slot.tile) ++ last)
    (covers' : source' = Slot.cover slots ++ last')
    (lexemes : (ofSource source).tokens.map Scanned.lexeme = (slots.map Slot.tile).map Tile.lexeme)
    (closed : ∀ scan ∈ (ofSource source).scans, ∀ d ∈ scan.reports,
      d.message ≠ LexicalFault.unterminatedString.message) :
    (ofSource source).Moved r (ofSource source') ∧
      r.Moves (Scanner.openingReports source) (Scanner.openingReports source') := by
  have respaced : Scanner.Respaced [] slots last last' (.start source) (.start source') := by
    refine ⟨⟨source, [], Reader.behind_start _, rfl⟩, ⟨source', [], Reader.behind_start _, rfl⟩,
      ?_, ?_, tiled, alike, alikeLast, Iff.rfl, lexemes, closed⟩
    · rw [← covers]
      exact Text.bytesOf_symbols source
    · rw [← covers']
      exact Text.bytesOf_symbols source'
  obtain ⟨taken, more, more', step⟩ := respaced.inStep follows rfl
  exact ⟨Scanner.stream_respaced follows rfl respaced, step.opening⟩

end SheetFormula

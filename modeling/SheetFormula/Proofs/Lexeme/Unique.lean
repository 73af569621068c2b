import Mathlib.Tactic.Common
import SheetFormula.Proofs.Lexeme.Report
import SheetFormula.Proofs.Text.Seam

/-!
# One tiling only

The lexemes of a source tell where the tiles begin, and each with its kind and its literal tells
what its text is.

Main results:
* `Token.Accords.eq_nil_of_append`: a lexeme accords with one text at a place, not with a longer one
  too.
* `Tiled.unique`: so a source is tiled by its lexemes in one way only.
* `Scanner.scan_tiled`: in any row of tiles with these lexemes the first tile is what the first scan
  lays.
-/

namespace SheetFormula

open Text (Symbol bytesOf)

/-- No character goes on into a gap. -/
theorem Text.severs_of_blank {after : List UInt8} (blank : ∀ b ∈ after.head?, isBlankByte b) :
    Severs after := by
  intro b head
  have is := blank b head
  simp only [isBlankByte, Bool.or_eq_true, decide_eq_true_eq] at is
  rcases is with ((rfl | rfl) | rfl) | rfl <;> decide

/-- Whoever accords with a lexeme does not accord with it any more when blanks are added. -/
theorem Token.Accords.eq_nil_of_append {token : Token} {before text after after' : List UInt8}
    {blanks : List UInt8} {literal : String} (accords : token.Accords before text after literal)
    (longer : token.Accords before (text ++ blanks) after' literal) (nonempty : text ≠ [])
    (blank : ∀ b ∈ blanks, isBlankByte b) : blanks = [] := by
  have severs : Text.Severs blanks :=
    Text.severs_of_blank fun b head => blank b (List.mem_of_mem_head? head)
  have spelled : ∀ bytes, text = bytes → text ++ blanks = bytes → blanks = [] := by
    intro bytes same same'
    exact List.append_right_eq_self.mp (same'.trans same.symm)
  -- A token with a text of its own keeps it as its literal, which further blanks would lengthen.
  have kept : literal = Text.lossyString text → literal = Text.lossyString (text ++ blanks) →
      blanks = [] := by
    intro same same'
    have chars := congrArg String.toList (same'.symm.trans same)
    rw [Text.lossyString, Text.lossyString, String.toList_ofList, String.toList_ofList,
      Text.lossy_append text severs] at chars
    by_contra some_
    exact Text.lossy_ne_nil some_ (List.append_right_eq_self.mp chars)
  -- One character with a blank in its encoding is the blank itself, and leaves no room for `text`.
  have illegal : ∀ {bytes : List UInt8}, ((∃ c, bytes = String.utf8EncodeChar c) ∨
      ∃ b : UInt8, bytes = [b]) → bytes = text ++ blanks → blanks = [] := by
    intro bytes one whole
    by_contra some_
    obtain ⟨b, later, rfl⟩ := List.exists_cons_of_ne_nil some_
    have long : 1 < bytes.length := by
      have pos := List.length_pos_iff.mpr nonempty
      rw [whole, List.length_append, List.length_cons]
      omega
    rcases one with ⟨c, rfl⟩ | ⟨b', rfl⟩
    · have ascii := severs b rfl
      have mem : b ∈ String.utf8EncodeChar c := by
        rw [whole]
        simp
      rw [Text.eq_of_mem_encode mem ascii, Text.encode_of_ascii ascii] at long
      exact absurd long (Nat.lt_irrefl 1)
    · exact absurd long (Nat.lt_irrefl 1)
  cases token
  case illegal =>
    refine illegal ?_ rfl
    rcases longer with ⟨c, -, is⟩ | ⟨b, is, -⟩
    · exact .inl ⟨c, is⟩
    · exact .inr ⟨b, is⟩
  all_goals first
    | exact kept accords longer
    | exact spelled _ accords.1 longer.1
    | exact accords.elim

namespace Tiled

variable {before last last' : List UInt8} {t u : Tile} {tiles tiles' : List Tile}

/-- The bytes in front of the first tile of a row are blank. -/
theorem blank_of_prefix (tiled : Tiled before tiles last) {bytes : List UInt8}
    (front : bytes <+: Tile.cover tiles ++ last)
    (inside : ∀ t ∈ tiles.head?, before.length + bytes.length ≤ t.lexeme.pos.offset) :
    ∀ b ∈ bytes, isBlankByte b := by
  cases tiled with
  | last blank => exact fun b mem => blank b (front.subset mem)
  | @tile _ _ t tiles lies behind =>
    have bound := inside t rfl
    rw [lies.pos_eq] at bound
    have fits : bytes.length ≤ t.gap.length := Nat.le_of_add_le_add_left bound
    have within : bytes <+: t.gap := by
      rw [Tile.cover, List.flatMap_cons, Tile.bytes, List.append_assoc, List.append_assoc] at front
      exact List.prefix_of_prefix_length_le front (List.prefix_append ..) fits
    exact fun b mem => lies.gap_blank b (within.subset mem)

/-- Where the first tile of a row is, the row has begun. -/
theorem le_offset_of_head (tiled : Tiled before tiles last) :
    ∀ t ∈ tiles.head?, before.length ≤ t.lexeme.pos.offset := by
  intro t head
  cases tiled with
  | last blank => cases head
  | tile lies behind =>
    obtain rfl := Option.some.inj head
    rw [lies.pos_eq]
    exact Nat.le_add_right ..

/-- The text of a tile is not longer than that of another one, if both have the same lexeme, begin
at the same place and have the same lexemes behind them. -/
theorem eq_nil_of_text_append (lies : t.Lies before (Tile.cover tiles ++ last))
    (behind : Tiled (before ++ t.bytes) tiles last)
    (lies' : u.Lies before (Tile.cover tiles' ++ last'))
    (behind' : Tiled (before ++ u.bytes) tiles' last') (gaps : u.gap = t.gap)
    (lexeme : u.lexeme = t.lexeme)
    (lexemes : tiles'.map Tile.lexeme = tiles.map Tile.lexeme) {more : List UInt8}
    (text : u.text = t.text ++ more)
    (after : Tile.cover tiles ++ last = more ++ (Tile.cover tiles' ++ last')) : more = [] := by
  have accords' := lies'.accords
  rw [gaps, lexeme, text] at accords'
  refine lies.accords.eq_nil_of_append accords' lies.text_ne_nil ?_
  apply behind.blank_of_prefix ⟨_, after.symm⟩
  intro v head
  have same : tiles'.head?.map Tile.lexeme = tiles.head?.map Tile.lexeme := by
    rw [← List.head?_map, ← List.head?_map, lexemes]
  rw [head] at same
  obtain ⟨w, head', is⟩ := Option.map_eq_some_iff.mp same
  have begun := behind'.le_offset_of_head w head'
  rw [is] at begun
  refine Nat.le_trans (Nat.le_of_eq ?_) begun
  simp only [Tile.bytes, gaps, text, List.length_append, Nat.add_assoc]

/-- **A source is tiled by its lexemes in one way only.** -/
theorem unique (tiled : Tiled before tiles last) (tiled' : Tiled before tiles' last')
    (lexemes : tiles'.map Tile.lexeme = tiles.map Tile.lexeme)
    (covers : Tile.cover tiles' ++ last' = Tile.cover tiles ++ last) :
    tiles' = tiles ∧ last' = last := by
  induction tiled generalizing tiles' with
  | last blank =>
    obtain rfl := List.map_eq_nil_iff.mp lexemes
    exact ⟨rfl, covers⟩
  | @tile before last t tiles lies behind ih =>
    cases tiled' with
    | last blank => cases lexemes
    | @tile _ _ u tiles' lies' behind' =>
      obtain ⟨lexeme, later⟩ := List.cons.inj lexemes
      have length : u.gap.length = t.gap.length := by
        have same : u.lexeme.pos = t.lexeme.pos := by rw [lexeme]
        rw [lies.pos_eq, lies'.pos_eq] at same
        have index := congrArg Pos.offset same
        exact Nat.add_left_cancel index
      simp only [Tile.cover, List.flatMap_cons, Tile.bytes, List.append_assoc] at covers
      obtain ⟨gaps, texts⟩ := List.append_inj covers length
      have text : u.text = t.text := by
        rcases List.append_eq_append_iff.mp texts with ⟨more, text, after⟩ | ⟨more, text, after⟩
        · have nothing := eq_nil_of_text_append lies' behind' lies behind gaps.symm lexeme.symm
            later.symm text after
          rw [text, nothing, List.append_nil]
        · have nothing := eq_nil_of_text_append lies behind lies' behind' gaps lexeme later text
            after
          rw [text, nothing, List.append_nil]
      obtain ⟨gap, text', lexeme'⟩ := u
      obtain ⟨gap', text'', lexeme''⟩ := t
      obtain rfl : gap = gap' := gaps
      obtain rfl : text' = text'' := text
      obtain rfl : lexeme' = lexeme'' := lexeme
      obtain ⟨rfl, rfl⟩ := ih behind' later (List.append_cancel_left texts)
      exact ⟨rfl, rfl⟩

end Tiled

namespace Scanner

variable {source : List UInt8} {passed : List Symbol} {s : Scanner} {last : List UInt8}
  {tiles : List Tile}

/-- **The first tile of a row is what the first scan lays**, if the row has the lexemes that are
scanned. -/
theorem scan_tiled {t : Tile} (stands : s.reader.Behind source passed)
    (tiled : Tiled (bytesOf passed) (t :: tiles) last)
    (covers : bytesOf s.reader.rest = Tile.cover (t :: tiles) ++ last)
    (lexemes : s.stream.tokens.map Scanned.lexeme = (t :: tiles).map Tile.lexeme) :
    s.scan.1.lexeme = t.lexeme ∧
      bytesOf s.scan.2.reader.rest = Tile.cover tiles ++ last ∧
      s.scan.2.stream.tokens.map Scanned.lexeme = tiles.map Tile.lexeme := by
  cases scan_lays stands with
  | ends ends =>
    rw [stream_of_eq ends] at lexemes
    cases lexemes
  | tile u taken more yields behind bytes ahead lies =>
    obtain ⟨tiles', last', tiled', covers', lexemes', -⟩ := tiled_stream behind
    rw [Text.bytesOf_append, bytes] at tiled'
    rw [stream_of_ne more, List.map_cons, List.map_cons] at lexemes
    obtain ⟨first, later⟩ := List.cons.inj lexemes
    have row : Tile.cover (u :: tiles') ++ last' = Tile.cover (t :: tiles) ++ last := by
      rw [← covers, ahead, covers', Tile.cover, Tile.cover, List.flatMap_cons, List.append_assoc]
    have same : (u :: tiles').map Tile.lexeme = (t :: tiles).map Tile.lexeme := by
      rw [List.map_cons, List.map_cons, ← lexemes', later, ← yields, first]
    obtain ⟨tilings, rfl⟩ := tiled.unique (.tile (covers' ▸ lies) tiled') same row
    obtain ⟨rfl, rfl⟩ := List.cons.inj tilings
    exact ⟨yields, covers', later⟩

end Scanner

end SheetFormula

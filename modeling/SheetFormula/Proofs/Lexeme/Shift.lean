import Mathlib.Tactic.Common
import SheetFormula.Proofs.Lexeme.Placement
import SheetFormula.Proofs.Lexeme.Suffix

/-!
# Something in front of a source

A text in front of a source moves all that is scanned of the source by as many bytes as it has, and
does nothing else, once it has been passed: a scanner of the source trails one of the whole. The
source must not begin with an equals sign, as there a line starts in the source, but not behind the
text.

Main results:
* `Scanner.stream_shifted`: what is scanned of a source moves with it.
* `Scanner.scan_front`: a text that is scanned as one token leaves the scanner in front of the
  source.
* `TokenStream.ofSource_front`: the stream of a source with such a text in front of it.
-/

namespace SheetFormula

open Text (Symbol bytesOf symbols)

namespace Scanner

variable {front : String} {source : List UInt8} {a b : Scanner}

/-- Whether a scanner stands where another one does in a source with some text in front of it. -/
structure Shifted (front : String) (source : List UInt8) (a b : Scanner) : Prop where
  stands : ∃ passed, a.reader.Behind source passed
  stands' : ∃ passed, b.reader.Behind (Text.encoded front ++ source) passed
  rest_eq : b.reader.rest = a.reader.rest

/-- **What is scanned of a source moves with it**, when something has been put in front of it. -/
theorem stream_shifted (unled : frontChar? (symbols source) ≠ some '=')
    (shifted : Shifted front source a b) :
    a.stream.Moved (.shift (Text.encoded front).length) b.stream := by
  obtain ⟨stands, stands', rest_eq⟩ := shifted
  have behind : (Text.encoded front ++ source).drop (Text.encoded front).length = source :=
    List.drop_left
  have inside : (Text.encoded front).length ≤ (Text.encoded front ++ source).length := by
    rw [List.length_append]
    exact Nat.le_add_right ..
  have trails : Trails (Text.encoded front ++ source) (Text.encoded front).length a b :=
    ⟨inside, behind.symm ▸ stands, stands', rest_eq, fun _ => behind.symm ▸ unled⟩
  exact stream_trailed trails

/-- **A text in front of a source that is scanned as one token** leaves the scanner in front of the
source, with what is wrong with the first symbol of the source reported on the way. -/
theorem scan_front {token : Token} (nonempty : front ≠ "") (harmless : '\x00' ∉ front.toList)
    {s : Scanner} (starts : s = start (Text.encoded front ++ source))
    (solid : gap s.reader.rest = [])
    (recognized : s.recognized? = some (.plain token front.length)) :
    s.scan.1.lexeme = ⟨.ofOffset 0, token, literal token (front.toList.map .character)⟩ ∧
      Shifted front source (start source) s.scan.2 ∧
      Relocation.Moves (.shift (Text.encoded front).length) (openingReports source)
        s.scan.1.reports := by
  have stands : s.reader.Behind (Text.encoded front ++ source) [] := by
    rw [starts]
    exact Reader.behind_start _
  have ahead : s.reader.rest = front.toList.map .character ++ symbols source := by
    rw [← Text.symbols_encode_append]
    exact stands.symbols_eq.symm
  have length : (front.toList.map Symbol.character).length = front.length := by
    rw [List.length_map, String.length_toList]
  have behindGap := behindGap_of_solid solid
  obtain ⟨yields, leaves⟩ := scan_of_some recognized
  rw [behindGap, ahead] at yields
  rw [behindGap] at leaves
  have offset : s.reader.offset = 0 := by rw [starts]; rfl
  have behind := stands.consume front.length
  have rest : (s.reader.consume front.length).1.rest = symbols source := by
    rw [Reader.rest_consume, ahead, ← length, List.drop_left]
  have passed : s.reader.rest.take front.length = front.toList.map .character := by
    rw [ahead, ← length, List.take_left]
  refine ⟨?_, ⟨⟨[], Reader.behind_start _⟩, ?_, ?_⟩, ?_⟩
  · rw [yields, offset, Recognition.count_plain, ← length, List.take_left]
    rfl
  · rw [leaves]
    exact ⟨_, behind⟩
  · rw [leaves]
    exact rest
  -- The opening report of the bare source comes here with the scan of what is put in front, as it
  -- is made when its first symbol comes into view.
  · obtain ⟨-, reports⟩ := s.scan_reports
    rw [solid, recognized, behindGap] at reports
    have quiet : ∀ t ∈ s.reader.rest.take front.length, t.fault? = none := by
      intro t mem
      rw [passed] at mem
      obtain ⟨c, inFront, rfl⟩ := List.mem_map.mp mem
      have plain : c ≠ '\x00' := by
        rintro rfl
        exact harmless inFront
      simp [Symbol.fault?, plain]
    have some_ : front.length ≠ 0 := by simpa using nonempty
    have last := Reader.reports_consume s.reader quiet
    rw [if_neg some_] at last
    have found : s.scan.1.reports = (s.reader.consume front.length).1.faults := by
      rw [reports, ← last]
      simp [Recognition.plain, Reader.follow, Reader.consume]
    rw [found]
    have step : Reader.InStep (.shift (Text.encoded front).length) [] (symbols source)
        (symbols source) (Reader.start source) (s.reader.consume front.length).1 := by
      refine ⟨rfl, rest, ?_⟩
      intro d inside
      refine ⟨trivial, ?_⟩
      rw [behind.offset_eq, passed, List.nil_append, Text.bytesOf_characters]
      show 0 + d + (Text.encoded front).length = (Text.encoded front).length + d
      omega
    exact step.faults rfl

end Scanner

/-- **The stream of a source with a text in front of it** that is scanned as one token: that token,
and behind it the stream of the source, moved. What is wrong with the first symbol of the source is
reported with the token. -/
theorem TokenStream.ofSource_front {front : String} {source : List UInt8} {token : Token}
    (nonempty : front ≠ "") (harmless : '\x00' ∉ front.toList)
    (unled : frontChar? (symbols source) ≠ some '=') {s : Scanner}
    (starts : s = .start (Text.encoded front ++ source))
    (solid : Scanner.gap s.reader.rest = [])
    (recognized : s.recognized? = some (.plain token front.length)) :
    s.stream.lookahead.lexeme =
        ⟨.ofOffset 0, token, Scanner.literal token (front.toList.map .character)⟩ ∧
      (ofSource source).Moved (.shift (Text.encoded front).length) s.stream.advance ∧
      Relocation.Moves (.shift (Text.encoded front).length) (Scanner.openingReports source)
        (Scanner.openingReports (Text.encoded front ++ source) ++
          s.stream.lookahead.reports) := by
  have stands : s.reader.Behind (Text.encoded front ++ source) [] := by
    rw [starts]
    exact Reader.behind_start _
  obtain ⟨lookahead, advance⟩ := Scanner.advance_stream stands
  obtain ⟨yields, shifted, reports⟩ :=
    Scanner.scan_front nonempty harmless starts solid recognized
  have quiet : Scanner.openingReports (Text.encoded front ++ source) = [] := by
    have ahead : frontFault? (symbols (Text.encoded front ++ source)) = none := by
      rw [Text.encoded, Text.symbols_encode_append]
      cases chars : front.toList with
      | nil => exact absurd (String.toList_eq_nil_iff.mp chars) nonempty
      | cons c chars' =>
        have plain : c ≠ '\x00' := by
          rintro rfl
          exact harmless (chars ▸ List.mem_cons_self)
        simp [frontFault?, Symbol.fault?, plain]
    rw [Scanner.openingReports, Reader.faults_eq,
      show (Scanner.start _).reader.rest = symbols (Text.encoded front ++ source) from rfl, ahead]
    rfl
  rw [lookahead, advance, quiet, List.nil_append]
  exact ⟨yields, Scanner.stream_shifted unled shifted, reports⟩

end SheetFormula

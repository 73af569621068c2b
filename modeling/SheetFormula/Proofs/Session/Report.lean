import Mathlib.Tactic.Common
import SheetFormula.Proofs.Exchange.Reading
import SheetFormula.Proofs.Session.Dialogue

/-!
# Reports keep what they report

The report on a line that fails is a single line, whatever bytes are in the line and whatever its
diagnostics quote of them: control characters are escaped, and bytes of characters further up are no
control characters either.

Main results:
* `Session.report_inj`: reports on different texts or different diagnostics are different.
* `Session.reports_keep_failures`: a reader has the text of the line and all its diagnostics back
  from the report alone.
-/

namespace SheetFormula

/-- Where no character of a text is a control character, no byte is. -/
theorem Text.le_of_mem_encoded {s : String} (visible : ∀ c ∈ s.toList, 0x20 ≤ c.toNat) :
    ∀ b ∈ encoded s, 0x20 ≤ b.toNat := by
  intro b mem
  obtain ⟨c, within, byte⟩ := List.mem_flatMap.mp mem
  by_contra small
  have ascii : b.toNat < 0x80 := by omega
  have size : c.toNat = b.toNat := by
    rw [eq_of_mem_encode byte ascii, toNat_charOfNat (by omega) (.inl (by omega))]
  exact small (size ▸ visible c within)

namespace Session

/-- Reports on different texts or different diagnostics are different. -/
theorem report_inj {text text' : String} {failure failure' : Failure}
    (same : (report text failure).compact = (report text' failure').compact) :
    text = text' ∧ failure.diagnostics = failure'.diagnostics := by
  have read := (readable_report text failure).read?_compact
  rw [same, (readable_report text' failure').read?_compact] at read
  have injective : Function.Injective Diagnostic.toJson := by
    rintro ⟨offset, message⟩ ⟨offset', message'⟩ same
    simpa [Diagnostic.toJson] using same
  simp only [report, Diagnostic.listToJson, Option.some.injEq, Json.object.injEq,
    List.cons.injEq, Prod.mk.injEq, Json.text.injEq, Json.list.injEq, true_and, and_true] at read
  exact ⟨read.1.symm, (List.map_injective_iff.mpr injective read.2).symm⟩

/-- The report on a line, as it is written. -/
def writtenReport (line : List UInt8) : String :=
  (report (Text.lossyString line) ⟨(parseFormula {} line).diagnostics.items⟩).compact

/-- **Reports are single lines and lose nothing.** Behind the notice on a line that fails, a session
with reports prints one line without control characters. It is a JSON text, from which an object is
read with the text of the line and its diagnostics, in order, and nothing else. So lines that fail
have the same report only if they have the same text and the same diagnostics. -/
theorem reports_keep_failures {options : Options} {line : List UInt8}
    (reports : options.json = true) (fails : (parseFormula {} line).isClean = false) :
    Text.encoded (answer options line).output =
        Text.encoded s!"Error parsing \"{Text.lossyString line}\"\n" ++
          (Text.encoded (writtenReport line) ++ [lineFeed]) ∧
      (∀ b ∈ Text.encoded (writtenReport line), 0x20 ≤ b.toNat) ∧
      Json.read? (writtenReport line).toList =
        some (.object [("input", .text (Text.lossyString line)),
          ("diagnostics", .list ((parseFormula {} line).diagnostics.items.map fun d =>
            .object [("offset", .number d.offset), ("message", .text d.message)]))]) ∧
      ∀ line', (parseFormula {} line').isClean = false → writtenReport line' = writtenReport line →
        Text.lossyString line' = Text.lossyString line ∧
          (parseFormula {} line').diagnostics.items = (parseFormula {} line).diagnostics.items := by
  have readable := readable_report (Text.lossyString line)
    ⟨(parseFormula {} line).diagnostics.items⟩
  refine ⟨?_, ?_, readable.read?_compact, fun line' _ same => report_inj same⟩
  · have printed_eq : (answer options line).output =
        s!"Error parsing \"{Text.lossyString line}\"" ++ "\n" ++ (writtenReport line ++ "\n") := by
      rw [(answer_eq options line).1, reply, reports]
      simp [fails, printed, writtenReport, report_eq, String.append_assoc]
    have ending : toString "\"\n" = toString "\"" ++ "\n" := rfl
    have ended : String.utf8EncodeChar '\n' = [lineFeed] := rfl
    rw [printed_eq, ending]
    simp [Text.encoded, ended]
  · apply Text.le_of_mem_encoded
    rw [writtenReport, Json.compact, String.toList_ofList]
    exact readable.visible

/-- A report on a line with a byte that is no text and a control character, where one diagnostic
quotes the latter. -/
theorem reports_keep_failures_control :
    let line := [0x22, 0xFF, 0x22] ++ Text.encoded " \"\\\x01\""
    ({ json := true } : Options).json = true ∧ (parseFormula {} line).isClean = false ∧
      (∀ b ∈ Text.encoded (writtenReport line), 0x20 ≤ b.toNat) ∧
      Json.read? (writtenReport line).toList =
        some (.object [("input", .text "\"\uFFFD\" \"\\\x01\""), ("diagnostics", .list [
          .object [("offset", .number 1), ("message", .text "illegal UTF-8 encoding")],
          .object [("offset", .number 4),
            ("message", .text "expected end of formula, found \"\\\x01\"")]])]) := by
  intro line
  have short : characterCount line ≤ lengthLimit := by decide +kernel
  have found : Parse.reports line (.ofSource line) (Grammar.formula.run (.ofSource line)) =
      [⟨1, "illegal UTF-8 encoding"⟩, ⟨4, "expected end of formula, found \"\\\x01\""⟩] := by
    decide +kernel
  have items : (parseFormula {} line).diagnostics.items =
      [⟨1, "illegal UTF-8 encoding"⟩, ⟨4, "expected end of formula, found \"\\\x01\""⟩] := by
    rw [parseFormula, (Parse.parseWith_of_short sound_formula _ {} short).2, found]
    exact List.mergeSort_of_pairwise (by decide)
  have fails : (parseFormula {} line).isClean = false := by
    rw [Parsed.isClean, Diagnostics.isEmpty, items]
    rfl
  have text : Text.lossyString line = "\"\uFFFD\" \"\\\x01\"" := by decide +kernel
  have reports : ({ json := true } : Options).json = true := rfl
  obtain ⟨-, visible, read, -⟩ := reports_keep_failures reports fails
  rw [text, items] at read
  exact ⟨reports, fails, visible, read⟩

end Session

end SheetFormula

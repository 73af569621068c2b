import Mathlib.Tactic.Common
import SheetFormula.Proofs.Lexeme.Shift
import SheetFormula.Proofs.Parse.Exact
import SheetFormula.Proofs.Parse.Faithful
import SheetFormula.Proofs.Parse.Size
import SheetFormula.Proofs.Text.Seam
import SheetFormula.Proofs.Tree.Relocation

/-!
# Argument lists and parameter lists

The arguments of a call and the entries of a parameter list are read by two different loops, which
treat commas, empty lists and errors each in its own way. On clean sources the two agree: behind a
name a parameter list is a call, with the types of the entries for its arguments, and what is a call
of a name is a parameter list once the name is taken away. Only the nesting differs, as arguments
stand one level deeper than the types of entries do.

Both loops are compared with what the trees yield: a clean parse has read the parts that its tree
yields, and from these parts the other production makes its own tree.

Main results:
* `lex_name`: behind a name a list has its own lexemes, two bytes further on.
* `parseParameters_of_yields`: a source whose lexemes a list of canonical types yields is parsed to
  that list.
* `call_of_list` and `list_of_call`: a clean list is a clean call when the name stands in front of
  it, and the other way round.
* `lists_agree`: both, with the trees compared in full.
-/

namespace SheetFormula

open Production Grammar
open Text (Symbol symbols)

/-! ## A name in front of a source -/

namespace Scanner

/-- If an opening parenthesis is scanned, a scanner stands in front of it or of a blank. -/
theorem front_of_openParen {s : Scanner} (is : s.scan.1.token = .openParen) :
    ∃ c, frontChar? s.reader.rest = some c ∧ (Text.isBlank c ∨ c = '(') := by
  cases found? : s.recognized? with
  | none =>
    rw [Scanned.token, (scan_of_none found?).1] at is
    cases is
  | some found =>
    have is : found.token = .openParen := by
      rwa [Scanned.token, (scan_of_some found?).1] at is
    cases ahead : s.reader.rest with
    | nil =>
      have nothing : s.behindGap.rest = [] := by
        rw [behindGap, Reader.rest_consume, ahead, List.drop_nil]
      rw [recognized?, nothing] at found?
      cases found?
    | cons t rest =>
      refine ⟨t.toChar, rfl, ?_⟩
      by_cases blank : Text.isBlank t.toChar
      · exact .inl blank
      · right
        have stays : s.behindGap.rest = t :: rest := by
          simp [behindGap, ahead, gap, blank]
        rw [recognized?, stays] at found?
        -- Of all that can be recognized only a mark of one character is a parenthesis.
        cases Recognition.outcome_of_ofSymbols found? with
        | text isText => rw [is] at isText; cases isText
        | equals => split at is <;> cases is
        | pair front spelled legible known => rcases known with rfl | rfl | rfl <;> cases is
        | less => cases is
        | greater => cases is
        | single taken token =>
          rw [is] at token
          revert token
          unfold Token.ofChar
          split <;> first | exact fun _ => ‹_› | rintro ⟨⟩

/-- A word that begins with a name begins with all its characters. -/
theorem run_name (rest : List Symbol) :
    Word.run (.character 'F' :: .character 'N' :: rest) = 'F' :: 'N' :: Word.run rest := by
  have first : Text.isWordChar 'F' = true := by decide
  have second : Text.isWordChar 'N' = true := by decide
  rw [Word.run, runOf_cons first, runOf_cons second]
  rfl

/-- In front of a source that begins with a name there is no gap, and a word is recognized. -/
theorem recognized?_word (source : List UInt8) :
    gap (start (Text.encoded "FN" ++ source)).reader.rest = [] ∧
      (start (Text.encoded "FN" ++ source)).behindGap.rest =
        .character 'F' :: .character 'N' :: symbols source ∧
      (start (Text.encoded "FN" ++ source)).recognized? =
        some (Word.recognize (.character 'F' :: .character 'N' :: symbols source)) := by
  have ahead : (start (Text.encoded "FN" ++ source)).reader.rest =
      .character 'F' :: .character 'N' :: symbols source :=
    Text.symbols_encode_append "FN".toList source
  have solid : gap (start (Text.encoded "FN" ++ source)).reader.rest = [] := by
    rw [ahead]
    rfl
  have stays := behindGap_of_solid solid
  have letter : Text.isLetter 'F' = true := by decide
  refine ⟨solid, stays ▸ ahead, ?_⟩
  rw [recognized?, stays, ahead]
  simp only [Recognition.ofSymbols, Symbol.toChar, letter, if_true]

/-- A name in front of what cannot continue it is recognized as such. -/
theorem recognized?_name {source : List UInt8}
    (ends : ∀ c, frontChar? (symbols source) = some c → ¬ Text.isWordChar c) :
    (start (Text.encoded "FN" ++ source)).recognized? = some (.plain .ident 2) := by
  have run : Word.run (.character 'F' :: .character 'N' :: symbols source) = ['F', 'N'] := by
    rw [run_name, Word.run, runOf_eq_nil ends]
  rw [(recognized?_word source).2.2]
  simp only [Word.recognize, run]
  split
  · rfl
  · rfl

end Scanner

/-- The name that stands in front. -/
def nameInFront : Lexeme := ⟨.ofOffset 0, .ident, "FN"⟩

/-- Behind a name a list has its own lexemes, two bytes further on, and nothing more is reported. -/
theorem lex_name {source : List UInt8} {c : Char} (front : frontChar? (symbols source) = some c)
    (opens : Text.isBlank c ∨ c = '(') :
    (lex (Text.encoded "FN" ++ source)).lexemes.dropLast =
        nameInFront :: (lex source).lexemes.dropLast.map (Lexeme.relocate (· + 2)) ∧
      ((lex (Text.encoded "FN" ++ source)).diagnostics.items = [] ↔
        (lex source).diagnostics.items = []) := by
  have other : ¬ Text.isWordChar c ∧ c ≠ '=' := by
    simp only [Text.isBlank, Bool.or_eq_true, beq_iff_eq] at opens
    rcases opens with (((rfl | rfl) | rfl) | rfl) | rfl <;> decide
  have ends : ∀ d, frontChar? (symbols source) = some d → ¬ Text.isWordChar d := by
    intro d is
    obtain rfl := Option.some.inj (front.symm.trans is)
    exact other.1
  have unled : frontChar? (symbols source) ≠ some '=' := by
    intro is
    exact other.2 (Option.some.inj (front.symm.trans is))
  -- A name ends in front of a blank or of `(`, so it is a lexeme of its own and the lexemes behind
  -- it are moved by its two bytes.
  obtain ⟨name, moved, opening⟩ := TokenStream.ofSource_front (by decide) (by decide) unled rfl
    (Scanner.recognized?_word source).1 (Scanner.recognized?_name ends)
  have first : (TokenStream.ofSource (Text.encoded "FN" ++ source)).lookahead.lexeme =
      nameInFront := by
    have literal : Scanner.literal .ident ("FN".toList.map .character) = "FN" := by
      decide +kernel
    rw [TokenStream.ofSource, name, literal]
    rfl
  have more : (TokenStream.ofSource (Text.encoded "FN" ++ source)).tokens ≠ [] := by
    apply TokenStream.tokens_ne_nil
    rw [Scanned.token, first]
    rintro ⟨⟩
  constructor
  · have row : (TokenStream.ofSource (Text.encoded "FN" ++ source)).advance.lexemes =
        (TokenStream.ofSource source).lexemes.map (Lexeme.relocate (· + 2)) := moved.lexemes_eq
    show (TokenStream.ofSource (Text.encoded "FN" ++ source)).lexemes.dropLast = _
    have behind : (TokenStream.ofSource (Text.encoded "FN" ++ source)).advance.lexemes ≠ [] := by
      simp [TokenStream.lexemes]
    rw [TokenStream.lexemes_of_ne more, first, List.dropLast_cons_of_ne_nil behind, row,
      ← List.map_dropLast]
    rfl
  · have scans : (TokenStream.ofSource (Text.encoded "FN" ++ source)).scans =
        (TokenStream.ofSource (Text.encoded "FN" ++ source)).lookahead ::
          (TokenStream.ofSource (Text.encoded "FN" ++ source)).advance.scans := by
      obtain ⟨row, same⟩ := TokenStream.exists_cons_of_ne more
      rw [TokenStream.scans, TokenStream.scans, same, row, List.cons_append]
    have all := (opening.append moved.reports).eq_map
    rw [lex, lex, Diagnostics.sort_items_eq_nil, Diagnostics.sort_items_eq_nil]
    simp only [scans, List.flatMap_cons]
    rw [← List.append_assoc]
    exact (congrArg (· = []) all).to_iff.trans List.map_eq_nil_iff

/-! ## Lists that are read -/

/-- What stands between the parentheses of a list, and yields types with commas between them, is
read as these types, and nothing is noted. -/
theorem betweenParentheses_of_yields {types : List Expr} (canonical : ∀ x ∈ types, x.Canonical)
    {inner : List Part} (yields : Expr.ReadsAll (fun _ => False) types inner) {s t : TokenStream}
    (passes : Passes s inner t) (closes : t.lookahead.token = .closeParen)
    (shallow : ∀ x ∈ types, ∀ leaf ∈ x.leaves, leaf.2 < nestingLimit) :
    ∃ journal, journal.noted = [] ∧
      betweenParentheses s = ⟨types.map fun x => ⟨[], x, none⟩, t, journal⟩ := by
  cases types with
  | nil =>
    unfold Expr.ReadsAll at yields
    rw [yields] at passes
    obtain rfl : s = t := passes
    exact ⟨[], rfl, by simp [betweenParentheses, closes]⟩
  | cons x xs =>
    have reads : ∀ y ∈ x :: xs, y.ReadsAsClimb ∧ y.Canonical := fun y mem =>
      ⟨(Expr.Canonical.parses y (canonical y mem)).climb, canonical y mem⟩
    have fits : ∀ y ∈ x :: xs, y.Fits nestingLimit := by
      intro y mem
      refine ⟨0, ?_⟩
      rw [Nat.zero_add]
      exact shallow y mem
    obtain ⟨⟨journal, silent, derived⟩, more⟩ :=
      Expr.readable_entries_of_yields reads yields passes fits closes
    have ran := derived.runs []
    rw [entriesFrom, List.append_nil] at ran
    refine ⟨Rule.parameterList.around journal, by simp [silent], ?_⟩
    rw [betweenParentheses, if_pos more]
    simp [parameterList, ran, Rule.around]

/-- A source whose lexemes a list of canonical types yields, all with room for their leaves, is
parsed to that list. -/
theorem parseParameters_of_yields (options : ParseOptions) {source : List UInt8}
    (short : characterCount source ≤ lengthLimit)
    (legible : (lex source).diagnostics.items = []) {opening closing : Pos} {types : List Expr}
    (canonical : ∀ x ∈ types, x.Canonical) {inner : List Part}
    (yields : Expr.ReadsAll (fun _ => False) types inner)
    (row : (lex source).lexemes.dropLast =
      ⟨opening, .openParen, ""⟩ :: (inner.map Part.lexeme ++ [⟨closing, .closeParen, ""⟩]))
    (shallow : ∀ x ∈ types, ∀ leaf ∈ x.leaves, leaf.2 < nestingLimit) :
    (parseParameters options source).root =
        ⟨opening, types.map fun x => ⟨[], x, none⟩, closing⟩ ∧
      (parseParameters options source).failure? = none := by
  have ahead : (TokenStream.ofSource source).tokens.map Scanned.lexeme =
      (⟨.opening, ⟨opening, .openParen, ""⟩⟩ ::
        (inner ++ [⟨.closing, ⟨closing, .closeParen, ""⟩⟩]) : List Part).map Part.lexeme := by
    rw [List.map_cons, List.map_append, List.map_singleton, ← row]
    exact (List.dropLast_concat ..).symm
  obtain ⟨t, ⟨first, passes⟩, last⟩ := exists_passes ahead
  obtain ⟨m, inside, final⟩ := passes_append.mp passes
  obtain ⟨ending, rfl⟩ := passes_singleton.mp final
  generalize stream : TokenStream.ofSource source = s at first inside
  have opens : s.lookahead.token = .openParen := by rw [Scanned.token, first]
  have closes : m.lookahead.token = .closeParen := by rw [Scanned.token, ending]
  have ends := TokenStream.lookahead_token_of_nil last
  obtain ⟨journal, silent, entries⟩ :=
    betweenParentheses_of_yields canonical yields inside closes shallow
  have ran := run_parametersOnly s
  have noted : (parametersOnly.run s).journal.noted = [] := by
    have quiet := Expr.noted_of_demands (demands_expect .openParen s) opens
    have quiet' := Expr.noted_of_demands (demands_expect .closeParen m) closes
    have quietEnd : (expectEnd.run m.advance).journal.noted = [] := by
      simp [expectEnd, ends]
    simp [ran, entries, silent, quiet, quiet', quietEnd]
  constructor
  · rw [parseParameters, (Parse.parseWith_of_short sound_parametersOnly _ options short).1,
      stream, ran]
    simp only [entries, Scanned.pos, first, ending]
  · rw [Parsed.failure?, Diagnostics.failure?_eq_none, parseParameters,
      Parse.diagnostics_of_legible sound_parametersOnly _ options short legible, stream, noted]
    rfl

/-! ## Calls and lists -/

/-- A list of bare types has as many parameters as types. -/
theorem parameterCount_of_types (opening closing : Pos) (types : List Expr) :
    FieldList.parameterCount ⟨opening, types.map fun x => ⟨[], x, none⟩, closing⟩ =
      types.length := by
  have count : ∀ (types : List Expr) (before : Nat),
      (types.map fun x => (⟨[], x, none⟩ : Field)).foldl
        (fun count f => count + max f.names.length 1) before = before + types.length := by
    intro types
    induction types with
    | nil => exact fun before => rfl
    | cons x types ih =>
      intro before
      rw [List.map_cons, List.foldl_cons, ih, List.length_cons]
      show before + 1 + types.length = before + (types.length + 1)
      omega
  exact (count types 0).trans (Nat.zero_add _)

section

variable {options : ParseOptions} {source : List UInt8}

/-- What a clean parameter list is read from: its parentheses with, between them, what its types
yield. -/
theorem parseParameters_row (clean : (parseParameters options source).failure? = none) :
    ∃ inner, Expr.ReadsAll (fun _ => False)
        ((parseParameters options source).root.fields.map Field.type) inner ∧
      (lex source).lexemes.dropLast =
        ⟨(parseParameters options source).root.opening, .openParen, ""⟩ ::
          (inner.map Part.lexeme ++
            [⟨(parseParameters options source).root.closing, .closeParen, ""⟩]) := by
  obtain ⟨-, -, -, parts, ⟨-, first, inner, last, opens, reads, closes, rfl⟩, row⟩ :=
    parseParameters_clean clean
  obtain rfl := Part.fits_false.mp opens
  obtain rfl := Part.fits_false.mp closes
  refine ⟨inner, reads, ?_⟩
  rw [between, List.length_nil, List.drop_zero] at row
  rw [← row]
  simp

/-- The scan of a source comes upon its first lexeme, and the next one upon the second. -/
theorem lexemes_eq_scans {source : List UInt8} {l : Lexeme} {later : List Lexeme}
    (row : (lex source).lexemes.dropLast = l :: later) :
    (Scanner.start source).scan.1.lexeme = l ∧
      ∀ m ∈ later.head?, (Scanner.start source).scan.2.scan.1.lexeme = m := by
  have stands : (Scanner.start source).reader.Behind source [] := Reader.behind_start source
  obtain ⟨first, behind⟩ := Scanner.advance_stream stands
  obtain ⟨passed, stands'⟩ := Scanner.scan_stands stands
  have second := (Scanner.advance_stream stands').1
  have tokens : (TokenStream.ofSource source).tokens.map Scanned.lexeme = l :: later := by
    rw [← row]
    exact (List.dropLast_concat ..).symm
  have more : (TokenStream.ofSource source).tokens ≠ [] := by
    intro nothing
    rw [nothing] at tokens
    cases tokens
  rw [(TokenStream.exists_cons_of_ne more).1, List.map_cons] at tokens
  obtain ⟨front, rest⟩ := List.cons.inj tokens
  refine ⟨first ▸ front, ?_⟩
  intro m mem
  have next : (TokenStream.ofSource source).advance.tokens ≠ [] := by
    intro nothing
    rw [nothing] at rest
    rw [← rest] at mem
    cases mem
  rw [(TokenStream.exists_cons_of_ne next).1, List.map_cons] at rest
  rw [← rest] at mem
  rw [← second, ← behind]
  exact Option.some.inj mem

/-- If the name is the whole first lexeme, what follows it cannot continue a word. -/
theorem ends_of_literal
    (literal : (Scanner.start (Text.encoded "FN" ++ source)).scan.1.lexeme.literal = "FN") :
    ∀ c, frontChar? (symbols source) = some c → ¬ Text.isWordChar c := by
  intro c front continues
  obtain ⟨-, ahead, recognized⟩ := Scanner.recognized?_word source
  cases whole : symbols source with
  | nil => rw [whole] at front; cases front
  | cons t rest =>
    rw [whole] at front ahead recognized
    obtain rfl : t.toChar = c := Option.some.inj front
    -- The word has three characters or more, and its literal has no fewer.
    obtain ⟨count, long⟩ : ∃ count,
        (Word.recognize (.character 'F' :: .character 'N' :: t :: rest)).count = count + 3 := by
      have run := Word.run_length_le_count (.character 'F' :: .character 'N' :: t :: rest)
      rw [Scanner.run_name, Word.run, runOf_cons continues] at run
      simp only [List.length_cons] at run
      exact ⟨_, (Nat.sub_add_cancel (by omega)).symm⟩
    rw [(Scanner.scan_of_some recognized).1, long, ahead] at literal
    simp only [List.take_succ_cons, Scanner.literal] at literal
    split at literal
    · have read : Text.lossy (Text.bytesOf (.character 'F' :: .character 'N' :: t ::
          rest.take count)) = ['F', 'N'] := by
        have chars := congrArg String.toList literal
        rwa [Text.lossyString, String.toList_ofList] at chars
      rw [Text.bytesOf_cons, Text.bytesOf_cons, Symbol.bytes, Symbol.bytes,
        Text.lossy_encode_append, Text.lossy_encode_append] at read
      have nothing := (List.cons.inj (List.cons.inj read).2).2
      refine Text.lossy_ne_nil ?_ nothing
      rw [Text.bytesOf_cons]
      simp [t.bytes_ne_nil]
    · exact absurd literal (by decide)

/-- A source with the name in front has a list behind it if the second lexeme opens one. -/
theorem opens_of_name {p opening : Pos} {later : List Lexeme}
    (row : (lex (Text.encoded "FN" ++ source)).lexemes.dropLast =
      ⟨p, .ident, "FN"⟩ :: ⟨opening, .openParen, ""⟩ :: later) :
    ∃ c, frontChar? (symbols source) = some c ∧ (Text.isBlank c ∨ c = '(') := by
  obtain ⟨first, second⟩ := lexemes_eq_scans row
  have ends := ends_of_literal (congrArg Lexeme.literal first)
  obtain ⟨-, shifted, -⟩ := Scanner.scan_front (by decide) (by decide) rfl
    (Scanner.recognized?_word source).1 (Scanner.recognized?_name ends)
  have opens := congrArg Lexeme.token (second _ rfl)
  have front := Scanner.front_of_openParen opens
  rwa [shifted.rest_eq] at front

/-- A source that a list opens. -/
theorem opens_of_row {opening : Pos} {later : List Lexeme}
    (row : (lex source).lexemes.dropLast = ⟨opening, .openParen, ""⟩ :: later) :
    ∃ c, frontChar? (symbols source) = some c ∧ (Text.isBlank c ∨ c = '(') :=
  Scanner.front_of_openParen (congrArg Lexeme.token (lexemes_eq_scans row).1)

/-- No mark leads a source that begins with the name. -/
theorem leading_name (source : List UInt8) :
    leading (lex (Text.encoded "FN" ++ source)).lexemes = [] := by
  obtain ⟨later, row⟩ := (TokenStream.ofSource (Text.encoded "FN" ++ source)).lexemes_eq_cons
  have scanned := (Scanner.advance_stream (s := .start (Text.encoded "FN" ++ source))
    (Reader.behind_start _)).1
  have word := Recognition.isText_word (.character 'F' :: .character 'N' :: symbols source)
  have token : (TokenStream.ofSource (Text.encoded "FN" ++ source)).lookahead.lexeme.token ≠
      .lead := by
    rw [TokenStream.ofSource, scanned,
      (Scanner.scan_of_some (Scanner.recognized?_word source).2.2).1]
    intro lead
    have isLead : (Word.recognize (.character 'F' :: .character 'N' :: symbols source)).token =
      .lead := lead
    rw [isLead] at word
    cases word
  rw [leading, show (lex (Text.encoded "FN" ++ source)).lexemes = _ from row]
  simp [token]

/-- **A clean list is a clean call** when the name stands in front of it, if its leaves leave room
for one more level. -/
theorem call_of_list (short : characterCount (Text.encoded "FN" ++ source) ≤ lengthLimit)
    (clean : (parseParameters options source).failure? = none)
    (shallow : ∀ f ∈ (parseParameters options source).root.fields, ∀ leaf ∈ f.type.leaves,
      leaf.2 + 1 < nestingLimit) :
    (parseFormula options (Text.encoded "FN" ++ source)).failure? = none ∧
      (parseFormula options (Text.encoded "FN" ++ source)).root =
        .call (.ident ⟨.ofOffset 0, "FN"⟩)
          ((parseParameters options source).root.opening.relocate (· + 2))
          ((parseParameters options source).root.fields.map fun f => f.type.relocate (· + 2))
          ((parseParameters options source).root.closing.relocate (· + 2)) := by
  obtain ⟨plain, legible, -, -⟩ := parseParameters_clean clean
  obtain ⟨inner, reads, row⟩ := parseParameters_row clean
  obtain ⟨c, front, opens⟩ := opens_of_row row
  obtain ⟨lexemes, quiet⟩ := lex_name front opens
  generalize (parseParameters options source).root = root at *
  have types : Expr.relocateAll (· + 2) (root.fields.map Field.type) =
      root.fields.map fun f => f.type.relocate (· + 2) := by
    rw [Expr.relocateAll_eq_map, List.map_map]
    rfl
  have canonical : Expr.Canonical (.call (.ident ⟨.ofOffset 0, "FN"⟩)
      (root.opening.relocate (· + 2)) (root.fields.map fun f => f.type.relocate (· + 2))
      (root.closing.relocate (· + 2))) := by
    refine ⟨Bool.false_ne_true, Bool.false_ne_true, trivial, ?_⟩
    rw [← types]
    apply Expr.Canonical.relocate_all
    exact Expr.shapedAll_iff.mpr (List.forall_mem_map.mpr fun f mem => (plain f mem).2)
  have yields : Expr.ReadsAll (fun _ => False) _ (inner.map (Part.relocate (· + 2))) :=
    Expr.Yields.relocate_all _ inner reads
  rw [types] at yields
  refine And.symm (parseFormula_of_yields options short (quiet.mpr legible) canonical
    ⟨_, _, _, rfl, yields, Part.fits_false.mpr rfl, rfl⟩ ?_ ?_)
  · rw [leading_name, between, List.length_nil, List.drop_zero, lexemes, row]
    simp [nameInFront, Part.relocate, Lexeme.relocate]
  · intro leaf mem
    rcases Expr.mem_leaves_call.mp mem with name | ⟨x, entry, inner, inside, rfl⟩
    · obtain rfl := List.mem_singleton.mp name
      exact Nat.succ_pos _
    · obtain ⟨f, field, rfl⟩ := List.mem_map.mp entry
      rw [Expr.leaves, Expr.leavesAt_relocate] at inside
      obtain ⟨leaf, leaf_mem, rfl⟩ := List.mem_map.mp inside
      exact shallow f field leaf leaf_mem

/-- **A clean call of the name is a clean list** when the name is taken away. -/
theorem list_of_call (short : characterCount (Text.encoded "FN" ++ source) ≤ lengthLimit)
    (short' : characterCount source ≤ lengthLimit) {p opening closing : Pos}
    {arguments : List Expr}
    (clean : (parseFormula options (Text.encoded "FN" ++ source)).failure? = none)
    (root : (parseFormula options (Text.encoded "FN" ++ source)).root =
      .call (.ident ⟨p, "FN"⟩) opening arguments closing) :
    (parseParameters options source).root = ⟨opening.relocate (· - 2),
        (arguments.map (Expr.relocate (· - 2))).map fun x => ⟨[], x, none⟩,
        closing.relocate (· - 2)⟩ ∧
      (parseParameters options source).failure? = none := by
  obtain ⟨canonical, legible, -, parts, yields, row⟩ := parseFormula_clean clean
  -- The call is a level of its own, so an argument is one level deeper than the type it becomes.
  have room : ∀ leaf ∈ (parseFormula options (Text.encoded "FN" ++ source)).root.leaves,
      ¬ leaf.1.isBad → leaf.2 < nestingLimit := by
    rw [parseFormula, (Parse.parseWith_of_short sound_formula _ options short).1, run_formula]
    exact fun leaf mem => (Expr.Within.leaves (derives_expression _).bounded leaf mem).2
  rw [root] at canonical yields room
  have present := Expr.Canonical.not_isBad_leaf _ canonical 0
  obtain ⟨-, -, -, list⟩ := canonical
  obtain ⟨front, inner, last, name, reads, closes, rfl⟩ := yields
  obtain rfl := Part.fits_false.mp closes
  obtain rfl : front = [⟨.name, p, .ident, "FN"⟩] := name
  rw [leading_name, between, List.length_nil, List.drop_zero] at row
  obtain ⟨c, front, opens⟩ := opens_of_name row.symm
  obtain ⟨lexemes, quiet⟩ := lex_name front opens
  rw [lexemes] at row
  have undone : Lexeme.relocate (· - 2) ∘ Lexeme.relocate (· + 2) = id :=
    funext (Lexeme.relocate_relocate fun _ => Nat.add_sub_cancel ..)
  have back : (lex source).lexemes.dropLast =
      ⟨opening.relocate (· - 2), .openParen, ""⟩ ::
        ((inner.map (Part.relocate (· - 2))).map Part.lexeme ++
          [⟨closing.relocate (· - 2), .closeParen, ""⟩]) := by
    have moved := congrArg (List.map (Lexeme.relocate (· - 2))) (List.cons.inj row).2
    rw [List.map_map (l := (lex source).lexemes.dropLast), undone, List.map_id] at moved
    rw [← moved]
    simp [Part.relocate, Lexeme.relocate]
  have types : Expr.relocateAll (· - 2) arguments = arguments.map (Expr.relocate (· - 2)) :=
    Expr.relocateAll_eq_map ..
  have yields : Expr.ReadsAll (fun _ => False) _ (inner.map (Part.relocate (· - 2))) :=
    Expr.Yields.relocate_all _ inner reads
  rw [types] at yields
  refine parseParameters_of_yields options short' (quiet.mp legible) ?_ yields back ?_
  · exact List.forall_mem_map.mpr fun x mem =>
      Expr.Canonical.relocate x (Expr.shapedAll_iff.mp list x mem)
  · rw [List.forall_mem_map]
    intro x mem leaf leaf_mem
    rw [Expr.leaves, Expr.leavesAt_relocate] at leaf_mem
    obtain ⟨leaf', mem', rfl⟩ := List.mem_map.mp leaf_mem
    have among : (leaf'.1, leaf'.2 + 1) ∈
        (Expr.call (.ident ⟨p, "FN"⟩) opening arguments closing).leaves :=
      Expr.mem_leaves_call.mpr (.inr ⟨x, mem, leaf', mem', rfl⟩)
    exact Nat.lt_of_succ_lt (room _ among (present _ among))

end

/-- **The two lists agree.** A parameter list with no failure, whose leaves leave room for one more
level, is a call with no failure when a name stands in front of it: its parentheses and its types
are those of the call, two bytes further on. And a call of that name with no failure is a parameter
list with no failure when the name is taken away. -/
theorem lists_agree (options : ParseOptions) (source : List UInt8)
    (short : characterCount source ≤ 8190) :
    ((parseParameters options source).failure? = none →
      (∀ f ∈ (parseParameters options source).root.fields, ∀ leaf ∈ f.type.leaves,
        leaf.2 ≤ 62) →
      (parseFormula options (Text.encoded "FN" ++ source)).failure? = none ∧
        (parseFormula options (Text.encoded "FN" ++ source)).root =
          .call (.ident ⟨.ofOffset 0, "FN"⟩)
            ((parseParameters options source).root.opening.relocate (· + 2))
            ((parseParameters options source).root.fields.map fun f => f.type.relocate (· + 2))
            ((parseParameters options source).root.closing.relocate (· + 2))) ∧
    ∀ p opening arguments closing,
      (parseFormula options (Text.encoded "FN" ++ source)).failure? = none →
      (parseFormula options (Text.encoded "FN" ++ source)).root =
        .call (.ident ⟨p, "FN"⟩) opening arguments closing →
      (parseParameters options source).failure? = none ∧
        (parseParameters options source).root =
          ⟨opening.relocate (· - 2), arguments.map fun x => ⟨[], x.relocate (· - 2), none⟩,
            closing.relocate (· - 2)⟩ ∧
        (parseParameters options source).root.parameterCount = arguments.length := by
  have two : characterCount (Text.encoded "FN") = 2 := by decide +kernel
  have long : characterCount (Text.encoded "FN" ++ source) ≤ lengthLimit := by
    rw [characterCount_append, two, lengthLimit]
    omega
  constructor
  · intro clean shallow
    apply call_of_list long clean
    exact fun f field leaf mem => Nat.succ_lt_succ (Nat.lt_succ_of_le (shallow f field leaf mem))
  · intro p opening arguments closing clean root
    have within : characterCount source ≤ lengthLimit := Nat.le_trans short (by decide)
    obtain ⟨list, clean'⟩ := list_of_call long within clean root
    refine ⟨clean', ?_, ?_⟩
    · rw [list, List.map_map]
      rfl
    · rw [list, parameterCount_of_types, List.length_map]

/-- The list `(A,)` with the name in front is a call with one argument. -/
theorem lists_agree_trailing_comma :
    ((parseFormula {} (Text.encoded "FN(A,)")).failure? = none ∧
      (parseFormula {} (Text.encoded "FN(A,)")).root =
        .call (.ident ⟨⟨1⟩, "FN"⟩) ⟨3⟩ [.literal ⟨⟨4⟩, .reference, "A"⟩] ⟨6⟩) ∧
    (parseParameters {} (Text.encoded "(A,)")).root.parameterCount = 1 := by
  have agree := lists_agree {} (Text.encoded "(A,)") (by decide +kernel)
  have call := agree.1 (by decide +kernel) (by decide +kernel)
  have root : (parseParameters {} (Text.encoded "(A,)")).root =
      ⟨⟨1⟩, [⟨[], .literal ⟨⟨2⟩, .reference, "A"⟩, none⟩], ⟨4⟩⟩ := by decide +kernel
  rw [root] at call
  exact ⟨call, (agree.2 _ _ _ _ call.1 call.2).2.2⟩

end SheetFormula

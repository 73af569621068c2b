import Mathlib.Tactic.Common
import SheetFormula.Proofs.Exchange.Reading
import SheetFormula.Proofs.Parse.Trace
import SheetFormula.Session

/-!
# Sessions are made line by line

A session is a loop over its input that keeps what it has done so far. What it prints is told line
by line all the same.

* `Session.isCut_iff`: an input falls into lines, with their endings, in one way only.
* `Session.strips_iff`: and so does each of them into what it says and its ending.
* `Session.reply`: what is printed about a line, which is nothing, or a notice, perhaps with a
  report behind it. Each of them is a single line (`Session.newline_notMem_reply`).
* `Session.converse_eq`: the loop gives the answers to the lines one after the other.
* `Session.replies_to_lines`: a session prints a question in front of each reply and one behind the
  last, and its last record counts the replies. Of the options only the one that asks for reports
  matters to what is printed.
-/

namespace SheetFormula

namespace Session

/-! ## Lines -/

/-- Cuts an input behind each line feed. The part behind the last one counts if it is not empty. -/
def chunks (input : List UInt8) : List (List UInt8) :=
  input.foldr
    (fun b later =>
      if b = lineFeed then [b] :: later
      else match later with
        | [] => [[b]]
        | line :: lines => (b :: line) :: lines)
    []

/-- The lines that a session works on, without their endings: those in front of the first one that
asks for the end. -/
def lines (input : List UInt8) : List (List UInt8) :=
  ((chunks input).map stripEnding).takeWhile (· != quitLine)

/-- Whether the lines of an input, with their line feeds, are these: each ends behind the first line
feed in it, or with the input. -/
inductive IsCut : (input : List UInt8) → (parts : List (List UInt8)) → Prop
  | nil : IsCut [] []
  | cons {first input : List UInt8} {parts : List (List UInt8)} (solid : first ≠ [])
      (unbroken : lineFeed ∉ first.dropLast)
      (ended : input ≠ [] → first.getLast? = some lineFeed) (cut : IsCut input parts) :
      IsCut (first ++ input) (first :: parts)

/-- A line feed ends its chunk; any other byte stands in front of the chunk behind it. -/
theorem chunks_cons (b : UInt8) (rest : List UInt8) :
    chunks (b :: rest) =
      if b = lineFeed then [b] :: chunks rest
      else match chunks rest with
        | [] => [[b]]
        | line :: lines => (b :: line) :: lines := rfl

/-- A line in front of an input is its first chunk. -/
theorem chunks_append {first rest : List UInt8} (solid : first ≠ [])
    (unbroken : lineFeed ∉ first.dropLast)
    (ended : rest ≠ [] → first.getLast? = some lineFeed) :
    chunks (first ++ rest) = first :: chunks rest := by
  induction first with
  | nil => exact absurd rfl solid
  | cons b more ih =>
    rw [List.cons_append, chunks_cons]
    cases more with
    | nil =>
      by_cases ends : b = lineFeed
      · rw [if_pos ends, List.nil_append]
      · have spent : rest = [] := by
          by_contra further
          exact ends (Option.some.inj (ended further))
        rw [if_neg ends, spent]
        rfl
    | cons c more =>
      rw [List.dropLast_cons_of_ne_nil (List.cons_ne_nil c more), List.mem_cons, not_or] at unbroken
      rw [if_neg (Ne.symm unbroken.1), ih (List.cons_ne_nil c more) unbroken.2 ended]

/-- The first line ends with the first line feed. -/
theorem firstLine_cons (b : UInt8) (rest : List UInt8) :
    firstLine (b :: rest) = if b = lineFeed then [b] else b :: firstLine rest := by
  by_cases ends : b = lineFeed <;> simp [firstLine, ends]

/-- Behind the first line is what follows the first line feed. -/
theorem behindLine_cons (b : UInt8) (rest : List UInt8) :
    behindLine (b :: rest) = if b = lineFeed then rest else behindLine rest := by
  by_cases ends : b = lineFeed <;> simp [behindLine, ends]

/-- Only an input without bytes has no first line. -/
theorem firstLine_eq_nil_iff {input : List UInt8} : firstLine input = [] ↔ input = [] := by
  constructor
  · intro nothing
    cases input with
    | nil => rfl
    | cons b rest =>
      rw [firstLine_cons] at nothing
      split at nothing <;> cases nothing
  · rintro rfl
    rfl

/-- An input is its first line and what is behind it. -/
theorem firstLine_append_behindLine (input : List UInt8) :
    firstLine input ++ behindLine input = input := by
  rw [firstLine, behindLine, List.append_assoc, List.take_append_drop,
    List.takeWhile_append_dropWhile]

/-- Inside the first line there is no line feed. -/
theorem lineFeed_notMem_dropLast_firstLine (input : List UInt8) :
    lineFeed ∉ (firstLine input).dropLast := by
  induction input with
  | nil => exact List.not_mem_nil
  | cons b rest ih =>
    rw [firstLine_cons]
    split
    · exact List.not_mem_nil
    · next goes =>
      by_cases spent : firstLine rest = []
      · rw [spent]
        exact List.not_mem_nil
      · rw [List.dropLast_cons_of_ne_nil spent, List.mem_cons, not_or]
        exact ⟨Ne.symm goes, ih⟩

/-- If something is behind the first line, it ends with a line feed. -/
theorem getLast?_firstLine {input : List UInt8} (further : behindLine input ≠ []) :
    (firstLine input).getLast? = some lineFeed := by
  induction input with
  | nil => exact absurd rfl further
  | cons b rest ih =>
    rw [behindLine_cons] at further
    rw [firstLine_cons]
    split
    · next ends => exact congrArg some ends
    · next goes =>
      rw [if_neg goes] at further
      have some_ : firstLine rest ≠ [] := by
        intro none
        rw [firstLine_eq_nil_iff.mp none] at further
        exact further rfl
      rw [List.getLast?_cons_of_ne_nil some_]
      exact ih further

/-- An input falls into its first line and the others. -/
theorem chunks_eq {input : List UInt8} (more : input ≠ []) :
    chunks input = firstLine input :: chunks (behindLine input) := by
  conv_lhs => rw [← firstLine_append_behindLine input]
  exact chunks_append (mt firstLine_eq_nil_iff.mp more)
    (lineFeed_notMem_dropLast_firstLine input) getLast?_firstLine

/-- **An input falls into lines in one way only**, and that way is into its chunks. -/
theorem isCut_iff {input : List UInt8} {parts : List (List UInt8)} :
    IsCut input parts ↔ parts = chunks input := by
  constructor
  · intro cut
    induction cut with
    | nil => rfl
    | cons solid unbroken ended _ ih => rw [chunks_append solid unbroken ended, ih]
  · rintro rfl
    induction size : input.length using Nat.strong_induction_on generalizing input with
    | _ n ih =>
      subst size
      by_cases spent : input = []
      · rw [spent]
        exact .nil
      · have more := mt firstLine_eq_nil_iff.mp spent
        have rest := ih _ (length_behindLine_lt more) rfl
        have cut := rest.cons more (lineFeed_notMem_dropLast_firstLine input) getLast?_firstLine
        rwa [firstLine_append_behindLine, ← chunks_eq spent] at cut

/-- Whether a line is left of another one if a byte is taken from the end, once, if it stands there.
-/
def Takes (b : UInt8) (part line : List UInt8) : Prop :=
  part = line ++ [b] ∨ part.getLast? ≠ some b ∧ part = line

/-- One byte is taken from the end of a line in one way only. -/
theorem takes_iff {b : UInt8} {part line : List UInt8} :
    Takes b part line ↔ line = stripEnd b part := by
  constructor
  · rintro (rfl | ⟨other, rfl⟩)
    · simp [stripEnd]
    · simp [stripEnd, other]
  · rintro rfl
    by_cases ends : part.getLast? = some b
    · left
      rw [stripEnd, if_pos ends, List.dropLast_append_getLast? b ends]
    · right
      rw [stripEnd, if_neg ends]
      exact ⟨ends, rfl⟩

/-- Whether a line is left of another one without its ending: a line feed, and then a carriage
return. -/
def Strips (part line : List UInt8) : Prop :=
  ∃ middle, Takes 0x0A part middle ∧ Takes 0x0D middle line

/-- A line loses its ending in one way only. -/
theorem strips_iff {part line : List UInt8} : Strips part line ↔ line = stripEnding part := by
  unfold Strips
  simp only [takes_iff, exists_eq_left]
  rfl

/-- **Lines lose their endings in one way only.** -/
theorem forall₂_strips_iff {parts stripped : List (List UInt8)} :
    List.Forall₂ Strips parts stripped ↔ stripped = parts.map stripEnding := by
  have same : Strips = fun part line => stripEnding part = line := by
    funext part line
    exact propext (strips_iff.trans eq_comm)
  rw [same, ← List.forall₂_map_left_iff, eq_comm, List.forall₂_eq_eq_eq]

/-- The line that ends a session, byte by byte. -/
theorem quitLine_eq : quitLine = [0x71, 0x75, 0x69, 0x74] := by decide +kernel

/-! ## The loop -/

/-- Where there is no answer, there is no line to work on. -/
theorem lines_of_none {options : Options} {input : List UInt8}
    (ended : respond? options (firstLine input) = none) : lines input = [] := by
  unfold respond? at ended
  split_ifs at ended with nothing quits
  · rw [firstLine_eq_nil_iff.mp nothing]
    rfl
  · rw [lines, chunks_eq (mt firstLine_eq_nil_iff.mpr nothing), List.map_cons,
      List.takeWhile_cons_of_neg (by simpa using quits)]

/-- Where there is an answer, it is that to the first of the lines. -/
theorem lines_of_some {options : Options} {input : List UInt8} {a : Answer}
    (responded : respond? options (firstLine input) = some a) :
    ∃ line, a = answer options line ∧ lines input = line :: lines (behindLine input) := by
  unfold respond? at responded
  split_ifs at responded with nothing quits
  refine ⟨stripEnding (firstLine input), (Option.some.inj responded).symm, ?_⟩
  rw [lines, chunks_eq (mt firstLine_eq_nil_iff.mpr nothing), List.map_cons,
    List.takeWhile_cons_of_pos (by simpa using quits), lines]

/-- **A session goes on line by line**: from what it has done so far it comes to that and the
answers to all lines, with a prompt in front of each and one behind the last. -/
theorem converse_eq (options : Options) (before : Progress) (input : List UInt8) :
    let answers := (lines input).map (answer options)
    (converse options before input).output =
        before.output ++ String.join (answers.map fun a => prompt ++ a.output) ++ prompt ∧
      (converse options before input).log.toList =
        before.log.toList ++ answers.flatMap Answer.log ∧
      (converse options before input).failures =
        before.failures + answers.countP fun a => !a.clean := by
  fun_induction converse options before input with
  | case1 before input ended =>
    rw [lines_of_none ended]
    simp [Progress.ask]
  | case2 before input a responded shorter ih =>
    obtain ⟨line, rfl, row⟩ := lines_of_some responded
    obtain ⟨output, log, failures⟩ := ih
    rw [row]
    refine ⟨?_, ?_, ?_⟩
    · rw [output]
      simp [Progress.ask, Progress.give, String.append_assoc]
    · rw [log]
      simp [Progress.ask, Progress.give]
    · rw [failures]
      by_cases clean : (answer options line).clean
      · simp [Progress.ask, Progress.give, clean]
      · simp [Progress.ask, Progress.give, clean]
        omega

/-! ## Single lines -/

end Session

/-- A line feed in the reading of a text is one in the text. -/
theorem Text.lineFeed_mem_of_mem_lossy {bytes : List UInt8} (mem : '\n' ∈ Text.lossy bytes) :
    lineFeed ∈ bytes :=
  encode_subset_of_mem_lossy mem (by decide) List.mem_cons_self

namespace Session

/-- A diagnostic can be read back. -/
theorem readable_diagnostic (d : Diagnostic) : d.toJson.Readable := by
  apply Json.readable_object
  rw [List.forall_mem_cons, List.forall_mem_singleton]
  exact ⟨Json.readable_number _, Json.readable_text _⟩

/-- A report in full: the text and the diagnostics. -/
theorem report_eq (text : String) (failure : Failure) :
    report text failure = .object [("input", .text text), ("diagnostics",
      .list (failure.diagnostics.map fun d =>
        .object [("offset", .number d.offset), ("message", .text d.message)]))] := rfl

/-- A report can be read back. -/
theorem readable_report (text : String) (failure : Failure) : (report text failure).Readable := by
  have found : (Diagnostic.listToJson failure.diagnostics).Readable := by
    apply Json.readable_list
    rw [List.forall_mem_map]
    exact fun d _ => readable_diagnostic d
  apply Json.readable_object
  rw [List.forall_mem_cons, List.forall_mem_singleton]
  exact ⟨Json.readable_text _, found⟩

/-- What can be read back has no control characters, and so a report is a single line. -/
theorem newline_notMem_report (text : String) (failure : Failure) :
    '\n' ∉ (report text failure).compact.toList := by
  intro mem
  rw [Json.compact, String.toList_ofList] at mem
  exact absurd ((readable_report text failure).visible _ mem) (by decide)

/-- The lines of an input have line feeds at their ends only. -/
theorem IsCut.lineFeed_notMem {input part : List UInt8} {parts : List (List UInt8)}
    (cut : IsCut input parts) (mem : part ∈ parts) : lineFeed ∉ part.dropLast := by
  induction cut with
  | nil => cases mem
  | cons _ unbroken _ _ ih =>
    rcases List.mem_cons.mp mem with rfl | later
    · exact unbroken
    · exact ih later

/-- Without its ending such a line has none. -/
theorem lineFeed_notMem_stripEnding {part : List UInt8} (unbroken : lineFeed ∉ part.dropLast) :
    lineFeed ∉ stripEnding part := by
  have stripped : lineFeed ∉ stripEnd lineFeed part := by
    unfold stripEnd
    split
    · exact unbroken
    · next goes =>
      intro mem
      have more := List.ne_nil_of_mem mem
      rw [← List.dropLast_append_getLast more, List.mem_append, List.mem_singleton] at mem
      rcases mem with inside | last
      · exact unbroken inside
      · exact goes (by rw [List.getLast?_eq_getLast_of_ne_nil more, last])
  rw [stripEnding, stripEnd]
  split
  · exact fun mem => stripped (List.dropLast_subset _ mem)
  · exact stripped

/-- The lines that a session works on have no line feeds. -/
theorem lineFeed_notMem_of_mem_lines {input line : List UInt8} (mem : line ∈ lines input) :
    lineFeed ∉ line := by
  obtain ⟨part, cut, rfl⟩ := List.mem_map.mp (List.takeWhile_subset _ mem)
  exact lineFeed_notMem_stripEnding ((isCut_iff.mpr rfl).lineFeed_notMem cut)

/-! ## Replies -/

/-- The line that stands in front of each reply. -/
def question : String := "Enter formula or (quit)"

/-- The lines that a session prints about a line, with or without reports: none if its parse is
clean, else a notice, and the report behind it if there are reports, with the text of the line and
its diagnostics. -/
def reply (reports : Bool) (line : List UInt8) : List String :=
  let parsed := parseFormula {} line
  let text := Text.lossyString line
  if parsed.isClean then []
  else
    s!"Error parsing \"{text}\"" ::
      if reports then
        [(Json.object [("input", .text text), ("diagnostics", .list (parsed.diagnostics.items.map
          fun d => .object [("offset", .number d.offset), ("message", .text d.message)]))]).compact]
      else []

/-- Texts as lines. -/
def printed (texts : List String) : String := String.join (texts.map (· ++ "\n"))

/-- Texts one behind the other are printed so. -/
theorem printed_append (texts more : List String) :
    printed (texts ++ more) = printed texts ++ printed more := by
  rw [printed, List.map_append, String.join_append, printed, printed]

/-- The first text is printed first. -/
theorem printed_cons (text : String) (texts : List String) :
    printed (text :: texts) = printed [text] ++ printed texts :=
  printed_append [text] texts

/-- What is said about several things is printed thing by thing. -/
theorem printed_flatMap {α : Type} (said : α → List String) (items : List α) :
    printed (items.flatMap said) = String.join (items.map fun item => printed (said item)) := by
  induction items with
  | nil => rfl
  | cons item items ih =>
    rw [List.flatMap_cons, printed_append, ih, List.map_cons, String.join_cons]

/-- The prompt is the question, as a line. -/
theorem prompt_eq : prompt = printed [question] := by decide

/-- **What a session prints about a line** is the reply, whatever else its options ask for. -/
theorem answer_eq (options : Options) (line : List UInt8) :
    (answer options line).output = printed (reply options.json line) ∧
      (answer options line).clean = decide (reply options.json line = []) := by
  have same := Parse.diagnostics_options sound_formula
    (.bad (.ofOffset 0) (.ofOffset line.length)) ⟨options.trace⟩ {} line
  have found : (parseFormula ⟨options.trace⟩ line).failure? =
      if (parseFormula {} line).isClean then none
      else some ⟨(parseFormula {} line).diagnostics.items⟩ :=
    congrArg Diagnostics.failure? same
  by_cases clean : (parseFormula {} line).isClean
  · rw [if_pos clean] at found
    simp [answer, reply, found, clean, printed]
  · rw [if_neg clean] at found
    have closing : toString "\"\n" = toString "\"" ++ "\n" := rfl
    cases reports : options.json <;>
      simp [answer, reply, report_eq, found, clean, reports, printed, closing, String.append_assoc]

/-- **Each text of a reply is a single line**, if the line that it replies to is one. -/
theorem newline_notMem_reply {reports : Bool} {line : List UInt8} (single : lineFeed ∉ line) :
    ∀ text ∈ reply reports line, '\n' ∉ text.toList := by
  have notice : '\n' ∉ s!"Error parsing \"{Text.lossyString line}\"".toList := by
    have inside : '\n' ∉ Text.lossy line := mt Text.lineFeed_mem_of_mem_lossy single
    show '\n' ∉ ("Error parsing \"" ++ String.ofList (Text.lossy line) ++ "\"").toList
    simp [inside]
  intro text mem
  unfold reply at mem
  dsimp only at mem
  split_ifs at mem
  · cases mem
  · rcases List.mem_cons.mp mem with rfl | mem
    · exact notice
    · rw [List.mem_singleton.mp mem]
      exact newline_notMem_report (Text.lossyString line) ⟨(parseFormula {} line).diagnostics.items⟩
  · rw [List.mem_singleton.mp mem]
    exact notice

/-! ## Sessions -/

/-- What a session prints, and how many failures it counts. -/
theorem run_eq (options : Options) (input : List UInt8) :
    (run options input).output =
        printed ((lines input).flatMap (fun line => question :: reply options.json line) ++
          [question]) ∧
      (run options input).log.getLast? =
        some (closing ((lines input).countP fun line => reply options.json line ≠ [])) := by
  obtain ⟨output, -, failures⟩ := converse_eq options {} input
  have said : ∀ line, prompt ++ (answer options line).output =
      printed (question :: reply options.json line) := by
    intro line
    rw [prompt_eq, (answer_eq options line).1, ← printed_cons]
  have counted : ∀ line,
      (!(answer options line).clean) = decide (reply options.json line ≠ []) := by
    intro line
    rw [(answer_eq options line).2, decide_not]
  constructor
  · rw [run, output, printed_append, printed_flatMap, ← prompt_eq, List.map_map]
    simp only [Function.comp_def, said]
    exact congrArg (· ++ prompt) String.empty_append
  · rw [run, failures, List.getLast?_append_of_ne_nil _ (List.cons_ne_nil _ _), List.countP_map]
    simp only [Function.comp_def, counted, Nat.zero_add, List.getLast?_singleton]

end Session

namespace Session

/-- **A session replies to its input line by line.** The input falls into lines in one way only,
each of which loses a line feed and then a carriage return at its end, if they stand there, and the
session works on those in front of the first one that says `quit`. It prints a question and the
reply to each of them in turn, and one question more. Questions, notices and reports are single
lines. Its last record counts the lines with a notice. Of all that it may be asked for, only reports
make a difference to what is printed. -/
theorem replies_to_lines (options : Options) (input : List UInt8) :
    ∃ parts stripped,
      (∀ parts', IsCut input parts' ↔ parts' = parts) ∧
      (∀ stripped', List.Forall₂ Strips parts stripped' ↔ stripped' = stripped) ∧
      let lines := stripped.takeWhile (· != [0x71, 0x75, 0x69, 0x74])
      (run options input).output =
        printed (lines.flatMap (fun line => question :: reply options.json line) ++ [question]) ∧
      (∀ line ∈ lines, ∀ text ∈ question :: reply options.json line, '\n' ∉ text.toList) ∧
      (run options input).log.getLast? =
        some ⟨.info, "formula_calc",
          "done (" ++ toString (lines.countP fun line => reply options.json line ≠ []) ++
            " formula(s) failed to parse)"⟩ ∧
      ∀ options' : Options, options'.json = options.json →
        (run options' input).output = (run options input).output := by
  obtain ⟨output, counted⟩ := run_eq options input
  have single : ∀ line ∈ lines input, lineFeed ∉ line := fun _ => lineFeed_notMem_of_mem_lines
  have others : ∀ options' : Options, options'.json = options.json →
      (run options' input).output = (run options input).output := by
    intro options' same
    rw [output, (run_eq options' input).1, same]
  simp only [lines, quitLine_eq] at output counted single
  refine ⟨chunks input, (chunks input).map stripEnding, fun _ => isCut_iff,
    fun _ => forall₂_strips_iff, output, ?_, counted, others⟩
  intro line mem
  rw [List.forall_mem_cons]
  exact ⟨by decide, newline_notMem_reply (single line mem)⟩

/-- A session with reports stops at `quit`, and of its two lines one fails. -/
theorem replies_to_two_lines :
    let input := "(1+2\r\n1+2\nquit\n)".toUTF8.toList
    let options : Options := { verbose := 1, json := true }
    (run options input).output =
        "Enter formula or (quit)\nError parsing \"(1+2\"\n" ++
          "\x7b\"input\":\"(1+2\",\"diagnostics\":[\x7b\"offset\":4," ++
            "\"message\":\"expected ')', found 'EOF'\"\x7d]\x7d\n" ++
          "Enter formula or (quit)\nEnter formula or (quit)\n" ∧
      (run options input).log.getLast? =
        some ⟨.info, "formula_calc", "done (1 formula(s) failed to parse)"⟩ ∧
      (run { options with trace := true } input).output = (run options input).output := by
  intro input options
  obtain ⟨parts, stripped, cut, strips, output, -, counted, others⟩ :=
    replies_to_lines options input
  obtain rfl := (cut (chunks input)).mp (isCut_iff.mpr rfl)
  obtain rfl := (strips ((chunks input).map stripEnding)).mp (forall₂_strips_iff.mpr rfl)
  rw [output, counted]
  exact ⟨by decide +kernel, by decide +kernel, by rw [← output]; exact others _ rfl⟩

end Session

end SheetFormula

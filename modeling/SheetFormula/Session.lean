import SheetFormula.Exchange.Plain
import SheetFormula.Parse
import SheetFormula.Session.Display
import SheetFormula.Session.Options

/-!
# Sessions

A session reads formulas line by line, prompts for each, and says which ones cannot be parsed. What
it prints depends on the lines and on whether reports are wanted; what it does meanwhile goes to the
log. The session ends with its input or at a line that asks for the end, and counts its failures.

A session is given its options. How these are read off a command line, and what a filter picks from
the log, has no part in what the session does.
-/

namespace SheetFormula

namespace Session

/-! ## Lines -/

/-- The line that ends a session. -/
def quitLine : List UInt8 := "quit".toUTF8.toList

/-- Removes one byte from the end of a line if it stands there. -/
def stripEnd (b : UInt8) (line : List UInt8) : List UInt8 :=
  if line.getLast? = some b then line.dropLast else line

/-- Removes the line ending: a line feed, and then a carriage return. -/
def stripEnding (line : List UInt8) : List UInt8 :=
  stripEnd 0x0D (stripEnd lineFeed line)

/-- The first line of an input, up to and with its line feed if it has one. -/
def firstLine (input : List UInt8) : List UInt8 :=
  input.takeWhile (· != lineFeed) ++ (input.dropWhile (· != lineFeed)).take 1

/-- What follows the first line of an input. -/
def behindLine (input : List UInt8) : List UInt8 :=
  (input.dropWhile (· != lineFeed)).drop 1

theorem length_behindLine_lt {input : List UInt8} (more : firstLine input ≠ []) :
    (behindLine input).length < input.length := by
  have whole := congrArg List.length
    (List.takeWhile_append_dropWhile (l := input) (p := (· != lineFeed)))
  rw [List.length_append] at whole
  rw [behindLine, List.length_drop]
  rcases Nat.eq_zero_or_pos (input.dropWhile (· != lineFeed)).length with none | some
  · rw [firstLine, List.length_eq_zero_iff.mp none, List.take_nil, List.append_nil] at more
    have first := List.length_pos_iff.mpr more
    omega
  · omega

/-! ## Single lines -/

/-- What a session makes of one line. -/
structure Answer where
  /-- Whether the line was parsed without any diagnostic. -/
  clean : Bool
  output : String
  log : List Log.Record
  deriving DecidableEq, Repr

/-- What the session asks before each line. -/
def prompt : String := "Enter formula or (quit)\n"

/-- A record of the session. -/
def record (level : Log.Level) (message : String) : Log.Record :=
  ⟨level, Log.sessionTarget, message⟩

/-- The report of a failing line. -/
def report (text : String) (failure : Failure) : Json :=
  .object [("input", .text text), ("diagnostics", Diagnostic.listToJson failure.diagnostics)]

/-- The records about the lexemes of a line. -/
def lexemeRecords (line : List UInt8) : List Log.Record :=
  let lexed := lex line
  lexed.log ++ lexed.lexemes.map fun l => record .info s!"{l.pos} {l.token} {l.literal}"

/-- Parses a line and says what is to be said about it. -/
def answer (options : Options) (line : List UInt8) : Answer :=
  let lexemes := if options.tokens then lexemeRecords line else []
  let parsed := parseFormula ⟨options.trace⟩ line
  let text := Text.lossyString line
  match parsed.failure? with
  | none => ⟨true, "", lexemes ++ parsed.log ++ [record .debug s!"parsed {Text.quotedString text}"]⟩
  | some failure =>
    let notice := s!"Error parsing \"{text}\"\n"
    let reported := if options.json then (report text failure).compact ++ "\n" else ""
    let details := failure.diagnostics.map fun d =>
      record .debug s!"{d.location line}: {d.message}"
    ⟨false, notice ++ reported, lexemes ++ parsed.log ++ details⟩

/-! ## Beginning a session -/

/-- Why a session does not begin. -/
inductive Refusal
  /-- The command line is not understood. -/
  | usage
  /-- The filter for the log falls apart inside a character. -/
  | filter
  deriving DecidableEq, Repr

/-- The exit code of a session that does not begin. -/
def Refusal.exitCode : Refusal → Nat
  | usage => 2
  | filter => 101

/-- What comes of a command line. -/
inductive Beginning
  /-- A session. -/
  | session (options : Options) (filter : Log.Filter)
  /-- The help text, and no session. -/
  | help
  | refused (refusal : Refusal)
  deriving DecidableEq, Repr

/-- What comes of a command line, given the text of a filter. -/
def begin (arguments : List String) (filter : Option String) : Beginning :=
  match Options.parse? arguments with
  | none => .refused .usage
  | some .help => .help
  | some (.session options) =>
    match Log.Filter.choose? filter options.verbosity with
    | none => .refused .filter
    | some filter => .session options filter

/-! ## Whole sessions -/

/-- What a session leaves behind. -/
structure Transcript where
  output : String
  log : List Log.Record
  deriving DecidableEq, Repr

/-- The last record of a session. -/
def closing (failures : Nat) : Log.Record :=
  record .info s!"done ({failures} formula(s) failed to parse)"

/-- What a session makes of a line as it was read: an answer, unless the input has ended or the line
asks for the end. -/
def respond? (options : Options) (read : List UInt8) : Option Answer :=
  if read = [] then none
  else if stripEnding read = quitLine then none
  else some (answer options (stripEnding read))

/-- What a session has done so far. -/
structure Progress where
  output : String := ""
  log : Array Log.Record := #[]
  /-- The number of lines that could not be parsed. -/
  failures : Nat := 0
  deriving DecidableEq, Repr

namespace Progress

/-- Asks for a line. -/
def ask (p : Progress) : Progress := { p with output := p.output ++ prompt }

/-- Gives the answer to a line. -/
def give (p : Progress) (a : Answer) : Progress :=
  ⟨p.output ++ a.output, p.log ++ a.log, if a.clean then p.failures else p.failures + 1⟩

end Progress

/-- Goes on with a session, line by line, until it ends. -/
def converse (options : Options) (before : Progress) (input : List UInt8) : Progress :=
  match responded : respond? options (firstLine input) with
  | none => before.ask
  | some answer =>
    have : (behindLine input).length < input.length := by
      apply length_behindLine_lt
      intro ended
      simp [respond?, ended] at responded
    converse options (before.ask.give answer) (behindLine input)
termination_by input.length

/-- Runs a session on its whole input. -/
def run (options : Options) (input : List UInt8) : Transcript :=
  let last := converse options {} input
  ⟨last.output, last.log.toList ++ [closing last.failures]⟩

end Session

end SheetFormula

import SheetFormula.Session
import SheetFormula.Session.Display

/-!
# The command line

Runs a session on standard input. The prompt, the notices and the reports go to standard output and
the log to standard error; the environment variable `RUST_LOG` may hold a filter for the log. A
session that does not begin leaves an exit code that says why.
-/

namespace SheetFormula.CommandLine

/-- Reads the bytes of one line, up to and with its line feed. -/
partial def readLine (input : IO.FS.Stream) (line : ByteArray) : IO ByteArray := do
  let next ← input.read 1
  if next.isEmpty then return line
  let line := line ++ next
  if next.toList.getLast? = some lineFeed then return line
  readLine input line

/-- Prompts for formulas and answers them until the input ends or a line asks for the end. Returns
the number of failures. -/
partial def converse (options : Options) (filter : Log.Filter) (failures : Nat) : IO Nat := do
  let out ← IO.getStdout
  out.putStr Session.prompt
  out.flush
  let read ← readLine (← IO.getStdin) ByteArray.empty
  let some answer := Session.respond? options read.toList | return failures
  out.putStr answer.output
  for shown in filter.lines answer.log do
    (← IO.getStderr).putStrLn shown
  converse options filter (if answer.clean then failures else failures + 1)

/-- Runs a session that has begun. -/
def session (options : Options) (filter : Log.Filter) : IO Unit := do
  let failures ← converse options filter 0
  for shown in filter.lines [Session.closing failures] do
    (← IO.getStderr).putStrLn shown

/-- What standard error says about a session that does not begin. -/
def complaint : Session.Refusal → String
  | .usage => "usage: formula-calc [-v]... [--trace] [--tokens] [--json]"
  | .filter => "RUST_LOG: a directive is cut inside a character"

end SheetFormula.CommandLine

def main (arguments : List String) : IO UInt32 := do
  match SheetFormula.Session.begin arguments (← IO.getEnv "RUST_LOG") with
  | .session options filter =>
    SheetFormula.CommandLine.session options filter
    return 0
  | .help =>
    (← IO.getStdout).putStr SheetFormula.Options.help
    return 0
  | .refused refusal =>
    (← IO.getStderr).putStrLn (SheetFormula.CommandLine.complaint refusal)
    return refusal.exitCode.toUInt32

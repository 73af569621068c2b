/-!
# Options of a session

The command line of a session: how much to log, whether to log productions and lexemes, and whether
to report failures as JSON. `--verbose` may be repeated, and short forms may be bundled; the other
options may be given once. There are no positional arguments, so nothing may follow a lone `--`. A
command line can also ask for help instead.
-/

namespace SheetFormula

/-- What the command line of a session asks for. -/
structure Options where
  /-- How often more logging was asked for. -/
  verbose : Nat := 0
  /-- Log every production of the grammar that is entered. -/
  trace : Bool := false
  /-- Log every lexeme. -/
  tokens : Bool := false
  /-- Print the diagnostics of each failing formula as JSON. -/
  json : Bool := false
  deriving DecidableEq, Repr

/-- What a command line asks for. -/
inductive Request
  /-- A session. -/
  | session (options : Options)
  /-- The help text. -/
  | help
  deriving DecidableEq, Repr

namespace Options

/-! ## Reading a command line -/

/-- Adds a bundle of short options to the options read so far; `none` if one of them is not
understood. -/
def readBundle (known : Options) : List Char → Option Request
  | [] => some (.session known)
  | 'v' :: more => ({ known with verbose := known.verbose + 1 }).readBundle more
  | 'h' :: _ => some .help
  | _ => none

/-- Adds the arguments to the options read so far; `none` if one of them is not understood. What
follows a request for help is not looked at. -/
def read (known : Options) : List String → Option Request
  | [] => some (.session known)
  | ["--"] => some (.session known)
  | "--help" :: _ => some .help
  | "--verbose" :: rest => ({ known with verbose := known.verbose + 1 }).read rest
  | "--trace" :: rest =>
    if known.trace then none else ({ known with trace := true }).read rest
  | "--tokens" :: rest =>
    if known.tokens then none else ({ known with tokens := true }).read rest
  | "--json" :: rest =>
    if known.json then none else ({ known with json := true }).read rest
  | argument :: rest =>
    match argument.toList with
    | '-' :: c :: more =>
      match known.readBundle (c :: more) with
      | some (.session known) => known.read rest
      | request => request
    | _ => none

/-- What a command line asks for; `none` if it is not understood. -/
def parse? (arguments : List String) : Option Request :=
  ({} : Options).read arguments

/-! ## What options mean -/

/-- How much to log: lexemes need the first step, productions the third. -/
def verbosity (o : Options) : Nat :=
  max o.verbose (max (if o.tokens then 1 else 0) (if o.trace then 3 else 0))

/-- The lines of the help text. -/
def helpLines : List String :=
  ["Parse spreadsheet formulas read from stdin",
    "",
    "Usage: formula-calc [OPTIONS]",
    "",
    "Options:",
    "  -v, --verbose...  Increase logging verbosity (-v: info, -vv: debug, -vvv+: trace)",
    "      --trace       Log every grammar production the parser enters (implies -vvv)",
    "      --tokens      Log every scanned token (implies -v)",
    "      --json        Print the diagnostics of each failing formula as a JSON object",
    "  -h, --help        Print help"]

/-- The help text. -/
def help : String := String.join (helpLines.map (· ++ "\n"))

end Options

end SheetFormula

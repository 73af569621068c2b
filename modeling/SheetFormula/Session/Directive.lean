import SheetFormula.Log
import SheetFormula.Session.Pattern
import SheetFormula.Text.Parts

/-!
# Directives

A directive of a log filter names the records that it is about and says up to which level they are
shown. Written out in full it is a target, a span and a test of a field in brackets, and a level:
`target[span{field=pattern}]=level`. Without a level it shows all records, without a target it is
about all targets, and a level alone is a directive too.

How a directive is composed is seen in its text without the white space around it. Its pieces are
cut out of the whole text, at the offsets that they have in the other one; so white space in front
of a directive moves all cuts towards the front, and can even move one into a character.
-/

namespace SheetFormula.Log

/-- Why a filter cannot be used. -/
inductive FilterFault
  /-- A directive is not composed as it should be. -/
  | malformed
  /-- A piece of a directive would begin or end inside a character. -/
  | severed
  deriving DecidableEq, Repr

/-- The test of a field. -/
structure FieldTest where
  name : String
  /-- What the value must match; without it the field must be there. -/
  pattern : Option String
  deriving DecidableEq, Repr

/-- Shows some records up to a level; without a level it shows none of them. -/
structure Directive where
  /-- What the targets begin with. -/
  target : Option String := none
  /-- The span that the records lie in. -/
  span : Option String := none
  field : Option FieldTest := none
  level : Option Level := some .trace
  deriving DecidableEq, Repr

/-! ## Levels -/

/-- The number of a level, written with decimal digits and perhaps a plus sign. -/
def levelNumber? (word : List Char) : Option Nat :=
  let digits := match word with
    | '+' :: digits => digits
    | _ => word
  if Text.isWhole digits then
    some (digits.foldl (fun n d => 10 * n + (d.toNat - '0'.toNat)) 0)
  else none

/-- The level that a word in letters of either case or a number stands for; `some none` shows
nothing. -/
def level? (word : String) : Option (Option Level) :=
  match levelNumber? word.toList with
  | some 0 => some none
  | some 1 => some (some .error)
  | some 2 => some (some .warn)
  | some 3 => some (some .info)
  | some 4 => some (some .debug)
  | some 5 => some (some .trace)
  | some _ => none
  | none =>
    match word.toLower with
    | "off" => some none
    | "error" => some (some .error)
    | "warn" => some (some .warn)
    | "info" => some (some .info)
    | "debug" => some (some .debug)
    | "trace" => some (some .trace)
    | _ => none

/-! ## Fields -/

/-- Reads the test of a field: a name, and behind an equals sign a pattern. What follows another
equals sign is not looked at. -/
def FieldTest.read (text : List Char) : Except FilterFault FieldTest :=
  let name := String.ofList (text.takeWhile (· != '='))
  match text.dropWhile (· != '=') with
  | [] => if text = [] then .error .malformed else .ok ⟨name, none⟩
  | _ :: value =>
    let pattern := value.takeWhile (· != '=')
    if isPattern pattern then .ok ⟨name, some (String.ofList pattern)⟩ else .error .malformed

namespace Directive

/-! ## Reading -/

/-- Cuts a piece out of the text of a directive. -/
def piece (text : List Char) (start stop : Nat) : Except FilterFault (List Char) :=
  match Text.piece? text start stop with
  | some piece => .ok piece
  | none => .error .severed

/-- Reads the end of a directive: nothing, or an equals sign and a level, which may be missing. The
rest begins at the offset. -/
def readLevel (text : List Char) (d : Directive) (offset : Nat) :
    List Char → Except FilterFault Directive
  | [] => .ok d
  | '=' :: _ => do
    let word ← piece text (offset + 1) (Text.width text)
    if word = [] then return d
    match level? (String.ofList word) with
    | some level => return { d with level }
    | none => throw .malformed
  | _ => .error .malformed

/-- Reads a directive from behind an opening bracket, where the rest begins at the offset. -/
def readScope (text : List Char) (d : Directive) (offset : Nat) (rest : List Char) :
    Except FilterFault Directive :=
  let inside (c : Char) := c != ']' && c != '{'
  let behind := offset + Text.width (rest.takeWhile inside)
  match rest.dropWhile inside with
  | [] => .error .malformed
  | ']' :: rest => do
    let span ← piece text offset behind
    readLevel text { d with span := some (String.ofList span) } (behind + 1) rest
  | _ :: rest => do
    let span ← piece text offset behind
    let d := if span = [] then d else { d with span := some (String.ofList span) }
    let stop := behind + 1 + Text.width (rest.takeWhile (· != '}'))
    match rest.dropWhile (· != '}') with
    | [] => throw .malformed
    | _ :: rest =>
      let field ← FieldTest.read (← piece text (behind + 1) stop)
      match rest with
      | ']' :: rest => readLevel text { d with field := some field } (stop + 2) rest
      | _ => throw .malformed

/-- Whether a directive without brackets in front may begin with `c`. -/
def opens (c : Char) : Bool :=
  c == '-' || c == ':' || Text.isWordChar c

/-- Reads a directive. A word without brackets and without a level is a level, if it can be, or a
target. -/
def read (text : List Char) : Except FilterFault Directive :=
  match Text.trim text with
  | [] => .error .malformed
  | c :: rest =>
    if c = '[' then readScope text {} 1 rest
    else if opens c then
      let inside (c : Char) := c != '=' && c != '['
      let behind := Text.width ((c :: rest).takeWhile inside)
      match (c :: rest).dropWhile inside with
      | [] =>
        let word := String.ofList text
        match level? word with
        | some level => .ok { level }
        | none => .ok { target := some word }
      | '[' :: rest => do
        let target ← piece text 0 behind
        readScope text { target := some (String.ofList target) } (behind + 1) rest
      | rest => do
        let target ← piece text 0 behind
        readLevel text { target := some (String.ofList target) } behind rest
    else .error .malformed

/-! ## What a directive is about -/

/-- What can be asked of a record by name. Every record has these fields. -/
def recordFields : List String :=
  ["message", "log.target", "log.module_path", "log.file", "log.line"]

/-- Whether a test holds of every record. The value of a field is known in spans only, so no record
passes a test with a pattern. -/
def holds (test : FieldTest) : Bool :=
  test.pattern.isNone && recordFields.contains test.name

/-- Whether the directive is about records of a target. A session enters no spans, so directives for
spans are about none of its records. -/
def applies (d : Directive) (target : String) : Bool :=
  d.span.isNone && d.field.all holds &&
    d.target.all fun beginning => beginning.toList.isPrefixOf target.toList

/-- Whether the directive shows records of this level. -/
def shows (d : Directive) (level : Level) : Bool :=
  d.level.any fun most => level.rank ≤ most.rank

/-- Whether the directive is at least as specific as another one that applies to the same records: a
longer target counts first, and then the test of a field. -/
def atLeastAsSpecific (d other : Directive) : Bool :=
  let length (d : Directive) := d.target.elim 0 fun target => target.utf8ByteSize + 1
  if length d = length other then
    match other.field, d.field with
    | none, _ => true
    | some _, none => false
    | some theirs, some ours => theirs.name ≤ ours.name
  else length other < length d

end Directive

end SheetFormula.Log

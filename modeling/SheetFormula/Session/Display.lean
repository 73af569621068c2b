import SheetFormula.Session.Directive
import SheetFormula.Text.Quoted

/-!
# What is shown of the log

Which records of the log are shown. A filter is a list of directives. Of the directives that apply
to a record the most specific one decides, and of several that are equally specific the last; a
record to which none applies is not shown. One line stands for each record that is shown.
-/

namespace SheetFormula.Log

/-- The directives of a filter. -/
structure Filter where
  directives : List Directive
  deriving DecidableEq, Repr

namespace Filter

/-- The more specific of a directive chosen so far and one that comes after it. -/
def moreSpecific (chosen : Option Directive) (next : Directive) : Option Directive :=
  match chosen with
  | none => some next
  | some d => if next.atLeastAsSpecific d then some next else some d

/-- The directive that decides about a target. -/
def decisive? (f : Filter) (target : String) : Option Directive :=
  (f.directives.filter (·.applies target)).foldl moreSpecific none

/-- Whether the filter shows a record. -/
def shows (f : Filter) (r : Record) : Bool :=
  (f.decisive? r.target).any (·.shows r.level)

/-! ## Filters by verbosity -/

/-- The level of a verbosity. -/
def levelOf : (verbosity : Nat) → Level
  | 0 => .warn
  | 1 => .info
  | 2 => .debug
  | _ => .trace

/-- The filter that a verbosity stands for: the same level for the session and for the library. -/
def ofVerbosity (verbosity : Nat) : Filter :=
  let upTo (target : String) : Directive :=
    { target := some target, level := some (levelOf verbosity) }
  ⟨[upTo sessionTarget, upTo libraryTarget]⟩

/-! ## Filters as text -/

/-- Reads directives with commas between them; the first fault counts. A text without any directive
shows errors only. -/
def read (text : String) : Except FilterFault Filter :=
  match (text.splitOn ",").filter (· != "") with
  | [] => .ok ⟨[{ level := some .error }]⟩
  | parts => (parts.mapM fun part => Directive.read part.toList).map Filter.mk

/-- The filter of a session: the one that is given as text, or the one that the verbosity stands for
if there is no text or it is malformed. There is none if a piece of the text is severed. -/
def choose? (given : Option String) (verbosity : Nat) : Option Filter :=
  match given.map read with
  | some (.ok filter) => some filter
  | some (.error .severed) => none
  | some (.error .malformed) | none => some (ofVerbosity verbosity)

end Filter

/-! ## Lines

Characters that could ring a terminal's bell or steer it are written as escapes. -/

/-- Whether `c` is one of the ASCII characters that steer a terminal: bell, backspace, form feed,
escape and delete. -/
def steers (c : Char) : Bool :=
  c == '\x07' || c == '\x08' || c == '\x0c' || c == '\x1b' || c == '\x7f'

/-- How a character stands in a line of the log. -/
def shownChar (c : Char) : List Char :=
  if steers c then
    ['\\', 'x', Nat.digitChar (c.toNat / 16), Nat.digitChar (c.toNat % 16)]
  else if 0x80 ≤ c.toNat ∧ c.toNat < 0xA0 then Text.codePointEscape c
  else [c]

/-- The line of a record. -/
def Record.shown (r : Record) : String :=
  String.ofList (r.line.toList.flatMap shownChar)

/-- The lines of the records that a filter lets through. -/
def Filter.lines (f : Filter) (records : List Record) : List String :=
  (records.filter f.shows).map Record.shown

end SheetFormula.Log

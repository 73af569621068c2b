import SheetFormula.Text.Parts

/-!
# Patterns

Which texts are patterns for the value of a field. A pattern is a regular expression: characters,
the dot, anchors, escapes, bracketed classes, groups, alternatives and repetitions. Only whether a
text is one matters here, since no record of the log is ever compared with a pattern.

The text is read one character at a time, with a look at what follows. A counted repetition is never
complete: its closing brace would end the fields that hold the pattern.

Two properties of characters are out of reach, the classes of Unicode and its pairs of upper and
lower case; a pattern that asks for them is refused. So is one that would match parts of characters,
and one whose parts are nested too deep.
-/

namespace SheetFormula

namespace Pattern

/-! ## The state of reading a pattern

What is kept while a pattern is read: the flags that are set, the groups and classes that are open,
and how deep the parts that were read are nested. No tree is built, since only the height of one
matters. -/

/-- What a pattern can switch on and off for the rest of a group. -/
structure Flags where
  /-- Classes and boundaries mean those of Unicode, otherwise those of ASCII. -/
  unicode : Bool := true
  /-- Upper and lower case are the same. -/
  ignoreCase : Bool := false
  /-- White space and what follows a number sign on its line mean nothing. -/
  spaced : Bool := false
  deriving DecidableEq, Repr

/-- The flags after some letters have been read: those behind a hyphen are switched off. -/
def Flags.apply (flags : Flags) (letters : List Char) : Flags :=
  (letters.foldl
    (fun (flags, on) letter =>
      match letter with
      | 'u' => ({ flags with unicode := on }, on)
      | 'i' => ({ flags with ignoreCase := on }, on)
      | 'x' => ({ flags with spaced := on }, on)
      | '-' => (flags, false)
      | _ => (flags, on))
    (flags, true)).1

/-- Parts that stand side by side, by their number and the height of the tallest. -/
structure Row where
  count : Nat := 0
  tallest : Nat := 0
  deriving DecidableEq, Repr

namespace Row

/-- Puts a part of some height at the end. -/
def add (r : Row) (height : Nat) : Row := ⟨r.count + 1, max r.tallest height⟩

/-- The height of a row: one more than that of its tallest part, unless that is the only one. -/
def height (r : Row) : Nat := if r.count ≤ 1 then r.tallest else r.tallest + 1

end Row

/-- What stands around an open group. -/
structure Surroundings where
  flags : Flags
  row : Row
  choices : Row
  deriving DecidableEq, Repr

/-- What has been read of a class. -/
structure Items where
  /-- The items since the last operator. -/
  row : Row := {}
  /-- The height of what stands in front of the last operator, if there is one. -/
  operand : Option Nat := none
  deriving DecidableEq, Repr

namespace Items

/-- Puts an item of some height at the end. -/
def add (items : Items) (height : Nat) : Items := { items with row := items.row.add height }

/-- The height of the items; each operator joins all in front of it with what follows. -/
def height (items : Items) : Nat :=
  match items.operand with
  | none => items.row.height
  | some height => max height items.row.height + 1

end Items

/-- Where a single character of a pattern stands. -/
inductive Place
  /-- Outside of classes. -/
  | outside
  /-- In a class, by itself or as the lower end of a range. -/
  | item
  /-- In a class, as the upper end of a range. -/
  | upper (low : Char)
  deriving DecidableEq, Repr

/-- What is expected next. -/
inductive Mode
  /-- Anything. -/
  | text
  /-- What follows an opening parenthesis. -/
  | opened
  /-- Flags, after those that were read, last first. -/
  | flags (before : List Char)
  /-- The angle bracket in front of the name of a group. -/
  | named
  /-- The name of a group, after the characters that were read, last first. -/
  | name (before : List Char)
  /-- What follows a backslash. -/
  | escaped (place : Place)
  /-- So many more hexadecimal digits, of a byte or of a code point. -/
  | hexadecimal (place : Place) (byte : Bool) (digits value : Nat)
  /-- What follows an opening bracket. -/
  | bracket
  /-- Hyphens, which stand for themselves at the beginning of a class, or a closing bracket, which
  does so if it is the first. -/
  | leading (first : Bool)
  /-- An item of a class. -/
  | item
  /-- What follows a single item, which may be the lower end of a range. -/
  | behind (low : Option Char)
  /-- The upper end of a range. -/
  | range (low : Char)
  deriving DecidableEq, Repr

/-- What is kept while a pattern is read. -/
structure State where
  flags : Flags := {}
  /-- The parts since the last bar in the innermost group. -/
  row : Row := {}
  /-- The height of the last part, if it can be repeated. -/
  last : Option Nat := none
  /-- The alternatives in front of the last bar in the innermost group. -/
  choices : Row := {}
  /-- What stands around each open group, innermost first. -/
  groups : List Surroundings := []
  /-- The names of groups so far. -/
  names : List (List Char) := []
  /-- The items of the innermost class. -/
  items : Items := {}
  /-- The items around each open class, innermost first. -/
  classes : List Items := []
  /-- How many of the next characters have been dealt with. -/
  passed : Nat := 0
  /-- Whether a comment is being skipped. -/
  comment : Bool := false
  mode : Mode := .text
  deriving DecidableEq, Repr

namespace State

/-- The state with another mode. -/
def going (s : State) (mode : Mode) : State := { s with mode }

/-- Puts a part of some height, which can be repeated, behind what was read. -/
def part (s : State) (height : Nat) : State :=
  { s with row := s.row.add height, last := some height, mode := .text }

/-- Puts an item of some height behind those of the innermost class. -/
def classPart (s : State) (height : Nat) (mode : Mode) : State :=
  { s with items := s.items.add height, mode }

/-- Whether single characters are out of reach: the pairs of upper and lower case are those of
Unicode. -/
def foldsUnicode (s : State) : Bool := s.flags.unicode && s.flags.ignoreCase

/-- Takes a character that stands for itself. A class of ASCII holds characters of ASCII only. -/
def literal (s : State) (place : Place) (c : Char) : Option State :=
  if s.foldsUnicode then none
  else match place with
    | .outside => some (s.part 0)
    | .item =>
      if s.flags.unicode || Text.isAscii c then some (s.classPart 0 (.behind (some c))) else none
    | .upper low =>
      if (s.flags.unicode || Text.isAscii c) && low ≤ c then some (s.going .item) else none

/-- The height of everything that was read, if no group is open. -/
def height (s : State) : Nat := (s.choices.add s.row.height).height

end State

/-! ## Groups in patterns

What stands between parentheses: alternatives, which may have a name or flags of their own. Flags
without a group hold for the rest of the group around them. -/

namespace State

/-- Opens a group. -/
def openGroup (s : State) : State :=
  { s with
    row := {}, last := none, choices := {}, mode := .opened
    groups := ⟨s.flags, s.row, s.choices⟩ :: s.groups }

/-- Closes the innermost group. -/
def closeGroup (s : State) : Option State :=
  match s.groups with
  | [] => none
  | around :: groups =>
    some ({ s with
      flags := around.flags, row := around.row, choices := around.choices, groups }.part
        (s.height + 1))

/-- Begins another alternative. -/
def bar (s : State) : State :=
  { s with choices := s.choices.add s.row.height, row := {}, last := none, mode := .text }

/-- Makes a group that has just been opened into a setting of flags, which cannot be repeated. -/
def setFlags (s : State) (flags : Flags) : Option State :=
  match s.groups with
  | [] => none
  | around :: groups =>
    some { s with
      flags, groups, row := around.row.add 0, choices := around.choices, mode := .text }

/-- Takes a character of the flags behind an opening parenthesis and a question mark. A colon opens
a group with the flags, and a closing parenthesis sets them for the rest of the group around. -/
def flag (s : State) (before : List Char) (c : Char) : Option State :=
  if c = ':' ∨ c = ')' then
    if before.head? = some '-' then none
    else
      let flags := s.flags.apply before.reverse
      if c = ':' then some { s with flags, mode := .text }
      else if before = [] then none
      else s.setFlags flags
  else if before = [] ∧ c = 'P' then some (s.going .named)
  else if before = [] ∧ c = '<' then some (s.going (.name []))
  else if ['i', 'm', 's', 'U', 'u', 'R', 'x', '-'].contains c && !before.contains c then
    some (s.going (.flags (c :: before)))
  else none

/-- Takes a character of the name of a group. No two groups have the same name. -/
def nameChar (s : State) (before : List Char) (c : Char) : Option State :=
  if c = '>' then
    if before = [] ∨ before ∈ s.names then none
    else some { s with names := before :: s.names, mode := .text }
  else if Text.isLetter c ||
      (before != [] && (Text.isWordChar c || c == '.' || c == '[' || c == ']')) then
    some (s.going (.name (c :: before)))
  else none

end State

/-! ## Escapes in patterns

What a backslash and the characters behind it stand for: one character, one of several characters,
or a place between characters. -/

namespace State

/-- Takes an escape that stands for one of several characters. -/
def severalOf (s : State) : Place → Option State
  | .outside => some (s.part 0)
  | .item => some (s.classPart 0 (.behind none))
  | .upper _ => none

/-- Takes an escape that stands for a place between characters. -/
def boundary (s : State) (place : Place) : Option State :=
  if place = .outside then some (s.part 0) else none

/-- The control character of an escape by letter. -/
def control? : Char → Option Char
  | 'a' => some '\x07'
  | 'f' => some '\x0c'
  | 'n' => some '\n'
  | 'r' => some '\r'
  | 't' => some '\t'
  | 'v' => some '\x0b'
  | _ => none

/-- How many hexadecimal digits follow an escape. -/
def hexDigits? : Char → Option Nat
  | 'x' => some 2
  | 'u' => some 4
  | 'U' => some 8
  | _ => none

/-- Takes the character behind a backslash. Digits, spaces and the characters of words are those of
Unicode or of ASCII, and so are the boundaries of words; those of Unicode are out of reach. What is
not one of them in ASCII could be no character at all. -/
def escape (s : State) (place : Place) (c : Char) : Option State :=
  match control? c, hexDigits? c with
  | some control, _ => s.literal place control
  | none, some digits => some (s.going (.hexadecimal place (c == 'x') digits 0))
  | none, none =>
    if c = 'A' ∨ c = 'z' then s.boundary place
    else if c = 'b' ∨ c = 'B' ∨ c = '<' ∨ c = '>' then
      if s.flags.unicode then none else s.boundary place
    else if c = 'd' ∨ c = 's' ∨ c = 'w' then
      if s.flags.unicode then none else s.severalOf place
    else if Text.isAscii c && !c.isAlphanum then s.literal place c
    else none

/-- Takes one of the last digits of a character that is given by a byte or by its code point. A byte
stands for the character of the same number; without Unicode there is none beyond ASCII. -/
def hexadecimalDigit (s : State) (place : Place) (byte : Bool) (digits value : Nat) (c : Char) :
    Option State :=
  if Text.isHexDigit c then
    let digit := if c.isDigit then c.toNat - '0'.toNat else c.toLower.toNat - 'a'.toNat + 10
    let value := value * 16 + digit
    if 1 < digits then some (s.going (.hexadecimal place byte (digits - 1) value))
    else if byte && !s.flags.unicode && 0x80 ≤ value then none
    else if value.isValidChar then s.literal place (Char.ofNat value)
    else none
  else none

end State

/-! ## Bracketed classes in patterns

What stands between brackets: single characters, ranges, named classes of ASCII and further classes,
with operators between them. Two of `&`, of `~` or of a hyphen are an operator. Without Unicode a
class may hold characters of ASCII only, so what is negated is refused. -/

/-- The names of the classes of ASCII. -/
def asciiClasses : List String :=
  ["alnum", "alpha", "ascii", "blank", "cntrl", "digit", "graph", "lower", "print", "punct",
    "space", "upper", "word", "xdigit"]

/-- A named class. -/
structure NamedClass where
  negated : Bool
  name : List Char
  deriving DecidableEq, Repr

/-- How many characters a named class takes behind its opening bracket. -/
def NamedClass.length (named : NamedClass) : Nat :=
  1 + (if named.negated then 1 else 0) + named.name.length + 2

/-- The named class behind an opening bracket, if there is one: its name stands between `:` and
`:]`, perhaps behind a `^`. -/
def namedClass? : List Char → Option NamedClass
  | ':' :: rest =>
    let negated := rest.head? == some '^'
    let inside := if negated then rest.tail else rest
    let name := inside.takeWhile (· != ':')
    if asciiClasses.contains (String.ofList name) &&
        [':', ']'].isPrefixOf (inside.dropWhile (· != ':')) then
      some ⟨negated, name⟩
    else none
  | _ => none

/-- The next character that is no white space, if white space means nothing. A number sign counts as
white space once, and what follows it is not passed over. -/
def peek (flags : Flags) (rest : List Char) : Option Char :=
  if flags.spaced then
    let front := rest.dropWhile Text.isSpace
    let front := if front.head? = some '#' then front.tail.dropWhile Text.isSpace else front
    front.head?.or rest.head?
  else rest.head?

namespace State

/-- Opens a class within the innermost one. -/
def openClass (s : State) : State :=
  { s with classes := s.items :: s.classes, items := {}, mode := .bracket }

/-- Closes the innermost class. The last one is a part of the pattern, any other one is an item of
the class around it. -/
def closeClass (s : State) : State :=
  let height := s.items.height + 1
  match s.classes with
  | around :: next :: classes =>
    { s with classes := next :: classes, items := around.add height, mode := .item }
  | _ => { s with classes := [] }.part height

/-- Takes an operator of two characters. -/
def operator (s : State) : State :=
  { s with items := ⟨{}, some s.items.height⟩, passed := 1, mode := .item }

/-- Takes a named class. -/
def named (s : State) (named : NamedClass) : Option State :=
  if s.foldsUnicode || (named.negated && !s.flags.unicode) then none
  else some { s.classPart 0 .item with passed := named.length }

/-- Takes the first character of an item of a class, of an operator, or the end of the class. -/
def classItem (s : State) (c : Char) (rest : List Char) : Option State :=
  match c with
  | '[' =>
    match namedClass? rest with
    | some named => s.named named
    | none => some s.openClass
  | ']' => some s.closeClass
  | '\\' => some (s.going (.escaped .item))
  | _ =>
    if (c = '&' ∨ c = '~' ∨ c = '-') ∧ rest.head? = some c then some s.operator
    else s.literal .item c

/-- Takes what follows a single item of a class. A hyphen makes it the lower end of a range, unless
the class ends behind the hyphen or another one follows. -/
def classBehind (s : State) (low : Option Char) (c : Char) (rest : List Char) : Option State :=
  let next := peek s.flags rest
  if c = '-' ∧ next ≠ some ']' ∧ next ≠ some '-' then low.map fun low => s.going (.range low)
  else s.classItem c rest

/-- Takes the upper end of a range. -/
def classRange (s : State) (low : Char) (c : Char) : Option State :=
  if c = '\\' then some (s.going (.escaped (.upper low))) else s.literal (.upper low) c

/-- Takes a character at the beginning of a class. -/
def classLeading (s : State) (first : Bool) (c : Char) (rest : List Char) : Option State :=
  if c = '-' then (s.literal .item c).map (·.going (.leading false))
  else if c = ']' ∧ first then (s.literal .item c).map (·.going .item)
  else s.classItem c rest

/-- Takes the character behind an opening bracket. -/
def classOpened (s : State) (c : Char) (rest : List Char) : Option State :=
  if c = '^' then if s.flags.unicode then some (s.going (.leading true)) else none
  else s.classLeading true c rest

end State

/-! ## Whole patterns -/

/-- How deep the parts of a pattern may be nested. -/
def heightLimit : Nat := 250

namespace State

/-- Repeats the last part, if it can be repeated. A question mark behind the mark of a repetition
belongs to it. -/
def repeated (s : State) (rest : List Char) : Option State :=
  s.last.map fun height =>
    { s with
      row := { s.row with tallest := max s.row.tallest (height + 1) }
      last := some (height + 1)
      passed := if rest.head? = some '?' then 1 else 0 }

/-- Takes a character outside of classes. -/
def plain (s : State) (c : Char) (rest : List Char) : Option State :=
  match c with
  | '(' => some s.openGroup
  | ')' => s.closeGroup
  | '|' => some s.bar
  | '*' | '+' | '?' => s.repeated rest
  | '{' => none
  | '[' => some s.openClass
  | '\\' => some (s.going (.escaped .outside))
  | '.' => if s.flags.unicode then some (s.part 0) else none
  | '^' | '$' => some (s.part 0)
  | _ => s.literal .outside c

/-- Whether gaps can stand where the reading is. -/
def takesGaps : Mode → Bool
  | .flags _ | .named | .name _ | .escaped _ => false
  | _ => true

/-- Takes a character that is no gap. -/
def take (s : State) (c : Char) (rest : List Char) : Option State :=
  match s.mode with
  | .text => s.plain c rest
  | .opened => if c = '?' then some (s.going (.flags [])) else { s with mode := .text }.plain c rest
  | .flags before => s.flag before c
  | .named => if c = '<' then some (s.going (.name [])) else none
  | .name before => s.nameChar before c
  | .escaped place => s.escape place c
  | .hexadecimal place byte digits value => s.hexadecimalDigit place byte digits value c
  | .bracket => s.classOpened c rest
  | .leading first => s.classLeading first c rest
  | .item => s.classItem c rest
  | .behind low => s.classBehind low c rest
  | .range low => s.classRange low c

/-- Takes one character of a pattern, in front of the rest. -/
def step (s : State) (c : Char) (rest : List Char) : Option State :=
  if 0 < s.passed then some { s with passed := s.passed - 1 }
  else if s.comment then some { s with comment := c != '\n' }
  else if s.flags.spaced && takesGaps s.mode && (Text.isSpace c || c == '#') then
    some { s with comment := c == '#' }
  else s.take c rest

/-- Whether a pattern may end: no group, class, escape or name is left open, and what was read is
not nested too deep. -/
def isComplete (s : State) : Bool :=
  s.groups.isEmpty && s.mode == .text && s.height ≤ heightLimit

/-- Whether the rest of a pattern completes it. -/
def completes (s : State) : List Char → Bool
  | [] => s.isComplete
  | c :: rest =>
    match s.step c rest with
    | none => false
    | some s => s.completes rest

end State

/-- Whether a text is a regular expression. -/
def isExpression (text : List Char) : Bool :=
  ({} : State).completes text

end Pattern

/-- Whether a text can be compared with the value of a field: a regular expression, or a number with
a plus sign, which no regular expression begins with. -/
def isPattern : List Char → Bool
  | '+' :: number => Text.isDecimal number
  | text => Pattern.isExpression text

end SheetFormula

import SheetFormula.Json
import SheetFormula.Lexeme

/-!
# Exchange form of plain records

Positions are numbers, token kinds are their keys, diagnostics and lexemes are records. A list of
diagnostics stands for itself, a failure is a record around one. Reading accepts records with
further members, and refuses whatever lacks a field or has a field of another type.
-/

namespace SheetFormula

/-- The natural number that a value is. -/
def Json.natural? : Json → Option Nat
  | .number n => some n
  | _ => none

/-- The text that a value is. -/
def Json.text? : Json → Option String
  | .text s => some s
  | _ => none

/-- The items of the list that a value is. -/
def Json.items? : Json → Option (List Json)
  | .list items => some items
  | _ => none

/-- A position as a value: its number, zero for no position. -/
def Pos.toJson (p : Pos) : Json := .number p.index

/-- The position that a value is. -/
def Pos.ofJson? (value : Json) : Option Pos := value.natural?.map Pos.mk

/-- A token kind as a value: its key. -/
def Token.toJson (t : Token) : Json := .text t.key

/-- A kind is read from its key, or from an object with that key and nothing in it. -/
def Token.ofJson? : Json → Option Token
  | .text key => Token.ofKey? key
  | .object [(key, .null)] => Token.ofKey? key
  | _ => none

/-! ## Diagnostics -/

/-- A diagnostic as a value. -/
def Diagnostic.toJson (d : Diagnostic) : Json :=
  .object [("offset", .number d.offset), ("message", .text d.message)]

/-- The diagnostic that a value is. -/
def Diagnostic.ofJson? (value : Json) : Option Diagnostic :=
  match value.record? ["offset", "message"] with
  | some [some ⟨offset, _⟩, some ⟨message, _⟩] =>
    return ⟨← offset.natural?, ← message.text?⟩
  | _ => none

/-- A list of diagnostics as a value. -/
def Diagnostic.listToJson (ds : List Diagnostic) : Json := .list (ds.map Diagnostic.toJson)

/-- The list of diagnostics that a value is. -/
def Diagnostic.listOfJson? (value : Json) : Option (List Diagnostic) :=
  value.items?.bind fun items => items.mapM Diagnostic.ofJson?

/-- The diagnostics noted so far as a value: a bare list. -/
def Diagnostics.toJson (ds : Diagnostics) : Json := Diagnostic.listToJson ds.items

/-- The diagnostics that a value lists. -/
def Diagnostics.ofJson? (value : Json) : Option Diagnostics :=
  (Diagnostic.listOfJson? value).map Diagnostics.mk

/-- A failure as a value: a record around its list. -/
def Failure.toJson (failure : Failure) : Json :=
  .object [("diagnostics", Diagnostic.listToJson failure.diagnostics)]

/-- The failure that a value is. -/
def Failure.ofJson? (value : Json) : Option Failure :=
  match value.record? ["diagnostics"] with
  | some [some ⟨ds, _⟩] => (Diagnostic.listOfJson? ds).map Failure.mk
  | _ => none

/-! ## Lexemes -/

/-- A lexeme as a value. -/
def Lexeme.toJson (l : Lexeme) : Json :=
  .object [("pos", l.pos.toJson), ("token", l.token.toJson), ("literal", .text l.literal)]

/-- The lexeme that a value is. -/
def Lexeme.ofJson? (value : Json) : Option Lexeme :=
  match value.record? ["pos", "token", "literal"] with
  | some [some ⟨pos, _⟩, some ⟨token, _⟩, some ⟨literal, _⟩] =>
    return ⟨← Pos.ofJson? pos, ← Token.ofJson? token, ← literal.text?⟩
  | _ => none

end SheetFormula

/-!
# JSON values

The values that trees and diagnostics are exchanged as. Members of an object keep their order, and
numbers are natural numbers; whatever else a sender may write for a number is kept as it was
written, so that it can be told apart and refused. `compact` writes a value on a single line.
-/

namespace SheetFormula

/-- A JSON value. -/
inductive Json
  | null
  | bool (value : Bool)
  | number (value : Nat)
  /-- A number that is negative, or written with a point or an exponent. -/
  | otherNumber (written : String)
  | text (value : String)
  | list (items : List Json)
  | object (members : List (String × Json))
  deriving Repr, Inhabited

namespace Json

/-! ## Writing -/

/-- How a character stands in a JSON text: quotes, backslashes and control characters are escaped,
all others stand for themselves. -/
def escapeChar (c : Char) : List Char :=
  if c = '"' ∨ c = '\\' then ['\\', c]
  else if c = '\x08' then ['\\', 'b']
  else if c = '\x0c' then ['\\', 'f']
  else if c = '\n' then ['\\', 'n']
  else if c = '\r' then ['\\', 'r']
  else if c = '\t' then ['\\', 't']
  else if c.toNat < 0x20 then
    ['\\', 'u', '0', '0', Nat.digitChar (c.toNat / 16), Nat.digitChar (c.toNat % 16)]
  else [c]

/-- A text between double quotes. -/
def quote (s : String) : List Char :=
  '"' :: (s.toList.flatMap escapeChar ++ ['"'])

mutual

/-- The characters of a value on one line, without spaces. -/
def chars : Json → List Char
  | null => "null".toList
  | bool value => (if value then "true" else "false").toList
  | number value => Nat.toDigits 10 value
  | otherNumber written => written.toList
  | text value => quote value
  | list items => '[' :: (itemChars items ++ [']'])
  | object members => '\x7b' :: (memberChars members ++ ['\x7d'])

/-- The items of a list, with commas between them. -/
def itemChars : List Json → List Char
  | [] => []
  | [item] => chars item
  | item :: items => chars item ++ ',' :: itemChars items

/-- The members of an object, with commas between them. -/
def memberChars : List (String × Json) → List Char
  | [] => []
  | [(key, value)] => quote key ++ ':' :: chars value
  | (key, value) :: members => quote key ++ ':' :: chars value ++ ',' :: memberChars members

end

/-- The value on one line, without spaces. -/
def compact (value : Json) : String := String.ofList value.chars

/-! ## Records -/

/-- A part of a value. -/
abbrev Part (whole : Json) : Type := { part : Json // sizeOf part < sizeOf whole }

/-- The value of a member, if the object has it. -/
def member? (members : List (String × Json)) (key : String) : Option (Part (object members)) :=
  match found : members.find? (·.1 == key) with
  | none => none
  | some (k, value) =>
    some ⟨value, by
      have smaller := List.sizeOf_lt_of_mem (List.mem_of_find?_eq_some found)
      simp only [Prod.mk.sizeOf_spec, object.sizeOf_spec] at smaller ⊢
      omega⟩

/-- The fields of a record with the given keys, in the order of the keys; a field that is absent is
`none`. A record is an object, whose further members do not matter, or a list that holds just the
fields, all of them and in order. -/
def record? (keys : List String) : (value : Json) → Option (List (Option (Part value)))
  | object members => some (keys.map (member? members))
  | list items =>
    if items.length = keys.length then
      some (items.attach.map fun ⟨item, inside⟩ =>
        some ⟨item, by
          have smaller := List.sizeOf_lt_of_mem inside
          simp only [list.sizeOf_spec]
          omega⟩)
    else none
  | _ => none

end Json

end SheetFormula

import SheetFormula.Location

/-!
# Diagnostics

Problems in a formula never stop the work. They are noted with the offset they concern, the list is
sorted once at the end, and a list that is not empty is the failure of a parse. Sorting is stable:
diagnostics at one offset stay in the order in which they were noted.
-/

namespace SheetFormula

/-- A problem and the offset, counted from zero, that it concerns. -/
structure Diagnostic where
  offset : Nat
  message : String
  deriving DecidableEq, Repr

namespace Diagnostic

/-- The offset and the message, with a colon between them. -/
def text (d : Diagnostic) : String :=
  s!"{d.offset}: {d.message}"

instance : ToString Diagnostic := ⟨text⟩

/-- Where the diagnostic stands in its source. -/
def location (d : Diagnostic) (source : List UInt8) : Location :=
  .inSource source d.offset

/-- The order of sorted lists: by offset alone. -/
def precedes (a b : Diagnostic) : Bool := a.offset ≤ b.offset

/-- One line for a list of diagnostics: the first of them, and how many more there are. -/
def summary : List Diagnostic → String
  | [] => "no errors"
  | [only] => only.text
  | first :: rest => s!"{first.text} (and {rest.length} more errors)"

end Diagnostic

/-- What a parse that noted at least one problem ends with. -/
structure Failure where
  diagnostics : List Diagnostic
  deriving DecidableEq, Repr

namespace Failure

/-- The summary of the diagnostics. -/
def text (failure : Failure) : String := Diagnostic.summary failure.diagnostics

/-- The first diagnostic. -/
def first? (failure : Failure) : Option Diagnostic := failure.diagnostics.head?

/-- The number of diagnostics. -/
def size (failure : Failure) : Nat := failure.diagnostics.length

/-- Whether there is no diagnostic; a parse never fails that way. -/
def isEmpty (failure : Failure) : Bool := failure.diagnostics.isEmpty

end Failure

/-- The diagnostics noted so far, in the order of the last sort and of the additions since. -/
structure Diagnostics where
  items : List Diagnostic := []
  deriving DecidableEq, Repr

namespace Diagnostics

/-- Nothing noted yet. -/
def empty : Diagnostics := ⟨[]⟩

/-- Notes one more problem. -/
def add (ds : Diagnostics) (d : Diagnostic) : Diagnostics := ⟨ds.items ++ [d]⟩

/-- Notes several problems, in order. -/
def addAll (ds : Diagnostics) (more : List Diagnostic) : Diagnostics := ⟨ds.items ++ more⟩

/-- Orders by offset, stably. -/
def sort (ds : Diagnostics) : Diagnostics := ⟨ds.items.mergeSort Diagnostic.precedes⟩

/-- The number of diagnostics. -/
def size (ds : Diagnostics) : Nat := ds.items.length

/-- Whether nothing has been noted. -/
def isEmpty (ds : Diagnostics) : Bool := ds.items.isEmpty

/-- The summary of the list as it stands. -/
def text (ds : Diagnostics) : String := Diagnostic.summary ds.items

/-- The failure that the diagnostics amount to, if there are any. -/
def failure? (ds : Diagnostics) : Option Failure :=
  if ds.items.isEmpty then none else some ⟨ds.items⟩

end Diagnostics

end SheetFormula

/-!
# Counting in an ascending array

One bisection serves every table of this library: the line table asks how many lines start at or
before an offset, and a character class asks how many of its boundaries lie at or below a code
point. `countUpTo` answers both in logarithmic time; on an ascending array it is the number of
entries that are at most the given one.
-/

namespace SheetFormula.Ascending

/-- Narrows the half-open window `[low, high)` that holds the first entry above `x`. All entries
before the window are at most `x`, all entries from its end on are above it. -/
def countWithin (entries : Array Nat) (x low high : Nat) : Nat :=
  if nonempty : low < high then
    let middle := low + (high - low) / 2
    if entries.getD middle 0 ≤ x then
      countWithin entries x (middle + 1) high
    else
      countWithin entries x low middle
  else
    low
termination_by high - low
decreasing_by all_goals omega

/-- How many entries of an ascending array are at most `x`. -/
def countUpTo (entries : Array Nat) (x : Nat) : Nat :=
  countWithin entries x 0 entries.size

end SheetFormula.Ascending

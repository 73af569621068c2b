import Mathlib.Tactic.Common
import SheetFormula.Proofs.Diagnostic.Sorting
import SheetFormula.Proofs.Lexeme.Lines

/-!
# Scanning beside a list

A scanner that keeps a list of diagnostics writes to it and never reads it. Between its scans
anybody may add to the list, report to it or sort it.

Main results:
* `Scanner.Keeping.run_eq`: whatever is done to the list between scans, the scanner answers as it
  would have without.
* `Scanner.Keeping.diagnostics_run`: what is done to the list in all, the reports of the scans
  included, are steps like any others.
* `sorting_between_immaterial`: of both, sorting on the way changes nothing.
-/

namespace SheetFormula

/-- Noting several diagnostics is noting them one by one. -/
theorem Diagnostics.addAll_eq_run (ds : Diagnostics) (more : List Diagnostic) :
    ds.addAll more = ds.run (more.map .add) := by
  induction more generalizing ds with
  | nil => exact congrArg mk (List.append_nil ds.items)
  | cons d more ih =>
    have later := ih (ds.add d)
    simp only [addAll, add, List.append_assoc, List.singleton_append] at later
    exact later

namespace Scanner

/-- The first so many scans of a scanner. -/
def firstScans (s : Scanner) (n : Nat) : List Scanned :=
  (List.range n).map fun i => (s.after i).scan.1

/-- The first scan comes in front of those of the scanner behind it. -/
theorem firstScans_succ (s : Scanner) (n : Nat) :
    s.firstScans (n + 1) = s.scan.1 :: s.scan.2.firstScans n := by
  simp only [firstScans, List.range_succ_eq_map, List.map_cons, List.map_map]
  rfl

namespace Keeping

/-- What can be done with a scanner that keeps a list: the next scan, or a step on the list. -/
inductive Act
  | scan
  | keep (step : Diagnostics.Step)
  deriving DecidableEq, Repr

/-- Whether an act is a scan. -/
def Act.isScan : Act → Bool
  | scan => true
  | keep _ => false

/-- The scanner and its list behind a step on the list. -/
def keep (k : Keeping) : Diagnostics.Step → Keeping
  | .add d => k.add d
  | .report offset message => k.add ⟨offset, message⟩
  | .sort => k.sort

/-- What the scans among several acts yield, and the scanner with its list behind these. -/
def run (k : Keeping) : List Act → List Scanned × Keeping
  | [] => ([], k)
  | .scan :: acts =>
    let (scanned, next) := k.scan
    let (later, last) := next.run acts
    (scanned :: later, last)
  | .keep step :: acts => (k.keep step).run acts

/-- The steps that several acts are for the list, if the scanner among them is `s`: the reports of a
scan are added one by one. -/
def steps (s : Scanner) : List Act → List Diagnostics.Step
  | [] => []
  | .scan :: acts => s.scan.1.reports.map .add ++ steps s.scan.2 acts
  | .keep step :: acts => step :: steps s acts

/-- A step on the list leaves the scanner alone. -/
theorem keep_eq (k : Keeping) (step : Diagnostics.Step) :
    k.keep step = ⟨k.scanner, step.apply k.diagnostics⟩ := by
  cases step <;> rfl

/-- **What is done to the list is nothing to the scanner**: it yields what it would have yielded
without, and stands where it would have stood. -/
theorem run_eq (k : Keeping) (acts : List Act) :
    (k.run acts).1 = k.scanner.firstScans (acts.countP Act.isScan) ∧
      (k.run acts).2.scanner = k.scanner.after (acts.countP Act.isScan) := by
  induction acts generalizing k with
  | nil => exact ⟨rfl, rfl⟩
  | cons act acts ih =>
    cases act with
    | scan =>
      obtain ⟨yields, leaves⟩ := ih k.scan.2
      rw [List.countP_cons_of_pos (by rfl), firstScans_succ]
      exact ⟨congrArg (k.scanner.scan.1 :: ·) yields, leaves⟩
    | keep step =>
      have later := ih (k.keep step)
      rw [keep_eq] at later
      rw [List.countP_cons_of_neg (by simp [Act.isScan]), run, keep_eq]
      exact later

/-- The list behind several acts is the one behind the steps that they are for it. -/
theorem diagnostics_run (k : Keeping) (acts : List Act) :
    (k.run acts).2.diagnostics = k.diagnostics.run (steps k.scanner acts) := by
  induction acts generalizing k with
  | nil => rfl
  | cons act acts ih =>
    cases act with
    | scan =>
      rw [steps, Diagnostics.run_append, ← Diagnostics.addAll_eq_run]
      exact ih k.scan.2
    | keep step =>
      have later := ih (k.keep step)
      rw [keep_eq] at later
      rw [run, keep_eq]
      exact later

/-- Acts that follow other acts find the scanner where the scans among those have left it. -/
theorem steps_append (s : Scanner) (acts later : List Act) :
    steps s (acts ++ later) =
      steps s acts ++ steps (s.after (acts.countP Act.isScan)) later := by
  induction acts generalizing s with
  | nil => rfl
  | cons act acts ih =>
    cases act with
    | scan =>
      rw [List.cons_append, steps, steps, ih, List.append_assoc,
        List.countP_cons_of_pos (by rfl)]
      rfl
    | keep step =>
      rw [List.cons_append, steps, steps, ih, List.countP_cons_of_neg (by simp [Act.isScan])]
      rfl

end Keeping

end Scanner

/-- **Sorting in between never matters.** A list of diagnostics that is added to, reported to and
sorted, in any order, and sorted in the end, is the stable sort of all that was noted, in the order
in which it was noted; no other list is that; it has all that was noted and nothing else; and
sorting it once more leaves it as it is. If all this is done to the list of a scanner, between its
scans, the scans yield what they yield without it, and behind them the scanner is the same, so that
its flag for line breaks, its previous token and all its locations are the same; and its list, once
it is sorted in the end, is the stable sort of what was noted by all, in the order in which it was
noted. -/
theorem sorting_between_immaterial (ds : Diagnostics) (steps : List Diagnostics.Step)
    (k : Scanner.Keeping) (acts : List Scanner.Keeping.Act) :
    let sorted := (ds.run (steps ++ [.sort])).items
    let scans := acts.countP Scanner.Keeping.Act.isScan
    let kept := k.run acts
    (sorted = (Diagnostics.mk (ds.noted steps)).sort.items ∧
      (∀ other, StablySorted (ds.noted steps) other ↔ other = sorted) ∧
      sorted.Perm (ds.noted steps) ∧
      ds.run (steps ++ [.sort] ++ [.sort]) = ds.run (steps ++ [.sort])) ∧
    (kept.1 = k.scanner.firstScans scans ∧ kept.2.scanner = k.scanner.after scans) ∧
    (kept.2.scanner.newlineBefore = (k.scanner.after scans).newlineBefore ∧
      kept.2.scanner.previous = (k.scanner.after scans).previous ∧
      ∀ p, kept.2.scanner.location? p = (k.scanner.after scans).location? p) ∧
    StablySorted (k.diagnostics.noted (Scanner.Keeping.steps k.scanner acts))
      (k.run (acts ++ [.keep .sort])).2.diagnostics.items := by
  dsimp only
  have sorted := ds.run_sorted steps
  obtain ⟨yields, leaves⟩ := k.run_eq acts
  refine ⟨⟨congrArg Diagnostics.items sorted, ?_, ?_, ?_⟩, ⟨yields, leaves⟩, ?_, ?_⟩
  · intro other
    rw [sorted]
    exact stablySorted_iff
  · rw [sorted]
    exact Diagnostics.sort_items_perm _
  · rw [Diagnostics.run_append, sorted]
    exact Diagnostics.sort_sort _
  · rw [leaves]
    exact ⟨rfl, rfl, fun _ => rfl⟩
  · have kept : (k.run (acts ++ [.keep .sort])).2.diagnostics =
        (Diagnostics.mk (k.diagnostics.noted (Scanner.Keeping.steps k.scanner acts))).sort := by
      rw [Scanner.Keeping.diagnostics_run, Scanner.Keeping.steps_append]
      exact Diagnostics.run_sorted ..
    rw [kept]
    exact Diagnostics.stablySorted_sort _

end SheetFormula

import Mathlib.Tactic.Common
import SheetFormula.Proofs.Tree.Tour

/-!
# What visitors see

The events of a walk are those of the tour that its visitor makes. `Visitor.noting` is the visitor
that also lists what it is shown, so that this can be said of every visitor.

Main results:
* `Visitor.walk_tours`: every walk makes a tour of its tree, and the visitor sees the events of that
  tour.
* `Node.events_eq`: where the answers are those of a plain condition, events are a function of the
  tree alone, with one equation for all nodes.
* `Node.inspected_eq` and `Node.inspect_tours`: an inspection calls its function on the nodes that
  are entered.
-/

namespace SheetFormula

namespace Visitor

variable {σ : Type} {v : Visitor σ} {state last : σ} {visits : List Visit}

/-- The same visitor, which also lists the events that it is shown. -/
def noting (v : Visitor σ) : Visitor (σ × List WalkEvent) where
  enter n := fun (state, events) =>
    let (answer, state) := v.enter n state
    (answer, state, events ++ [.enter n])
  leave n := fun (state, events) => (v.leave n state, events ++ [.leave n])

/-- Noting events does not change the answers of a visitor. -/
theorem Meets.noting (meets : v.Meets state visits last) (events : List WalkEvent) :
    v.noting.Meets (state, events) visits (last, events ++ visits.map Visit.event) := by
  induction visits generalizing state events with
  | nil =>
    obtain rfl : state = last := meets
    rw [List.map_nil, List.append_nil]
    rfl
  | cons visit visits ih =>
    rw [List.map_cons, List.append_cons]
    cases visit with
    | enter p answer => exact ⟨meets.1, ih meets.2 _⟩
    | leave p => exact ih meets _

/-- **Every walk makes a tour of its tree**, with the answers of its visitor at each moment, and the
visitor sees the events of that tour. -/
theorem walk_tours (v : Visitor σ) (n : Node) (state : σ) :
    ∃ visits, Tour [.root n] visits ∧ v.Meets state visits (v.walk n state) ∧
      v.noting.walk n (state, []) = (v.walk n state, visits.map Visit.event) := by
  obtain ⟨visits, last, tour, meets⟩ := v.exists_tour (.root n) state
  obtain rfl : v.walk n state = last := walk_of_meets tour meets
  exact ⟨visits, tour, meets, walk_of_meets tour (meets.noting [])⟩

/-- The visitor of an inspection. -/
def ofInspection (f : Node → σ → Bool × σ) : Visitor σ where
  enter n state :=
    let (goesBelow, state) := f n state
    (if goesBelow then .children else .skip, state)

/-- An inspection goes below a node if its function says so. -/
@[simp] theorem enter_ofInspection (f : Node → σ → Bool × σ) (n : Node) (state : σ) :
    (ofInspection f).enter n state =
      (if (f n state).1 then .children else .skip, (f n state).2) := rfl

/-- An inspection does nothing when a node is left. -/
@[simp] theorem leave_ofInspection (f : Node → σ → Bool × σ) (n : Node) (state : σ) :
    (ofInspection f).leave n state = state := rfl

/-- An inspection calls its function on the nodes that are entered. -/
theorem eq_foldl_of_meets {f : Node → σ → Bool × σ}
    (meets : (ofInspection f).Meets state visits last) :
    last = ((Visit.entered visits).map Place.node).foldl (fun state n => (f n state).2) state := by
  induction visits generalizing state with
  | nil => exact Eq.symm meets
  | cons visit visits ih =>
    cases visit with
    | enter p answer => exact ih meets.2
    | leave p => exact ih meets

end Visitor

/-- Whether each answer is to go below a node exactly if a condition holds of it. -/
def Visit.Follows (goesBelow : Node → Bool) (visits : List Visit) : Prop :=
  ∀ p answer, .enter p answer ∈ visits → answer = if goesBelow p.node then .children else .skip

namespace Visit

variable {goesBelow : Node → Bool} {p : Place} {answer : Descent} {visits : List Visit}

/-- No visits follow any condition. -/
@[simp] theorem follows_nil : Follows goesBelow [] := by
  rintro p answer ⟨⟩

/-- The first answer is the one of the condition, and the others follow it. -/
@[simp] theorem follows_enter : Follows goesBelow (enter p answer :: visits) ↔
    (if goesBelow p.node then .children else .skip) = answer ∧ Follows goesBelow visits := by
  constructor
  · intro follows
    refine ⟨(follows p answer List.mem_cons_self).symm, fun q answer mem => ?_⟩
    exact follows q answer (List.mem_cons_of_mem _ mem)
  · rintro ⟨rfl, follows⟩ q answer mem
    rcases List.mem_cons.mp mem with same | mem
    · cases same
      rfl
    · exact follows q answer mem

/-- Leaving a place gives no answer. -/
@[simp] theorem follows_leave :
    Follows goesBelow (leave p :: visits) ↔ Follows goesBelow visits := by
  simp [Follows]

end Visit

/-- The node that an event enters. -/
def WalkEvent.entered? : WalkEvent → Option Node
  | enter n => some n
  | leave _ => none

/-- The nodes that events enter are those of the places that are entered. -/
theorem Visit.filterMap_event (visits : List Visit) :
    (visits.map event).filterMap WalkEvent.entered? = (entered visits).map Place.node := by
  rw [List.filterMap_map, entered, List.map_filterMap]
  refine List.filterMap_congr fun visit _ => ?_
  cases visit <;> rfl

namespace Node

open Visit

variable {goesBelow : Node → Bool} {visits : List Visit}

/-- A recorder lists the node that is entered, and goes below it if the condition holds. -/
@[simp] theorem enter_recorder (n : Node) (seen : Array WalkEvent) :
    (recorder goesBelow).enter n seen =
      (if goesBelow n then .children else .skip, seen.push (.enter n)) := rfl

/-- A recorder lists the node that is left. -/
@[simp] theorem leave_recorder (n : Node) (seen : Array WalkEvent) :
    (recorder goesBelow).leave n seen = seen.push (.leave n) := rfl

/-- A recorder makes the tours whose answers follow its condition, and records their events. -/
theorem meets_recorder {seen last : Array WalkEvent} :
    (recorder goesBelow).Meets seen visits last ↔
      Follows goesBelow visits ∧ last = seen ++ (visits.map event).toArray := by
  induction visits generalizing seen with
  | nil => simp [Visitor.Meets, eq_comm]
  | cons visit visits ih =>
    cases visit with
    | enter p answer => simp [Visitor.Meets, ih, event, and_assoc]
    | leave p => simp [Visitor.Meets, ih, event]

/-- The inspection that collects nodes makes the tours whose answers follow its condition, and
collects the nodes that are entered. -/
theorem meets_inspection {seen last : Array Node} :
    (Visitor.ofInspection fun n seen => (goesBelow n, seen.push n)).Meets seen visits last ↔
      Follows goesBelow visits ∧ last = seen ++ ((entered visits).map Place.node).toArray := by
  induction visits generalizing seen with
  | nil => simp [Visitor.Meets, eq_comm]
  | cons visit visits ih =>
    cases visit with
    | enter p answer => simp [Visitor.Meets, ih, and_assoc]
    | leave p => simp [Visitor.Meets, ih]

/-- The events of a walk with a condition are those of a tour that follows the condition. -/
theorem events_tour (goesBelow : Node → Bool) (n : Node) :
    ∃ visits, Tour [.root n] visits ∧ Follows goesBelow visits ∧
      n.events goesBelow = visits.map event := by
  obtain ⟨visits, tour, meets, -⟩ := (recorder goesBelow).walk_tours n #[]
  obtain ⟨follows, records⟩ := meets_recorder.mp meets
  refine ⟨visits, tour, follows, ?_⟩
  rw [events, records]
  simp

/-- A recorder adds the events of a tree to those that it has listed before. -/
theorem walk_recorder (goesBelow : Node → Bool) (n : Node) (seen : Array WalkEvent) :
    (recorder goesBelow).walk n seen = seen ++ (n.events goesBelow).toArray := by
  obtain ⟨visits, tour, follows, records⟩ := events_tour goesBelow n
  rw [records]
  exact Visitor.walk_of_meets tour (meets_recorder.mpr ⟨follows, rfl⟩)

/-- **The events of a walk with a condition**: a node is entered, and if the condition holds of it,
its children follow one after the other, and it is left. -/
theorem events_eq (goesBelow : Node → Bool) (n : Node) :
    n.events goesBelow =
      if goesBelow n then .enter n :: (n.children.flatMap (events goesBelow) ++ [.leave n])
      else [.enter n] := by
  -- The recorder starts out with what it saw before, so siblings are taken for any such start.
  have row : ∀ (cs : List Node) (seen : Array WalkEvent),
      cs.foldl (fun seen c => (recorder goesBelow).walk c seen) seen =
        seen ++ (cs.flatMap (events goesBelow)).toArray := by
    intro cs
    induction cs with
    | nil => simp
    | cons c cs ih =>
      intro seen
      rw [List.foldl_cons, ih, walk_recorder]
      simp
  rw [events, Visitor.walk_eq]
  cases below : goesBelow n with
  | false => simp [Visitor.visit, below]
  | true =>
    have shown : ∀ walked seen, (recorder goesBelow).visit n walked seen =
        (walked (seen.push (.enter n))).push (.leave n) := by
      intro walked seen
      simp [Visitor.visit, below]
    rw [shown, row]
    simp

/-- **An inspection with a condition shows the nodes that the walk enters**, in order. -/
theorem inspected_eq (goesBelow : Node → Bool) (n : Node) :
    n.inspected goesBelow = (n.events goesBelow).filterMap WalkEvent.entered? := by
  obtain ⟨visits, tour, follows, records⟩ := events_tour goesBelow n
  have inspects := Visitor.walk_of_meets tour
    (meets_inspection.mpr ⟨follows, (Array.empty_append ..).symm⟩)
  rw [records, filterMap_event]
  exact congrArg Array.toList inspects

/-- **An inspection makes a tour of its tree**, with the answers of its function at each moment, and
calls that function on the nodes that are entered, in order. -/
theorem inspect_tours {σ : Type} (f : Node → σ → Bool × σ) (n : Node) (state : σ) :
    ∃ visits, Tour [.root n] visits ∧
      (Visitor.ofInspection f).Meets state visits (n.inspect f state) ∧
      n.inspect f state =
        ((entered visits).map Place.node).foldl (fun state n => (f n state).2) state := by
  obtain ⟨visits, tour, meets, -⟩ := (Visitor.ofInspection f).walk_tours n state
  exact ⟨visits, tour, meets, Visitor.eq_foldl_of_meets meets⟩

end Node

end SheetFormula

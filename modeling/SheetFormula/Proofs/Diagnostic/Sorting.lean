import Mathlib.Tactic.Common
import SheetFormula.Diagnostic

/-!
# Diagnostics in order

What was found is put in the order of offsets, and what was found at one offset stays in the order
in which it was found (`StablySorted`). Three questions are answered here: whether sorting does
this, whether anything else could do it, and whether it shows in the end when a list was sorted on
the way.

Main results:
* `Diagnostics.stablySorted_sort`: sorting a list puts it in that order.
* `stablySorted_iff`: nothing else does; there is one stably sorted list for each list.
* `Diagnostics.agrees_run`: at each offset a list has what was noted there, in the order in which it
  was noted, however often it is sorted between the notes.
* `Diagnostics.run_sorted`: a list that is sorted in the end does not show when it was sorted
  before.

Where two parties report to one list, the list is an interleaving of what each of them has reported
(`Interleaves`).
-/

namespace SheetFormula

/-! ## Stable sorting -/

/-- Whether `sorted` is `found` in the order of offsets, with what stands at one offset in the order
in which it was found. -/
structure StablySorted (found sorted : List Diagnostic) : Prop where
  ascends : sorted.Pairwise fun d e => d.offset ≤ e.offset
  at_offset : ∀ offset,
    sorted.filter (·.offset = offset) = found.filter (·.offset = offset)

/-- The order of offsets is transitive, as merging asks for. -/
theorem Diagnostic.precedes_trans (a b c : Diagnostic) :
    a.precedes b → b.precedes c → a.precedes c := by
  intro first second
  simp only [precedes, decide_eq_true_eq] at first second ⊢
  exact Nat.le_trans first second

/-- Of two diagnostics one precedes the other, or each does if they have one offset. -/
theorem Diagnostic.precedes_total (a b : Diagnostic) : a.precedes b || b.precedes a := by
  simp only [precedes, Bool.or_eq_true, decide_eq_true_eq]
  exact Nat.le_total _ _

namespace Diagnostics

/-- Sorting loses nothing and adds nothing. -/
theorem sort_items_perm (ds : Diagnostics) : ds.sort.items.Perm ds.items :=
  List.mergeSort_perm _ _

/-- **What is in the order of offsets already, sorting keeps as it is.** The part that is in order
is a sublist of the sorted list, it survives the same filter, and the two have the same length. -/
theorem filter_sort (ds : Diagnostics) {among : Diagnostic → Bool}
    (ascends : (ds.items.filter among).Pairwise fun d e => d.offset ≤ e.offset) :
    ds.sort.items.filter among = ds.items.filter among := by
  have ordered : (ds.items.filter among).Pairwise (·.precedes ·) :=
    ascends.imp fun before => decide_eq_true before
  have kept := List.sublist_mergeSort Diagnostic.precedes_trans Diagnostic.precedes_total ordered
    List.filter_sublist
  have among_kept := kept.filter among
  simp only [List.filter_filter, Bool.and_self] at among_kept
  refine (among_kept.eq_of_length ?_).symm
  exact (ds.sort_items_perm.filter _).length_eq.symm

/-- **Sorting is stable sorting by offset.** What stands at one offset is in order already, so
sorting keeps it. -/
theorem stablySorted_sort (ds : Diagnostics) : StablySorted ds.items ds.sort.items := by
  constructor
  · apply (List.pairwise_mergeSort Diagnostic.precedes_trans Diagnostic.precedes_total ds.items).imp
    intro d e before
    simpa [Diagnostic.precedes] using before
  · intro offset
    apply ds.filter_sort
    apply List.pairwise_of_forall_mem_list
    intro d mem e mem'
    have here := of_decide_eq_true (List.mem_filter.mp mem).2
    have there := of_decide_eq_true (List.mem_filter.mp mem').2
    exact Nat.le_of_eq (here.trans there.symm)

end Diagnostics

/-! ## One order only -/

/-- Whether a list has at each offset what was noted there, in the order in which it was noted. -/
def Agrees (noted kept : List Diagnostic) : Prop :=
  ∀ offset, kept.filter (·.offset = offset) = noted.filter (·.offset = offset)

namespace Agrees

variable {noted kept kept' : List Diagnostic}

/-- What is noted on both sides leaves two lists in agreement. -/
theorem append (agrees : Agrees noted kept) (more : List Diagnostic) :
    Agrees (noted ++ more) (kept ++ more) := by
  intro offset
  rw [List.filter_append, List.filter_append, agrees offset]

/-- What agrees with a list has its entries, as often as that has them. -/
theorem perm (agrees : Agrees noted kept) : kept.Perm noted := by
  rw [List.perm_iff_count]
  intro d
  have counted (list : List Diagnostic) :
      (list.filter (·.offset = d.offset)).count d = list.count d :=
    List.count_filter (decide_eq_true rfl)
  rw [← counted kept, agrees d.offset, counted noted]

/-- **Two lists in the order of offsets that agree are the same.** Neither can begin with an offset
below that of the other, and at one offset both have the same entry first. -/
theorem eq_of_ascends (agrees : Agrees kept' kept)
    (ascends : kept.Pairwise fun d e => d.offset ≤ e.offset)
    (ascends' : kept'.Pairwise fun d e => d.offset ≤ e.offset) : kept = kept' := by
  induction kept generalizing kept' with
  | nil => exact (List.nil_perm.mp agrees.perm).symm
  | cons d kept ih =>
    cases kept' with
    | nil => exact absurd (List.perm_nil.mp agrees.perm) (List.cons_ne_nil d kept)
    | cons e kept' =>
      obtain ⟨first, later⟩ := List.pairwise_cons.mp ascends
      obtain ⟨first', later'⟩ := List.pairwise_cons.mp ascends'
      have notAbove : e.offset ≤ d.offset := by
        rcases List.mem_cons.mp (agrees.perm.subset List.mem_cons_self) with rfl | mem
        · exact Nat.le_refl _
        · exact first' d mem
      have notBelow : d.offset ≤ e.offset := by
        rcases List.mem_cons.mp (agrees.perm.symm.subset List.mem_cons_self) with rfl | mem
        · exact Nat.le_refl _
        · exact first e mem
      have together : d.offset = e.offset := Nat.le_antisymm notBelow notAbove
      obtain rfl : d = e := by
        have here := agrees d.offset
        simp only [List.filter_cons, together, decide_true, if_true] at here
        exact (List.cons.inj here).1
      congr 1
      refine ih ?_ later later'
      intro offset
      have here := agrees offset
      rw [List.filter_cons, List.filter_cons] at here
      split at here
      · exact (List.cons.inj here).2
      · exact here

end Agrees

/-- **Sorting is the only stable sorting**: what is in the order of offsets and agrees with what was
found is what sorting makes of that. Both lists are in order and agree with the same list. -/
theorem stablySorted_iff {found sorted : List Diagnostic} :
    StablySorted found sorted ↔ sorted = (Diagnostics.mk found).sort.items := by
  have does := (Diagnostics.mk found).stablySorted_sort
  constructor
  · intro stable
    refine Agrees.eq_of_ascends ?_ stable.ascends does.ascends
    intro offset
    rw [stable.at_offset, does.at_offset]
  · rintro rfl
    exact does

/-! ## Sorting on the way -/

namespace Diagnostics

/-- What is asked of a list of diagnostics: to note one more, to note what somebody reports, or to
put its entries in order. -/
inductive Step
  | add (d : Diagnostic)
  | report (offset : Nat) (message : String)
  | sort
  deriving DecidableEq, Repr

/-- The list behind a step. -/
def Step.apply (ds : Diagnostics) : Step → Diagnostics
  | add d => ds.add d
  | report offset message => ds.add ⟨offset, message⟩
  | sort => ds.sort

/-- What a step adds to the list. -/
def Step.noted : Step → List Diagnostic
  | add d => [d]
  | report offset message => [⟨offset, message⟩]
  | sort => []

/-- The list behind several steps, one after the other. -/
def run (ds : Diagnostics) (steps : List Step) : Diagnostics := steps.foldl Step.apply ds

/-- Steps that follow other steps start from the list that those leave. -/
theorem run_append (ds : Diagnostics) (steps later : List Step) :
    ds.run (steps ++ later) = (ds.run steps).run later :=
  List.foldl_append

/-- All that a list has ever had to keep: its first entries, and what the steps have added. -/
def noted (ds : Diagnostics) (steps : List Step) : List Diagnostic :=
  ds.items ++ steps.flatMap Step.noted

variable {before : List Diagnostic} {ds : Diagnostics}

/-- **One step keeps a list in agreement** with all that has been noted. -/
theorem agrees_apply (agrees : Agrees before ds.items) (step : Step) :
    Agrees (before ++ step.noted) (step.apply ds).items := by
  cases step with
  | add d => exact agrees.append [d]
  | report offset message => exact agrees.append [⟨offset, message⟩]
  | sort =>
    intro offset
    rw [Step.noted, List.append_nil, ← agrees offset]
    exact ds.stablySorted_sort.at_offset offset

/-- Any number of steps keep a list in agreement with all that has been noted, by induction on the
steps. -/
theorem agrees_run (agrees : Agrees before ds.items) (steps : List Step) :
    Agrees (before ++ steps.flatMap Step.noted) (ds.run steps).items := by
  induction steps generalizing before ds with
  | nil => rwa [List.flatMap_nil, List.append_nil]
  | cons step steps ih =>
    rw [List.flatMap_cons, ← List.append_assoc]
    exact ih (agrees_apply agrees step)

/-- **When a list was sorted does not show once it is sorted again.** -/
theorem run_sorted (ds : Diagnostics) (steps : List Step) :
    ds.run (steps ++ [.sort]) = sort ⟨ds.noted steps⟩ := by
  have agrees : Agrees (ds.noted steps) (ds.run steps).items :=
    agrees_run (fun _ => rfl) steps
  have stable : StablySorted (ds.noted steps) (ds.run steps).sort.items := by
    have sorted := (ds.run steps).stablySorted_sort
    refine ⟨sorted.ascends, ?_⟩
    intro offset
    rw [sorted.at_offset, agrees offset]
  rw [run_append]
  exact congrArg Diagnostics.mk (stablySorted_iff.mp stable)

/-- What is sorted, sorting leaves as it is. -/
theorem sort_sort (ds : Diagnostics) : ds.sort.sort = ds.sort := by
  have once := ds.run_sorted [.sort]
  simpa [run, Step.apply, noted, Step.noted] using once

end Diagnostics

/-! ## Interleaving -/

/-- Whether a list is an interleaving of two others: each of them keeps its order in it. -/
inductive Interleaves {α : Type} : List α → List α → List α → Prop
  | nil : Interleaves [] [] []
  | left {a : α} {first second whole : List α} (later : Interleaves first second whole) :
    Interleaves (a :: first) second (a :: whole)
  | right {a : α} {first second whole : List α} (later : Interleaves first second whole) :
    Interleaves first (a :: second) (a :: whole)

namespace Interleaves

variable {α : Type} {first second whole first' second' whole' : List α}

/-- Two interleavings one behind the other interleave what they are made of. -/
theorem append (h : Interleaves first second whole) (h' : Interleaves first' second' whole') :
    Interleaves (first ++ first') (second ++ second') (whole ++ whole') := by
  induction h with
  | nil => exact h'
  | left later ih => exact .left ih
  | right later ih => exact .right ih

/-- One list, and behind it the other. -/
theorem of_append (first second : List α) : Interleaves first second (first ++ second) := by
  induction first with
  | nil =>
    induction second with
    | nil => exact .nil
    | cons a second ih => exact .right ih
  | cons a first ih => exact .left ih

end Interleaves

end SheetFormula

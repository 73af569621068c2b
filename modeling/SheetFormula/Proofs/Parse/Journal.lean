import Mathlib.Tactic.Common
import SheetFormula.Parse.Journal
import SheetFormula.Proofs.Lexeme.Order

/-!
# What a journal tells

A journal is read in three ways: for the lexemes that were consumed, for the faults that the parser
noted itself, and for all reports. That a journal leads from one stream to another (`Journal.Leads`)
ties these to the streams:

* what was consumed is what the first stream has more than the second (`Leads.lexemes_eq`), one
  lexeme after the other (`Leads.consumed_eq`);
* faults are noted in the order of the source (`Leads.noted_ascends`);
* a journal with no reports has passed over no report of the scanner (`Leads.silent`).
-/

namespace SheetFormula

/-! ## Entries -/

namespace TokenStream

/-- The entry for the lexeme in front, if it is consumed. -/
def taking (s : TokenStream) (asOperand : Bool) : Event :=
  .consume s.lookahead.lexeme asOperand s.advance.lookahead

/-- The entry for a fault at the lexeme in front. -/
def noting (s : TokenStream) (fault : SyntaxFault) : Event :=
  .report s.lookahead.pos.offset fault

end TokenStream

namespace Journal

/-- The faults that the parser has noted itself, each with its offset. -/
def noted (journal : Journal) : List (Nat × SyntaxFault) :=
  journal.filterMap fun
    | .report offset fault => some (offset, fault)
    | _ => none

section Views

variable (s : TokenStream) (asOperand : Bool) (rule : Rule) (fault : SyntaxFault)
  (first later : Journal)

/-- An empty journal notes nothing. -/
@[simp] theorem noted_nil : noted [] = [] := rfl

/-- Journals one behind the other note their faults so. -/
@[simp] theorem noted_append : noted (first ++ later) = noted first ++ noted later :=
  List.filterMap_append

/-- Consuming a lexeme notes no fault. -/
@[simp] theorem noted_taking : noted (s.taking asOperand :: later) = noted later := rfl

/-- A fault is noted at the lexeme in front. -/
@[simp] theorem noted_noting :
    noted (s.noting fault :: later) = (s.lookahead.pos.offset, fault) :: noted later := rfl

/-- Beginning a production notes no fault. -/
@[simp] theorem noted_enter : noted (.enter rule :: later) = noted later := rfl

/-- Ending a production notes no fault. -/
@[simp] theorem noted_leave : noted (.leave rule :: later) = noted later := rfl

/-- The brackets of a production note no fault. -/
@[simp] theorem noted_around : noted (rule.around later) = noted later := by
  simp [Rule.around]

/-- An empty journal consumes nothing. -/
@[simp] theorem consumed_nil : consumed [] = [] := rfl

/-- Journals one behind the other consume their lexemes so. -/
@[simp] theorem consumed_append : consumed (first ++ later) = consumed first ++ consumed later :=
  List.filterMap_append

/-- The lexeme in front is consumed. -/
@[simp] theorem consumed_taking :
    consumed (s.taking asOperand :: later) = s.lookahead.lexeme :: consumed later := rfl

/-- Noting a fault consumes nothing. -/
@[simp] theorem consumed_noting : consumed (s.noting fault :: later) = consumed later := rfl

/-- Beginning a production consumes nothing. -/
@[simp] theorem consumed_enter : consumed (.enter rule :: later) = consumed later := rfl

/-- Ending a production consumes nothing. -/
@[simp] theorem consumed_leave : consumed (.leave rule :: later) = consumed later := rfl

/-- The brackets of a production consume nothing. -/
@[simp] theorem consumed_around : consumed (rule.around later) = consumed later := by
  simp [Rule.around]

/-- Journals one behind the other report so. -/
@[simp] theorem reports_append : reports (first ++ later) = reports first ++ reports later :=
  List.flatMap_append

/-- Beginning a production reports nothing. -/
@[simp] theorem reports_enter : reports (.enter rule :: later) = reports later := rfl

/-- Ending a production reports nothing. -/
@[simp] theorem reports_leave : reports (.leave rule :: later) = reports later := rfl

/-- The brackets of a production report nothing. -/
@[simp] theorem reports_around : reports (rule.around later) = reports later := by
  simp [Rule.around, reports, Event.reports]

/-- With a lexeme that is consumed come the reports of the one that comes into view. -/
@[simp] theorem reports_taking :
    reports (s.taking asOperand :: later) = s.advance.lookahead.reports ++ reports later := rfl

end Views

/-- Each fault that the parser notes is among the reports. -/
theorem mem_reports_of_mem_noted {journal : Journal} {offset : Nat} {fault : SyntaxFault}
    (mem : (offset, fault) ∈ journal.noted) : ⟨offset, fault.message⟩ ∈ journal.reports := by
  obtain ⟨event, inside, is⟩ := List.mem_filterMap.mp mem
  cases event with
  | report offset' fault' =>
    obtain ⟨rfl, rfl⟩ := Prod.mk.inj (Option.some.inj is)
    exact List.mem_flatMap.mpr ⟨_, inside, List.mem_singleton.mpr rfl⟩
  | enter rule => cases is
  | leave rule => cases is
  | consume lexeme asOperand next => cases is

/-- Where nothing is reported the parser has noted nothing. -/
theorem noted_eq_nil {journal : Journal} (silent : journal.reports = []) : journal.noted = [] := by
  apply List.eq_nil_iff_forall_not_mem.mpr
  rintro ⟨offset, fault⟩ mem
  have reported := mem_reports_of_mem_noted mem
  rw [silent] at reported
  exact absurd reported List.not_mem_nil

/-! ## Journals between streams -/

/-- The journal leads from one stream to another: it tells of each consumed lexeme that it was the
one in front, of each fault that it was noted at the lexeme in front, and of each production both
that it was entered and that it was left. Productions can note faults anywhere; that those of the
grammar do not is `Derives.leads`. -/
inductive Leads : TokenStream → Journal → TokenStream → Prop
  | nothing (s : TokenStream) : Leads s [] s
  | consume {s t : TokenStream} {later : Journal} (asOperand : Bool)
      (behind : Leads s.advance later t) :
      Leads s (.consume s.lookahead.lexeme asOperand s.advance.lookahead :: later) t
  | report {s t : TokenStream} {later : Journal} (fault : SyntaxFault) (behind : Leads s later t) :
      Leads s (.report s.lookahead.pos.offset fault :: later) t
  | within {s m t : TokenStream} {inner later : Journal} (rule : Rule)
      (inside : Leads s inner m) (behind : Leads m later t) :
      Leads s (.enter rule :: (inner ++ .leave rule :: later)) t

namespace Leads

variable {s m t : TokenStream} {journal first second : Journal}

/-- Journals follow one another. -/
theorem append (there : Leads s first m) (on : Leads m second t) : Leads s (first ++ second) t := by
  induction there with
  | nothing s => exact on
  | consume asOperand behind ih => exact .consume asOperand (ih on)
  | report fault behind ih => exact .report fault (ih on)
  | within rule inside behind _ ih =>
    simpa only [List.cons_append, List.append_assoc] using Leads.within rule inside (ih on)

/-- The brackets of a production lead nowhere else. -/
theorem around {inner : Journal} (rule : Rule) (inside : Leads s inner t) :
    Leads s (rule.around inner) t :=
  .within rule inside (.nothing t)

/-- No journal leads to a stream with more lexemes ahead. -/
theorem size_le (h : Leads s journal t) : t.size ≤ s.size := by
  induction h with
  | nothing s => exact Nat.le_refl _
  | @consume s t later asOperand behind ih =>
    exact Nat.le_trans ih s.size_advance_le
  | report fault behind ih => exact ih
  | within rule inside behind inner later => exact Nat.le_trans later inner

/-- A journal leads from orderly streams to orderly streams. -/
theorem orderly (h : Leads s journal t) (start : s.Orderly) : t.Orderly := by
  induction h with
  | nothing s => exact start
  | consume asOperand behind ih => exact ih start.advance
  | report fault behind ih => exact ih start
  | within rule inside behind inner later => exact later (inner start)

/-- **Nothing is consumed but what is ahead, in order**: what was consumed, less the end, and what
is still ahead make up what was ahead before. -/
theorem lexemes_eq (h : Leads s journal t) (start : s.Orderly) :
    s.lexemes = journal.consumed.filter (·.token ≠ .endOfFormula) ++ t.lexemes := by
  induction h with
  | nothing s => rfl
  | @consume s t later asOperand behind ih =>
    have further := ih start.advance
    show _ = ((s.lookahead.lexeme :: later.consumed).filter _) ++ _
    by_cases nothing : s.tokens = []
    · have last := start.tokens_eq_nil_iff.mp nothing
      have same := TokenStream.tokens_advance_of_nil nothing
      rw [List.filter_cons_of_neg (by simpa [Scanned.token] using last), ← further,
        TokenStream.lexemes_of_nil nothing, TokenStream.lexemes_of_nil same.1, same.2]
    · have more := mt start.tokens_eq_nil_iff.mpr nothing
      rw [List.filter_cons_of_pos (by simpa [Scanned.token] using more), List.cons_append,
        ← further, TokenStream.lexemes_of_ne nothing]
  | report fault behind ih => exact ih start
  | @within s m t inner later rule inside behind ih ihLater =>
    rw [ih start, ihLater (inside.orderly start)]
    simp

/-- All that is consumed, the end included, was ahead, and all that is still ahead was so before. -/
theorem subset_lexemes (h : Leads s journal t) :
    journal.consumed ⊆ s.lexemes ∧ t.lexemes ⊆ s.lexemes := by
  induction h with
  | nothing s => exact ⟨List.nil_subset _, List.Subset.refl _⟩
  | @consume s t later asOperand behind ih =>
    have step := s.lexemes_advance_subset
    refine ⟨?_, List.Subset.trans ih.2 step⟩
    exact List.cons_subset.mpr ⟨s.mem_lexemes_lookahead, List.Subset.trans ih.1 step⟩
  | report fault behind ih => exact ih
  | within rule inside behind ih ihLater =>
    refine ⟨?_, List.Subset.trans ihLater.2 ih.2⟩
    simp only [consumed_enter, consumed_append, consumed_leave]
    exact List.append_subset.mpr ⟨ih.1, List.Subset.trans ihLater.1 ih.2⟩

/-- The position of a lexeme before the end is consumed at most once. -/
theorem count_pos_le_one (h : Leads s journal t) (start : s.Orderly)
    {l : Lexeme} (mem : l ∈ s.lexemes) (more : l.token ≠ .endOfFormula) :
    (journal.consumed.map Lexeme.pos).count l.pos ≤ 1 := by
  have nodup := start.nodup_pos
  -- What stands at the position of `l` is `l`, and so is not an end.
  have only : ∀ m ∈ journal.consumed, (m.pos == l.pos) =
      ((m.pos == l.pos) && decide (m.token ≠ .endOfFormula)) := by
    intro m consumed
    by_cases same : m.pos = l.pos
    · have is := List.inj_on_of_nodup_map nodup (h.subset_lexemes.1 consumed) mem same
      simp [is, more]
    · simp [same]
  have kept : (journal.consumed.map Lexeme.pos).count l.pos =
      ((journal.consumed.filter (·.token ≠ .endOfFormula)).map Lexeme.pos).count l.pos := by
    rw [List.count_eq_countP, List.count_eq_countP, List.countP_map, List.countP_map,
      List.countP_filter]
    exact List.countP_congr fun m consumed => by
      simpa using only m consumed
  rw [kept]
  refine Nat.le_trans ?_ (List.nodup_iff_count_le_one.mp nodup l.pos)
  rw [h.lexemes_eq start, List.map_append, List.count_append]
  exact Nat.le_add_right ..

/-- The lexeme in front does not come before what was in front earlier. -/
theorem pos_le (h : Leads s journal t) (start : s.Orderly) :
    s.lookahead.pos.offset ≤ t.lookahead.pos.offset := by
  induction h with
  | nothing s => exact Nat.le_refl _
  | @consume s t later asOperand behind ih =>
    refine Nat.le_trans ?_ (ih start.advance)
    by_cases nothing : s.tokens = []
    · have same := (TokenStream.tokens_advance_of_nil nothing).2
      rw [Scanned.pos, Scanned.pos, same]
    · have ascends := start.ascends
      obtain ⟨row, front⟩ := s.advance.lexemes_eq_cons
      rw [TokenStream.lexemes_of_ne nothing, front] at ascends
      have before := (List.pairwise_cons.mp ascends).1 _ List.mem_cons_self
      exact Nat.sub_le_sub_right (Nat.le_of_lt before) 1
  | report fault behind ih => exact ih start
  | within rule inside behind ih ihLater =>
    exact Nat.le_trans (ih start) (ihLater (inside.orderly start))

/-- What the parser notes, it notes between the lexemes that were in front at first and at last. -/
theorem noted_bounds (h : Leads s journal t) (start : s.Orderly) :
    ∀ n ∈ journal.noted, s.lookahead.pos.offset ≤ n.1 ∧ n.1 ≤ t.lookahead.pos.offset := by
  induction h with
  | nothing s => simp
  | @consume s t later asOperand behind ih =>
    intro n mem
    have bounds := ih start.advance n mem
    have step := (Leads.consume asOperand (.nothing s.advance)).pos_le start
    exact ⟨Nat.le_trans step bounds.1, bounds.2⟩
  | @report s t later fault behind ih =>
    intro n mem
    rcases List.mem_cons.mp mem with rfl | mem
    · exact ⟨Nat.le_refl _, behind.pos_le start⟩
    · exact ih start n mem
  | @within s m t inner later rule inside behind ih ihLater =>
    intro n mem
    have middle := inside.orderly start
    simp only [noted_enter, noted_append, noted_leave, List.mem_append] at mem
    rcases mem with mem | mem
    · have bounds := ih start n mem
      exact ⟨bounds.1, Nat.le_trans bounds.2 (behind.pos_le middle)⟩
    · have bounds := ihLater middle n mem
      exact ⟨Nat.le_trans (inside.pos_le start) bounds.1, bounds.2⟩

/-- **Faults are noted in the order of the source.** -/
theorem noted_ascends (h : Leads s journal t) (start : s.Orderly) :
    journal.noted.Pairwise fun n m => n.1 ≤ m.1 := by
  induction h with
  | nothing s => exact .nil
  | consume asOperand behind ih => exact ih start.advance
  | @report s t later fault behind ih =>
    refine .cons ?_ (ih start)
    intro n mem
    exact (behind.noted_bounds start n mem).1
  | @within s m t inner later rule inside behind ih ihLater =>
    have middle := inside.orderly start
    simp only [noted_enter, noted_append, noted_leave]
    refine List.pairwise_append.mpr ⟨ih start, ihLater middle, ?_⟩
    intro n first n' second
    have before := (inside.noted_bounds start n first).2
    have after := (behind.noted_bounds middle n' second).1
    exact Nat.le_trans before after

/-- **A silent journal passes over no report**: all that the scanner has to report of the first
stream, it has to report of what is still ahead. -/
theorem silent (h : Leads s journal t) (none : journal.reports = [])
    (front : s.lookahead.reports = []) :
    t.lookahead.reports = [] ∧ ∀ scan ∈ s.scans, scan ∈ t.scans ∨ scan.reports = [] := by
  induction h with
  | nothing s => exact ⟨front, fun scan mem => .inl mem⟩
  | @consume s t later asOperand behind ih =>
    obtain ⟨next, rest⟩ := List.append_eq_nil_iff.mp none
    obtain ⟨last, further⟩ := ih rest next
    refine ⟨last, ?_⟩
    intro scan mem
    -- With nothing ahead the parser goes on taking the same last lexeme.
    by_cases nothing : s.tokens = []
    · have only : s.scans = [s.lookahead] := by
        simp [TokenStream.scans, TokenStream.lookahead, nothing]
      rw [only] at mem
      obtain rfl := List.mem_singleton.mp mem
      exact .inr front
    · obtain ⟨row, ends⟩ := TokenStream.exists_cons_of_ne nothing
      have split : s.scans = s.lookahead :: s.advance.scans := by
        rw [TokenStream.scans, TokenStream.scans, row, ends, List.cons_append]
      rw [split] at mem
      rcases List.mem_cons.mp mem with rfl | mem
      · exact .inr front
      · exact further scan mem
  | report fault behind ih => cases none
  | @within s m t inner later rule inside behind ih ihLater =>
    simp only [reports_enter, reports_append, reports_leave, List.append_eq_nil_iff] at none
    obtain ⟨middle, passed⟩ := ih none.1 front
    obtain ⟨last, further⟩ := ihLater none.2 middle
    refine ⟨last, ?_⟩
    intro scan mem
    rcases passed scan mem with ahead | quiet
    · exact further scan ahead
    · exact .inr quiet

/-- If the scanner has nothing to report of a stream, all reports are faults that the parser has
noted itself. -/
theorem reports_eq (h : Leads s journal t) (legible : ∀ scan ∈ s.scans, scan.reports = []) :
    journal.reports = journal.noted.map (fun n => ⟨n.1, n.2.message⟩) ∧
      ∀ scan ∈ t.scans, scan.reports = [] := by
  induction h with
  | nothing s => exact ⟨rfl, legible⟩
  | @consume s t later asOperand behind ih =>
    have further : ∀ scan ∈ s.advance.scans, scan.reports = [] := by
      obtain ⟨tokens, finish⟩ := s
      cases tokens with
      | nil =>
        intro scan mem
        obtain rfl := List.mem_singleton.mp mem
        rfl
      | cons first tokens => exact fun scan mem => legible scan (List.mem_cons_of_mem _ mem)
    have next := further _ s.advance.lookahead_mem_scans
    obtain ⟨same, last⟩ := ih further
    refine ⟨?_, last⟩
    show s.advance.lookahead.reports ++ later.reports = later.noted.map _
    rw [next, same, List.nil_append]
  | report fault behind ih =>
    obtain ⟨same, last⟩ := ih legible
    exact ⟨congrArg (_ :: ·) same, last⟩
  | @within s m t inner later rule inside behind ih ihLater =>
    obtain ⟨same, middle⟩ := ih legible
    obtain ⟨same', last⟩ := ihLater middle
    refine ⟨?_, last⟩
    simp [same, same']

/-- **A journal consumes one lexeme after the other**, as often as it advances its stream. -/
theorem consumed_eq (h : Leads s journal t) :
    t = s.skip journal.consumed.length ∧ journal.consumed = s.passed journal.consumed.length := by
  induction h with
  | nothing s => exact ⟨rfl, rfl⟩
  | @consume s t later asOperand behind ih =>
    obtain ⟨last, row⟩ := ih
    exact ⟨last, congrArg (s.lookahead.lexeme :: ·) row⟩
  | report fault behind ih => exact ih
  | @within s m t inner later rule inside behind ih ihLater =>
    obtain ⟨middle, first⟩ := ih
    obtain ⟨last, second⟩ := ihLater
    rw [consumed_enter, consumed_append, consumed_leave, List.length_append]
    constructor
    · rw [last, s.skip_add, ← middle]
    · rw [s.passed_add, ← middle, ← first, ← second]

end Leads

end Journal

end SheetFormula

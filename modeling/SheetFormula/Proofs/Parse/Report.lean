import Mathlib.Tactic.Common
import SheetFormula.Proofs.Diagnostic.Sorting
import SheetFormula.Proofs.Lexeme.Report
import SheetFormula.Proofs.Parse.Whole

/-!
# What a parse reports

Scanner and parser report to one list, the scanner as lexemes come into view and the parser at the
lexeme that it has in front of it. What both have found is therefore told by the faults that the
parser notes while each of the first scans of the source is in front of it.

* `Journal.notedByScan` reads these faults off a journal, one list for each lexeme that is in front
  meanwhile, and `findings` puts the reports of the scanner between them.
* `Journal.Leads.told`: a journal that leads from one stream to another reports just this, and each
  fault at the offset of the lexeme that was in front when it was noted.
* `diagnostics_complete`: the diagnostics of a parse are these findings, stably sorted. Nothing is
  reported twice or left out, nothing lies outside the source, and a parse that misses no end has
  all that scanning alone would report.
-/

namespace SheetFormula

open Grammar

/-- Whether the message of a diagnostic starts with these words. -/
def Diagnostic.StartsWith (words : String) (d : Diagnostic) : Prop :=
  ∃ rest, d.message = words ++ rest

/-- The diagnostics for faults that a parser notes while a scan is in front of it. -/
def Scanned.diagnose (scan : Scanned) (faults : List SyntaxFault) : List Diagnostic :=
  faults.map fun fault => ⟨scan.pos.offset, fault.message⟩

/-! ## What is found scan by scan

The scans of a source are numbered from zero, as `Scanner.nthScan` does.
-/

section Scans

variable (scan : Nat → Scanned)

/-- What the scanner reports during the first `k` scans, behind what it reports at the start. -/
def scannerReports (opening : List Diagnostic) (k : Nat) : List Diagnostic :=
  opening ++ (List.range k).flatMap fun n => (scan n).reports

/-- What the parser reports from the `n`-th scan on, if it notes these faults while that scan and
the next ones are in front of it, one list at each scan. -/
def parserReports (n : Nat) (noted : List (List SyntaxFault)) : List Diagnostic :=
  (noted.zipIdx n).flatMap fun (faults, i) => (scan i).diagnose faults

/-- What scanner and parser find together from the `n`-th scan on: as each scan comes into view,
what it reports, and then the faults that the parser notes at its lexeme. -/
def findings (n : Nat) (noted : List (List SyntaxFault)) : List Diagnostic :=
  (noted.zipIdx n).flatMap fun (faults, i) => (scan i).reports ++ (scan i).diagnose faults

/-- What is noted at one scan is reported in front of what is noted at the later ones. -/
theorem parserReports_cons (n : Nat) (faults : List SyntaxFault)
    (noted : List (List SyntaxFault)) :
    parserReports scan n (faults :: noted) =
      (scan n).diagnose faults ++ parserReports scan (n + 1) noted := by
  simp [parserReports, List.zipIdx_cons]

/-- What is found at one scan is what it reports, and what is noted at it, in front of what is found
at the later ones. -/
theorem findings_cons (n : Nat) (faults : List SyntaxFault) (noted : List (List SyntaxFault)) :
    findings scan n (faults :: noted) =
      (scan n).reports ++ ((scan n).diagnose faults ++ findings scan (n + 1) noted) := by
  simp [findings, List.zipIdx_cons]

/-- The findings interleave what the scanner has found and what the parser has found. -/
theorem interleaves_findings (n : Nat) (noted : List (List SyntaxFault)) :
    Interleaves ((List.range' n noted.length).flatMap fun i => (scan i).reports)
      (parserReports scan n noted) (findings scan n noted) := by
  induction noted generalizing n with
  | nil => exact .nil
  | cons faults noted ih =>
    have later := ih (n + 1)
    rw [parserReports_cons, findings_cons, ← List.append_assoc, List.length_cons,
      List.range'_succ, List.flatMap_cons]
    exact (Interleaves.of_append _ _).append later

end Scans

/-! ## Scan by scan through a stream -/

namespace TokenStream

variable {s t : TokenStream}

/-- The scans of a stream, one after the other. -/
def scanAt (s : TokenStream) (n : Nat) : Scanned := (s.skip n).lookahead

/-- At the end of a stream there is nothing more to report. -/
theorem reports_skip_of_nil (nothing : s.tokens = []) (n : Nat) :
    (s.skip (n + 1)).lookahead.reports = [] := by
  obtain ⟨tokens, finish⟩ := s
  obtain rfl : tokens = [] := nothing
  induction n generalizing finish with
  | zero => rfl
  | succ n ih => exact ih finish.again

/-- What so many scans report that the end of the stream is among them is all that there is to
report. -/
theorem flatMap_reports_scanAt {n : Nat} (last : (s.skip n).tokens = []) :
    (List.range (n + 1)).flatMap (fun i => (s.scanAt i).reports) =
      s.scans.flatMap Scanned.reports := by
  induction n generalizing s with
  | zero =>
    have only : s.scans = [s.lookahead] := by
      rw [skip] at last
      simp [scans, lookahead, last]
    rw [only]
    rfl
  | succ n ih =>
    rw [List.range_succ_eq_map, List.flatMap_cons, List.flatMap_map]
    by_cases nothing : s.tokens = []
    · have only : s.scans = [s.lookahead] := by simp [scans, lookahead, nothing]
      have silent : (List.range (n + 1)).flatMap (fun i => (s.scanAt (i + 1)).reports) = [] :=
        List.flatMap_eq_nil_iff.mpr fun i _ => reports_skip_of_nil nothing i
      rw [only, List.flatMap_singleton]
      exact (congrArg (_ ++ ·) silent).trans (List.append_nil _)
    · obtain ⟨row, ends⟩ := exists_cons_of_ne nothing
      have split : s.scans = s.lookahead :: s.advance.scans := by
        rw [scans, scans, row, ends, List.cons_append]
      rw [split, List.flatMap_cons, ← ih last]
      rfl

end TokenStream

/-! ## Scan by scan through a journal -/

namespace Journal

/-- The diagnostics for the faults that the parser has noted itself. -/
def ownReports (journal : Journal) : List Diagnostic :=
  journal.noted.map fun n => ⟨n.1, n.2.message⟩

/-- The faults that a journal notes, one list for each lexeme that is in front meanwhile: those that
it notes before it consumes the first lexeme, those from there up to the next one, and so on. -/
def notedByScan : Journal → List (List SyntaxFault)
  | [] => [[]]
  | .consume _ _ _ :: later => [] :: notedByScan later
  | .report _ fault :: later => (notedByScan later).modifyHead (fault :: ·)
  | .enter _ :: later | .leave _ :: later => notedByScan later

/-- One lexeme is in front at the start, and another one behind each that is consumed. -/
theorem length_notedByScan (journal : Journal) :
    journal.notedByScan.length = journal.consumed.length + 1 := by
  induction journal with
  | nil => rfl
  | cons event later ih =>
    cases event with
    | enter rule | leave rule => exact ih
    | consume lexeme asOperand next => exact congrArg (· + 1) ih
    | report offset fault => exact (List.length_modifyHead ..).trans ih

/-- Some lexeme is always in front. -/
theorem exists_notedByScan_eq (journal : Journal) :
    ∃ first further, journal.notedByScan = first :: further :=
  List.exists_cons_of_length_eq_add_one journal.length_notedByScan

/-- No fault that a journal notes is left out. -/
theorem flatten_notedByScan (journal : Journal) :
    journal.notedByScan.flatten = journal.noted.map Prod.snd := by
  induction journal with
  | nil => rfl
  | cons event later ih =>
    cases event with
    | enter rule | leave rule => exact ih
    | consume lexeme asOperand next => exact ih
    | report offset fault =>
      obtain ⟨first, further, split⟩ := exists_notedByScan_eq later
      rw [split] at ih
      rw [notedByScan, split]
      exact congrArg (fault :: ·) ih

end Journal

/-- Whether what a journal reports while the `n`-th scan of a stream and later ones are in front is
told by the faults that it notes at each of them. -/
def TokenStream.Told (s : TokenStream) (n : Nat) (journal : Journal) : Prop :=
  ∀ first further, journal.notedByScan = first :: further →
    journal.reports = (s.scanAt n).diagnose first ++ findings s.scanAt (n + 1) further ∧
      journal.ownReports = parserReports s.scanAt n (first :: further)

namespace TokenStream.Told

variable {u : TokenStream} {n : Nat} {rest : Journal}

/-- Where nothing is done, nothing is reported. -/
theorem nil : u.Told n [] := by
  rintro _ _ ⟨rfl, rfl⟩
  exact ⟨rfl, rfl⟩

/-- As a lexeme is consumed, the next scan comes into view with its reports. -/
theorem consume {lexeme : Lexeme} {asOperand : Bool} {next : Scanned}
    (view : next = u.scanAt (n + 1)) (told : u.Told (n + 1) rest) :
    u.Told n (.consume lexeme asOperand next :: rest) := by
  rintro _ _ ⟨rfl, rfl⟩
  obtain ⟨first, further, split⟩ := rest.exists_notedByScan_eq
  obtain ⟨found, own⟩ := told first further split
  constructor
  · show next.reports ++ rest.reports = _
    rw [split, view, found, findings_cons]
    rfl
  · rw [split, parserReports_cons, ← own]
    rfl

/-- A fault that is noted at the lexeme in front comes before all that is noted later. -/
theorem report {offset : Nat} {fault : SyntaxFault} (view : offset = (u.scanAt n).pos.offset)
    (told : u.Told n rest) : u.Told n (.report offset fault :: rest) := by
  obtain ⟨first, further, split⟩ := rest.exists_notedByScan_eq
  obtain ⟨found, own⟩ := told first further split
  intro first' further' split'
  rw [Journal.notedByScan, split] at split'
  obtain ⟨rfl, rfl⟩ := split'
  constructor
  · show ⟨offset, fault.message⟩ :: rest.reports = _
    rw [view, found]
    rfl
  · show ⟨offset, fault.message⟩ :: rest.ownReports = _
    rw [view, own, parserReports_cons, parserReports_cons]
    rfl

end TokenStream.Told

/-- **A journal reports what is found scan by scan**: it leads from one scan to another, and if what
is reported from there on is told by the faults that are noted there, so is what is reported from
the first one on. -/
theorem Journal.Leads.told {u s t : TokenStream} {journal : Journal} {n : Nat}
    (h : Journal.Leads s journal t) (start : s = u.skip n) :
    ∃ m, t = u.skip m ∧ ∀ rest, u.Told m rest → u.Told n (journal ++ rest) := by
  induction h generalizing n with
  | nothing s => exact ⟨n, start, fun rest told => told⟩
  | @consume s t later asOperand behind ih =>
    have next : s.advance = u.skip (n + 1) := by rw [start, u.advance_skip]
    obtain ⟨m, last, tells⟩ := ih next
    exact ⟨m, last, fun rest told => .consume (congrArg _ next) (tells rest told)⟩
  | @report s t later fault behind ih =>
    obtain ⟨m, last, tells⟩ := ih start
    have view : s.lookahead = u.scanAt n := congrArg TokenStream.lookahead start
    exact ⟨m, last, fun rest told => .report (by rw [view]) (tells rest told)⟩
  | @within s m t inner later rule inside behind ih ihLater =>
    obtain ⟨i, middle, tells⟩ := ih start
    obtain ⟨j, last, tellsLater⟩ := ihLater middle
    refine ⟨j, last, fun rest told => ?_⟩
    -- Entering and leaving a production leaves no trace in what is reported.
    have whole : u.Told n (inner ++ .leave rule :: (later ++ rest)) :=
      tells _ (tellsLater rest told)
    rw [List.cons_append, List.append_assoc, List.cons_append]
    exact whole

/-! ## What is found in a source -/

namespace Parse

variable (source : List UInt8)

/-- The scans of a source. -/
def scans : Nat → Scanned := (Scanner.start source).nthScan

/-- The scans of the stream of a source are those of its scanner. -/
theorem scanAt_ofSource : (TokenStream.ofSource source).scanAt = scans source := by
  funext n
  exact Scanner.lookahead_skip (Reader.behind_start source) n

/-- What a run of a production on a source finds is told by the faults that it notes at each of the
first scans of the source. -/
theorem findings_run {α : Type} {production : Production α} (sound : production.Sound) :
    let ran := production.run (.ofSource source)
    ran.journal.ownReports = parserReports (scans source) 0 ran.journal.notedByScan ∧
      reports source (.ofSource source) ran =
        Scanner.openingReports source ++ findings (scans source) 0 ran.journal.notedByScan := by
  intro ran
  obtain ⟨m, -, tells⟩ :=
    (sound.leads_run (.ofSource source)).told (u := .ofSource source) (n := 0) rfl
  have told := tells [] .nil
  rw [List.append_nil] at told
  obtain ⟨first, further, split⟩ := ran.journal.exists_notedByScan_eq
  obtain ⟨found, own⟩ := told first further split
  rw [scanAt_ofSource] at own
  refine ⟨by rw [split, own], ?_⟩
  rw [reports, found, split, List.append_assoc, findings_cons, ← scanAt_ofSource]
  rfl

/-- Where a scan of a source stands, it stands in the source or right behind it. -/
theorem offset_scans_le (n : Nat) : (scans source n).pos.offset ≤ source.length := by
  have lexeme := (Scanner.nthScan_eq (s := .start source) (Reader.behind_start source) n).1
  show (scans source n).lexeme.pos.offset ≤ source.length
  rw [scans, lexeme, List.getD_eq_getElem?_getD]
  cases scanned : ((Scanner.start source).stream.lexemes)[n]? with
  | none => exact Nat.le_refl _
  | some l =>
    have bounds := pos_bounds_lexemes (List.mem_of_getElem? scanned)
    show l.pos.index - 1 ≤ source.length
    omega

/-- Whatever is found in a source lies in it, and is worded as a fault of the scanner or as one that
the parser has noted. -/
theorem findings_spec (noted : List (List SyntaxFault)) :
    ∀ d ∈ Scanner.openingReports source ++ findings (scans source) 0 noted,
      d.offset ≤ source.length ∧
        ((∃ fault : LexicalFault, d.message = fault.message) ∨
          ∃ fault ∈ noted.flatten, d.message = fault.message) := by
  have stands := Reader.behind_start source
  rw [List.forall_mem_append]
  constructor
  · intro d mem
    have lexical := stands.faults_lexical d mem
    exact ⟨lexical.offset_le, .inl lexical.worded⟩
  · intro d mem
    obtain ⟨⟨faults, n⟩, numbered, found⟩ := List.mem_flatMap.mp mem
    rcases List.mem_append.mp found with scanned | noted
    · have lexical := Scanner.nthScan_lexical (s := .start source) stands n d scanned
      exact ⟨lexical.offset_le, .inl lexical.worded⟩
    · obtain ⟨fault, one, rfl⟩ := List.mem_map.mp noted
      have inside := List.mem_flatten.mpr ⟨faults, List.fst_mem_of_mem_zipIdx numbered, one⟩
      exact ⟨offset_scans_le source n, .inr ⟨fault, inside, rfl⟩⟩

end Parse

/-- Whether diagnostics are all that is found in a source by a scanner and by a parser with this
journal: as often as a lexeme is consumed another one is scanned, behind the first. -/
structure Diagnostics.Complete (source : List UInt8) (journal : Journal) (ds : Diagnostics) :
    Prop where
  /-- Each fault of the parser is noted at the offset of the lexeme that was in front just then. -/
  own_eq : journal.ownReports = parserReports (Parse.scans source) 0 journal.notedByScan
  /-- Each party's reports are among the findings, in their order, and there is nothing else. -/
  interleaves : Interleaves
    (scannerReports (Parse.scans source) (Scanner.openingReports source)
      (journal.consumed.length + 1))
    journal.ownReports
    (Scanner.openingReports source ++ findings (Parse.scans source) 0 journal.notedByScan)
  sorted : StablySorted
    (Scanner.openingReports source ++ findings (Parse.scans source) 0 journal.notedByScan) ds.items
  inside : ∀ d ∈ ds.items, d.offset ≤ source.length
  /-- Unless an end was missed, the scanner has reported all that there is to report. -/
  scanned_all : (∀ d ∈ ds.items, ¬ d.StartsWith "expected end of formula") →
    (scannerReports (Parse.scans source) (Scanner.openingReports source)
      (journal.consumed.length + 1)).Perm (lex source).diagnostics.items

/-- The findings of a run of a production, sorted, are complete, provided that the run comes to the
end of its source or notes that it does not. -/
theorem Parse.complete {α : Type} {production : Production α} (sound : production.Sound)
    (rejected : α) (options : ParseOptions) {source : List UInt8}
    (short : characterCount source ≤ lengthLimit)
    (ends : (production.run (.ofSource source)).rest.lookahead.token = .endOfFormula ∨
      ∃ offset found, (offset, SyntaxFault.expected .endOfFormula found) ∈
        (production.run (.ofSource source)).journal.noted) :
    (Parse.parseWith production rejected options source).diagnostics.Complete source
      (production.run (.ofSource source)).journal := by
  have leads := sound.leads_run (.ofSource source)
  have mem_diagnostics : ∀ offset fault, (offset, fault) ∈ _ → _ := fun _ _ =>
    Parse.mem_diagnostics_of_mem_noted sound rejected options short
  obtain ⟨own, found⟩ := Parse.findings_run source sound
  have diagnostics := (Parse.parseWith_of_short sound rejected options short).2
  generalize production.run (.ofSource source) = ran at *
  rw [found] at diagnostics
  have sorted := Diagnostics.stablySorted_sort
    ⟨Scanner.openingReports source ++ findings (Parse.scans source) 0 ran.journal.notedByScan⟩
  have perm := Diagnostics.sort_items_perm
    ⟨Scanner.openingReports source ++ findings (Parse.scans source) 0 ran.journal.notedByScan⟩
  rw [← diagnostics] at sorted perm
  refine ⟨own, ?_, sorted, ?_, ?_⟩
  · have opening := Interleaves.of_append (Scanner.openingReports source) []
    have all := opening.append
      (interleaves_findings (Parse.scans source) 0 ran.journal.notedByScan)
    rw [List.append_nil, List.nil_append, Journal.length_notedByScan] at all
    rwa [scannerReports, List.range_eq_range', own]
  · intro d mem
    exact (Parse.findings_spec source _ d (perm.mem_iff.mp mem)).1
  -- A parse that reports no missing end stands at the end, so every scan came into view.
  · intro unmissed
    obtain ⟨last, -⟩ := leads.consumed_eq
    have orderly := leads.orderly (TokenStream.orderly_ofSource source)
    have nothing :
        ((TokenStream.ofSource source).skip ran.journal.consumed.length).tokens = [] := by
      rw [← last, orderly.tokens_eq_nil_iff]
      refine ends.resolve_right ?_
      rintro ⟨offset, found, missed⟩
      exact unmissed _ (mem_diagnostics _ _ missed) ⟨found.elim "" (", found " ++ ·), rfl⟩
    have all := TokenStream.flatMap_reports_scanAt nothing
    rw [Parse.scanAt_ofSource] at all
    rw [scannerReports, all]
    exact (Diagnostics.sort_items_perm ⟨_⟩).symm

/-- **No diagnostic is lost, duplicated, misplaced or out of range.** The diagnostics of a formula
or of a parameter list whose source is not too long are the stable sort of an interleaving: of what
the scanner reports at the start and during its first scans, one more than lexemes are consumed, and
of what the parser notes itself, each fault at the offset of the lexeme that is in front of it then.
All offsets lie in the source, and if no end is missed the scanner has reported all that scanning
the whole source reports. -/
theorem diagnostics_complete (options : ParseOptions) (source : List UInt8)
    (short : characterCount source ≤ lengthLimit) :
    (parseFormula options source).diagnostics.Complete source
        (formula.run (.ofSource source)).journal ∧
      (parseParameters options source).diagnostics.Complete source
        (parametersOnly.run (.ofSource source)).journal := by
  have start := TokenStream.orderly_ofSource source
  constructor
  · refine Parse.complete sound_formula _ options short ?_
    exact (reading_formula start).ends.imp_right fun noted => ⟨_, _, noted⟩
  · refine Parse.complete sound_parametersOnly _ options short ?_
    exact (reading_parametersOnly start).ends.imp_right fun noted => ⟨_, _, noted⟩

/-- Of the source `=F(1 08` both have something to report: the scanner a digit of the lexeme that
comes into view as `1` is consumed, and then the parser that this lexeme stands for a comma, and
that the list is not closed. -/
theorem diagnostics_complete_invalid_digit :
    let source := "=F(1 08".toUTF8.toList
    characterCount source ≤ lengthLimit ∧
      (parseFormula {} source).diagnostics.Complete source
        (formula.run (.ofSource source)).journal ∧
      (formula.run (.ofSource source)).journal.notedByScan =
        [[], [], [], [], [.missingComma], [.expected (.token .closeParen) (some "'EOF'")], []] ∧
      (parseFormula {} source).diagnostics.items =
        [⟨5, "missing ',' in argument list"⟩, ⟨6, "invalid digit '8' in decimal literal"⟩,
          ⟨7, "expected ')', found 'EOF'"⟩] := by
  intro source
  have short : characterCount source ≤ lengthLimit := by decide +kernel
  have found : Parse.reports source (.ofSource source) (formula.run (.ofSource source)) =
      [⟨6, "invalid digit '8' in decimal literal"⟩, ⟨5, "missing ',' in argument list"⟩,
        ⟨7, "expected ')', found 'EOF'"⟩] := by
    decide +kernel
  refine ⟨short, (diagnostics_complete {} source short).1, by decide +kernel, ?_⟩
  rw [parseFormula, (Parse.parseWith_of_short sound_formula _ {} short).2, found]
  simp [Diagnostics.sort, List.mergeSort, Diagnostic.precedes]

end SheetFormula

import Mathlib.Tactic.Common
import SheetFormula.Proofs.Diagnostic.Sorting
import SheetFormula.Proofs.Lexeme.Lines
import SheetFormula.Proofs.Lexeme.NumberScan

/-!
# What is reported of symbols and what of tokens

Reports come from two sides. A reader reports a symbol that cannot stand in any source as soon as it
stands in front of it, in whatever token or gap that is; and a token reports what is wrong with it.
The two sides mix, as a reader moves over a token leg by leg, but they have no message in common. So
reports of one wording (`worded`) can be followed on their own.

For symbols there is an account (`Reader.due`): what a reader has reported on a way, and what it is
still due to report behind that, is what it was due to report before.

Main results:
* `Recognition.Kind.illegal_of_head` and `Recognition.Kind.string_of_head`: the faults of a token
  tell how it was recognized, since the ways share no wording but that of invalid digits.
* `Reader.consume_due`: each way keeps the account.
* `Scanner.worded_stream_due`: a whole run settles it, and so each symbol is reported once.
* `Scanner.worded_scan_own`: each scan reports the faults of its own token, and no others.
-/

namespace SheetFormula

open Text (Symbol bytesOf symbols)

/-! ## What the faults of a token tell -/

namespace Recognition

variable {s : Symbol} {rest : List Symbol} {found : Recognition}

/-- The faults of a number are not worded like those of symbols, of illegal characters or of
strings. -/
theorem heads_ne_of_mem_faults_number (n : Numeral) : ∀ fault ∈ n.recognition.faults,
    fault.2.head ≠ "illegal " ∧ fault.2.head ≠ "string " := by
  intro fault mem
  obtain ⟨leg, among, noted⟩ := List.mem_flatMap.mp mem
  exact n.heads_ne_of_mem_legs leg among fault noted

namespace Kind

/-- What is wrong with a token is no fault of a symbol; it is worded like one only if the token is a
character that is illegal. -/
theorem illegal_of_head (kind : Kind s rest found) : ∀ fault ∈ found.faults,
    fault.2.head = "illegal " →
      found = single s.toChar ∧ fault = (0, .illegalCharacter s.toChar) := by
  intro fault mem head
  cases kind with
  | word => simp at mem
  | number => exact absurd head (heads_ne_of_mem_faults_number _ fault mem).1
  | string =>
    rw [faults_string] at mem
    split at mem
    · cases mem
    · rw [List.mem_singleton.mp mem] at head
      exact absurd head (by decide)
  | mark => cases mem
  | illegal is =>
    rw [faults_single] at mem
    split at mem
    · exact ⟨rfl, List.mem_singleton.mp mem⟩
    · cases mem

/-- What is wrong with a token is that a string has no end only if it is such a string. -/
theorem string_of_head (kind : Kind s rest found) : ∀ fault ∈ found.faults,
    fault.2.head = "string " → s.toChar = '"' ∧ found = Quotation.recognize rest := by
  intro fault mem head
  cases kind with
  | word => simp at mem
  | number => exact absurd head (heads_ne_of_mem_faults_number _ fault mem).2
  | string quote => exact ⟨quote, rfl⟩
  | mark => cases mem
  | illegal is =>
    rw [faults_single] at mem
    split at mem
    · rw [List.mem_singleton.mp mem] at head
      have other : "illegal " ≠ "string " := by decide
      exact absurd head other
    · cases mem

end Kind

end Recognition

/-! ## Reports of one wording -/

/-- Those of several reports whose messages are of one wording. -/
def worded (wording : String → Bool) (reports : List Diagnostic) : List Diagnostic :=
  reports.filter fun d => wording d.message

section

variable (wording : String → Bool)

/-- Where nothing is reported, nothing of a wording is. -/
@[simp] theorem worded_nil : worded wording [] = [] := rfl

/-- A single report is of a wording or not. -/
theorem worded_singleton (d : Diagnostic) :
    worded wording [d] = if wording d.message then [d] else [] := by
  rw [worded, List.filter_singleton]
  cases wording d.message <;> rfl

/-- The reports of a wording are taken from each part on its own. -/
@[simp] theorem worded_append (before after : List Diagnostic) :
    worded wording (before ++ after) = worded wording before ++ worded wording after :=
  List.filter_append ..

variable {wording}

/-- Nothing of a wording is reported if no message is of that wording. -/
theorem worded_eq_nil_iff {reports : List Diagnostic} :
    worded wording reports = [] ↔ ∀ d ∈ reports, ¬ wording d.message :=
  List.filter_eq_nil_iff

end

/-! ## Symbols -/

/-- What is wrong with symbols, the first of which stands at an offset. -/
def symbolFaults (offset : Nat) : List Symbol → List Diagnostic
  | [] => []
  | s :: rest =>
    (s.fault?.toList.map fun fault => ⟨offset, fault.message⟩) ++
      symbolFaults (offset + s.width) rest

namespace Reader

variable {r : Reader}

/-- What a reader is still due to report of symbols: the faults of those behind the one in front. -/
def due (r : Reader) : List Diagnostic :=
  match r.rest with
  | [] => []
  | s :: rest => symbolFaults (r.offset + s.width) rest

/-- With nothing ahead nothing is due. -/
theorem due_of_nil (nothing : r.rest = []) : r.due = [] := by
  rw [due, nothing]

/-- The symbol in front has been reported, those behind it are due. -/
theorem symbolFaults_eq (r : Reader) : symbolFaults r.offset r.rest = r.faults ++ r.due := by
  rw [faults_eq, due]
  cases r.rest with
  | nil => rfl
  | cons s rest => rfl

/-- With one step, what is due of the next symbol is reported. -/
theorem advance_due (r : Reader) : r.advance.faults ++ r.advance.due = r.due := by
  cases front : r.rest with
  | nil =>
    rw [advance_of_nil front, ← symbolFaults_eq, front, due_of_nil front]
    rfl
  | cons s rest =>
    rw [← symbolFaults_eq, rest_advance, offset_advance front, due, front, List.tail_cons]

/-- **What is reported on a way and what is due behind it were due in front of it.** -/
theorem consume_due (r : Reader) (count : Nat) :
    (r.consume count).2 ++ (r.consume count).1.due = r.due := by
  induction count generalizing r with
  | zero => rfl
  | succ count ih =>
    rw [← r.advance_due, ← ih r.advance, ← List.append_assoc]
    rfl

variable {wording : String → Bool} {start : Nat} {legs : List Leg}

/-- On the way over a token the account of symbols is kept by all reports that are not worded like
faults of the token. -/
theorem worded_follow_due (r : Reader)
    (other : ∀ fault ∈ legs.flatMap Leg.faults, ¬ wording fault.2.message) :
    worded wording (r.follow start legs).2 ++ worded wording (r.follow start legs).1.due =
      worded wording r.due := by
  induction legs generalizing r with
  | nil => rfl
  | cons leg legs ih =>
    rw [List.flatMap_cons, List.forall_mem_append] at other
    have own : worded wording (leg.faults.map fun fault =>
        ⟨start + fault.1, fault.2.message⟩) = [] :=
      worded_eq_nil_iff.mpr (List.forall_mem_map.mpr other.1)
    simp only [follow, worded_append, own, List.nil_append, List.append_assoc]
    rw [ih _ other.2, ← worded_append, consume_due]

/-- What a reader reports of the symbol in front is of no wording that symbols do not have. -/
theorem worded_faults_eq_nil (r : Reader)
    (other : ∀ (s : Symbol) (fault : LexicalFault), s.fault? = some fault →
      ¬ wording fault.message) : worded wording r.faults = [] := by
  apply worded_eq_nil_iff.mpr
  rw [faults_eq, List.forall_mem_map]
  intro fault front
  obtain ⟨s, -, is⟩ := Option.bind_eq_some_iff.mp (Option.mem_toList.mp front)
  exact other s fault is

/-- On the way over symbols nothing is reported that is not worded like the fault of one. -/
theorem worded_consume_eq_nil (r : Reader) (count : Nat)
    (other : ∀ (s : Symbol) (fault : LexicalFault), s.fault? = some fault →
      ¬ wording fault.message) :
    worded wording (r.consume count).2 = [] := by
  induction count generalizing r with
  | zero => rfl
  | succ count ih =>
    simp only [consume, worded_append, worded_faults_eq_nil _ other, ih, List.append_nil]

/-- On the way over a token nothing else is reported than its faults, among what is not worded like
the fault of a symbol. -/
theorem worded_follow_own (r : Reader)
    (other : ∀ (s : Symbol) (fault : LexicalFault), s.fault? = some fault →
      ¬ wording fault.message) :
    worded wording (r.follow start legs).2 =
      worded wording ((legs.flatMap Leg.faults).map fun fault =>
        ⟨start + fault.1, fault.2.message⟩) := by
  induction legs generalizing r with
  | nil => rfl
  | cons leg legs ih =>
    simp only [follow, worded_append, worded_consume_eq_nil _ _ other, ih, List.nil_append,
      List.flatMap_cons, List.map_append]

end Reader

/-! ## Tokens -/

namespace Scanner

variable {source : List UInt8} {passed : List Symbol} {s : Scanner} {wording : String → Bool}

/-- What a scan reports of the token that it recognizes. -/
def ownReports (s : Scanner) : List Diagnostic :=
  match s.recognized? with
  | none => []
  | some found => found.faults.map fun fault => ⟨s.behindGap.offset + fault.1, fault.2.message⟩

/-- **Of its token a scan reports the faults, each once.** -/
theorem worded_scan_own (other : ∀ (t : Symbol) (fault : LexicalFault), t.fault? = some fault →
      ¬ wording fault.message) :
    worded wording s.scan.1.reports = worded wording s.ownReports := by
  rw [(scan_reports s).2, worded_append, Reader.worded_consume_eq_nil _ _ other, List.nil_append,
    ownReports]
  cases s.recognized? with
  | none => rfl
  | some found => exact Reader.worded_follow_own _ other

/-- A wording that no fault of a token has. -/
def Unowned (wording : String → Bool) : Prop :=
  ∀ {t : Symbol} {rest : List Symbol} {found : Recognition}, Recognition.Kind t rest found →
    ∀ fault ∈ found.faults, ¬ wording fault.2.message

/-- A scan keeps the account of symbols. -/
theorem worded_scan_due (unowned : Unowned wording) :
    worded wording s.scan.1.reports ++ worded wording s.scan.2.reader.due =
      worded wording s.reader.due := by
  have gap := s.reader.consume_due (Scanner.gap s.reader.rest).length
  rw [(scan_reports s).2]
  cases recognized : s.recognized? with
  | none =>
    rw [(scan_of_none recognized).2]
    dsimp only
    rw [List.append_nil, ← worded_append, behindGap, gap]
  | some found =>
    obtain ⟨t, rest, -, kind⟩ := kind_of_recognized recognized
    have token := @Reader.worded_follow_due _ s.behindGap.offset _ s.behindGap (unowned kind)
    rw [(scan_of_some recognized).2]
    dsimp only
    rw [worded_append, List.append_assoc, token, behindGap, ← worded_append, gap]

end Scanner

/-! ## Whole runs -/

/-- All that is reported of a source, in the order in which it is found. -/
def reported (source : List UInt8) : List Diagnostic :=
  Scanner.openingReports source ++ (Scanner.start source).stream.scans.flatMap Scanned.reports

namespace Scanner

variable {source : List UInt8} {passed : List Symbol} {s : Scanner} {wording : String → Bool}

/-- **A run settles the account of symbols**: each fault that is due is reported, once. -/
theorem worded_stream_due (unowned : Unowned wording) (stands : s.reader.Behind source passed) :
    worded wording (s.stream.scans.flatMap Scanned.reports) = worded wording s.reader.due := by
  induction size : s.reader.rest.length using Nat.strongRecOn generalizing s passed with
  | ind size ih =>
    rw [scans_stream stands, List.flatMap_cons, worded_append, ← worded_scan_due unowned]
    congr 1
    cases scan_lays stands with
    | ends last yields nothing =>
      rw [if_pos last, Reader.due_of_nil nothing]
      rfl
    | tile t taken more yields behind =>
      rw [if_neg more]
      exact ih _ (size ▸ rest_scan_lt more) behind rfl

/-- The scans of a stream, by their number. -/
theorem scan_after_eq (stands : s.reader.Behind source passed) {n : Nat} {scan : Scanned}
    (is : s.stream.scans[n]? = some scan) : (s.after n).scan.1 = scan := by
  induction n generalizing s passed with
  | zero =>
    rw [scans_stream stands, List.getElem?_cons_zero] at is
    exact Option.some.inj is
  | succ n ih =>
    obtain ⟨passed', behind⟩ := scan_stands stands
    rw [scans_stream stands, List.getElem?_cons_succ] at is
    split at is
    · cases is
    · exact ih behind is

/-- The lexemes of a source are those of its scans, by number. -/
theorem getElem?_lexemes (source : List UInt8) (n : Nat) :
    (lex source).lexemes[n]? = (start source).stream.scans[n]?.map Scanned.lexeme := by
  rw [← List.getElem?_map, ← TokenStream.lexemes_eq]
  rfl

/-- Each lexeme of a source comes from the scan of its number. -/
theorem getElem?_scans {n : Nat} {l : Lexeme} (is : (lex source).lexemes[n]? = some l) :
    (start source).stream.scans[n]? = some ((start source).after n).scan.1 := by
  rw [getElem?_lexemes, Option.map_eq_some_iff] at is
  obtain ⟨scan, there, -⟩ := is
  rw [scan_after_eq (Reader.behind_start source) there]
  exact there

end Scanner

end SheetFormula

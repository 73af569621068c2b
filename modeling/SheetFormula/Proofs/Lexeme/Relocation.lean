import Mathlib.Data.List.Forall2
import Mathlib.Tactic.Common
import SheetFormula.Proofs.Lexeme.Report

/-!
# Scanning what has moved

Where a text stands is all that changes when something is put in front of it, or when the gaps in it
get wider. A `Relocation` tells where each offset goes; `Scanned.Moved` and `TokenStream.Moved` say
that what is scanned is the same as elsewhere but for these places.

Main results:
* `Reader.InStep.consume` and `Reader.InStep.follow`: two readers in front of the same symbols move
  over them in step and come upon the same faults.
* `Scanner.scan_moved`: two scanners that stand behind their gaps in front of the same symbols, and
  recognize the same token there, yield the same lexeme with the same reports.
* `Scanner.stream_moved`: if that remains so from scan to scan, their streams are the same but for
  the places.
-/

namespace SheetFormula

open Text (Symbol bytesOf)

/-! ## Moving what has a place -/

section

variable (move : Nat → Nat)

/-- The position of the offset that the offset of `p` moves to. No position stays none. -/
def Pos.relocate (p : Pos) : Pos :=
  match p.offset? with
  | some offset => .ofOffset (move offset)
  | .none => .none

/-- A diagnostic at the offset that its own moves to. -/
def Diagnostic.relocate (d : Diagnostic) : Diagnostic := ⟨move d.offset, d.message⟩

/-- A lexeme at another place. -/
def Lexeme.relocate (l : Lexeme) : Lexeme := ⟨l.pos.relocate move, l.token, l.literal⟩

end

section

variable {move back : Nat → Nat}

/-- A position that is moved and moved back is where it was. -/
theorem Pos.relocate_relocate (undoes : ∀ offset, back (move offset) = offset) (p : Pos) :
    (p.relocate move).relocate back = p := by
  obtain ⟨index⟩ := p
  cases index with
  | zero => rfl
  | succ offset => exact congrArg ofOffset (undoes offset)

/-- What is moved and moved back is where it was. -/
theorem Lexeme.relocate_relocate (undoes : ∀ offset, back (move offset) = offset) (l : Lexeme) :
    (l.relocate move).relocate back = l := by
  simp only [relocate, Pos.relocate_relocate undoes]

end

/-- A way of moving offsets that keeps the order of those that it covers. -/
structure Relocation where
  move : Nat → Nat
  Covers : Nat → Prop
  le_iff : ∀ {m n : Nat}, Covers m → Covers n → (move m ≤ move n ↔ m ≤ n)

namespace Relocation

/-- All offsets so many bytes further on. -/
def shift (bytes : Nat) : Relocation where
  move := (· + bytes)
  Covers _ := True
  le_iff _ _ := Nat.add_le_add_iff_right

/-- Whether all reports concern offsets that are covered, and others are the same reports at the
offsets that these move to. -/
structure Moves (r : Relocation) (found moved : List Diagnostic) : Prop where
  covers : ∀ d ∈ found, r.Covers d.offset
  eq_map : moved = found.map (Diagnostic.relocate r.move)

namespace Moves

variable {r : Relocation} {found moved later later' : List Diagnostic}

/-- No reports are moved to no reports. -/
theorem nil : r.Moves [] [] := ⟨fun _ mem => absurd mem List.not_mem_nil, rfl⟩

/-- One more report in front is moved with the others. -/
theorem cons {offset : Nat} (covers : r.Covers offset) (message : String)
    (rest : r.Moves found moved) :
    r.Moves (⟨offset, message⟩ :: found) (⟨r.move offset, message⟩ :: moved) := by
  refine ⟨List.forall_mem_cons.mpr ⟨covers, rest.covers⟩, ?_⟩
  rw [rest.eq_map]
  rfl

/-- What is moved part by part is moved as a whole. -/
theorem append (first : r.Moves found moved) (second : r.Moves later later') :
    r.Moves (found ++ later) (moved ++ later') := by
  refine ⟨List.forall_mem_append.mpr ⟨first.covers, second.covers⟩, ?_⟩
  rw [first.eq_map, second.eq_map, List.map_append]

/-- Sorting moves with the reports, as their order is kept. -/
theorem sort (moves : r.Moves found moved) :
    r.Moves (Diagnostics.mk found).sort.items (Diagnostics.mk moved).sort.items := by
  rw [Diagnostics.sort, Diagnostics.sort, moves.eq_map]
  refine ⟨fun d mem => moves.covers d (List.mem_mergeSort.mp mem), ?_⟩
  symm
  apply List.map_mergeSort
  intro a mem b mem'
  exact decide_eq_decide.mpr (r.le_iff (moves.covers a mem) (moves.covers b mem')).symm

end Moves

end Relocation

variable {r : Relocation}

/-! ## Moved scans and streams -/

/-- Whether a scan yields what another one does, somewhere else. -/
structure Scanned.Moved (r : Relocation) (here there : Scanned) : Prop where
  lexeme_eq : there.lexeme = here.lexeme.relocate r.move
  stands : ∃ offset, here.pos = .ofOffset offset ∧ r.Covers offset
  newline_eq : there.newlineBefore = here.newlineBefore
  reports : r.Moves here.reports there.reports

namespace Scanned.Moved

variable {here there : Scanned}

/-- A lexeme keeps its kind when it is moved. -/
theorem token_eq (moved : here.Moved r there) : there.token = here.token := by
  rw [token, moved.lexeme_eq]
  rfl

/-- A lexeme moves to where its offset goes. -/
theorem pos_eq (moved : here.Moved r there) : there.pos = here.pos.relocate r.move := by
  rw [pos, moved.lexeme_eq]
  rfl

/-- A lexeme keeps its text when it is moved. -/
theorem literal_eq (moved : here.Moved r there) :
    there.lexeme.literal = here.lexeme.literal := by
  rw [moved.lexeme_eq]
  rfl

/-- What is found has the same name at every place. -/
theorem found_eq (moved : here.Moved r there) : there.found = here.found := by
  rw [found, found, moved.newline_eq, moved.token_eq, moved.literal_eq]

/-- The offset of a moved lexeme is the one that its offset moves to. -/
theorem offset (moved : here.Moved r there) :
    r.Covers here.pos.offset ∧ there.pos.offset = r.move here.pos.offset := by
  obtain ⟨offset, stands, covers⟩ := moved.stands
  rw [moved.pos_eq, stands]
  exact ⟨covers, rfl⟩

end Scanned.Moved

namespace TokenStream

variable {s s' : TokenStream}

/-- Whether the scans of a stream yield what those of another one do, somewhere else. -/
structure Moved (r : Relocation) (s s' : TokenStream) : Prop where
  tokens : List.Forall₂ (Scanned.Moved r) s.tokens s'.tokens
  finish : s.finish.scanned.Moved r s'.finish.scanned

/-- The scan in front of a moved stream is the one in front of the other, moved. -/
theorem Moved.lookahead (moved : s.Moved r s') : s.lookahead.Moved r s'.lookahead := by
  obtain ⟨tokens, finish⟩ := s
  obtain ⟨tokens', finish'⟩ := s'
  cases moved.tokens with
  | nil => exact moved.finish
  | cons first later => exact first

/-- Behind the lexeme in front a moved stream is still moved. -/
theorem Moved.advance (moved : s.Moved r s') : s.advance.Moved r s'.advance := by
  obtain ⟨tokens, finish⟩ := s
  obtain ⟨tokens', finish'⟩ := s'
  cases moved.tokens with
  | nil => exact ⟨.nil, moved.finish.lexeme_eq, moved.finish.stands, rfl, .nil⟩
  | cons first later => exact ⟨later, moved.finish⟩

/-- A moved stream has the lexemes of the other one, moved. -/
theorem Moved.lexemes_eq (moved : s.Moved r s') :
    s'.lexemes = s.lexemes.map (Lexeme.relocate r.move) := by
  have row : ∀ {tokens tokens' : List Scanned}, List.Forall₂ (Scanned.Moved r) tokens tokens' →
      tokens'.map Scanned.lexeme =
        (tokens.map Scanned.lexeme).map (Lexeme.relocate r.move) := by
    intro tokens tokens' all
    induction all with
    | nil => rfl
    | cons first later ih => simp only [List.map_cons, first.lexeme_eq, ih]
  rw [lexemes, lexemes, row moved.tokens, moved.finish.lexeme_eq, List.map_append]
  rfl

/-- A moved stream reports what the other one does, moved. -/
theorem Moved.reports (moved : s.Moved r s') :
    r.Moves (s.scans.flatMap Scanned.reports) (s'.scans.flatMap Scanned.reports) := by
  have all : List.Forall₂ (Scanned.Moved r) s.scans s'.scans :=
    List.rel_append moved.tokens (.cons moved.finish .nil)
  generalize s.scans = row, s'.scans = row' at all
  induction all with
  | nil => exact .nil
  | cons first later ih =>
    rw [List.flatMap_cons, List.flatMap_cons]
    exact first.reports.append ih

end TokenStream

/-! ## Readers in step -/

/-- The fault of a symbol that cannot stand in any source. -/
def Text.Symbol.fault? : Symbol → Option LexicalFault
  | .character c => if c = '\x00' then some .nul else none
  | .stray _ => some .malformedBytes

/-- Only NUL and stray bytes are faults by themselves. -/
theorem Text.Symbol.eq_of_fault? {s : Symbol} {fault : LexicalFault} (is : s.fault? = some fault) :
    fault = .nul ∨ fault = .malformedBytes := by
  cases s with
  | character c =>
    obtain ⟨-, nul⟩ := Option.ite_none_right_eq_some.mp is
    exact .inl (Option.some.inj nul).symm
  | stray b => exact .inr (Option.some.inj is).symm

/-- The fault of the first symbol of several, if it has one. -/
def frontFault? (rest : List Symbol) : Option LexicalFault := rest.head?.bind Symbol.fault?

namespace Reader

/-- A reader reports the fault of the symbol in front, where it stands. -/
theorem faults_eq (a : Reader) :
    a.faults = (frontFault? a.rest).toList.map fun fault => ⟨a.offset, fault.message⟩ := by
  unfold faults frontFault?
  split
  · next front => rw [front]; rfl
  · next front => rw [front]; rfl
  · next other malformed =>
    cases front : a.rest with
    | nil => rfl
    | cons s rest =>
      cases s with
      | stray b => exact absurd front (malformed b rest)
      | character c =>
        have plain : c ≠ '\x00' := by
          rintro rfl
          exact other rest front
        simp [Symbol.fault?, plain]

/-- Moving over a symbol, a reader gets as far as that is wide. -/
theorem offset_advance {a : Reader} {s : Symbol} {rest : List Symbol} (front : a.rest = s :: rest) :
    a.advance.offset = a.offset + s.width := by
  rw [advance, front]
  dsimp only
  split <;> rfl

/-- Two readers in front of the same symbols `taken`, all of which a relocation moves from where the
one has them to where the other one does. Behind these symbols stands what need not be the same. -/
structure InStep (r : Relocation) (taken more more' : List Symbol) (a b : Reader) : Prop where
  ahead : a.rest = taken ++ more
  ahead' : b.rest = taken ++ more'
  along : ∀ d ≤ (bytesOf taken).length,
    r.Covers (a.offset + d) ∧ r.move (a.offset + d) = b.offset + d

namespace InStep

variable {taken more more' : List Symbol} {a b : Reader}

/-- The offset of a reader is covered, and goes to that of the reader in step with it. -/
theorem covers (step : InStep r taken more more' a b) :
    r.Covers a.offset ∧ r.move a.offset = b.offset :=
  step.along 0 (Nat.zero_le _)

/-- Readers in step see the same fault in front, at least as long as the same symbols are ahead. -/
theorem faults (step : InStep r taken more more' a b)
    (same : frontFault? more = frontFault? more') : r.Moves a.faults b.faults := by
  have front : frontFault? a.rest = frontFault? b.rest := by
    rw [step.ahead, step.ahead']
    cases taken with
    | nil => exact same
    | cons s taken => rfl
  rw [faults_eq, faults_eq, ← front]
  cases frontFault? a.rest with
  | none => exact .nil
  | some fault =>
    have moved := Relocation.Moves.cons step.covers.1 fault.message .nil
    rwa [step.covers.2] at moved

/-- Over one symbol both readers stay in step. -/
theorem advance {s : Symbol} (step : InStep r (s :: taken) more more' a b) :
    InStep r taken more more' a.advance b.advance := by
  refine ⟨?_, ?_, ?_⟩
  · rw [rest_advance, step.ahead]
    rfl
  · rw [rest_advance, step.ahead']
    rfl
  · intro d inside
    rw [offset_advance step.ahead, offset_advance step.ahead', Nat.add_assoc, Nat.add_assoc]
    apply step.along
    rw [Text.bytesOf_cons, List.length_append, s.length_bytes]
    exact Nat.add_le_add_left inside _

/-- **Readers in step stay in step**, and report the same on their way. -/
theorem consume (same : frontFault? more = frontFault? more') {count : Nat}
    (step : InStep r taken more more' a b) (enough : count ≤ taken.length) :
    InStep r (taken.drop count) more more' (a.consume count).1 (b.consume count).1 ∧
      r.Moves (a.consume count).2 (b.consume count).2 := by
  induction count generalizing a b taken with
  | zero => exact ⟨step, .nil⟩
  | succ count ih =>
    cases taken with
    | nil => exact absurd enough (Nat.not_succ_le_zero count)
    | cons s taken =>
      have next := step.advance
      obtain ⟨behind, later⟩ := ih next (Nat.le_of_succ_le_succ enough)
      exact ⟨behind, (next.faults same).append later⟩

/-- Readers in step stay in step along the legs of a token. -/
theorem follow (same : frontFault? more = frontFault? more') {start start' : Nat} {legs : List Leg}
    (step : InStep r taken more more' a b) (enough : Leg.total legs ≤ taken.length)
    (inside : ∀ leg ∈ legs, ∀ fault ∈ leg.faults,
      r.Covers (start + fault.1) ∧ r.move (start + fault.1) = start' + fault.1) :
    InStep r (taken.drop (Leg.total legs)) more more' (a.follow start legs).1
        (b.follow start' legs).1 ∧
      r.Moves (a.follow start legs).2 (b.follow start' legs).2 := by
  induction legs generalizing a b taken with
  | nil => exact ⟨step, .nil⟩
  | cons leg legs ih =>
    simp only [Leg.total] at enough ⊢
    obtain ⟨here, later⟩ := List.forall_mem_cons.mp inside
    obtain ⟨next, onTheWay⟩ := step.consume same (show leg.count ≤ taken.length by omega)
    obtain ⟨behind, following⟩ := ih next (by rw [List.length_drop]; omega) later
    have own : r.Moves
        (leg.faults.map fun fault => ⟨start + fault.1, fault.2.message⟩)
        (leg.faults.map fun fault => ⟨start' + fault.1, fault.2.message⟩) := by
      generalize leg.faults = faults at here
      induction faults with
      | nil => exact .nil
      | cons fault faults ih =>
        obtain ⟨⟨covers, moves⟩, others⟩ := List.forall_mem_cons.mp here
        have first := Relocation.Moves.cons covers fault.2.message (ih others)
        rwa [moves] at first
    rw [List.drop_drop] at behind
    exact ⟨behind, (onTheWay.append own).append following⟩

end InStep

/-! ## Stretches without a fault -/

/-- On the way over symbols that have no fault, nothing is reported but the fault of the symbol
behind them. -/
theorem reports_consume {count : Nat} (a : Reader)
    (harmless : ∀ s ∈ a.rest.take count, s.fault? = none) :
    (a.consume count).2 = if count = 0 then [] else (a.consume count).1.faults := by
  induction count generalizing a with
  | zero => rfl
  | succ count ih =>
    have tail : ∀ s ∈ a.advance.rest.take count, s.fault? = none := by
      intro s mem
      apply harmless s
      rw [rest_advance] at mem
      cases ahead : a.rest with
      | nil => rw [ahead] at mem; simp at mem
      | cons t rest => rw [ahead] at mem; exact List.mem_cons_of_mem t mem
    simp only [Reader.consume, ih a.advance tail, Nat.succ_ne_zero, if_false]
    cases count with
    | zero => simp [Reader.consume]
    | succ count =>
      have next : frontFault? a.advance.rest = none := by
        cases ahead : a.advance.rest with
        | nil => rfl
        | cons s rest => exact tail s (by rw [ahead]; exact List.mem_cons_self)
      rw [faults_eq a.advance, next]
      simp

/-- Nothing is wrong with a blank. -/
theorem fault?_of_blank {s : Symbol} (blank : Text.isBlank s.toChar) : s.fault? = none := by
  cases s with
  | stray b => exact absurd blank (by decide : ¬ Text.isBlank Text.replacement)
  | character c =>
    have plain : c ≠ '\x00' := by
      rintro rfl
      exact absurd blank (by decide)
    simp [Symbol.fault?, plain]

/-- On the way over a gap nothing is reported but the fault of the symbol behind it. -/
theorem reports_consume_gap (a : Reader) :
    (a.consume (Scanner.gap a.rest).length).2 =
      if Scanner.gap a.rest = [] then []
      else (a.consume (Scanner.gap a.rest).length).1.faults := by
  have harmless : ∀ s ∈ a.rest.take (Scanner.gap a.rest).length, s.fault? = none := by
    rw [take_length_gap]
    exact fun s mem => fault?_of_blank (blank_of_mem_gap mem)
  rw [reports_consume a harmless]
  simp only [List.length_eq_zero_iff]

end Reader

/-! ## One scan -/

namespace Scanner

variable {a b : Scanner} {taken more more' : List Symbol}

/-- What a scan yields beside its lexeme. -/
theorem scan_reports (s : Scanner) : s.scan.1.newlineBefore = hasBreak (gap s.reader.rest) ∧
    s.scan.1.reports = (s.reader.consume (gap s.reader.rest).length).2 ++
      match s.recognized? with
      | none => []
      | some found => (s.behindGap.follow s.behindGap.offset found.legs).2 := by
  simp only [scan]
  split
  · next other =>
    rw [show s.recognized? = none from other]
    exact ⟨rfl, (List.append_nil _).symm⟩
  · next found same =>
    rw [show s.recognized? = some found from same]
    exact ⟨rfl, rfl⟩

/-- Whether a scanner stands where another one does in another source: both have gaps of the same
sort in front of them, and recognize the same in the same symbols behind these. -/
structure InStep (r : Relocation) (taken more more' : List Symbol) (a b : Scanner) : Prop where
  gap_iff : gap b.reader.rest = [] ↔ gap a.reader.rest = []
  break_eq : hasBreak (gap b.reader.rest) = hasBreak (gap a.reader.rest)
  recognized_eq : b.recognized? = a.recognized?
  count_eq : ∀ found, a.recognized? = some found → found.count = taken.length
  fault_eq : frontFault? more = frontFault? more'
  readers : Reader.InStep r taken more more' a.behindGap b.behindGap

/-- **Scanners in step yield the same**, and their readers are in step behind that. -/
theorem scan_moved (step : InStep r taken more more' a b) :
    a.scan.1.Moved r b.scan.1 ∧
      (a.scan.1.token ≠ .endOfFormula →
        Reader.InStep r [] more more' a.scan.2.reader b.scan.2.reader) := by
  obtain ⟨newline, reports⟩ := a.scan_reports
  obtain ⟨newline', reports'⟩ := b.scan_reports
  have broken : b.scan.1.newlineBefore = a.scan.1.newlineBefore := by
    rw [newline, newline', step.break_eq]
  have gaps : r.Moves (a.reader.consume (gap a.reader.rest).length).2
      (b.reader.consume (gap b.reader.rest).length).2 := by
    rw [Reader.reports_consume_gap, Reader.reports_consume_gap]
    simp only [step.gap_iff]
    split
    · exact .nil
    · exact step.readers.faults step.fault_eq
  obtain ⟨covers, moves⟩ := step.readers.covers
  rw [step.recognized_eq] at reports'
  cases found? : a.recognized? with
  | none =>
    obtain ⟨yields, leaves⟩ := scan_of_none found?
    obtain ⟨yields', leaves'⟩ := scan_of_none (step.recognized_eq.trans found?)
    rw [found?] at reports reports'
    refine ⟨⟨?_, ⟨_, a.pos_scan, covers⟩, broken, ?_⟩, ?_⟩
    · rw [yields, yields', ← moves]
      rfl
    · rw [reports, reports']
      exact gaps.append .nil
    · intro more
      rw [Scanned.token, yields] at more
      exact absurd rfl more
  | some found =>
    obtain ⟨yields, leaves⟩ := scan_of_some found?
    obtain ⟨yields', leaves'⟩ := scan_of_some (step.recognized_eq.trans found?)
    have count := step.count_eq found found?
    -- A fault may be noted where the lexeme ends, so `step.readers` covers that offset too.
    have inside : ∀ leg ∈ found.legs, ∀ fault ∈ leg.faults,
        r.Covers (a.behindGap.offset + fault.1) ∧
          r.move (a.behindGap.offset + fault.1) = b.behindGap.offset + fault.1 := by
      intro leg mem fault fault_mem
      apply step.readers.along
      have bound := Recognition.fault_le found? leg mem fault fault_mem
      have bytes := Text.length_le_length_bytesOf taken
      omega
    obtain ⟨behind, inToken⟩ := step.readers.follow step.fault_eq (Nat.le_of_eq count) inside
    rw [found?] at reports reports'
    refine ⟨⟨?_, ⟨_, a.pos_scan, covers⟩, broken, ?_⟩, ?_⟩
    · rw [yields, yields', ← moves, step.readers.ahead, step.readers.ahead', count,
        List.take_left, List.take_left]
      rfl
    · rw [reports, reports']
      exact gaps.append inToken
    · intro _
      rw [leaves, leaves']
      rwa [show taken.drop (Leg.total found.legs) = [] from
        List.drop_of_length_le (Nat.le_of_eq count.symm)] at behind

/-! ## A whole run -/

/-- **Scanners that yield the same from scan to scan have the same stream**, at other places. -/
theorem stream_moved {follows : Scanner → Scanner → Prop}
    (step : ∀ a b, follows a b → a.scan.1.Moved r b.scan.1 ∧
      (a.scan.1.token ≠ .endOfFormula → follows a.scan.2 b.scan.2))
    (h : follows a b) : a.stream.Moved r b.stream := by
  induction size : a.reader.rest.length using Nat.strongRecOn generalizing a b with
  | ind size ih =>
    obtain ⟨moved, further⟩ := step a b h
    by_cases last : a.scan.1.token = .endOfFormula
    · have last' := moved.token_eq.trans last
      rw [stream_of_eq last, stream_of_eq last']
      refine ⟨.nil, ?_, moved.stands, moved.newline_eq, moved.reports⟩
      simp only [StreamEnd.scanned, moved.pos_eq]
      rfl
    · have more' : b.scan.1.token ≠ .endOfFormula := by
        rw [moved.token_eq]
        exact last
      obtain ⟨tokens, finish⟩ := ih _ (size ▸ rest_scan_lt last) (further last) rfl
      rw [stream_of_ne last, stream_of_ne more']
      exact ⟨.cons moved tokens, finish⟩

end Scanner

end SheetFormula

import Mathlib.Tactic.Common
import SheetFormula.Proofs.Lexeme.Faults
import SheetFormula.Proofs.Lexeme.Order

/-!
# What string literals stand for

Behind the quote that opens it, a string literal has some text in which each quote is doubled. It is
closed by a quote that is not doubled, or else broken off by the end of its line or of the source.
`Quotation.Reads` says so of bytes.

Main results:
* `Quotation.Reads.unique`: a run of quotes is read from its front, in pairs, and so there is one
  way only in which bytes can be read.
* `Quotation.extent_reads`: strings are scanned as they are read so.
* `Scanner.scan_string` and `Scanner.string_reads`: what is read behind a quote is scanned as one
  string, and what is scanned as a string is read as one.
* `strings_quote_texts`: the encodings of texts are scanned as strings, and strings are the
  encodings of texts, or broken off and reported for that.
-/

namespace SheetFormula

open Text (Symbol bytesOf symbols)

namespace Quotation

/-! ## Quoting -/

/-- The byte of a double quote. -/
def quoteMark : UInt8 := 0x22

/-- A text with each quote in it doubled. -/
def doubled (text : List UInt8) : List UInt8 :=
  text.flatMap fun b => if b = quoteMark then [quoteMark, quoteMark] else [b]

/-- Nothing has no quotes to double. -/
@[simp] theorem doubled_nil : doubled [] = [] := rfl

/-- The quotes of a text are doubled part by part. -/
theorem doubled_append (text more : List UInt8) :
    doubled (text ++ more) = doubled text ++ doubled more :=
  List.flatMap_append

/-- The first byte stays in front, with another quote behind it if it is one. -/
theorem doubled_cons (b : UInt8) (text : List UInt8) : doubled (b :: text) =
    b :: ((if b = quoteMark then [quoteMark] else []) ++ doubled text) := by
  rw [doubled, List.flatMap_cons]
  split
  · next is => rw [is]; rfl
  · rfl

/-- A byte in front that is no quote stays as it is. -/
theorem doubled_other {b : UInt8} (other : b ≠ quoteMark) (text : List UInt8) :
    doubled (b :: text) = b :: doubled text := by
  rw [doubled_cons, if_neg other, List.nil_append]

/-- A text without quotes has none to double. -/
theorem doubled_of_not_mem {text : List UInt8} (none : quoteMark ∉ text) :
    doubled text = text := by
  induction text with
  | nil => rfl
  | cons b text ih =>
    obtain ⟨first, later⟩ := not_or.mp (mt List.mem_cons.mpr none)
    rw [doubled_other (Ne.symm first), ih later]

/-! ## Reading what is quoted -/

/-- The quote that closes a string, if one does. -/
def closing : (closed : Bool) → List UInt8
  | true => [quoteMark]
  | false => []

/-- Whether a string may end in front of these bytes: if it is closed they do not begin with another
quote, and if it is not the line or the source ends there. -/
def EndsAt (after : List UInt8) : (closed : Bool) → Prop
  | true => after.head? ≠ some quoteMark
  | false => ∀ b ∈ after.head?, b = lineFeed

/-- Whether a string that has these bytes behind the quote that opens it reads as a text, each quote
in it doubled, that is closed or else broken off in front of the bytes `after`. -/
structure Reads (body text : List UInt8) (closed : Bool) (after : List UInt8) : Prop where
  body_eq : body = doubled text ++ (closing closed ++ after)
  unbroken : lineFeed ∉ text
  ends : EndsAt after closed

/-- What ends a text does not go on with it. -/
theorem EndsAt.ne_doubled {after : List UInt8} {closed : Bool} (ends : EndsAt after closed)
    {b : UInt8} (other : b ≠ lineFeed) (text more : List UInt8) :
    closing closed ++ after ≠ doubled (b :: text) ++ more := by
  intro same
  rw [doubled_cons, List.cons_append] at same
  cases closed with
  | true =>
    obtain ⟨rfl, behind⟩ := List.cons.inj same
    rw [if_pos rfl] at behind
    apply ends
    rw [show after = _ from behind]
    rfl
  | false =>
    apply other
    apply ends b
    rw [show after = _ from same]
    rfl

/-- The bytes behind a text tell whether a quote closes it. -/
theorem EndsAt.closed_eq {after after' : List UInt8} {closed closed' : Bool}
    (ends : EndsAt after closed) (ends' : EndsAt after' closed')
    (same : closing closed ++ after = closing closed' ++ after') :
    closed = closed' ∧ after = after' := by
  have alone : ∀ {after after' : List UInt8}, EndsAt after' false →
      quoteMark :: after ≠ after' := by
    rintro after _ line rfl
    exact absurd (line quoteMark rfl) (by decide)
  cases closed with
  | true =>
    cases closed' with
    | true => exact ⟨rfl, (List.cons.inj same).2⟩
    | false => exact absurd same (alone ends')
  | false =>
    cases closed' with
    | true => exact absurd same.symm (alone ends)
    | false => exact ⟨rfl, same⟩

/-- **A string is read in one way only.** -/
theorem Reads.unique {body text text' after after' : List UInt8} {closed closed' : Bool}
    (reads : Reads body text closed after) (reads' : Reads body text' closed' after') :
    text = text' ∧ closed = closed' ∧ after = after' := by
  obtain ⟨rfl, unbroken, ends⟩ := reads
  obtain ⟨same, unbroken', ends'⟩ := reads'
  induction text generalizing text' with
  | nil =>
    cases text' with
    | nil => exact ⟨rfl, ends.closed_eq ends' same⟩
    | cons c text' =>
      have other : c ≠ lineFeed := fun is => unbroken' (is ▸ List.mem_cons_self)
      exact absurd same (ends.ne_doubled other text' _)
  | cons b text ih =>
    cases text' with
    | nil =>
      have other : b ≠ lineFeed := fun is => unbroken (is ▸ List.mem_cons_self)
      exact absurd same.symm (ends'.ne_doubled other text _)
    | cons c text' =>
      have later : lineFeed ∉ text := fun mem => unbroken (List.mem_cons_of_mem b mem)
      have later' : lineFeed ∉ text' := fun mem => unbroken' (List.mem_cons_of_mem c mem)
      rw [doubled_cons, doubled_cons, List.cons_append, List.cons_append] at same
      obtain ⟨rfl, behind⟩ := List.cons.inj same
      rw [List.append_assoc, List.append_assoc, List.append_cancel_left_eq] at behind
      obtain ⟨rfl, ends_eq⟩ := ih later behind later'
      exact ⟨rfl, ends_eq⟩

/-- More text in front is read with the text behind it. -/
theorem Reads.behind {body text after : List UInt8} {closed : Bool}
    (reads : Reads body text closed after) {front : List UInt8} (unbroken : lineFeed ∉ front) :
    Reads (doubled front ++ body) (front ++ text) closed after where
  body_eq := by rw [reads.body_eq, doubled_append, List.append_assoc]
  unbroken := fun mem => (List.mem_append.mp mem).elim unbroken reads.unbroken
  ends := reads.ends

/-! ## Strings are scanned as they are read -/

variable {s : Symbol} {rest : List Symbol}

/-- A quote is one byte. -/
theorem bytes_of_quote (quote : s.toChar = '"') : s.bytes = [quoteMark] := by
  rw [s.bytes_of_toChar (by rw [quote]; decide), quote]
  rfl

/-- No other symbol has the byte of a quote in it. -/
theorem quoteMark_not_mem_bytes (genuine : s.Genuine) (other : s.toChar ≠ '"') :
    quoteMark ∉ s.bytes := by
  intro mem
  rw [s.eq_character_of_mem_bytes genuine mem (by decide)] at other
  exact other rfl

/-- **The extent of a string is what is read behind its opening quote**, up to the bytes behind the
extent. -/
theorem extent_reads (genuine : ∀ t ∈ rest, t.Genuine) : ∃ text,
    Reads (bytesOf rest) text (extent rest).closed (bytesOf (rest.drop (extent rest).count)) := by
  -- One case for each way the loop goes on: at the end, at a line break, at a quote that is last,
  -- doubled or followed by something else, and at any other symbol.
  fun_induction extent rest with
  | case1 => exact ⟨[], rfl, List.not_mem_nil, by simp [EndsAt]⟩
  | case2 s rest line =>
    refine ⟨[], rfl, List.not_mem_nil, ?_⟩
    rw [List.drop_zero, Text.bytesOf_cons, s.bytes_of_newline line]
    simp [EndsAt]
  | case3 s line quote =>
    refine ⟨[], ?_, List.not_mem_nil, by simp [EndsAt]⟩
    rw [Text.bytesOf_cons, bytes_of_quote quote]
    rfl
  | case4 s line quote t rest again ih =>
    obtain ⟨-, later⟩ := List.forall_mem_cons.mp genuine
    obtain ⟨text, reads⟩ := ih (List.forall_mem_cons.mp later).2
    have front : bytesOf (s :: t :: rest) = doubled [quoteMark] ++ bytesOf rest := by
      rw [Text.bytesOf_cons, Text.bytesOf_cons, bytes_of_quote quote, bytes_of_quote again]
      rfl
    have unbroken : lineFeed ∉ [quoteMark] := by decide
    rw [front]
    exact ⟨_, reads.behind unbroken⟩
  | case5 s line quote t rest other =>
    obtain ⟨-, later⟩ := List.forall_mem_cons.mp genuine
    refine ⟨[], ?_, List.not_mem_nil, ?_⟩
    · rw [Text.bytesOf_cons, bytes_of_quote quote]
      rfl
    · intro head
      rw [List.drop_succ_cons, List.drop_zero, Text.bytesOf_cons,
        List.head?_append_of_ne_nil _ t.bytes_ne_nil] at head
      have genuine' := (List.forall_mem_cons.mp later).1
      exact quoteMark_not_mem_bytes genuine' other (List.mem_of_mem_head? head)
  | case6 s rest line quote ih =>
    obtain ⟨here, later⟩ := List.forall_mem_cons.mp genuine
    obtain ⟨text, reads⟩ := ih later
    have unbroken := s.lineFeed_not_mem_bytes here line
    have front := reads.behind unbroken
    rw [doubled_of_not_mem (quoteMark_not_mem_bytes here quote)] at front
    rw [Text.bytesOf_cons]
    exact ⟨_, front⟩

end Quotation

/-! ## Scans of strings -/

/-- The message about strings that are broken off. -/
def unterminated : String := "string literal not terminated"

/-- No fault of a symbol is worded like a string without its end. -/
theorem not_unterminated_of_fault? (t : Symbol) (fault : LexicalFault)
    (is : t.fault? = some fault) : ¬ fault.message == unterminated := by
  rcases t.eq_of_fault? is with rfl | rfl
  all_goals decide

namespace Scanner

variable {source : List UInt8} {passed : List Symbol} {s : Scanner}

/-- Whether a scan yields a string with this text, quotes and all, from an offset on, and leaves its
reader in front of the bytes `after`. -/
structure TakesString (s : Scanner) (offset : Nat) (text after : List UInt8) : Prop where
  lexeme_eq : s.scan.1.lexeme = ⟨.ofOffset offset, .string, Text.lossyString text⟩
  offset_eq : s.scan.2.reader.offset = offset + text.length
  rest_eq : s.scan.2.reader.rest = symbols after

open Quotation in
/-- **A scan in front of a quote takes the string that is read behind it**, and reports it exactly
if it is broken off. -/
theorem takes_string (stands : s.reader.Behind source passed) {t : Symbol} {rest : List Symbol}
    (ahead : s.behindGap.rest = t :: rest) (quote : t.toChar = '"')
    (found : s.recognized? = some (recognize rest)) :
    ∃ text closed after, Reads (bytesOf rest) text closed after ∧
      s.TakesString s.behindGap.offset (quoteMark :: doubled text ++ closing closed) after ∧
      worded (· == unterminated) s.scan.1.reports =
        if closed then [] else [⟨s.behindGap.offset, unterminated⟩] := by
  have here := behindGap_stands stands
  obtain ⟨yields, leaves⟩ := scan_of_some found
  have behind := here.follow s.behindGap.offset (recognize rest).legs
  rw [← leaves] at behind
  have genuine : ∀ u ∈ rest, u.Genuine :=
    fun u mem => here.genuine (ahead ▸ List.mem_cons_of_mem t mem)
  obtain ⟨text, reads⟩ := extent_reads genuine
  have total : Leg.total (recognize rest).legs = (extent rest).count + 1 := by
    simp [recognize, Leg.total]
  have later : s.scan.2.reader.rest = rest.drop (extent rest).count := by
    rw [leaves, Reader.rest_follow, total, ahead, List.drop_succ_cons]
  have inside : bytesOf (rest.take (extent rest).count) =
      doubled text ++ closing (extent rest).closed := by
    have whole := congrArg bytesOf (List.take_append_drop (extent rest).count rest)
    rw [Text.bytesOf_append, reads.body_eq, ← List.append_assoc] at whole
    exact List.append_cancel_right whole
  have taken : bytesOf (s.behindGap.rest.take (Leg.total (recognize rest).legs)) =
      quoteMark :: doubled text ++ closing (extent rest).closed := by
    rw [total, ahead, List.take_succ_cons, Text.bytesOf_cons, bytes_of_quote quote, inside]
    rfl
  refine ⟨text, (extent rest).closed, _, reads, ⟨?_, ?_, ?_⟩, ?_⟩
  · rw [yields, ← taken]
    rfl
  · rw [behind.offset_eq, Text.bytesOf_append, List.length_append, taken, here.offset_eq]
  · rw [← later, behind.symbols_ahead]
  · rw [worded_scan_own not_unterminated_of_fault?, ownReports, found]
    dsimp only
    rw [Recognition.faults_string]
    split
    · rfl
    · rfl

/-- Strings are recognized where a quote is in front. -/
theorem recognized_of_quote {t : Symbol} {rest : List Symbol} (ahead : s.behindGap.rest = t :: rest)
    (quote : t.toChar = '"') : s.recognized? = some (Quotation.recognize rest) := by
  have noNumber : ¬ Recognition.startsNumber '"' rest := by simp [Recognition.startsNumber]
  simp only [recognized?, ahead, Recognition.ofSymbols, quote]
  rw [if_neg (by decide), if_neg noNumber, if_neg (by decide), if_pos trivial]

/-- Where a scan yields a string, a quote is in front. -/
theorem quote_of_string (string : s.scan.1.token = .string) :
    ∃ t rest, s.behindGap.rest = t :: rest ∧ t.toChar = '"' := by
  cases recognized : s.recognized? with
  | none =>
    rw [Scanned.token, (scan_of_none recognized).1] at string
    cases string
  | some found =>
    rw [Scanned.token, (scan_of_some recognized).1] at string
    obtain ⟨t, rest, ahead, kind⟩ := kind_of_recognized recognized
    exact ⟨t, rest, ahead, (kind.eq_string string).1⟩

/-- A string that is broken off is reported where it starts. -/
theorem pos_of_unterminated {d : Diagnostic}
    (mem : d ∈ worded (· == unterminated) s.scan.1.reports) :
    s.scan.1.pos = .ofOffset d.offset := by
  rw [worded_scan_own not_unterminated_of_fault?, ownReports] at mem
  cases recognized : s.recognized? with
  | none =>
    rw [recognized] at mem
    cases mem
  | some found =>
    obtain ⟨yields, -⟩ := scan_of_some recognized
    obtain ⟨t, rest, -, kind⟩ := kind_of_recognized recognized
    rw [recognized] at mem
    obtain ⟨among, message⟩ := List.mem_filter.mp mem
    obtain ⟨fault, own, rfl⟩ := List.mem_map.mp among
    have head := LexicalFault.head_eq_of_message_eq
      (a := fault.2) (b := .unterminatedString) (eq_of_beq message)
    obtain ⟨-, rfl⟩ := kind.string_of_head fault own head
    rw [Recognition.faults_string] at own
    split at own
    · cases own
    · rw [Scanned.pos, yields, List.mem_singleton.mp own]
      rfl

/-- What only one of several rows holds, all of them together hold as often. -/
theorem count_flatMap_of_only {α β : Type} [DecidableEq β] {f : α → List β} {b : β} {l : List α}
    {n : Nat} {a : α} (is : l[n]? = some a)
    (only : ∀ m a', l[m]? = some a' → b ∈ f a' → m = n) :
    (l.flatMap f).count b = (f a).count b := by
  induction l generalizing n with
  | nil => cases is
  | cons first l ih =>
    rw [List.flatMap_cons, List.count_append]
    cases n with
    | zero =>
      obtain rfl := Option.some.inj is
      have later : (l.flatMap f).count b = 0 := by
        rw [List.count_eq_zero, List.mem_flatMap]
        rintro ⟨a', mem, holds⟩
        obtain ⟨m, there⟩ := List.mem_iff_getElem?.mp mem
        exact absurd (only (m + 1) a' there holds) (Nat.succ_ne_zero m)
      rw [later, Nat.add_zero]
    | succ n =>
      have here : (f first).count b = 0 := by
        rw [List.count_eq_zero]
        exact fun holds => absurd (only 0 first rfl holds) (Nat.succ_ne_zero n).symm
      rw [here, Nat.zero_add]
      exact ih is fun m a' there holds => Nat.succ.inj (only (m + 1) a' there holds)

/-- **A string that is broken off is reported by its own scan only**: at the offset of a lexeme such
reports are found as often as the scan of this lexeme makes them. -/
theorem count_unterminated {source : List UInt8} {n : Nat} {l : Lexeme}
    (is : (lex source).lexemes[n]? = some l) :
    (lex source).diagnostics.items.count ⟨l.pos.offset, unterminated⟩ =
      (worded (· == unterminated) ((start source).after n).scan.1.reports).count
        ⟨l.pos.offset, unterminated⟩ := by
  have positions : ((lex source).lexemes.map Lexeme.pos).Nodup :=
    (TokenStream.orderly_ofSource source).nodup_pos
  have scanned := lexeme_scan_after is
  have stands : l.pos = .ofOffset l.pos.offset := by
    rw [← scanned, ← Scanned.pos, pos_scan]
    rfl
  have kept : ∀ reports : List Diagnostic, (worded (· == unterminated) reports).count
      ⟨l.pos.offset, unterminated⟩ = reports.count ⟨l.pos.offset, unterminated⟩ :=
    fun reports => List.count_filter (by simp)
  have opening : worded (· == unterminated) (openingReports source) = [] :=
    Reader.worded_faults_eq_nil _ not_unterminated_of_fault?
  have unsorted := ((Diagnostics.mk (reported source)).sort_items_perm).count_eq
    ⟨l.pos.offset, unterminated⟩
  rw [kept, show (lex source).diagnostics.items.count _ = _ from unsorted, ← kept, reported,
    worded_append, opening, List.nil_append, kept]
  apply count_flatMap_of_only (getElem?_scans is)
  intro m other there reports
  have same := scan_after_eq (Reader.behind_start source) there
  rw [← same] at reports
  have pos := pos_of_unterminated (List.mem_filter.mpr ⟨reports, by simp⟩)
  have lexeme : (lex source).lexemes[m]? = some ((start source).after m).scan.1.lexeme := by
    rw [getElem?_lexemes, there, same]
    rfl
  have inside : m < ((lex source).lexemes.map Lexeme.pos).length := by
    rw [List.length_map]
    exact (List.getElem?_eq_some_iff.mp lexeme).1
  apply (List.getElem?_inj inside positions).mp
  rw [List.getElem?_map, List.getElem?_map, lexeme, is]
  exact congrArg some (pos.trans stands.symm)

open Quotation in
/-- **What is read behind a quote is scanned as one string**, and reported exactly if it is broken
off. -/
theorem scan_string {body text after : List UInt8} {closed : Bool}
    (reads : Reads body text closed after) :
    (start (quoteMark :: body)).TakesString 0 (quoteMark :: doubled text ++ closing closed) after ∧
      worded (· == unterminated) (start (quoteMark :: body)).scan.1.reports =
        if closed then [] else [⟨0, unterminated⟩] := by
  have stands := Reader.behind_start (quoteMark :: body)
  have solid : ∀ b ∈ (quoteMark :: body).head?, ¬ isBlankByte b := by
    rintro b head
    obtain rfl := Option.some.inj head
    decide
  have here : bytesOf (start (quoteMark :: body)).reader.rest = [] ++ quoteMark :: body :=
    Text.bytesOf_symbols _
  obtain ⟨-, ahead, -⟩ :=
    behindGap_of_bytes (s := start (quoteMark :: body)) stands here (by simp) solid
  have front : quoteMark.toNat < 0x80 := by decide
  rw [Text.symbols_cons_of_ascii front] at ahead
  have offset : (start (quoteMark :: body)).behindGap.offset = 0 :=
    offset_behindGap_of_bytes (s := start (quoteMark :: body)) stands here (by simp) solid
  obtain ⟨text', closed', after', reads', takes, reports⟩ :=
    takes_string (s := start (quoteMark :: body)) stands ahead rfl (recognized_of_quote ahead rfl)
  rw [Text.bytesOf_symbols] at reads'
  obtain ⟨rfl, rfl, rfl⟩ := reads'.unique reads
  rw [offset] at takes reports
  exact ⟨takes, reports⟩

open Quotation in
/-- **A text between quotes is scanned as one string**, which has its end. -/
theorem scan_quoted {t u : List UInt8} (unbroken : lineFeed ∉ t)
    (apart : u.head? ≠ some quoteMark) :
    (start (quoteMark :: doubled t ++ [quoteMark] ++ u)).TakesString 0
        (quoteMark :: doubled t ++ [quoteMark]) u ∧
      worded (· == unterminated)
        (start (quoteMark :: doubled t ++ [quoteMark] ++ u)).scan.1.reports = [] := by
  have reads : Reads (doubled t ++ (closing true ++ u)) t true u := ⟨rfl, unbroken, apart⟩
  rw [List.append_assoc]
  exact scan_string reads

open Quotation in
/-- **What is scanned as a string is read as one**, and reported exactly if it is broken off. -/
theorem string_reads {source : List UInt8} {n : Nat} {l : Lexeme}
    (is : (lex source).lexemes[n]? = some l) (string : l.token = .string) :
    ∃ text closed after, lineFeed ∉ text ∧ EndsAt after closed ∧
      source.drop l.pos.offset = quoteMark :: doubled text ++ closing closed ++ after ∧
      ((start source).after n).TakesString l.pos.offset
        (quoteMark :: doubled text ++ closing closed) after ∧
      (lex source).diagnostics.items.count ⟨l.pos.offset, unterminated⟩ =
        if closed then 0 else 1 := by
  rw [count_unterminated is]
  obtain ⟨passed, stands⟩ := stands_after source n
  obtain rfl := lexeme_scan_after is
  generalize (start source).after n = s at string stands
  obtain ⟨t, rest, ahead, quote⟩ := quote_of_string string
  obtain ⟨text, closed, after, reads, takes, reports⟩ :=
    takes_string stands ahead quote (recognized_of_quote ahead quote)
  have offset : s.scan.1.lexeme.pos.offset = s.behindGap.offset := by
    rw [takes.lexeme_eq]
    rfl
  have here := (behindGap_stands stands).drop_offset
  rw [ahead, Text.bytesOf_cons, bytes_of_quote quote, reads.body_eq] at here
  rw [offset, reports]
  refine ⟨text, closed, after, reads.unbroken, reads.ends, ?_, takes, ?_⟩
  · rw [here, List.append_assoc]
    rfl
  · cases closed <;> simp

end Scanner

/-- A text is quoted in one way only. -/
theorem Quotation.doubled_inj {t t' : List UInt8} (unbroken : lineFeed ∉ t)
    (unbroken' : lineFeed ∉ t') (same : doubled t = doubled t') : t = t' := by
  have reads : Reads (doubled t) t false [] := ⟨by simp [closing], unbroken, by simp [EndsAt]⟩
  have reads' : Reads (doubled t') t' false [] := ⟨by simp [closing], unbroken', by simp [EndsAt]⟩
  rw [same] at reads
  exact (reads.unique reads').1

open Quotation in
/-- **Strings quote texts.** A text without a line break, each quote in it doubled, between quotes
is scanned as one string if no other quote follows, and as one that has its end. And whatever is
scanned as a string is either such a text, and one text only, or it is broken off in front of a line
break or at the end of the source; then it is reported for that, once, and otherwise not. -/
theorem strings_quote_texts :
    (∀ t u : List UInt8, lineFeed ∉ t → u.head? ≠ some quoteMark →
      let front := quoteMark :: doubled t ++ [quoteMark]
      (Scanner.start (front ++ u)).scan.1.lexeme = ⟨⟨1⟩, .string, Text.lossyString front⟩ ∧
        (Scanner.start (front ++ u)).scan.2.reader.offset = front.length ∧
        (Scanner.start (front ++ u)).scan.2.reader.rest = symbols u ∧
        ∀ d ∈ Scanner.openingReports (front ++ u) ++ (Scanner.start (front ++ u)).scan.1.reports,
          d.message ≠ "string literal not terminated") ∧
    ∀ (source : List UInt8) (n : Nat) (l : Lexeme), (lex source).lexemes[n]? = some l →
      l.token = .string →
      ∃ text after, source.drop l.pos.offset = text ++ after ∧ l.literal = Text.lossyString text ∧
        ((Scanner.start source).after (n + 1)).reader.offset = l.pos.offset + text.length ∧
        ((∃! t, lineFeed ∉ t ∧ text = quoteMark :: doubled t ++ [quoteMark]) ∧
            after.head? ≠ some quoteMark ∧
            (lex source).diagnostics.items.count
              ⟨l.pos.offset, "string literal not terminated"⟩ = 0 ∨
          (∃ t, lineFeed ∉ t ∧ text = quoteMark :: doubled t) ∧
            (∀ b ∈ after.head?, b = lineFeed) ∧
            (lex source).diagnostics.items.count
              ⟨l.pos.offset, "string literal not terminated"⟩ = 1) := by
  constructor
  · intro t u unbroken apart front
    obtain ⟨takes, reports⟩ := Scanner.scan_quoted unbroken apart
    refine ⟨takes.lexeme_eq, ?_, takes.rest_eq, ?_⟩
    · rw [takes.offset_eq, Nat.zero_add]
    · have opening : worded (· == unterminated) (Scanner.openingReports (front ++ u)) = [] :=
        Reader.worded_faults_eq_nil _ not_unterminated_of_fault?
      rw [worded_eq_nil_iff] at reports opening
      refine List.forall_mem_append.mpr ⟨?_, ?_⟩
      · exact fun d mem same => opening d mem (beq_iff_eq.mpr same)
      · exact fun d mem same => reports d mem (beq_iff_eq.mpr same)
  · intro source n l is string
    obtain ⟨text, closed, after, unbroken, ends, here, takes, count⟩ :=
      Scanner.string_reads is string
    have scanned := Scanner.lexeme_scan_after is
    refine ⟨_, after, here, ?_, ?_, ?_⟩
    · rw [← scanned, takes.lexeme_eq]
    · rw [Scanner.after_succ, takes.offset_eq]
    · cases closed with
      | true =>
        refine .inl ⟨⟨text, ⟨unbroken, rfl⟩, ?_⟩, ends, count⟩
        rintro t ⟨unbroken', same⟩
        have inner := List.append_cancel_right (List.cons.inj same).2
        exact doubled_inj unbroken' unbroken inner.symm
      | false =>
        refine .inr ⟨⟨text, unbroken, ?_⟩, ends, count⟩
        rw [closing, List.append_nil]

open Quotation in
/-- A quote that is doubled does not close a string. With one more quote behind it the string is
closed, and without that it is broken off. -/
theorem strings_quote_texts_doubled_quote :
    (Scanner.start (Text.encoded "\"a\"\"\"+")).scan.1.lexeme = ⟨⟨1⟩, .string, "\"a\"\"\""⟩ ∧
      ∃ text after t, Text.encoded "\"a\"\"" = text ++ after ∧ lineFeed ∉ t ∧
        text = quoteMark :: doubled t ∧ ∀ b ∈ after.head?, b = lineFeed := by
  obtain ⟨quoted, read⟩ := strings_quote_texts
  have closed := (quoted (Text.encoded "a\"") (Text.encoded "+") (by decide) (by decide)).1
  have source : quoteMark :: doubled (Text.encoded "a\"") ++ [quoteMark] ++ Text.encoded "+" =
      Text.encoded "\"a\"\"\"+" := by
    decide
  have literal : Text.lossyString (quoteMark :: doubled (Text.encoded "a\"") ++ [quoteMark]) =
      "\"a\"\"\"" := by
    decide +kernel
  have first : (lex (Text.encoded "\"a\"\"")).lexemes[0]? = some ⟨⟨1⟩, .string, "\"a\"\""⟩ := by
    decide +kernel
  have reported : (lex (Text.encoded "\"a\"\"")).diagnostics.items.count
      ⟨0, "string literal not terminated"⟩ ≠ 0 := by
    decide +kernel
  refine ⟨?_, ?_⟩
  · rwa [source, literal] at closed
  · obtain ⟨text, after, split, -, -, ⟨-, -, none⟩ | ⟨⟨t, unbroken, is⟩, ends, -⟩⟩ :=
      read _ 0 _ first rfl
    · exact absurd none reported
    · exact ⟨text, after, t, split, unbroken, is, ends⟩

end SheetFormula

import Mathlib.Tactic.Common
import SheetFormula.Json
import SheetFormula.Text.Parts

/-!
# Reading JSON texts

What it means that a value can be had back from the text that is written for it. `Json.read?` reads
any JSON text: blanks between the pieces, all escapes of texts and pairs of surrogates among them,
and numbers with a sign, a fraction or an exponent. It yields nothing for what is no JSON text.
Every reader shows that it stops nearer to the end of the text than it started
(`Json.Front.shorter`), which is why reading ends.

A value is readable if it is had back from what is written for it and no character of that is a
control character (`Json.Readable`).

Main results:
* `Json.readable_number` and `Json.readable_text`: numbers and all texts are readable, whatever is
  in them.
* `Json.readable_list` and `Json.readable_object`: so are lists and objects of readable values.
* `Json.Readable.read?_compact`: a readable value is had back from its line.
-/

namespace SheetFormula.Json

/-- Something that is read from the front of a text, and the text behind it. -/
structure Front (α : Type) (text : List Char) where
  value : α
  rest : List Char
  shorter : rest.length < text.length

namespace Front

variable {α β : Type} {text behind : List Char}

/-- What stands for something else. -/
def map (f : α → β) (front : Front α text) : Front β text :=
  ⟨f front.value, front.rest, front.shorter⟩

/-- What is read behind something else. -/
def within (front : Front α behind) (shorter : behind.length < text.length) : Front α text :=
  ⟨front.value, front.rest, Nat.lt_trans front.shorter shorter⟩

/-- What is read behind a character. -/
def later {c : Char} (front : Front α text) : Front α (c :: text) :=
  front.within (Nat.lt_succ_self _)

end Front

/-! ## Texts between quotes -/

/-- The value of a hexadecimal digit. -/
def hexDigit? (c : Char) : Option Nat :=
  if '0' ≤ c ∧ c ≤ '9' then some (c.toNat - '0'.toNat)
  else if 'a' ≤ c ∧ c ≤ 'f' then some (c.toNat - 'a'.toNat + 10)
  else if 'A' ≤ c ∧ c ≤ 'F' then some (c.toNat - 'A'.toNat + 10)
  else none

/-- The number that four hexadecimal digits make. -/
def hexUnit? (a b c d : Char) : Option Nat := do
  some ((((← hexDigit? a) * 16 + (← hexDigit? b)) * 16 + (← hexDigit? c)) * 16 + (← hexDigit? d))

/-- The character that stands behind a backslash for another one. -/
def shortEscape? : Char → Option Char
  | '"' => some '"'
  | '\\' => some '\\'
  | '/' => some '/'
  | 'b' => some '\x08'
  | 'f' => some '\x0c'
  | 'n' => some '\n'
  | 'r' => some '\r'
  | 't' => some '\t'
  | _ => none

/-- The character of a pair of surrogates. -/
def paired? (high low : Nat) : Option Char :=
  if high < 0xDC00 ∧ 0xDC00 ≤ low ∧ low < 0xE000 then
    some (.ofNat (0x10000 + (high - 0xD800) * 0x400 + (low - 0xDC00)))
  else none

/-- The character that is escaped behind a backslash. -/
def escaped? : (text : List Char) → Option (Front Char text)
  | 'u' :: a :: b :: c :: d :: rest =>
    match hexUnit? a b c d with
    | none => none
    | some unit =>
      if unit < 0xD800 ∨ 0xE000 ≤ unit then some ⟨.ofNat unit, rest, by simp +arith⟩
      else match rest with
        | '\\' :: 'u' :: a :: b :: c :: d :: rest =>
          ((hexUnit? a b c d).bind (paired? unit)).map fun c => ⟨c, rest, by simp +arith⟩
        | _ => none
  | c :: rest => (shortEscape? c).map fun c => ⟨c, rest, Nat.lt_succ_self _⟩
  | [] => none

/-- The text up to a closing quote. -/
def quoted? : (text : List Char) → Option (Front (List Char) text)
  | [] => none
  | '"' :: rest => some ⟨[], rest, Nat.lt_succ_self _⟩
  | '\\' :: inside =>
    match escaped? inside with
    | none => none
    | some ⟨c, further, shorter⟩ =>
      (quoted? further).map fun content =>
        (content.map (c :: ·)).within (Nat.lt_succ_of_lt shorter)
  | c :: further =>
    if c.toNat < 0x20 then none
    else (quoted? further).map fun content => (content.map (c :: ·)).later
termination_by text => text.length
decreasing_by
  · exact Nat.lt_succ_of_lt shorter
  · exact Nat.lt_succ_self _

/-! ## Words and numbers -/

/-- Whether a text is a number: perhaps a sign, then digits without a needless zero in front, and
perhaps a fraction and an exponent. -/
def isNumber (written : List Char) : Bool :=
  let unsigned := if written.head? = some '-' then written.tail else written
  let whole := unsigned.takeWhile Char.isDigit
  Text.isWhole whole && (whole == ['0'] || whole.head? != some '0') &&
    match unsigned.dropWhile Char.isDigit with
    | '.' :: rest =>
      Text.isWhole (rest.takeWhile Char.isDigit) && Text.isExponent (rest.dropWhile Char.isDigit)
    | rest => Text.isExponent rest

/-- The value that is written without quotes and brackets: a word or a number. -/
def bare? (written : List Char) : Option Json :=
  if written = "null".toList then some null
  else if written = "true".toList then some (bool true)
  else if written = "false".toList then some (bool false)
  else if isNumber written then
    if written.all Char.isDigit then some (number (Nat.ofDigitChars 10 written 0))
    else some (otherNumber (String.ofList written))
  else none

/-- Whether a character stands in words or numbers. -/
def isBare (c : Char) : Bool := c.isAlphanum || c == '+' || c == '-' || c == '.'

/-! ## Pieces -/

/-- A bracket, a comma, a colon, or a value that is neither a list nor an object. -/
inductive Piece
  | openList
  | closeList
  | openObject
  | closeObject
  | comma
  | colon
  | scalar (value : Json)

/-- The piece that a character is on its own. -/
def Piece.ofChar? : Char → Option Piece
  | '[' => some openList
  | ']' => some closeList
  | '\x7b' => some openObject
  | '\x7d' => some closeObject
  | ',' => some comma
  | ':' => some colon
  | _ => none

/-- Whether a character may stand between pieces. -/
def isBlank (c : Char) : Bool := c == ' ' || c == '\t' || c == '\n' || c == '\r'

/-- The first piece of a text, behind blanks. -/
def piece? : (text : List Char) → Option (Front Piece text)
  | [] => none
  | c :: further =>
    if isBlank c then (piece? further).map Front.later
    else if c = '"' then
      (quoted? further).map fun content =>
        (content.map fun content => .scalar (text (String.ofList content))).later
    else
      match Piece.ofChar? c with
      | some mark => some ⟨mark, further, Nat.lt_succ_self _⟩
      | none =>
        (bare? (c :: further.takeWhile isBare)).map fun value =>
          ⟨.scalar value, further.dropWhile isBare,
            Nat.lt_succ_of_le (List.dropWhile_sublist _).length_le⟩

/-! ## Values -/

/-- The key of a member in front of a text, with the colon behind it. -/
def key? (text : List Char) : Option (Front String text) :=
  match piece? text with
  | some ⟨.scalar (.text key), behind, shorter⟩ =>
    match piece? behind with
    | some ⟨.colon, rest, shorter'⟩ => some ⟨key, rest, Nat.lt_trans shorter' shorter⟩
    | _ => none
  | _ => none

mutual

/-- The value in front of a text. -/
def value? (text : List Char) : Option (Front Json text) :=
  match piece? text with
  | some ⟨.scalar value, rest, shorter⟩ => some ⟨value, rest, shorter⟩
  | some ⟨.openList, inside, shorter⟩ =>
    match piece? inside with
    | some ⟨.closeList, rest, shorter'⟩ => some ⟨list [], rest, Nat.lt_trans shorter' shorter⟩
    | _ => (listItems? inside).map fun items => (items.map list).within shorter
  | some ⟨.openObject, inside, shorter⟩ =>
    match piece? inside with
    | some ⟨.closeObject, rest, shorter'⟩ =>
      some ⟨object [], rest, Nat.lt_trans shorter' shorter⟩
    | _ => (objectMembers? inside).map fun members => (members.map object).within shorter
  | _ => none
termination_by (text.length, 0)

/-- The items of a list, at least one, up to the bracket that closes the list. -/
def listItems? (text : List Char) : Option (Front (List Json) text) :=
  match value? text with
  | none => none
  | some ⟨item, behind, shorter⟩ =>
    match piece? behind with
    | some ⟨.closeList, rest, shorter'⟩ => some ⟨[item], rest, Nat.lt_trans shorter' shorter⟩
    | some ⟨.comma, further, shorter'⟩ =>
      (listItems? further).map fun items =>
        (items.map (item :: ·)).within (Nat.lt_trans shorter' shorter)
    | _ => none
termination_by (text.length, 1)

/-- The members of an object, at least one, up to the brace that closes the object. -/
def objectMembers? (text : List Char) : Option (Front (List (String × Json)) text) :=
  match key? text with
  | none => none
  | some ⟨key, behindKey, shorterKey⟩ =>
    match value? behindKey with
    | none => none
    | some ⟨value, behind, shorter⟩ =>
      match piece? behind with
      | some ⟨.closeObject, rest, shorter'⟩ =>
        some ⟨[(key, value)], rest, Nat.lt_trans shorter' (Nat.lt_trans shorter shorterKey)⟩
      | some ⟨.comma, further, shorter'⟩ =>
        (objectMembers? further).map fun members =>
          (members.map ((key, value) :: ·)).within
            (Nat.lt_trans shorter' (Nat.lt_trans shorter shorterKey))
      | _ => none
termination_by (text.length, 0)

end

/-- The value that a JSON text is written for, with blanks around it perhaps, if it is one. -/
def read? (text : List Char) : Option Json :=
  match value? text with
  | some ⟨value, rest, _⟩ => if rest.all isBlank then some value else none
  | none => none

/-! ## Reading what was written -/

/-- Whether something is read from the front of a text with this behind it. -/
def Reads {α : Type} {text : List Char} (found : Option (Front α text)) (value : α)
    (rest : List Char) : Prop :=
  found.map (fun front => (front.value, front.rest)) = some (value, rest)

/-- What is read has a front whose rest is shorter than the text. -/
theorem Reads.exists_eq {α : Type} {text rest : List Char} {found : Option (Front α text)}
    {value : α} (h : Reads found value rest) :
    ∃ shorter, found = some ⟨value, rest, shorter⟩ := by
  obtain ⟨⟨value, rest, shorter⟩, is, same⟩ := Option.map_eq_some_iff.mp h
  cases same
  exact ⟨shorter, is⟩

section Quoted

variable {c d : Char} {content inside rest behind : List Char}

/-- An escape inside quotes puts one character in front of what is read behind it. -/
theorem reads_escape (escape : Reads (escaped? inside) c behind)
    (later : Reads (quoted? behind) content rest) :
    Reads (quoted? ('\\' :: inside)) (c :: content) rest := by
  obtain ⟨_, escape⟩ := escape.exists_eq
  obtain ⟨_, later⟩ := later.exists_eq
  rw [Reads, quoted?, escape]
  dsimp only
  rw [later]
  rfl

/-- A character without an escape stands for itself, if it is no quote, no backslash and no control
character. -/
theorem reads_plain (plain : c ≠ '"' ∧ c ≠ '\\') (size : 0x20 ≤ c.toNat)
    (later : Reads (quoted? behind) content rest) :
    Reads (quoted? (c :: behind)) (c :: content) rest := by
  obtain ⟨_, later⟩ := later.exists_eq
  rw [Reads, quoted?, if_neg (Nat.not_lt.mpr size), later]
  · rfl
  · exact plain.1
  · exact plain.2

/-- A short escape is read as the character it stands for. -/
theorem reads_short (short : shortEscape? c = some d) : Reads (escaped? (c :: rest)) d rest := by
  unfold shortEscape? at short
  split at short
  all_goals
    cases short
  all_goals rfl

/-- A hexadecimal digit is read as the number it was written for. -/
theorem hexDigit?_digitChar : ∀ d < 16, hexDigit? (Nat.digitChar d) = some d := by decide

/-- A control character is read back from the four digits of its escape. -/
theorem reads_unit (small : c.toNat < 0x20) :
    Reads (escaped?
      ('u' :: '0' :: '0' :: Nat.digitChar (c.toNat / 16) :: Nat.digitChar (c.toNat % 16) :: rest))
      c rest := by
  have high := hexDigit?_digitChar (c.toNat / 16) (by omega)
  have low := hexDigit?_digitChar (c.toNat % 16) (by omega)
  have zero : hexDigit? '0' = some 0 := by decide
  have unit : hexUnit? '0' '0' (Nat.digitChar (c.toNat / 16)) (Nat.digitChar (c.toNat % 16)) =
      some c.toNat := by
    simp only [hexUnit?, zero, high, low, Option.bind_eq_bind, Option.bind_some]
    congr 1
    omega
  rw [Reads, escaped?, unit]
  dsimp only
  rw [if_pos (.inl (by omega)), Char.ofNat_toNat]
  rfl

/-- **A character is read back as it was**, escaped or not. -/
theorem reads_escapeChar (later : Reads (quoted? behind) content rest) :
    Reads (quoted? (escapeChar c ++ behind)) (c :: content) rest := by
  obtain ⟨written, is⟩ : ∃ written, written = escapeChar c := ⟨_, rfl⟩
  rw [← is]
  unfold escapeChar at is
  split_ifs at is with special back feed newline turn tab small
  · subst is
    rcases special with rfl | rfl
    · exact reads_escape (reads_short rfl) later
    · exact reads_escape (reads_short rfl) later
  · subst is back
    exact reads_escape (reads_short rfl) later
  · subst is feed
    exact reads_escape (reads_short rfl) later
  · subst is newline
    exact reads_escape (reads_short rfl) later
  · subst is turn
    exact reads_escape (reads_short rfl) later
  · subst is tab
    exact reads_escape (reads_short rfl) later
  · subst is
    exact reads_escape (reads_unit small) later
  · subst is
    exact reads_plain (not_or.mp special) (Nat.le_of_not_lt small) later

/-- The characters of a text are read back up to the closing quote, by induction on the text. -/
theorem reads_escaped (written rest : List Char) :
    Reads (quoted? (written.flatMap escapeChar ++ '"' :: rest)) written rest := by
  induction written with
  | nil =>
    rw [List.flatMap_nil, List.nil_append, Reads, quoted?]
    rfl
  | cons c written ih =>
    rw [List.flatMap_cons, List.append_assoc]
    exact reads_escapeChar ih

end Quoted

/-! ### Pieces -/

section Pieces

variable {c : Char} {mark : Piece} {written rest : List Char} {value : Json}

/-- A bracket, a comma or a colon is a piece of its own. -/
theorem reads_mark (is : Piece.ofChar? c = some mark) : Reads (piece? (c :: rest)) mark rest := by
  unfold Piece.ofChar? at is
  split at is
  all_goals
    cases is
  all_goals rfl

/-- A text between quotes is one piece. -/
theorem reads_quote (written : String) (rest : List Char) :
    Reads (piece? (quote written ++ rest)) (.scalar (text written)) rest := by
  obtain ⟨_, content⟩ := (reads_escaped written.toList rest).exists_eq
  have front : quote written ++ rest =
      '"' :: (written.toList.flatMap escapeChar ++ '"' :: rest) := by
    simp [quote]
  rw [front, Reads, piece?, if_neg (by decide), if_pos rfl, content]
  show some (Piece.scalar (text (String.ofList written.toList)), rest) = _
  rw [String.ofList_toList]

/-- Whether no word and no number goes on at the front of a text. -/
def Ends (rest : List Char) : Prop := ∀ c ∈ rest.head?, isBare c = false

/-- A character that stands in no word and no number ends one. -/
theorem ends_cons (other : isBare c = false) : Ends (c :: rest) := by
  intro d front
  cases front
  exact other

/-- A word or a number in front is one piece, up to where it ends. -/
theorem reads_bare (ends : Ends rest) (bare : ∀ d ∈ c :: written, isBare d = true)
    (is : bare? (c :: written) = some value) :
    Reads (piece? (c :: written ++ rest)) (.scalar value) rest := by
  obtain ⟨first, later⟩ := List.forall_mem_cons.mp bare
  have solid : isBlank c = false := by
    by_contra blank
    simp only [isBlank, Bool.not_eq_false, Bool.or_eq_true, beq_iff_eq] at blank
    obtain ((rfl | rfl) | rfl) | rfl := blank <;> exact absurd first (by decide)
  have unquoted : c ≠ '"' := by
    rintro rfl
    exact absurd first (by decide)
  have unmarked : Piece.ofChar? c = none := by
    unfold Piece.ofChar?
    split
    all_goals first
      | exact absurd first (by decide)
      | rfl
  have stops : rest.takeWhile isBare = [] ∧ rest.dropWhile isBare = rest := by
    cases rest with
    | nil => exact ⟨rfl, rfl⟩
    | cons d rest =>
      have other := ends d rfl
      exact ⟨List.takeWhile_cons_of_neg (by simp [other]),
        List.dropWhile_cons_of_neg (by simp [other])⟩
  have run : (written ++ rest).takeWhile isBare = written := by
    rw [List.takeWhile_append_of_pos later, stops.1, List.append_nil]
  have behind : (written ++ rest).dropWhile isBare = rest := by
    rw [List.dropWhile_append_of_pos later, stops.2]
  rw [List.cons_append, Reads, piece?, if_neg (by simp [solid]), if_neg unquoted, unmarked]
  simp only [run, is, Option.map_some, behind]

end Pieces

/-! ### Numbers -/

/-- The digits of a positive number do not begin with a zero. -/
theorem head_toDigits {n : Nat} (pos : 0 < n) : (Nat.toDigits 10 n).head? ≠ some '0' := by
  induction n using Nat.strongRecOn with
  | ind n ih =>
    by_cases small : n < 10
    · have single : ∀ d < 10, 0 < d → [Nat.digitChar d].head? ≠ some '0' := by decide
      rw [Nat.toDigits_of_lt_base small]
      exact single n small pos
    · have whole : 10 ≤ n := Nat.le_of_not_lt small
      have further := ih (n / 10) (Nat.div_lt_self pos (by decide)) (Nat.div_pos whole (by decide))
      obtain ⟨c, behind, front⟩ := List.exists_cons_of_ne_nil (Nat.toDigits_ne_nil (n := n / 10))
      rw [front] at further
      rw [Nat.toDigits_of_base_le (by decide) whole, front]
      exact further

/-- **A number is read back from its digits.** -/
theorem bare?_toDigits (n : Nat) : bare? (Nat.toDigits 10 n) = some (number n) := by
  have digits : ∀ c ∈ Nat.toDigits 10 n, c.isDigit = true := fun c mem =>
    Nat.isDigit_of_mem_toDigits (by decide) (by decide) mem
  have unlike : ∀ c, c.isDigit = false → ∀ behind, Nat.toDigits 10 n ≠ c :: behind := by
    intro c other behind same
    have digit := digits c (same ▸ List.mem_cons_self)
    rw [other] at digit
    cases digit
  have unsigned : (Nat.toDigits 10 n).head? ≠ some '-' := by
    intro signed
    obtain ⟨behind, same⟩ := List.head?_eq_some_iff.mp signed
    exact unlike '-' (by decide) behind same
  have proper : Nat.toDigits 10 n = ['0'] ∨ (Nat.toDigits 10 n).head? ≠ some '0' := by
    rcases Nat.eq_zero_or_pos n with rfl | pos
    · exact .inl rfl
    · exact .inr (head_toDigits pos)
  have all : (Nat.toDigits 10 n).all Char.isDigit = true := List.all_eq_true.mpr digits
  have is_number : isNumber (Nat.toDigits 10 n) = true := by
    have run : (Nat.toDigits 10 n).takeWhile Char.isDigit = Nat.toDigits 10 n := by
      rw [← List.append_nil (Nat.toDigits 10 n), List.takeWhile_append_of_pos digits,
        List.takeWhile_nil]
    have behind : (Nat.toDigits 10 n).dropWhile Char.isDigit = [] := by
      rw [← List.append_nil (Nat.toDigits 10 n), List.dropWhile_append_of_pos digits,
        List.dropWhile_nil]
    rw [isNumber, if_neg unsigned, run, behind]
    simp [Text.isWhole, all, proper, Text.isExponent]
  have null : Nat.toDigits 10 n ≠ "null".toList := unlike 'n' (by decide) _
  have yes : Nat.toDigits 10 n ≠ "true".toList := unlike 't' (by decide) _
  have no : Nat.toDigits 10 n ≠ "false".toList := unlike 'f' (by decide) _
  rw [bare?, if_neg null, if_neg yes, if_neg no, if_pos is_number, if_pos all,
    Nat.ofDigitChars_toDigits (by decide) (by decide)]

/-! ### Values -/

/-- Whether a value is read back from what is written for it, whatever stands behind that, and no
character of it is a control character. -/
structure Readable (value : Json) : Prop where
  reads : ∀ rest, Ends rest → Reads (value? (value.chars ++ rest)) value rest
  visible : ∀ c ∈ value.chars, 0x20 ≤ c.toNat

/-- A piece that is a value by itself is the value in front. -/
theorem reads_scalar {text rest : List Char} {value : Json}
    (piece : Reads (piece? text) (.scalar value) rest) : Reads (value? text) value rest := by
  obtain ⟨_, piece⟩ := piece.exists_eq
  rw [Reads, value?, piece]
  rfl

/-- No control character stands in a word or a number. -/
theorem visible_of_isBare {c : Char} (bare : isBare c = true) : 0x20 ≤ c.toNat := by
  have control : ∀ n < 0x20, isBare (Char.ofNat n) = false := by decide
  by_contra small
  have other := control c.toNat (Nat.lt_of_not_le small)
  rw [Char.ofNat_toNat, bare] at other
  cases other

/-- **A number is readable.** -/
theorem readable_number (n : Nat) : (number n).Readable := by
  have bare : ∀ c ∈ Nat.toDigits 10 n, isBare c = true := by
    intro c mem
    have digit := Nat.isDigit_of_mem_toDigits (by decide) (by decide) mem
    simp [isBare, Char.isAlphanum, digit]
  have is := bare?_toDigits n
  refine ⟨fun rest ends => reads_scalar ?_, fun c mem => visible_of_isBare (bare c mem)⟩
  obtain ⟨c, written, front⟩ := List.exists_cons_of_ne_nil (Nat.toDigits_ne_nil (n := n) (b := 10))
  rw [front] at bare is
  rw [chars, front]
  exact reads_bare ends bare is

/-- An escape holds no control character. -/
theorem visible_escapeChar (c : Char) : ∀ d ∈ escapeChar c, 0x20 ≤ d.toNat := by
  have hexadecimal : ∀ n < 16, 0x20 ≤ (Nat.digitChar n).toNat := by decide
  have short : ∀ d, 0x20 ≤ d.toNat → ∀ e ∈ ['\\', d], 0x20 ≤ e.toNat := by
    intro d visible
    rw [List.forall_mem_cons, List.forall_mem_singleton]
    exact ⟨by decide, visible⟩
  unfold escapeChar
  split_ifs with special back feed newline turn tab small
  · rcases special with rfl | rfl
    · exact short '"' (by decide)
    · exact short '\\' (by decide)
  · exact short 'b' (by decide)
  · exact short 'f' (by decide)
  · exact short 'n' (by decide)
  · exact short 'r' (by decide)
  · exact short 't' (by decide)
  · have high := hexadecimal (c.toNat / 16) (by omega)
    have low := hexadecimal (c.toNat % 16) (by omega)
    simp [high, low]
  · simpa using small

/-- No control character stands in what is written for a text. -/
theorem visible_quote (written : String) : ∀ c ∈ quote written, 0x20 ≤ c.toNat := by
  have mark : 0x20 ≤ '"'.toNat := by decide
  rw [quote, List.forall_mem_cons, List.forall_mem_append, List.forall_mem_singleton]
  refine ⟨mark, ?_, mark⟩
  rw [List.forall_mem_flatMap]
  exact fun c _ => visible_escapeChar c

/-- **A text is readable**, whatever is in it. -/
theorem readable_text (written : String) : (text written).Readable :=
  ⟨fun rest _ => reads_scalar (reads_quote written rest), visible_quote written⟩

/-! ### Lists and objects -/

/-- No control character stands between the brackets of a list of readable items. -/
theorem visible_itemChars {items : List Json} (each : ∀ item ∈ items, item.Readable) :
    ∀ c ∈ itemChars items, 0x20 ≤ c.toNat := by
  induction items with
  | nil => simp [itemChars]
  | cons item items ih =>
    obtain ⟨first, each⟩ := List.forall_mem_cons.mp each
    cases items with
    | nil => exact first.visible
    | cons next items =>
      rw [itemChars, List.forall_mem_append, List.forall_mem_cons]
      · exact ⟨first.visible, by decide, ih each⟩
      · exact List.cons_ne_nil _ _

/-- The items of a list are read back, with the bracket behind them. -/
theorem reads_items {items : List Json} (some_items : items ≠ [])
    (each : ∀ item ∈ items, item.Readable) (rest : List Char) :
    Reads (listItems? (itemChars items ++ ']' :: rest)) items rest := by
  induction items with
  | nil => exact absurd rfl some_items
  | cons item items ih =>
    obtain ⟨first, each⟩ := List.forall_mem_cons.mp each
    cases items with
    | nil =>
      obtain ⟨_, value⟩ := (first.reads (']' :: rest) (ends_cons rfl)).exists_eq
      rw [itemChars, Reads, listItems?, value]
      rfl
    | cons next items =>
      let behind := itemChars (next :: items) ++ ']' :: rest
      have front : itemChars (item :: next :: items) ++ ']' :: rest =
          item.chars ++ ',' :: behind := by
        simp [itemChars, behind]
      have mark : Reads (piece? (',' :: behind)) .comma behind := reads_mark rfl
      obtain ⟨_, value⟩ := (first.reads (',' :: behind) (ends_cons rfl)).exists_eq
      obtain ⟨_, comma⟩ := mark.exists_eq
      obtain ⟨_, later⟩ := (ih (List.cons_ne_nil _ _) each).exists_eq
      rw [front, Reads, listItems?, value]
      dsimp only
      rw [comma]
      dsimp only
      rw [later]
      rfl

/-- Where items are read, no list is closed. -/
theorem not_closed_of_items {text rest : List Char} {items : List Json}
    (reads : Reads (listItems? text) items rest) (behind : List Char)
    (shorter : behind.length < text.length) : piece? text ≠ some ⟨.closeList, behind, shorter⟩ := by
  intro closed
  rw [Reads, listItems?, value?, closed] at reads
  cases reads

/-- **A list is readable if its items are.** An opening bracket is followed by a closing one only if
there are no items; otherwise the items are read up to it. -/
theorem readable_list {items : List Json} (each : ∀ item ∈ items, item.Readable) :
    (list items).Readable := by
  constructor
  · intro rest _
    have mark : ∀ behind, Reads (piece? ('[' :: behind)) .openList behind := fun _ => reads_mark rfl
    rw [chars, List.cons_append, List.append_assoc, List.singleton_append]
    obtain ⟨_, opening⟩ := (mark (itemChars items ++ ']' :: rest)).exists_eq
    rw [Reads, value?, opening]
    dsimp only
    by_cases none : items = []
    · subst none
      rfl
    · have reads := reads_items none each rest
      obtain ⟨_, later⟩ := reads.exists_eq
      split
      · next closed => exact absurd closed (not_closed_of_items reads _ _)
      · rw [later]
        rfl
  · have outer : 0x20 ≤ '['.toNat ∧ 0x20 ≤ ']'.toNat := by decide
    rw [chars, List.forall_mem_cons, List.forall_mem_append, List.forall_mem_singleton]
    exact ⟨outer.1, visible_itemChars each, outer.2⟩

/-- No control character stands between the braces of an object of readable values. -/
theorem visible_memberChars {members : List (String × Json)}
    (each : ∀ member ∈ members, member.2.Readable) :
    ∀ c ∈ memberChars members, 0x20 ≤ c.toNat := by
  have colon : 0x20 ≤ ':'.toNat := by decide
  induction members with
  | nil => simp [memberChars]
  | cons member members ih =>
    obtain ⟨first, each⟩ := List.forall_mem_cons.mp each
    have front : ∀ c ∈ quote member.1 ++ ':' :: member.2.chars, 0x20 ≤ c.toNat := by
      rw [List.forall_mem_append, List.forall_mem_cons]
      exact ⟨visible_quote _, colon, first.visible⟩
    cases members with
    | nil => exact front
    | cons next members =>
      rw [memberChars, List.forall_mem_append, List.forall_mem_cons]
      · exact ⟨front, by decide, ih each⟩
      · exact List.cons_ne_nil _ _

/-- The key of a member is read back, with the colon behind it. -/
theorem reads_key (key : String) (rest : List Char) :
    Reads (key? (quote key ++ ':' :: rest)) key rest := by
  have mark : Reads (piece? (':' :: rest)) .colon rest := reads_mark rfl
  obtain ⟨_, written⟩ := (reads_quote key (':' :: rest)).exists_eq
  obtain ⟨_, colon⟩ := mark.exists_eq
  rw [Reads, key?, written]
  dsimp only
  rw [colon]
  rfl

/-- The members of an object are read back, with the brace behind them. -/
theorem reads_members {members : List (String × Json)} (some_members : members ≠ [])
    (each : ∀ member ∈ members, member.2.Readable) (rest : List Char) :
    Reads (objectMembers? (memberChars members ++ '\x7d' :: rest)) members rest := by
  induction members with
  | nil => exact absurd rfl some_members
  | cons member members ih =>
    obtain ⟨key, value⟩ := member
    obtain ⟨first, each⟩ := List.forall_mem_cons.mp each
    cases members with
    | nil =>
      have front : memberChars [(key, value)] ++ '\x7d' :: rest =
          quote key ++ ':' :: (value.chars ++ '\x7d' :: rest) := by
        simp [memberChars]
      obtain ⟨_, named⟩ := (reads_key key (value.chars ++ '\x7d' :: rest)).exists_eq
      obtain ⟨_, found⟩ := (first.reads ('\x7d' :: rest) (ends_cons rfl)).exists_eq
      rw [front, Reads, objectMembers?, named]
      dsimp only
      rw [found]
      rfl
    | cons next members =>
      let behind := memberChars (next :: members) ++ '\x7d' :: rest
      have front : memberChars ((key, value) :: next :: members) ++ '\x7d' :: rest =
          quote key ++ ':' :: (value.chars ++ ',' :: behind) := by
        simp [memberChars, behind]
      have mark : Reads (piece? (',' :: behind)) .comma behind := reads_mark rfl
      obtain ⟨_, named⟩ := (reads_key key (value.chars ++ ',' :: behind)).exists_eq
      obtain ⟨_, found⟩ := (first.reads (',' :: behind) (ends_cons rfl)).exists_eq
      obtain ⟨_, comma⟩ := mark.exists_eq
      obtain ⟨_, later⟩ := (ih (List.cons_ne_nil _ _) each).exists_eq
      rw [front, Reads, objectMembers?, named]
      dsimp only
      rw [found]
      dsimp only
      rw [comma]
      dsimp only
      rw [later]
      rfl

/-- Where members are read, no object is closed. -/
theorem not_closed_of_members {text rest : List Char} {members : List (String × Json)}
    (reads : Reads (objectMembers? text) members rest) (behind : List Char)
    (shorter : behind.length < text.length) :
    piece? text ≠ some ⟨.closeObject, behind, shorter⟩ := by
  intro closed
  rw [Reads, objectMembers?, key?, closed] at reads
  cases reads

/-- **An object is readable if the values of its members are.** The keys are texts and readable in
any case. -/
theorem readable_object {members : List (String × Json)}
    (each : ∀ member ∈ members, member.2.Readable) : (object members).Readable := by
  constructor
  · intro rest _
    have mark : ∀ behind, Reads (piece? ('\x7b' :: behind)) .openObject behind :=
      fun _ => reads_mark rfl
    rw [chars, List.cons_append, List.append_assoc, List.singleton_append]
    obtain ⟨_, opening⟩ := (mark (memberChars members ++ '\x7d' :: rest)).exists_eq
    rw [Reads, value?, opening]
    dsimp only
    by_cases none : members = []
    · subst none
      rfl
    · have reads := reads_members none each rest
      obtain ⟨_, later⟩ := reads.exists_eq
      split
      · next closed => exact absurd closed (not_closed_of_members reads _ _)
      · rw [later]
        rfl
  · have outer : 0x20 ≤ '\x7b'.toNat ∧ 0x20 ≤ '\x7d'.toNat := by decide
    rw [chars, List.forall_mem_cons, List.forall_mem_append, List.forall_mem_singleton]
    exact ⟨outer.1, visible_memberChars each, outer.2⟩

/-- **A readable value is had back from the line that is written for it.** -/
theorem Readable.read?_compact {value : Json} (readable : value.Readable) :
    read? value.compact.toList = some value := by
  have front : value.compact.toList = value.chars ++ [] := by
    rw [compact, String.toList_ofList, List.append_nil]
  obtain ⟨_, reads⟩ := (readable.reads [] nofun).exists_eq
  rw [front, read?, reads]
  rfl

end SheetFormula.Json

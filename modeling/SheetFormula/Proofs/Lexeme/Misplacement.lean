import Mathlib.Tactic.Common
import SheetFormula.Lexeme.Radix

/-!
# The first misplaced separator

Behind the zero and the letter that announce a base lies the body of a number's text, and in there a
separator is in place between two digits only. Separators are read in one pass, which sees of a
separator no more than what stands to its left, and of each byte what it makes of the separator
before it. So there is at any moment at most one separator that has not been judged, the one just
passed (`Separator.Judged`).

Main results:
* `Separator.Judged.step`: a byte either keeps that state of affairs or proves a separator to be
  misplaced.
* `Separator.Judged.isFirst_here` and `Separator.Judged.isFirst_left`: if it does, no earlier
  separator is misplaced.
* `Separator.isFirst_misplaced?`: what is found in the end is therefore the first misplaced
  separator of the whole body.
* `Separator.separators_judged`: what that means, spelled out.
-/

namespace SheetFormula.Separator

/-! ## The body of a number's text -/

/-- Whether a text begins with a zero and a letter, small or capital. -/
def beginsWith (letter : Char) : List UInt8 → Bool
  | 0x30 :: marker :: _ => (Char.ofUInt8 marker).toLower == letter
  | _ => false

/-- Where the body of a text begins: behind the zero and the letter that announce a base, and at the
front of a text that announces none. -/
def bodyStart (text : List UInt8) : Nat :=
  if beginsWith 'x' text || beginsWith 'o' text || beginsWith 'b' text then 2 else 0

/-- Whether a digit of the body stands at an index. Behind a zero and an x digits are hexadecimal.
-/
def DigitAt (text : List UInt8) (i : Nat) : Prop :=
  bodyStart text ≤ i ∧ ∃ b ∈ text[i]?, isDigit (beginsWith 'x' text) b

/-- Whether a separator of the body stands at an index. -/
def SeparatorAt (text : List UInt8) (i : Nat) : Prop :=
  bodyStart text ≤ i ∧ text[i]? = some separator

/-- Whether a digit of the body stands directly before an index. -/
def DigitBefore (text : List UInt8) (i : Nat) : Prop := ∃ j, i = j + 1 ∧ DigitAt text j

/-- Whether a separator is misplaced by itself: it has no digit before it, or what is behind it is
neither a digit nor another separator, or nothing is behind it. Of several separators in a row the
second is misplaced, and not the first. -/
def Misplaced (text : List UInt8) (i : Nat) : Prop :=
  SeparatorAt text i ∧
    (¬ DigitBefore text i ∨
      (∃ b ∈ text[i + 1]?, ¬ isDigit (beginsWith 'x' text) b ∧ b ≠ separator) ∨
      i + 1 = text.length)

/-- What announces a base is a zero with one of three letters. -/
theorem announced?_eq (text : List UInt8) :
    announced? text =
      if beginsWith 'x' text then some .hexadecimal
      else if beginsWith 'o' text then some .octal
      else if beginsWith 'b' text then some .binary
      else none := by
  have markers : ∀ n < 0x100,
      Radix.ofMarker? (Char.ofUInt8 (UInt8.ofNat n)) =
        if (Char.ofUInt8 (UInt8.ofNat n)).toLower == 'x' then some .hexadecimal
        else if (Char.ofUInt8 (UInt8.ofNat n)).toLower == 'o' then some .octal
        else if (Char.ofUInt8 (UInt8.ofNat n)).toLower == 'b' then some .binary
        else none := by
    decide +kernel
  unfold announced?
  split
  · next marker rest =>
    have here := markers marker.toNat marker.toNat_lt
    rw [UInt8.ofNat_toNat] at here
    exact here
  · next other =>
    have without (letter : Char) : beginsWith letter text = false := by
      unfold beginsWith
      split
      · next marker rest => exact (other marker rest rfl).elim
      · rfl
    simp [without]

/-- No separator is a digit, whatever the base. -/
theorem not_isDigit_separator (hexadecimal : Bool) : ¬ isDigit hexadecimal separator := by
  cases hexadecimal <;> decide

/-! ## Separators in place -/

variable {text : List UInt8} {i : Nat}

/-- No digit stands where a separator does. -/
theorem not_digitAt_of_separatorAt (here : SeparatorAt text i) : ¬ DigitAt text i := by
  rintro ⟨-, b, mem, digit⟩
  rw [here.2] at mem
  cases mem
  exact not_isDigit_separator _ digit

/-- A separator with a digit before it is misplaced unless a digit or another separator follows. -/
theorem misplaced_iff_of_digitBefore (here : SeparatorAt text i) (digit : DigitBefore text i) :
    Misplaced text i ↔
      ∀ b ∈ text[i + 1]?, ¬ isDigit (beginsWith 'x' text) b ∧ b ≠ separator := by
  have inside : i < text.length := (List.getElem?_eq_some_iff.mp here.2).1
  constructor
  · rintro ⟨-, without | ⟨b, mem, apart⟩ | last⟩ c other
    · exact absurd digit without
    · rw [Option.mem_unique other mem]
      exact apart
    · rw [List.getElem?_eq_none (Nat.le_of_eq last.symm)] at other
      cases other
  · intro apart
    refine ⟨here, .inr ?_⟩
    rcases Nat.lt_or_ge (i + 1) text.length with more | last
    · have next := List.getElem?_eq_getElem more
      exact .inl ⟨text[i + 1], next, apart _ next⟩
    · exact .inr (by omega)

/-- **Separators are all in place if none is misplaced.** A separator that is followed by another is
not misplaced itself, but the other one is. -/
theorem forall_not_misplaced_iff :
    (∀ i, ¬ Misplaced text i) ↔
      ∀ i, SeparatorAt text i → DigitBefore text i ∧ DigitAt text (i + 1) := by
  constructor
  · intro none i here
    have digit : DigitBefore text i := by
      by_contra without
      exact none i ⟨here, .inl without⟩
    have follows := mt (misplaced_iff_of_digitBefore here digit).mpr (none i)
    push Not at follows
    obtain ⟨b, mem, close⟩ := follows
    refine ⟨digit, Nat.le_succ_of_le here.1, b, mem, ?_⟩
    by_contra other
    obtain rfl := close other
    -- Two separators in a row: the second one has none but a separator before it.
    have second : SeparatorAt text (i + 1) := ⟨Nat.le_succ_of_le here.1, mem⟩
    refine none (i + 1) ⟨second, .inl ?_⟩
    rintro ⟨j, same, before⟩
    obtain rfl : i = j := by omega
    exact not_digitAt_of_separatorAt here before
  · intro inPlace i misplaced
    obtain ⟨digit, -, b, mem, follows⟩ := inPlace i misplaced.1
    exact ((misplaced_iff_of_digitBefore misplaced.1 digit).mp misplaced b mem).1 follows

/-! ## Judging one separator after the other -/

/-- Whether an answer is the first index of some kind, or says that there is none. -/
def IsFirst (kind : Nat → Prop) : Option Nat → Prop
  | none => ∀ i, ¬ kind i
  | some i => kind i ∧ ∀ j < i, ¬ kind j

/-- There is no first index of a kind exactly if there is none at all. -/
theorem IsFirst.eq_none_iff {kind : Nat → Prop} {answer : Option Nat}
    (first : IsFirst kind answer) :
    answer = none ↔ ∀ i, ¬ kind i := by
  cases answer with
  | none => exact ⟨fun _ => first, fun _ => rfl⟩
  | some i => exact ⟨nofun, fun none => absurd first.1 (none i)⟩

/-- An index is the first of a kind exactly if it is of that kind and no smaller one is. -/
theorem IsFirst.eq_some_iff {kind : Nat → Prop} {answer : Option Nat} (first : IsFirst kind answer)
    (i : Nat) : answer = some i ↔ kind i ∧ ∀ j < i, ¬ kind j := by
  cases answer with
  | none => exact ⟨nofun, fun found => absurd found.1 (first i)⟩
  | some n =>
    constructor
    · rintro ⟨⟩
      exact first
    · rintro ⟨here, before⟩
      rcases Nat.lt_trichotomy n i with lt | rfl | gt
      · exact absurd first.1 (before n lt)
      · rfl
      · exact absurd here (first.2 i gt)

/-- What a byte is to the separators beside it. -/
def neighbour (hexadecimal : Bool) (b : UInt8) : Neighbour :=
  if b = separator then .separator else if isDigit hexadecimal b then .digit else .other

/-- Only a separator is the neighbour of that name. -/
theorem neighbour_eq_separator_iff {hexadecimal : Bool} {b : UInt8} :
    neighbour hexadecimal b = .separator ↔ b = separator := by
  unfold neighbour
  split_ifs <;> simp_all

/-- A byte is a digit to the separators beside it exactly if it is one in the base. -/
theorem neighbour_eq_digit_iff {hexadecimal : Bool} {b : UInt8} :
    neighbour hexadecimal b = .digit ↔ isDigit hexadecimal b := by
  have apart := not_isDigit_separator hexadecimal
  unfold neighbour
  split_ifs <;> simp_all

/-- What is neither a separator nor a digit is something else. -/
theorem neighbour_eq_other {hexadecimal : Bool} {b : UInt8} (apart : b ≠ separator)
    (other : ¬ isDigit hexadecimal b) : neighbour hexadecimal b = .other := by
  rw [neighbour, if_neg apart, if_neg other]

/-- Whether a pass that comes to an index, with `left` to its left, has judged all separators in
front of the index but the one that may stand directly there; and that one has a digit before it. -/
structure Judged (text : List UInt8) (left : Neighbour) (index : Nat) : Prop where
  start_le : bodyStart text ≤ index
  digit_iff : left = .digit ↔ DigitBefore text index
  pending : left = .separator → ∃ j, index = j + 1 ∧ SeparatorAt text j ∧ DigitBefore text j
  settled : ∀ j < index, Misplaced text j → left = .separator ∧ index = j + 1

namespace Judged

variable {left : Neighbour} {index : Nat} {b : UInt8}

/-- At the start of the body there is nothing to judge. -/
theorem start (text : List UInt8) : Judged text .other (bodyStart text) where
  start_le := Nat.le_refl _
  digit_iff := by
    refine ⟨nofun, ?_⟩
    rintro ⟨j, same, le, -⟩
    omega
  pending := nofun
  settled j lt misplaced := absurd misplaced.1.1 (Nat.not_le_of_lt lt)

/-- A misplaced separator in front of an index is the one directly there, and the byte at the index
does not close it. -/
theorem apart_of_misplaced (judged : Judged text left index) (here : text[index]? = some b)
    (before : i < index) (misplaced : Misplaced text i) :
    left = .separator ∧ ¬ isDigit (beginsWith 'x' text) b ∧ b ≠ separator := by
  obtain ⟨isLeft, rfl⟩ := judged.settled i before misplaced
  obtain ⟨_, same, separates, digit⟩ := judged.pending isLeft
  cases same
  exact ⟨isLeft, (misplaced_iff_of_digitBefore separates digit).mp misplaced b here⟩

/-- **One byte further on** all is judged but that byte, unless it is a separator without a digit
before it, or there is a separator before it and it is no digit. -/
theorem step (judged : Judged text left index) (here : text[index]? = some b)
    (behindDigit : b = separator → left = .digit)
    (closes : left = .separator → isDigit (beginsWith 'x' text) b) :
    Judged text (neighbour (beginsWith 'x' text) b) (index + 1) where
  start_le := Nat.le_succ_of_le judged.start_le
  digit_iff := by
    rw [neighbour_eq_digit_iff]
    constructor
    · intro digit
      exact ⟨index, rfl, judged.start_le, b, here, digit⟩
    · rintro ⟨j, same, -, c, mem, digit⟩
      obtain rfl : index = j := by omega
      rw [here] at mem
      cases mem
      exact digit
  pending is := by
    rw [neighbour_eq_separator_iff] at is
    exact ⟨index, rfl, ⟨judged.start_le, is ▸ here⟩, judged.digit_iff.mp (behindDigit is)⟩
  settled j lt misplaced := by
    rcases Nat.lt_succ_iff_lt_or_eq.mp lt with before | rfl
    · obtain ⟨isLeft, other, -⟩ := judged.apart_of_misplaced here before misplaced
      exact absurd (closes isLeft) other
    · have is : b = separator := Option.some.inj (here.symm.trans misplaced.1.2)
      exact ⟨neighbour_eq_separator_iff.mpr is, rfl⟩

/-- A separator without a digit before it is the first that is misplaced. -/
theorem isFirst_here (judged : Judged text left index) (here : text[index]? = some separator)
    (other : left ≠ .digit) : IsFirst (Misplaced text) (some index) := by
  refine ⟨⟨⟨judged.start_le, here⟩, .inl (mt judged.digit_iff.mpr other)⟩, ?_⟩
  intro j before misplaced
  exact (judged.apart_of_misplaced here before misplaced).2.2 rfl

/-- A separator that nothing closes, neither a digit nor another separator, is the first that is
misplaced. -/
theorem isFirst_left (judged : Judged text .separator index)
    (apart : ∀ b ∈ text[index]?, ¬ isDigit (beginsWith 'x' text) b ∧ b ≠ separator) :
    IsFirst (Misplaced text) (some (index - 1)) := by
  obtain ⟨i, rfl, separates, digit⟩ := judged.pending rfl
  rw [Nat.add_sub_cancel]
  refine ⟨(misplaced_iff_of_digitBefore separates digit).mpr apart, ?_⟩
  intro j lt misplaced
  have last := (judged.settled j (Nat.lt_succ_of_lt lt) misplaced).2
  omega

/-- At the end of the text no separator is misplaced, unless one stands there. -/
theorem isFirst_none (judged : Judged text left index) (beyond : text.length ≤ index)
    (other : left ≠ .separator) : IsFirst (Misplaced text) none := by
  intro i misplaced
  have inside : i < text.length := (List.getElem?_eq_some_iff.mp misplaced.1.2).1
  exact other (judged.settled i (by omega) misplaced).1

/-- **The pass finds the first misplaced separator**, from wherever all before is judged. -/
theorem isFirst_misplacedFrom (judged : Judged text left index) {rest : List UInt8}
    (ahead : text.drop index = rest) :
    IsFirst (Misplaced text) (misplacedFrom (beginsWith 'x' text) left index rest) := by
  -- The induction follows the loop, and `judged` is its invariant: it says what the neighbour on
  -- the left stands for and that no separator further left is misplaced.
  induction rest generalizing left index with
  | nil =>
    have beyond : text.length ≤ index := List.drop_eq_nil_iff.mp ahead
    rw [misplacedFrom]
    split
    · next isLeft =>
      subst isLeft
      apply judged.isFirst_left
      intro b mem
      rw [List.getElem?_eq_none beyond] at mem
      cases mem
    · next other => exact judged.isFirst_none beyond other
  | cons b rest ih =>
    have here : text[index]? = some b := by
      rw [← List.head?_drop, ahead, List.head?_cons]
    have later : text.drop (index + 1) = rest := by
      rw [← List.tail_drop, ahead, List.tail_cons]
    rw [misplacedFrom]
    split
    · next is =>
      subst is
      split
      · next digit =>
        have apart : left ≠ .separator := by rw [digit]; decide
        have onward := judged.step here (fun _ => digit) (fun isLeft => absurd isLeft apart)
        rw [neighbour_eq_separator_iff.mpr rfl] at onward
        exact ih onward later
      · next other => exact judged.isFirst_here here other
    next apart =>
    split
    · next digit =>
      have onward := judged.step here (fun is => absurd is apart) (fun _ => digit)
      rw [neighbour_eq_digit_iff.mpr digit] at onward
      exact ih onward later
    next other =>
    split
    · next isLeft =>
      subst isLeft
      apply judged.isFirst_left
      intro c mem
      rw [here] at mem
      cases mem
      exact ⟨other, apart⟩
    · next free =>
      have onward := judged.step here (fun is => absurd is apart) (fun isLeft => absurd isLeft free)
      rw [neighbour_eq_other apart other] at onward
      exact ih onward later

end Judged

/-- A text is read from the start of its body on. -/
theorem misplaced?_eq (text : List UInt8) :
    misplaced? text =
      misplacedFrom (beginsWith 'x' text) .other (bodyStart text) (text.drop (bodyStart text)) := by
  rw [misplaced?, announced?_eq, bodyStart]
  by_cases x : beginsWith 'x' text
  · simp [x]
  · by_cases o : beginsWith 'o' text
    · simp [x, o]
    · by_cases b : beginsWith 'b' text <;> simp [x, o, b]

/-- **What is found in a text is its first misplaced separator.** -/
theorem isFirst_misplaced? (text : List UInt8) : IsFirst (Misplaced text) (misplaced? text) := by
  rw [misplaced?_eq]
  exact (Judged.start text).isFirst_misplacedFrom rfl

/-- What is found to be misplaced is a separator of the text. -/
theorem getElem?_of_misplaced? (found : misplaced? text = some i) : text[i]? = some separator :=
  (((isFirst_misplaced? text).eq_some_iff i).mp found).1.1.2

/-- **Separators are judged exactly.** No separator of a text is found to be misplaced just if each
one in the body has a digit of the body directly before it and directly behind it. Otherwise the
separator that is found is the first one in the body that has no digit of the body directly before
it, or that is followed by a byte which is neither a digit nor a separator, or that is the last byte
of the text. -/
theorem separators_judged (text : List UInt8) :
    (misplaced? text = none ↔
      ∀ i, SeparatorAt text i → DigitBefore text i ∧ DigitAt text (i + 1)) ∧
    ∀ i, misplaced? text = some i ↔ Misplaced text i ∧ ∀ j < i, ¬ Misplaced text j := by
  have first := isFirst_misplaced? text
  exact ⟨first.eq_none_iff.trans forall_not_misplaced_iff, first.eq_some_iff⟩

/-- The texts `1__0`, `1_.5`, `1_`, `0x_1` and `0X1_f`. -/
example :
    [[0x31, 0x5F, 0x5F, 0x30], [0x31, 0x5F, 0x2E, 0x35], [0x31, 0x5F], [0x30, 0x78, 0x5F, 0x31],
      [0x30, 0x58, 0x31, 0x5F, 0x66]].map misplaced? = [some 2, some 1, some 1, some 2, none] := by
  decide

end SheetFormula.Separator

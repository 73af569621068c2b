import Mathlib.Tactic.Common
import SheetFormula.Proofs.Parse.Whole

/-!
# Nothing is dropped silently

Of every lexeme that a parse has passed it can be told what became of it (`Fate`): it led the
formula, its position is stored in the tree, once, it is a comma that separates entries, or a
diagnostic stands at its offset. Where the parse stopped there is the end, or a diagnostic says that
there should be. This holds of any source that is not too long, however much of it is amiss.

The positions of lexemes tell them apart (`Journal.Leads.count_pos_le_one`), so that a position is
stored as often as the tree has marks that were read from its lexeme.

Main results:
* `fate_of_shows`: each lexeme that has been passed on the way through a reading has a fate.
* `Reading.accountedFor`: a reading accounts for all lexemes, as far as its faults are among the
  diagnostics.
* `recovery_accounts_for_lexemes`: so do the parses of formulas and of parameter lists.
-/

namespace SheetFormula

open Production Grammar

/-- Whether some diagnostic is at an offset. -/
def Diagnostics.Mentions (ds : Diagnostics) (offset : Nat) : Prop :=
  ∃ d ∈ ds.items, d.offset = offset

/-- What can become of a lexeme in a parse with the diagnostics `ds`, where `lead` led the formula
and `parts` were read into a tree with certain marks. -/
inductive Fate (ds : Diagnostics) (lead : List Lexeme) (marks parts : List Part) (l : Lexeme) : Prop
  | leads (mem : l ∈ lead)
  /-- The position is stored in exactly one place. That stands for this very lexeme, or else it is
  the place of a mark that was demanded, and a diagnostic is at the offset. -/
  | stored (m : Part) (mem : m ∈ marks) (here : m.pos = l.pos)
      (once : (marks.map Part.pos).count l.pos = 1)
      (own : m.lexeme = l ∨ m.role.isDemanded ∧ ds.Mentions l.pos.offset)
  | separates (comma : l.token = .comma) (mem : ⟨.separator, l⟩ ∈ parts)
  | reported (mentions : ds.Mentions l.pos.offset)

/-- Whether a parse accounts for each lexeme up to where it stopped: the lexemes that it has passed
are those that led and those that its tree was read from, less the end, each of them has a fate, and
where it stopped there is the end, or a diagnostic that misses it. -/
def AccountedFor (ds : Diagnostics) (lexemes lead : List Lexeme) (marks parts : List Part) : Prop :=
  ∃ k, lexemes.take k = lead ++ (parts.map Part.lexeme).filter (·.token ≠ .endOfFormula) ∧
    (∀ l ∈ lexemes.take k, Fate ds lead marks parts l) ∧
    ∃ l, lexemes[k]? = some l ∧ (l.token = .endOfFormula ∨
      ∃ found, ⟨l.pos.offset, "expected end of formula, found " ++ found⟩ ∈ ds.items)

/-! ## Fates -/

section

variable {α : Type} {reads : (Nat → Prop) → List Part → Prop} {lead : List Lexeme}
  {marks : List Part} {s : TokenStream} {ran : Outcome α} {ds : Diagnostics}

/-- Each lexeme that has been passed on the way through a reading has a fate. -/
theorem fate_of_shows {parts : List Part} (shown : Shows ds.Mentions marks parts)
    (start : s.Orderly) (leads : Journal.Leads s ran.journal ran.rest)
    (consumed : ran.journal.consumed = lead ++ parts.map Part.lexeme) {l : Lexeme}
    (passed : l ∈ ran.journal.consumed) (more : l.token ≠ .endOfFormula) :
    Fate ds lead marks parts l := by
  have here := leads.subset_lexemes.1 passed
  have atMost := leads.count_pos_le_one start here more
  rw [consumed] at passed atMost
  rcases List.mem_append.mp passed with front | inside
  · exact .leads front
  · obtain ⟨p, part, rfl⟩ := List.mem_map.mp inside
    by_cases mark : p.isMark
    · obtain ⟨m, mem, fits⟩ := shown.exists_fits part mark
      have among : p.pos ∈ (parts.filter Part.isMark).map Part.pos :=
        List.mem_map_of_mem (List.mem_filter.mpr ⟨part, mark⟩)
      have within : ((parts.filter Part.isMark).map Part.pos).count p.pos ≤ 1 := by
        refine Nat.le_trans ?_ atMost
        rw [List.map_append, List.count_append, List.map_map]
        exact Nat.le_trans ((List.filter_sublist.map Part.pos).count_le _) (Nat.le_add_left ..)
      refine .stored m mem fits.pos_eq.symm ?_ ?_
      · rw [shown.map_pos]
        exact Nat.le_antisymm within (List.count_pos_iff.mpr among)
      · rcases fits with rfl | ⟨demanded, -, same, mentions⟩
        · exact .inl rfl
        · exact .inr ⟨demanded, same ▸ mentions⟩
    · obtain ⟨role, comma | mentions⟩ := shown.separators p part (Bool.eq_false_iff.mpr mark)
      · refine .separates comma ?_
        rwa [← role]
      · exact .reported mentions

/-- The wording of a diagnostic that misses the end. -/
theorem message_expected_end (found : String) :
    (SyntaxFault.expected .endOfFormula (some found)).message =
      "expected end of formula, found " ++ found := rfl

/-- **A reading accounts for all lexemes** as far as its faults are among the diagnostics. -/
theorem Reading.accountedFor (reading : Reading reads lead ran) (start : s.Orderly)
    (leads : Journal.Leads s ran.journal ran.rest)
    (shown : ∀ parts, reads ds.Mentions parts → Shows ds.Mentions marks parts)
    (solid : ∀ l ∈ lead, l.token ≠ .endOfFormula)
    (told : ∀ offset fault, (offset, fault) ∈ ran.journal.noted →
      ⟨offset, fault.message⟩ ∈ ds.items) :
    ∃ parts, reads ds.Mentions parts ∧ AccountedFor ds s.lexemes lead marks parts := by
  obtain ⟨parts, consumed, read⟩ := reading.accounts ds.Mentions
    fun n mem => ⟨_, told n.1 n.2 mem, rfl⟩
  have split := leads.lexemes_eq start
  obtain ⟨later, front⟩ := ran.rest.lexemes_eq_cons
  refine ⟨parts, read,
    (ran.journal.consumed.filter (·.token ≠ .endOfFormula)).length, ?_, ?_, ?_⟩
  · rw [split, List.take_left, consumed, List.filter_append]
    congr 1
    exact List.filter_eq_self.mpr fun l mem => decide_eq_true (solid l mem)
  · rw [split, List.take_left]
    intro l mem
    obtain ⟨passed, more⟩ := List.mem_filter.mp mem
    exact fate_of_shows (shown parts read) start leads consumed passed (by simpa using more)
  · refine ⟨ran.rest.lookahead.lexeme, ?_, ?_⟩
    · rw [split, List.getElem?_append_right (Nat.le_refl _), Nat.sub_self, front,
        List.getElem?_cons_zero]
    · rcases reading.ends with last | noted
      · exact .inl last
      · right
        have missed := told _ _ noted
        rw [message_expected_end] at missed
        exact ⟨_, missed⟩

end

/-- **Recovery never drops a lexeme silently.** Whatever is amiss in a source that is not too long,
the parse of a formula and that of a parameter list account for every lexeme up to where they
stopped: it leads the formula, its position is stored exactly once in the tree, it is a comma
between the entries that the tree was read from, or there is a diagnostic at its offset. -/
theorem recovery_accounts_for_lexemes (options : ParseOptions) (source : List UInt8)
    (short : characterCount source ≤ lengthLimit) :
    (∃ parts,
      (parseFormula options source).root.Reads
        (parseFormula options source).diagnostics.Mentions parts ∧
      AccountedFor (parseFormula options source).diagnostics (lex source).lexemes
        (leading (lex source).lexemes) (parseFormula options source).root.marks parts) ∧
    (∃ parts,
      (parseParameters options source).root.Reads
        (parseParameters options source).diagnostics.Mentions parts ∧
      AccountedFor (parseParameters options source).diagnostics (lex source).lexemes []
        (parseParameters options source).root.marks parts) := by
  have start := TokenStream.orderly_ofSource source
  constructor
  · rw [parseFormula, (Parse.parseWith_of_short sound_formula _ options short).1]
    refine (reading_formula start).accountedFor start (leads_formula _)
      (Expr.Reads.shows _) ?_ ?_
    · intro l mem
      rw [mem_leading mem]
      rintro ⟨⟩
    · intro offset fault noted
      exact Parse.mem_diagnostics_of_mem_noted sound_formula _ options short noted
  · rw [parseParameters, (Parse.parseWith_of_short sound_parametersOnly _ options short).1]
    refine (reading_parametersOnly start).accountedFor start (leads_parametersOnly _)
      (fun parts reads => reads.shows) (by simp) ?_
    intro offset fault noted
    exact Parse.mem_diagnostics_of_mem_noted sound_parametersOnly _ options short noted

/-- The source `=F(1 2;`, with a stray argument and a list that does not close, is accounted for. -/
theorem recovery_accounts_for_stray_argument :
    characterCount "=F(1 2;".toUTF8.toList ≤ lengthLimit ∧
      ∃ parts,
        (parseFormula {} "=F(1 2;".toUTF8.toList).root.Reads
          (parseFormula {} "=F(1 2;".toUTF8.toList).diagnostics.Mentions parts ∧
        AccountedFor (parseFormula {} "=F(1 2;".toUTF8.toList).diagnostics
          (lex "=F(1 2;".toUTF8.toList).lexemes (leading (lex "=F(1 2;".toUTF8.toList).lexemes)
          (parseFormula {} "=F(1 2;".toUTF8.toList).root.marks parts := by
  have short : characterCount "=F(1 2;".toUTF8.toList ≤ lengthLimit := by decide +kernel
  exact ⟨short, (recovery_accounts_for_lexemes {} _ short).1⟩

end SheetFormula

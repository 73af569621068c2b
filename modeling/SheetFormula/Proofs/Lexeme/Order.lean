import Mathlib.Data.List.Nodup
import Mathlib.Tactic.Common
import SheetFormula.Proofs.Lexeme.Tiling

/-!
# Orderly streams

What a parser may rely on in the token stream of any source: positions grow, only the end is an end,
and no lexeme has a text that its kind does not keep.

* `TokenStream.orderly_ofSource`: the stream of a source is orderly.
* `TokenStream.Orderly.advance`: it remains so as lexemes are consumed.
* `TokenStream.passed_eq`: what is consumed one after the other are the lexemes of the stream, and
  behind the last of them the end again and again.
-/

namespace SheetFormula

/-- A lexeme whose kind keeps no text accords only with an empty literal. -/
theorem Token.Accords.literal_eq {t : Token} {before text after : List UInt8} {literal : String}
    (accords : t.Accords before text after literal) (plain : ¬ t.keepsText) : literal = "" := by
  cases t
  all_goals first
    | exact absurd rfl plain
    | exact accords.elim
    | exact accords.2
    | exact accords.2.1

namespace TokenStream

/-- Whether a stream is like that of a source. -/
structure Orderly (s : TokenStream) : Prop where
  literal_eq : ∀ scan ∈ s.tokens, ¬ scan.token.keepsText → scan.lexeme.literal = ""
  token_ne : ∀ scan ∈ s.tokens, scan.token ≠ .endOfFormula
  ascends : s.lexemes.Pairwise fun l m => l.pos < m.pos

/-- **The stream of a source is orderly.** -/
theorem orderly_ofSource (source : List UInt8) : (ofSource source).Orderly := by
  refine ⟨?_, ?_, pairwise_pos_lexemes source⟩
  · intro scan mem plain
    obtain ⟨t, before, after, same, lies⟩ := exists_lies_of_mem_tokens mem
    rw [Scanned.token, ← same] at plain
    rw [← same]
    exact lies.accords.literal_eq plain
  · intro scan mem
    obtain ⟨t, before, after, same, lies⟩ := exists_lies_of_mem_tokens mem
    rw [Scanned.token, ← same]
    exact Scanner.token_ne_end_of_lies lies

variable {s : TokenStream}

/-- A stream with lexemes ahead, split into the one in front and the stream behind it. -/
theorem exists_cons_of_ne (more : s.tokens ≠ []) :
    s.tokens = s.lookahead :: s.advance.tokens ∧ s.advance.finish = s.finish := by
  obtain ⟨tokens, finish⟩ := s
  cases tokens with
  | nil => exact absurd rfl more
  | cons scan tokens => exact ⟨rfl, rfl⟩

/-- With nothing ahead the end is in front. -/
theorem lookahead_token_of_nil (nothing : s.tokens = []) :
    s.lookahead.token = .endOfFormula := by
  simp [lookahead, nothing, StreamEnd.scanned, Scanned.token]

/-- If something else than the end is in front, something is ahead. -/
theorem tokens_ne_nil (more : s.lookahead.token ≠ .endOfFormula) : s.tokens ≠ [] := by
  intro nothing
  exact more (lookahead_token_of_nil nothing)

/-- The scan in front is one of the scans of its stream. -/
theorem lookahead_mem_scans (s : TokenStream) : s.lookahead ∈ s.scans := by
  cases ahead : s.tokens <;> simp [scans, lookahead, ahead]

/-- At its end a stream stays at its end. -/
theorem tokens_advance_of_nil (nothing : s.tokens = []) :
    s.advance.tokens = [] ∧ s.advance.lookahead.lexeme = s.lookahead.lexeme := by
  obtain ⟨tokens, finish⟩ := s
  obtain rfl : tokens = [] := nothing
  exact ⟨rfl, rfl⟩

/-- The lexemes of a stream, split into the one in front and those behind it. -/
theorem lexemes_of_ne (more : s.tokens ≠ []) :
    s.lexemes = s.lookahead.lexeme :: s.advance.lexemes := by
  obtain ⟨row, same⟩ := exists_cons_of_ne more
  rw [lexemes, lexemes, same, row, List.map_cons, List.cons_append]

/-- With nothing ahead the lexeme in front is the only one. -/
theorem lexemes_of_nil (nothing : s.tokens = []) : s.lexemes = [s.lookahead.lexeme] := by
  simp [lexemes, lookahead, nothing]

/-- The lexeme in front is the first of the lexemes. -/
theorem lexemes_eq_cons (s : TokenStream) : ∃ later, s.lexemes = s.lookahead.lexeme :: later := by
  by_cases nothing : s.tokens = []
  · exact ⟨[], lexemes_of_nil nothing⟩
  · exact ⟨_, lexemes_of_ne nothing⟩

/-- The lexeme in front is one of the lexemes. -/
theorem mem_lexemes_lookahead (s : TokenStream) : s.lookahead.lexeme ∈ s.lexemes := by
  obtain ⟨later, front⟩ := s.lexemes_eq_cons
  rw [front]
  exact List.mem_cons_self

/-- What is ahead behind the lexeme in front is ahead before it. -/
theorem lexemes_advance_subset (s : TokenStream) : s.advance.lexemes ⊆ s.lexemes := by
  by_cases nothing : s.tokens = []
  · obtain ⟨stays, same⟩ := tokens_advance_of_nil nothing
    rw [lexemes_of_nil stays, same, ← lexemes_of_nil nothing]
    exact List.Subset.refl _
  · rw [lexemes_of_ne nothing]
    exact List.subset_cons_self ..

/-- The stream behind the lexeme in front is orderly too. -/
theorem Orderly.advance (orderly : s.Orderly) : s.advance.Orderly := by
  by_cases nothing : s.tokens = []
  · obtain ⟨stays, -⟩ := tokens_advance_of_nil nothing
    refine ⟨?_, ?_, ?_⟩
    · simp [stays]
    · simp [stays]
    · rw [lexemes_of_nil stays]
      exact List.pairwise_singleton ..
  · obtain ⟨row, same⟩ := exists_cons_of_ne nothing
    refine ⟨?_, ?_, ?_⟩
    · intro scan mem
      exact orderly.literal_eq scan (row ▸ List.mem_cons_of_mem _ mem)
    · intro scan mem
      exact orderly.token_ne scan (row ▸ List.mem_cons_of_mem _ mem)
    · have ascends := orderly.ascends
      rw [lexemes_of_ne nothing] at ascends
      exact (List.pairwise_cons.mp ascends).2

/-- The lexeme in front of an orderly stream is its position and its kind, where the kind keeps no
text. -/
theorem Orderly.lookahead_eq (orderly : s.Orderly) (plain : ¬ s.lookahead.token.keepsText) :
    s.lookahead.lexeme = ⟨s.lookahead.pos, s.lookahead.token, ""⟩ := by
  have empty : s.lookahead.lexeme.literal = "" := by
    by_cases nothing : s.tokens = []
    · simp [lookahead, nothing, StreamEnd.scanned]
    · apply orderly.literal_eq s.lookahead _ plain
      rw [(exists_cons_of_ne nothing).1]
      exact List.mem_cons_self
  rw [← empty]
  rfl

/-- No two lexemes of an orderly stream stand at one position. -/
theorem Orderly.nodup_pos (orderly : s.Orderly) : (s.lexemes.map Lexeme.pos).Nodup := by
  rw [List.Nodup, List.pairwise_map]
  apply orderly.ascends.imp
  intro l m further same
  rw [same] at further
  exact Nat.lt_irrefl m.pos.index further

/-- In an orderly stream nothing is ahead exactly if the end is in front. -/
theorem Orderly.tokens_eq_nil_iff (orderly : s.Orderly) :
    s.tokens = [] ↔ s.lookahead.token = .endOfFormula := by
  constructor
  · exact lookahead_token_of_nil
  · intro last
    by_contra more
    refine orderly.token_ne s.lookahead ?_ last
    rw [(exists_cons_of_ne more).1]
    exact List.mem_cons_self

/-! ## One lexeme after the other -/

/-- The stream behind so many lexemes. -/
def skip (s : TokenStream) : Nat → TokenStream
  | 0 => s
  | n + 1 => s.advance.skip n

/-- Skipping goes in two steps as well as in one. -/
theorem skip_add (s : TokenStream) (n m : Nat) : s.skip (n + m) = (s.skip n).skip m := by
  induction n generalizing s with
  | zero => rw [Nat.zero_add]; rfl
  | succ n ih => rw [Nat.succ_add]; exact ih s.advance

/-- One lexeme behind so many lexemes is behind one more. -/
theorem advance_skip (s : TokenStream) (n : Nat) : (s.skip n).advance = s.skip (n + 1) :=
  (s.skip_add n 1).symm

/-- The lexemes that come to stand in front as a stream is advanced so many times. -/
def passed (s : TokenStream) : Nat → List Lexeme
  | 0 => []
  | n + 1 => s.lookahead.lexeme :: s.advance.passed n

/-- The lexemes that are passed in two steps are those of the one and of the other. -/
theorem passed_add (s : TokenStream) (n m : Nat) :
    s.passed (n + m) = s.passed n ++ (s.skip n).passed m := by
  induction n generalizing s with
  | zero => rw [Nat.zero_add]; rfl
  | succ n ih =>
    rw [Nat.succ_add, passed, passed, ih]
    rfl

/-- **The lexemes that are passed are those of the stream**, and behind its end the end again. -/
theorem passed_eq (s : TokenStream) (n : Nat) :
    s.passed n =
      s.lexemes.take n ++ List.replicate (n - s.lexemes.length) s.finish.scanned.lexeme := by
  induction n generalizing s with
  | zero => simp [passed]
  | succ n ih =>
    obtain ⟨tokens, finish⟩ := s
    rw [passed, ih]
    cases tokens with
    | nil =>
      cases n with
      | zero => rfl
      | succ n => simp [advance, lexemes, lookahead, StreamEnd.again, StreamEnd.scanned,
          List.replicate_succ]
    | cons first tokens => simp [advance, lexemes, lookahead]

end TokenStream

end SheetFormula

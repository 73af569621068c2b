import SheetFormula.Parse.Journal

/-!
# Productions

A production reads lexemes from a token stream, yields a value, leaves the stream behind what it
consumed, and tells what it did in a journal. On the way it writes the log, which depends on how the
log is kept (`Tracing`): `Production.within` opens and closes a production of the grammar, and
`Production.consume` shows the lexeme that it consumes.

Two things are part of a production because productions cannot be put together without them. No
lexeme is ever put back, which is what lets productions be repeated, and as many productions are
open behind a run as in front of it. `Production.iterate` repeats a step as long as the step asks
for it, provided that every step that asks has consumed a lexeme; no count of steps is ever needed.
-/

namespace SheetFormula

/-- What a production makes of a token stream. -/
structure Outcome (α : Type) where
  value : α
  rest : TokenStream
  journal : Journal

/-- What is read with a production of the grammar, which the journal shows. -/
def Outcome.around {α : Type} (rule : Rule) (inner : Outcome α) : Outcome α :=
  { inner with journal := rule.around inner.journal }

/-- What a run of a production leaves behind: its outcome, how the log is kept from here on, and
what was written to it. -/
structure Passage (α : Type) extends Outcome α where
  tracing : Tracing
  log : List Log.Record

/-- A way of reading a token stream. -/
structure Production (α : Type) where
  /-- Reads a stream, where the log is kept in this way. -/
  pass : Tracing → TokenStream → Passage α
  /-- A production closes what it opens. -/
  tracing_pass : ∀ tracing s, (pass tracing s).tracing = tracing
  /-- No production puts a lexeme back. -/
  size_pass_le : ∀ tracing s, (pass tracing s).rest.size ≤ s.size

namespace Production

variable {α β : Type}

/-- Reads a stream without showing anything in the log. -/
def run (p : Production α) (s : TokenStream) : Outcome α := (p.pass {} s).toOutcome

theorem size_run_le (p : Production α) (s : TokenStream) : (p.run s).rest.size ≤ s.size :=
  p.size_pass_le {} s

/-- Productions are the same if they do the same on every stream, however the log is kept. -/
theorem eq_of_pass {p q : Production α} (same : ∀ tracing s, p.pass tracing s = q.pass tracing s) :
    p = q := by
  obtain ⟨pass, _, _⟩ := p
  obtain ⟨pass', _, _⟩ := q
  obtain rfl : pass = pass' := funext fun tracing => funext (same tracing)
  rfl

/-! ## Composition -/

/-- Yields a value and reads nothing. -/
protected def pure (a : α) : Production α where
  pass tracing s := ⟨⟨a, s, []⟩, tracing, []⟩
  tracing_pass _ _ := rfl
  size_pass_le _ s := Nat.le_refl s.size

/-- Reads with one production, and goes on with the next where it left off. -/
protected def bind (p : Production α) (next : α → Production β) : Production β where
  pass tracing s :=
    let here := p.pass tracing s
    let there := (next here.value).pass here.tracing here.rest
    ⟨⟨there.value, there.rest, here.journal ++ there.journal⟩, there.tracing,
      here.log ++ there.log⟩
  tracing_pass tracing s := ((next _).tracing_pass _ _).trans (p.tracing_pass tracing s)
  size_pass_le tracing s := Nat.le_trans ((next _).size_pass_le _ _) (p.size_pass_le tracing s)

instance : Monad Production where
  pure := Production.pure
  bind := Production.bind

@[simp] theorem pass_pure (a : α) (tracing : Tracing) (s : TokenStream) :
    (pure a : Production α).pass tracing s = ⟨⟨a, s, []⟩, tracing, []⟩ := rfl

@[simp] theorem pass_bind (p : Production α) (next : α → Production β) (tracing : Tracing)
    (s : TokenStream) :
    (p >>= next).pass tracing s =
      let here := p.pass tracing s
      let there := (next here.value).pass tracing here.rest
      ⟨⟨there.value, there.rest, here.journal ++ there.journal⟩, tracing,
        here.log ++ there.log⟩ := by
  show (Production.bind p next).pass tracing s = _
  simp only [Production.bind, tracing_pass]

@[simp] theorem run_pure (a : α) (s : TokenStream) :
    (pure a : Production α).run s = ⟨a, s, []⟩ := rfl

@[simp] theorem run_bind (p : Production α) (next : α → Production β) (s : TokenStream) :
    (p >>= next).run s =
      ⟨((next (p.run s).value).run (p.run s).rest).value,
        ((next (p.run s).value).run (p.run s).rest).rest,
        (p.run s).journal ++ ((next (p.run s).value).run (p.run s).rest).journal⟩ := by
  simp only [run, pass_bind]

/-! ## Single steps -/

/-- The scan of the lexeme in front. -/
def lookahead : Production Scanned where
  pass tracing s := ⟨⟨s.lookahead, s, []⟩, tracing, []⟩
  tracing_pass _ _ := rfl
  size_pass_le _ s := Nat.le_refl s.size

/-- Consumes the lexeme in front, as an operand of the tree or not. The log shows the lexeme if
tracing is on; what the scanner notes about the next one it shows anyway. -/
def consume (asOperand : Bool) : Production Unit where
  pass tracing s :=
    ⟨⟨(), s.advance, [.consume s.lookahead.lexeme asOperand s.advance.lookahead]⟩, tracing,
      tracing.record (Tracing.lexemeText s.lookahead.lexeme asOperand) ++ s.advance.lookahead.note⟩
  tracing_pass _ _ := rfl
  size_pass_le _ s := s.size_advance_le

/-- Consumes the lexeme in front as an operand. -/
def takeOperand : Production Unit := consume true

/-- Consumes the lexeme in front as a mark between operands, or as one that is passed over. -/
def advance : Production Unit := consume false

/-- Notes a fault at a position. -/
def report (pos : Pos) (fault : SyntaxFault) : Production Unit where
  pass tracing s := ⟨⟨(), s, [.report pos.offset fault]⟩, tracing, []⟩
  tracing_pass _ _ := rfl
  size_pass_le _ s := Nat.le_refl s.size

/-- Notes that something else was needed at a position. What was found is told if that is the
position of the lexeme in front. -/
def reportExpected (pos : Pos) (what : Expectation) : Production Unit := do
  let here ← lookahead
  report pos (.expected what (if pos = here.pos then some here.found else none))

/-- Reads with a production of the grammar. The log shows where it begins and where it ends, if
tracing is on, and meanwhile stands one level deeper. -/
def within (rule : Rule) (p : Production α) : Production α where
  pass tracing s :=
    if tracing.shown then
      let inner := p.pass tracing.deeper s
      ⟨inner.around rule, inner.tracing.shallower,
        tracing.record (rule.name ++ " (") ++ inner.log ++ tracing.record ")"⟩
    else
      let inner := p.pass tracing s
      ⟨inner.around rule, inner.tracing, inner.log⟩
  tracing_pass tracing s := by
    split
    · simp only [tracing_pass, Tracing.shallower_deeper]
    · simp only [tracing_pass]
  size_pass_le tracing s := by
    split
    · exact p.size_pass_le _ s
    · exact p.size_pass_le _ s

/-- What is left behind a production of the grammar is left behind what it reads. -/
theorem size_pass_within_le {rule : Rule} {p : Production α} {s : TokenStream} {bound : Nat}
    (inside : ∀ tracing, (p.pass tracing s).rest.size ≤ bound) (tracing : Tracing) :
    ((within rule p).pass tracing s).rest.size ≤ bound := by
  simp only [within]
  split
  · exact inside tracing.deeper
  · exact inside tracing

@[simp] theorem pass_lookahead (tracing : Tracing) (s : TokenStream) :
    lookahead.pass tracing s = ⟨⟨s.lookahead, s, []⟩, tracing, []⟩ := rfl

@[simp] theorem pass_report (pos : Pos) (fault : SyntaxFault) (tracing : Tracing)
    (s : TokenStream) :
    (report pos fault).pass tracing s = ⟨⟨(), s, [.report pos.offset fault]⟩, tracing, []⟩ := rfl

@[simp] theorem rest_pass_advance (tracing : Tracing) (s : TokenStream) :
    (advance.pass tracing s).rest = s.advance := rfl

@[simp] theorem run_lookahead (s : TokenStream) : lookahead.run s = ⟨s.lookahead, s, []⟩ := rfl

@[simp] theorem run_takeOperand (s : TokenStream) :
    takeOperand.run s =
      ⟨(), s.advance, [.consume s.lookahead.lexeme true s.advance.lookahead]⟩ := rfl

@[simp] theorem run_advance (s : TokenStream) :
    advance.run s = ⟨(), s.advance, [.consume s.lookahead.lexeme false s.advance.lookahead]⟩ := rfl

@[simp] theorem run_report (pos : Pos) (fault : SyntaxFault) (s : TokenStream) :
    (report pos fault).run s = ⟨(), s, [.report pos.offset fault]⟩ := rfl

/-- At the lexeme in front, what was found is told. -/
@[simp] theorem run_reportExpected (what : Expectation) (s : TokenStream) :
    (reportExpected s.lookahead.pos what).run s =
      ⟨(), s, [.report s.lookahead.pos.offset (.expected what (some s.lookahead.found))]⟩ := by
  simp [reportExpected]

@[simp] theorem run_within (rule : Rule) (p : Production α) (s : TokenStream) :
    (within rule p).run s = ⟨(p.run s).value, (p.run s).rest, rule.around (p.run s).journal⟩ := rfl

/-! ## Repetition -/

/-- What a step of a repetition decides. -/
inductive Verdict (α β : Type)
  /-- Take another step, from this state. -/
  | again (state : α)
  /-- End with this result. -/
  | done (result : β)

/-- A step of a repetition makes progress if it consumes a lexeme whenever it asks for another
step. -/
def Progressive (step : α → Production (Verdict α β)) : Prop :=
  ∀ tracing a s a', ((step a).pass tracing s).value = .again a' →
    ((step a).pass tracing s).rest.size < s.size

theorem Progressive.size_run_lt {step : α → Production (Verdict α β)} (progress : Progressive step)
    {a a' : α} {s : TokenStream} (again : ((step a).run s).value = .again a') :
    ((step a).run s).rest.size < s.size :=
  progress {} a s a' again

/-- Takes steps from a state on until one of them ends the repetition. -/
def iterateFrom (step : α → Production (Verdict α β)) (progress : Progressive step)
    (state : α) (tracing : Tracing) (s : TokenStream) : Passage β :=
  match decided : (step state).pass tracing s with
  | ⟨⟨.done result, rest, journal⟩, tracing, log⟩ => ⟨⟨result, rest, journal⟩, tracing, log⟩
  | ⟨⟨.again state', rest, journal⟩, tracing', log⟩ =>
    have : rest.size < s.size := by
      have shrinks := progress tracing state s state'
      rw [decided] at shrinks
      exact shrinks rfl
    let later := iterateFrom step progress state' tracing' rest
    ⟨⟨later.value, later.rest, journal ++ later.journal⟩, later.tracing, log ++ later.log⟩
termination_by s.size

theorem tracing_iterateFrom (step : α → Production (Verdict α β)) (progress : Progressive step)
    (state : α) (tracing : Tracing) (s : TokenStream) :
    (iterateFrom step progress state tracing s).tracing = tracing := by
  fun_induction iterateFrom step progress state tracing s with
  | case1 state tracing s result rest journal tracing' log decided =>
    have same := (step state).tracing_pass tracing s
    rwa [decided] at same
  | case2 state tracing s state' rest journal tracing' log decided shrinks later ih =>
    have same := (step state).tracing_pass tracing s
    rw [decided] at same
    exact ih.trans same

theorem size_iterateFrom_le (step : α → Production (Verdict α β)) (progress : Progressive step)
    (state : α) (tracing : Tracing) (s : TokenStream) :
    (iterateFrom step progress state tracing s).rest.size ≤ s.size := by
  fun_induction iterateFrom step progress state tracing s with
  | case1 state tracing s result rest journal tracing' log decided =>
    have read := (step state).size_pass_le tracing s
    rwa [decided] at read
  | case2 state tracing s state' rest journal tracing' log decided shrinks later ih =>
    exact Nat.le_trans ih (Nat.le_of_lt shrinks)

/-- Repeats a step from a state on until it ends the repetition. -/
def iterate (step : α → Production (Verdict α β)) (progress : Progressive step) (state : α) :
    Production β where
  pass := iterateFrom step progress state
  tracing_pass := tracing_iterateFrom step progress state
  size_pass_le := size_iterateFrom_le step progress state

/-- A repetition is its first step, and the repetition from there on if the step asks for it. -/
theorem pass_iterate (step : α → Production (Verdict α β)) (progress : Progressive step)
    (state : α) (tracing : Tracing) (s : TokenStream) :
    (iterate step progress state).pass tracing s =
      let here := (step state).pass tracing s
      match here.value with
      | .done result => ⟨⟨result, here.rest, here.journal⟩, tracing, here.log⟩
      | .again state' =>
        let later := (iterate step progress state').pass tracing here.rest
        ⟨⟨later.value, later.rest, here.journal ++ later.journal⟩, tracing,
          here.log ++ later.log⟩ := by
  have same := (step state).tracing_pass tracing s
  show iterateFrom step progress state tracing s = _
  rw [iterateFrom]
  split
  · next decided =>
    rw [decided] at same
    subst same
    simp only [decided]
  · next decided =>
    rw [decided] at same
    subst same
    simp only [decided, tracing_iterateFrom]
    rfl

/-- A repetition is its first step and whatever that decides: its result, or the repetition from
there on. -/
theorem iterate_eq (step : α → Production (Verdict α β)) (progress : Progressive step) (state : α) :
    iterate step progress state = step state >>= fun
      | .done result => pure result
      | .again next => iterate step progress next := by
  apply eq_of_pass
  intro tracing s
  rw [pass_iterate, pass_bind]
  cases decided : ((step state).pass tracing s).value with
  | done result => simp only [decided, pass_pure, List.append_nil]
  | again next => simp only [decided]

theorem run_iterate (step : α → Production (Verdict α β)) (progress : Progressive step)
    (state : α) (s : TokenStream) :
    (iterate step progress state).run s =
      match ((step state).run s).value with
      | .done result => ⟨result, ((step state).run s).rest, ((step state).run s).journal⟩
      | .again state' =>
        let later := (iterate step progress state').run ((step state).run s).rest
        ⟨later.value, later.rest, ((step state).run s).journal ++ later.journal⟩ := by
  rw [run, pass_iterate]
  unfold run
  cases decided : ((step state).pass {} s).value <;> simp only [decided]

end Production

end SheetFormula

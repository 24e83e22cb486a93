import LexFront.Parser.Basic

/-!
# Running a grammar driver

A grammar driver is a step that is repeated until the input is used up or the parse is aborted. A
step that consumes nothing has one lexeme consumed for it, which is reported; a driver that keeps
doing nothing is stopped. `Parser.finish` settles the outcome once and for all.

Key facts:

* `finish_finish`: finishing twice changes nothing.
* `accepted_finish_iff`: what it takes to be accepted.
-/

set_option autoImplicit false

namespace LexFront.Parser

variable {σ T δ : Type}

/-- The entry for a finished parse. -/
def outcomeEvent (o : Outcome) (atEnd : Bool) : Event :=
  if o.accepted then
    (Event.success .parseAccepted "Parse accepted").withContext
      [("unit", o.unit), ("tokens", toString o.tokensConsumed)]
  else
    (Event.error .parseRejected "Parse rejected").withContext
      [("unit", o.unit), ("error_count", toString o.errorCount),
        ("aborted", toString o.aborted), ("at_end", toString atEnd)]

section

variable [LexemeSource σ T]

/-- The outcome if the parse were finished here. -/
def verdict (p : Parser σ T δ) : Outcome where
  unit := p.unit
  accepted := !p.aborted && p.isAtEnd && p.errorCount == 0
  errorCount := p.errorCount
  aborted := p.aborted
  tokensConsumed := p.consumed

/-- Whether there is nothing for a driver to do any more. -/
def isOver (p : Parser σ T δ) : Bool := p.aborted || p.isAtEnd

/-- Whether a step left everything as it was, from the number of lexemes consumed before it. A step
that ended the input or the parse is not idle, even if it consumed nothing. -/
def isIdle (p : Parser σ T δ) (before : Nat) : Bool := p.consumed == before && !p.isOver

/-- Settles the outcome here. -/
def settle (p : Parser σ T δ) : Outcome × Parser σ T δ :=
  (p.verdict, { p with outcome := some p.verdict }.tell (outcomeEvent p.verdict p.isAtEnd))

variable [DiagnosticSink δ]

/-- Stops a driver that left nothing consumed too often. -/
def stall (p : Parser σ T δ) (forced : Nat) : Parser σ T δ :=
  { p with aborted := true }.tell <|
    (Event.error .noProgress "Grammar driver stopped consuming tokens").withContext
      [("unit", p.unit), ("forced", toString forced), ("limit", toString p.skipLimit)]

/-- Consumes a lexeme on behalf of a driver, and reports it if it is a token. -/
def force (p : Parser σ T δ) : Parser σ T δ :=
  match p.advance with
  | (.valid t, p) => p.reportError t.text t.span
  | (_, p) => p

end

variable [FiniteSource σ T] [Terminal T]

/-- Settles the outcome: the parse is accepted if it was not aborted, nothing but trivia is left
and no token was unexpected. -/
def finish (p : Parser σ T δ) : Outcome × Parser σ T δ :=
  match p.outcome with
  | some o => (o, p)
  | none => (if p.aborted then p else p.skipTrivia.2).settle

theorem outcome_finish (p : Parser σ T δ) : p.finish.2.outcome = some p.finish.1 := by
  simp only [finish]
  split
  · next h => exact h
  · rfl

theorem finish_finish (p : Parser σ T δ) : p.finish.2.finish = p.finish := by
  rw [finish, outcome_finish]

theorem accepted_finish_iff {p : Parser σ T δ} (h : p.outcome = none) :
    p.finish.1.accepted = true ↔
      p.aborted = false ∧ p.skipTrivia.2.isAtEnd = true ∧ p.errorCount = 0 := by
  cases ha : p.aborted <;> simp [finish, settle, h, ha, verdict]

variable [DiagnosticSink δ]

/-- Repeats a step until the input is used up or the parse is aborted. `fuel` bounds the number of
steps and `forced` counts those that consumed nothing. -/
def loop {γ : Type} (step : γ → Parser σ T δ → γ × Parser σ T δ) :
    Nat → Nat → γ → Parser σ T δ → γ × Parser σ T δ
  | 0, _, g, p => (g, p)
  | fuel + 1, forced, g, p =>
    let (_, p) := p.skipTrivia
    if p.isOver then (g, p)
    else
      let (g, q) := step g p
      if q.isIdle p.consumed then
        if q.skipLimit ≤ forced then (g, q.stall (forced + 1))
        else loop step fuel (forced + 1) g q.force
      else loop step fuel forced g q

/-- Runs a grammar driver and settles the outcome. Every step brings the end closer, or the lexeme
consumed on its behalf does, so that there are at most as many steps as lexemes. A parse that is
finished already is left as it is. -/
def parseWith {γ : Type} (step : γ → Parser σ T δ → γ × Parser σ T δ) (g : γ)
    (p : Parser σ T δ) : Bool × γ × Parser σ T δ :=
  match p.outcome with
  | some o => (o.accepted, g, p)
  | none =>
    let (g, p) := loop step (p.tokens.remaining + 1) 0 g p
    let (o, p) := p.finish
    (o.accepted, g, p)

/-- Consumes all lexemes. The parse is accepted unless one is invalid. -/
def parse (p : Parser σ T δ) : Bool × Parser σ T δ :=
  let (accepted, _, p) := p.parseWith (fun _ p ↦ ((), p.advance.2)) ()
  (accepted, p)

end LexFront.Parser

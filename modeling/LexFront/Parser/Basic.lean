import LexFront.Diagnostic.Sink
import LexFront.Lexeme.Stream

/-!
# The parser core

A `Parser` goes through the lexemes of one unit for a grammar driver. It skips trivia, compares
tokens with what the driver expects, reports what is wrong to its sink and keeps count. An invalid
token aborts the parse: from then on nothing is expected any more. Whatever it has to say on the
way, to the journal or through its sink, is kept as a trace.

Key facts:

* `remaining_take_lt`: taking a lexeme brings the end closer.
* `skipTrivia_spec`: after skipping trivia, the next lexeme is none.
-/

set_option autoImplicit false

namespace LexFront

/-- The final record of a parse. -/
structure Outcome where
  unit : String
  accepted : Bool
  errorCount : Nat
  aborted : Bool
  tokensConsumed : Nat
  deriving DecidableEq, Repr

/-- What an expectation met. -/
inductive Expected (T : Type) where
  | matched (t : Token T)
  /-- Another kind of token; it has been reported and counted. -/
  | mismatched (t : Token T)
  /-- The end of the input, or a parse that was aborted before. -/
  | endOfInput (location : Location)
  /-- An invalid token; the parse is aborted. -/
  | invalid (i : InvalidToken)
  deriving DecidableEq, Repr

/-- Whether an expectation was met. -/
def Expected.isMatched {T : Type} : Expected T → Bool
  | matched _ => true
  | _ => false

/-- A parser in the middle of its unit. -/
structure Parser (σ T δ : Type) where
  tokens : LexemeStream σ T
  sink : δ
  /-- How many unexpected tokens were reported. -/
  errorCount : Nat := 0
  aborted : Bool := false
  /-- How many lexemes may be consumed on behalf of an idle driver. -/
  skipLimit : Nat := Limits.skippedTokens
  /-- Tell the journal about every expectation. -/
  logExpectations : Bool := false
  /-- Set once, when the parse is finished. -/
  outcome : Option Outcome := none
  /-- What the parser had to say, the last thing first. -/
  trace : List Emission := []

namespace Parser

variable {σ T δ : Type}

/-- The phases of a parse. -/
inductive Phase where
  | running
  | accepted
  | rejected
  deriving DecidableEq, Repr

/-- The phase that a parse is in. -/
def phase (p : Parser σ T δ) : Phase :=
  match p.outcome with
  | none => .running
  | some o => if o.accepted then .accepted else .rejected

/-- Says something. -/
def say (p : Parser σ T δ) (es : List Emission) : Parser σ T δ :=
  { p with trace := es.reverse ++ p.trace }

/-- Tells the journal something. -/
def tell (p : Parser σ T δ) (e : Event) : Parser σ T δ := p.say [.entry e]

section

variable [LexemeSource σ T]

/-- A parser at the start of a source. -/
def ofSource (source : σ) (sink : δ) : Parser σ T δ :=
  let tokens := LexemeStream.ofSource source
  let p : Parser σ T δ := { tokens, sink }
  (p.say ((LexemeStream.openingEvents source).map .entry)).tell
    ((Event.debug "Creating parser").withContext [("unit", tokens.unit)])

/-- The name of the unit. -/
def unit (p : Parser σ T δ) : String := p.tokens.unit

/-- Whether every lexeme has been consumed. -/
def isAtEnd (p : Parser σ T δ) : Bool := p.tokens.isAtEnd

/-- How many lexemes have been consumed. -/
def consumed (p : Parser σ T δ) : Nat := p.tokens.consumed

/-- The location just past the input read so far. -/
def endLocation (p : Parser σ T δ) : Location := p.tokens.endLocation

/-- Consumes one lexeme. -/
def take (p : Parser σ T δ) : Lexeme T × Parser σ T δ :=
  let (lexeme, tokens) := p.tokens.next
  (lexeme, { p with tokens }.say ((LexemeStream.stepEvents p.tokens tokens).map .entry))

variable [DiagnosticSink δ]

/-- Hands a diagnostic to the sink. -/
def report (p : Parser σ T δ) (d : Diagnostic) : Parser σ T δ :=
  { p with sink := DiagnosticSink.receive p.sink d }.say (DiagnosticSink.emissions p.sink d)

/-- Reports and counts an unexpected token. -/
def reportError (p : Parser σ T δ) (text : Text) (span : Span) : Parser σ T δ :=
  let p := { p with errorCount := p.errorCount + 1 }.report
    (.unexpectedToken text (.ordered span.start span.stop))
  p.tell <| (Event.debug "Unexpected token").withContext
    [("unit", p.unit), ("text", String.ofList text), ("span", span.render),
      ("error_count", toString p.errorCount)]

/-- Gives up on an invalid token, which is reported only if it is the first. -/
def abort (p : Parser σ T δ) (i : InvalidToken) : Parser σ T δ :=
  if p.aborted then p
  else
    { p with aborted := true }.report (.invalidToken i) |>.tell <|
      ((Event.error .parseAborted "Parse aborted on invalid token").withSpan i.span).withContext
        [("unit", p.unit), ("reason", i.error.message)]

/-- Consumes the next lexeme, whatever it is. -/
def advance (p : Parser σ T δ) : Lexeme T × Parser σ T δ :=
  match p.take with
  | (.invalid i, p) => (.invalid i, p.abort i)
  | r => r

/-- Consumes the next lexeme, and compares it with what is accepted. -/
def expectNext (p : Parser σ T δ) (accept : T → Bool) : Expected T × Parser σ T δ :=
  match p.take with
  | (.valid t, p) =>
    if accept t.terminal then (.matched t, p)
    else (.mismatched t, p.reportError t.text t.span)
  | (.endOfInput, p) => (.endOfInput p.endLocation, p.report (.noMoreToken p.endLocation))
  | (.invalid i, p) => (.invalid i, p.abort i)

end

/-- Tells the journal about an expectation, if it wants to know. -/
def announce (p : Parser σ T δ) (what expected : String) : Parser σ T δ :=
  if p.logExpectations then p.tell ((Event.debug what).withContext [("expected", expected)])
  else p

section

variable [FiniteSource σ T]

theorem remaining_take_lt {p : Parser σ T δ} (h : p.isAtEnd = false) :
    p.take.2.tokens.remaining < p.tokens.remaining :=
  LexemeStream.remaining_next_lt h

variable [Terminal T]

/-- Consumes trivia up to the next lexeme that is none, and counts it. -/
def skipTrivia (p : Parser σ T δ) : Nat × Parser σ T δ :=
  if p.tokens.lookahead.isTrivia then
    let (n, p') := skipTrivia p.take.2
    (n + 1, p')
  else (0, p)
termination_by p.tokens.remaining
decreasing_by
  apply remaining_take_lt
  have := ‹p.tokens.lookahead.isTrivia = true›
  cases hl : p.tokens.lookahead <;>
    simp_all [isAtEnd, LexemeStream.isAtEnd, Lexeme.isEnd, Lexeme.isTrivia]

theorem skipTrivia_spec (p : Parser σ T δ) :
    p.skipTrivia.2.tokens.lookahead.isTrivia = false := by
  fun_induction skipTrivia p with
  | case1 p h n p' hr ih => simpa [hr] using ih
  | case2 p h => simpa using h

@[simp] theorem aborted_skipTrivia (p : Parser σ T δ) : p.skipTrivia.2.aborted = p.aborted := by
  fun_induction skipTrivia p with
  | case1 p h n p' hr ih => rw [hr] at ih; exact ih
  | case2 p h => rfl

@[simp] theorem errorCount_skipTrivia (p : Parser σ T δ) :
    p.skipTrivia.2.errorCount = p.errorCount := by
  fun_induction skipTrivia p with
  | case1 p h n p' hr ih => rw [hr] at ih; exact ih
  | case2 p h => rfl

/-- Looks at the next lexeme that is no trivia. -/
def peek (p : Parser σ T δ) : Lexeme T × Parser σ T δ :=
  let (_, p) := p.skipTrivia
  (p.tokens.lookahead, p)

/-- The terminal of the next lexeme that is no trivia, if it is a token. -/
def peekTerminal (p : Parser σ T δ) : Option T × Parser σ T δ :=
  let (l, p) := p.peek
  (l.terminal?, p)

variable [DiagnosticSink δ]

/-- Consumes the next token that is no trivia, and compares it with what is accepted. -/
def expectWhere (p : Parser σ T δ) (accept : T → Bool) : Expected T × Parser σ T δ :=
  if p.aborted then (.endOfInput p.endLocation, p) else p.skipTrivia.2.expectNext accept

variable [DecidableEq T]

/-- Expects a token of one kind. -/
def expect (p : Parser σ T δ) (terminal : T) : Expected T × Parser σ T δ :=
  (p.announce "Expecting token" (Terminal.name terminal)).expectWhere (· = terminal)

/-- Expects a token of one of several kinds. -/
def expectAny (p : Parser σ T δ) (terminals : List T) : Expected T × Parser σ T δ :=
  (p.announce "Expecting one of"
    (String.intercalate ", " (terminals.map Terminal.name))).expectWhere (terminals.contains ·)

end

end Parser

end LexFront

import LexFront.Lexer.Basic

/-!
# What the lexer tells the journal

The entries of a step are worked out from the lexer before it, the lexeme, and the lexer after it:
first what reading lines had to say, then the failure if the lexeme is invalid, and at the end of
the input the totals.
-/

set_option autoImplicit false

namespace LexFront

/-- The entry for an invalid token: a failure of the source, or a stretch of input. -/
def InvalidToken.event (unit : String) (i : InvalidToken) : Event :=
  match i.error with
  | .split _ =>
    ((Event.error i.error.code "Source could not be read to the end").withSpan i.span).withContext
      [("unit", unit), ("reason", i.error.message)]
  | _ =>
    ((Event.error i.error.code "Invalid token").withSpan i.span).withContext
      [("unit", unit), ("text", Text.escaped i.text), ("reason", i.error.message)]

namespace Lexer

variable {T : Type}

/-- The entries for opening a lexer, its lines included. -/
def openingEvents (l : Lexer T) : List Event :=
  l.lines.openingEvents ++
    [(Event.debug "Starting token classification").withContext
      [("unit", l.unit), ("lexicon", l.lexicon.name),
        ("eager_terms", toString l.lines.isEager)]]

/-- The entries for the end of the input. -/
def closingEvents (l : Lexer T) : List Event :=
  (Event.success .classificationComplete "Token classification complete").withContext
      [("unit", l.unit), ("lexicon", l.lexicon.name), ("tokens", toString l.tally.total),
        ("significant", toString l.tally.significant), ("invalid", toString l.tally.invalid),
        ("lines", toString l.tally.lines)] ::
    l.tally.counts.map fun (name, n) ↦
      (Event.debug "Terminal count").withContext [("terminal", name), ("count", toString n)]

/-- The entries for one step. -/
def stepEvents (before : Lexer T) (lexeme : Lexeme T) (after : Lexer T) : List Event :=
  LineStream.readingEvents before.lines after.lines ++
    (match lexeme with
      | .invalid i => [i.event after.unit]
      | _ => []) ++
    if !before.finished && after.finished then after.closingEvents else []

end Lexer

end LexFront

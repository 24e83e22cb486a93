import LexFront.Lexeme.Basic
import LexFront.Location.Json

/-!
# Diagnostics

What a parser has to complain about: the input ended where a token was wanted, a token was of the
wrong kind, or there was no token because the lexer gave up. Only tokens of the wrong kind count as
errors of the parse; an invalid token ends it.
-/

set_option autoImplicit false

namespace LexFront

/-- A complaint of a parser. -/
inductive Diagnostic where
  | noMoreToken (location : Location)
  | unexpectedToken (text : Text) (span : Span)
  | invalidToken (token : InvalidToken)
  deriving DecidableEq, Repr

namespace Diagnostic

/-- The sorts of diagnostics. -/
inductive Kind where
  | noMoreToken
  | unexpectedToken
  | invalidToken
  deriving DecidableEq, Repr

namespace Kind

/-- The name of a sort. -/
def name : Kind → String
  | noMoreToken => "no_more_token"
  | unexpectedToken => "unexpected_token"
  | invalidToken => "invalid_token"

/-- The name of a sort in a report. -/
def reportName : Kind → String
  | noMoreToken => "NoMoreToken"
  | unexpectedToken => "UnexpectedToken"
  | invalidToken => "InvalidToken"

/-- The code of a sort. -/
def code : Kind → Code
  | noMoreToken => .noMoreToken
  | unexpectedToken => .unexpectedToken
  | invalidToken => .parseAborted

/-- Whether diagnostics of a sort count as errors of the parse. -/
def isCounted (k : Kind) : Bool := k == unexpectedToken

end Kind

/-- The sort of a diagnostic. -/
def kind : Diagnostic → Kind
  | noMoreToken _ => .noMoreToken
  | unexpectedToken _ _ => .unexpectedToken
  | invalidToken _ => .invalidToken

/-- The text at fault, empty if the input ended. -/
def text : Diagnostic → Text
  | noMoreToken _ => []
  | unexpectedToken text _ => text
  | invalidToken token => token.text

/-- The place at fault. -/
def span : Diagnostic → Span
  | noMoreToken location => .point location
  | unexpectedToken _ span => span
  | invalidToken token => token.span

/-- Why the lexer gave up, if it did. -/
def reason? : Diagnostic → Option String
  | invalidToken token => some token.error.message
  | _ => none

/-- The unit at fault. -/
def unit (d : Diagnostic) : String := d.span.unit

/-- The parts of a rendered diagnostic, in the order in which they are written. -/
def parts (d : Diagnostic) : List String :=
  match d with
  | noMoreToken location =>
    [d.unit, ": unexpected end of input at location ", location.render]
  | unexpectedToken text span =>
    [d.unit, ": unexpected token ", String.ofList text, " at location ", span.render]
  | invalidToken token =>
    [d.unit, ": invalid token ", Text.escaped token.text, " at location ", token.span.render,
      " (", token.error.message, ")"]

/-- A diagnostic on one line, as long as the text of an unexpected token has no line break. -/
def render (d : Diagnostic) : String := String.join d.parts

/-- A diagnostic as a JSON object. -/
def toJson (d : Diagnostic) : Json :=
  .obj <|
    [("kind", .str d.kind.reportName), ("text", .str (String.ofList d.text)),
      ("span", d.span.toJson)] ++
    (d.reason?.map fun reason ↦ ("reason", .str reason)).toList

end Diagnostic

end LexFront

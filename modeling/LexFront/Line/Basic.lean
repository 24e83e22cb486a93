import LexFront.Location.Basic
import LexFront.Source.Error
import LexFront.Text.Quoted

/-!
# Physical lines

A unit is read as a list of physical lines. Each knows where it starts, its text and the line break
that ended it, so that the lines together are the unit again.
-/

set_option autoImplicit false

namespace LexFront

/-- The line break at the end of a line; the last line of a unit may have none. -/
inductive Terminator where
  | lf
  | crLf
  | cr
  | none
  deriving DecidableEq, Repr

/-- The characters of a line break. -/
def Terminator.text : Terminator → Text
  | lf => ['\n']
  | crLf => ['\r', '\n']
  | cr => ['\r']
  | none => []

/-- One physical line. -/
structure Line where
  location : Location
  /-- The line without its break. -/
  text : Text
  terminator : Terminator
  deriving DecidableEq, Repr

namespace Line

/-- The line as it was read. -/
def raw (l : Line) : Text := l.text ++ l.terminator.text

/-- The location just past the line break. -/
def endLocation (l : Line) : Location :=
  match l.terminator with
  | .none => l.location.advance l.text
  | _ => (l.location.advance l.text).nextLine

/-- The span of the text, its break left out. -/
def span (l : Line) : Span := .covering l.location l.text

/-- The start of a line and its quoted text. -/
def render (l : Line) : String := s!"{l.location.render} {Text.quoted l.text}"

end Line

/-- Why splitting a unit into lines stopped early. -/
inductive SplitError where
  | source (e : SourceError)
  | lineTooLong (line limit : Nat)
  deriving DecidableEq, Repr

namespace SplitError

/-- The wording of a cause. -/
def message : SplitError → String
  | source e => e.message
  | lineTooLong line limit => s!"Line {line} exceeds maximum term length of {limit} bytes"

/-- The code of a cause. -/
def code : SplitError → Code
  | source e => e.code
  | lineTooLong _ _ => .lineTooLong

end SplitError

end LexFront

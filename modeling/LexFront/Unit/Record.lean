import LexFront.Lexeme.Basic
import LexFront.Location.Json

/-!
# Token records

A record is what is shown of a lexeme in a listing: the name of its terminal, or that it is
invalid, its text, its value where that differs from the text, its place, and why it is invalid.
-/

set_option autoImplicit false

namespace LexFront

/-- What is shown of a lexeme. -/
structure TokenRecord where
  /-- The name of the terminal, or `invalid`. -/
  terminal : String
  category : Option Category
  text : Text
  /-- The value, if it is not the text. -/
  value : Option Text
  span : Span
  /-- Why the lexeme is invalid. -/
  reason : Option String
  deriving DecidableEq, Repr

namespace TokenRecord

/-- The record of a lexeme; the end of the input has none. -/
def ofLexeme? {T : Type} [Terminal T] : Lexeme T → Option TokenRecord
  | .endOfInput => none
  | .valid t => some {
      terminal := Terminal.name t.terminal
      category := some (Terminal.category t.terminal)
      text := t.text
      value := if t.value = t.text then none else some t.value
      span := t.span
      reason := none }
  | .invalid i => some {
      terminal := "invalid"
      category := none
      text := i.text
      value := none
      span := i.span
      reason := some i.error.message }

/-- Whether the lexeme is invalid. -/
def isInvalid (r : TokenRecord) : Bool := r.reason.isSome

/-- A text with blanks behind it up to a width in characters. -/
def padded (width : Nat) (s : String) : String :=
  s ++ String.ofList (List.replicate (width - s.length) ' ')

/-- A record as one line of a listing. -/
def render (r : TokenRecord) : String :=
  s!"{padded 24 r.span.render} {padded 18 r.terminal} {Text.quoted r.text}" ++
    (r.value.elim "" fun v ↦ s!" => {Text.quoted v}") ++
    (r.reason.elim "" fun reason ↦ s!" ({reason})")

/-- A record as a JSON object; parts that are missing are left out. -/
def toJson (r : TokenRecord) : Json :=
  .obj <|
    [("terminal", .str r.terminal)] ++
    (r.category.map fun c ↦ ("category", .str c.name)).toList ++
    [("text", .str (String.ofList r.text))] ++
    (r.value.map fun v ↦ ("value", .str (String.ofList v))).toList ++
    [("span", r.span.toJson)] ++
    (r.reason.map fun reason ↦ ("reason", .str reason)).toList

end TokenRecord

end LexFront

import LexFront.Text.Basic
import LexFront.Text.Unicode

/-!
# Quoted text

How a text is shown inside a message. `quoted` puts it between double quotes, `escaped` leaves the
quotes off. Both write a character that would be invisible or would merge with its neighbour as an
escape, so a shown text is always on one line.
-/

set_option autoImplicit false

namespace LexFront.Text

/-- The hexadecimal escape of a character, without leading zeros. -/
def codePointEscape (c : Char) : List Char :=
  ['\\', 'u', '\x7b'] ++ Nat.toDigits 16 c.toNat ++ ['\x7d']

/-- One character of a shown text. `quotes` are the quotation marks to escape; `escapesExtend` tells
whether a character that extends the grapheme before it is escaped too. -/
def escapeChar (quotes : List Char) (escapesExtend : Bool) (c : Char) : List Char :=
  match c with
  | '\x00' => ['\\', '0']
  | '\t' => ['\\', 't']
  | '\r' => ['\\', 'r']
  | '\n' => ['\\', 'n']
  | '\\' => ['\\', '\\']
  | _ =>
    if quotes.contains c then ['\\', c]
    else if escapesExtend && isGraphemeExtend c then codePointEscape c
    else if isPrintable c then [c]
    else codePointEscape c

/-- The text between double quotes; the single quote needs no escape there. -/
def quoted (t : Text) : String :=
  String.ofList ('"' :: t.flatMap (escapeChar ['"'] true) ++ ['"'])

/-- The escaped text without surrounding quotes. Only its first character can merge with what
stands before it, so only there is a grapheme extender escaped. -/
def escaped : Text → String
  | [] => ""
  | c :: rest =>
    let quotes := ['"', '\'']
    String.ofList (escapeChar quotes true c ++ rest.flatMap (escapeChar quotes false))

end LexFront.Text

import LexFront.Lexicon.Basic

/-!
# Constructs with a closing delimiter

Comments, brackets and quoted texts run up to a closing delimiter. While it is not in sight, the
scan asks for more text.

Key facts:

* `through_append`: a text whose closer stands where the content ends is matched as a whole,
  whatever follows it.
-/

set_option autoImplicit false

namespace LexFront.Scan

/-- Up to and including the first occurrence of `closer`. -/
def through (closer t : Text) : Scan :=
  match Text.before? closer t with
  | some inner => matched (Text.size inner + Text.size closer)
  | none => needMore

/-- What follows an opening quote, up to and including the next quote that no backslash escapes.
A quoted text may hold line breaks or it may not: then a line break before the closing quote, also
one after a backslash, means that this is no quoted text at all. -/
def throughQuote (quote : Char) (multiline : Bool) : Text → Scan
  | [] => needMore
  | '\\' :: [] => needMore
  | '\\' :: c :: rest =>
    if !multiline && Text.isLineBreak c then noMatch
    else (throughQuote quote multiline rest).after (1 + c.utf8Size)
  | c :: rest =>
    if !multiline && Text.isLineBreak c then noMatch
    else if c = quote then matched c.utf8Size
    else (throughQuote quote multiline rest).after c.utf8Size

theorem through_append {closer content rest : Text}
    (h : Text.before? closer (content ++ closer ++ rest) = some content) :
    through closer (content ++ closer ++ rest) = matched (Text.size (content ++ closer)) := by
  rw [through, h, Text.size_append]

end LexFront.Scan

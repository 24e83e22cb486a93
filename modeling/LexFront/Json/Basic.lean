/-!
# JSON values and their texts

The values that log lines, reports and stored preferences are made of, with the two texts in which
they are written: `compact` on one line without blanks, `pretty` with one field or element a line
and two blanks of indentation. Fields are written in the order in which they are listed.
-/

set_option autoImplicit false

namespace LexFront

/-- A JSON value. A number is kept as its literal. -/
inductive Json where
  | null
  | bool (value : Bool)
  | number (literal : String)
  | str (value : String)
  | arr (items : List Json)
  | obj (fields : List (String × Json))
  deriving Repr, Inhabited

namespace Json

/-- A natural number. -/
def nat (n : Nat) : Json := .number (toString n)

/-- One character of a JSON string: quote, backslash and control characters are escaped, with the
short form where there is one. -/
def escapeChar (c : Char) : List Char :=
  match c with
  | '"' => ['\\', '"']
  | '\\' => ['\\', '\\']
  | '\x08' => ['\\', 'b']
  | '\x0c' => ['\\', 'f']
  | '\n' => ['\\', 'n']
  | '\r' => ['\\', 'r']
  | '\t' => ['\\', 't']
  | _ =>
    if c.toNat < 0x20 then
      ['\\', 'u', '0', '0', Nat.digitChar (c.toNat / 16), Nat.digitChar (c.toNat % 16)]
    else [c]

/-- A string between double quotes. -/
def quote (s : String) : String := String.ofList ('"' :: s.toList.flatMap escapeChar ++ ['"'])

/-- The opening brace of an object. -/
def opening : String := "\x7b"

/-- The closing brace of an object. -/
def closing : String := "\x7d"

mutual

/-- A value on one line without blanks. -/
def compact : Json → String
  | .null => "null"
  | .bool b => if b then "true" else "false"
  | .number literal => literal
  | .str s => quote s
  | .arr items => "[" ++ ",".intercalate (compactItems items) ++ "]"
  | .obj fields => opening ++ ",".intercalate (compactFields fields) ++ closing

/-- The elements of an array, each on one line. -/
def compactItems : List Json → List String
  | [] => []
  | v :: rest => compact v :: compactItems rest

/-- The fields of an object, each on one line. -/
def compactFields : List (String × Json) → List String
  | [] => []
  | (key, v) :: rest => (quote key ++ ":" ++ compact v) :: compactFields rest

end

/-- Blanks in front of a line that is `depth` levels deep. -/
def indent (depth : Nat) : String := String.ofList (List.replicate (2 * depth) ' ')

/-- Lines between brackets, one level deeper than the brackets themselves; no lines at all leave
the brackets side by side. -/
def bracketed (depth : Nat) (left right : String) : List String → String
  | [] => left ++ right
  | lines =>
    left ++ "\n" ++ ",\n".intercalate (lines.map (indent (depth + 1) ++ ·)) ++ "\n" ++
      indent depth ++ right

mutual

/-- A value with one element or field a line, for a place `depth` levels deep. -/
def prettyAt (depth : Nat) : Json → String
  | .null => "null"
  | .bool b => if b then "true" else "false"
  | .number literal => literal
  | .str s => quote s
  | .arr items => bracketed depth "[" "]" (prettyItems (depth + 1) items)
  | .obj fields => bracketed depth opening closing (prettyFields (depth + 1) fields)

/-- The elements of an array that is `depth - 1` levels deep. -/
def prettyItems (depth : Nat) : List Json → List String
  | [] => []
  | v :: rest => prettyAt depth v :: prettyItems depth rest

/-- The fields of an object that is `depth - 1` levels deep. -/
def prettyFields (depth : Nat) : List (String × Json) → List String
  | [] => []
  | (key, v) :: rest => (quote key ++ ": " ++ prettyAt depth v) :: prettyFields depth rest

end

/-- A value with one element or field a line. -/
def pretty (v : Json) : String := prettyAt 0 v

/-- The value of a field; of several with one name the first. -/
def field? (name : String) (fields : List (String × Json)) : Option Json := fields.lookup name

end Json

end LexFront

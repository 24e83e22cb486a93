import LexFront.Json.Basic

/-!
# Reading JSON

`Json.read?` accepts one value with blanks around it and nothing else. Control characters have to
be escaped inside strings. A string may hold an unpaired surrogate escape: it is then read as
`none` in the place of its text, so that a reader that skips the value does not care and one that
wants the text refuses it.

The recursion follows a fuel that starts above the length of the text. Each call consumes a
character before it goes deeper, so the fuel is never used up.
-/

set_option autoImplicit false

namespace LexFront.Json

/-- A value as it stands in a text: the text of a string is missing if it holds an unpaired
surrogate. -/
inductive Raw where
  | null
  | bool (value : Bool)
  | number (literal : String)
  | str (value : Option String)
  | arr (items : List Raw)
  | obj (fields : List (Option String × Raw))
  deriving Repr, Inhabited

/-- Blank, tab, line feed and carriage return may stand between tokens. -/
def isBlank (c : Char) : Bool := c == ' ' || c == '\t' || c == '\n' || c == '\r'

/-- The text without the blanks at its start. -/
def skipBlanks (t : List Char) : List Char := t.dropWhile isBlank

/-- Takes `word` off the front of a text. -/
def expect? : List Char → List Char → Option (List Char)
  | [], t => some t
  | w :: word, c :: t => if w == c then expect? word t else none
  | _ :: _, [] => none

/-- The value of a hexadecimal digit. -/
def hexDigit? (c : Char) : Option Nat :=
  if c.isDigit then some (c.toNat - '0'.toNat)
  else if 'a' ≤ c ∧ c ≤ 'f' then some (c.toNat - 'a'.toNat + 10)
  else if 'A' ≤ c ∧ c ≤ 'F' then some (c.toNat - 'A'.toNat + 10)
  else none

/-- Four hexadecimal digits. -/
def fourHex? : List Char → Option (Nat × List Char)
  | a :: b :: c :: d :: t => do
    let a ← hexDigit? a
    let b ← hexDigit? b
    let c ← hexDigit? c
    let d ← hexDigit? d
    some (((a * 16 + b) * 16 + c) * 16 + d, t)
  | _ => none

/-- A code unit, as far as strings are concerned. -/
inductive CodeUnit where
  | plain (c : Char)
  | high (n : Nat)
  | low (n : Nat)

/-- Sorts a 16-bit code unit. -/
def CodeUnit.ofNat (n : Nat) : CodeUnit :=
  if 0xD800 ≤ n ∧ n < 0xDC00 then .high n
  else if 0xDC00 ≤ n ∧ n < 0xE000 then .low n
  else .plain (Char.ofNat n)

/-- The items of a string up to its closing quote. -/
def units? (fuel : Nat) (acc : List CodeUnit) (t : List Char) :
    Option (List CodeUnit × List Char) :=
  match fuel, t with
  | 0, _ => none
  | _, [] => none
  | _, '"' :: t => some (acc.reverse, t)
  | fuel + 1, '\\' :: e :: t =>
    match e with
    | '"' | '\\' | '/' => units? fuel (.plain e :: acc) t
    | 'b' => units? fuel (.plain '\x08' :: acc) t
    | 'f' => units? fuel (.plain '\x0c' :: acc) t
    | 'n' => units? fuel (.plain '\n' :: acc) t
    | 'r' => units? fuel (.plain '\r' :: acc) t
    | 't' => units? fuel (.plain '\t' :: acc) t
    | 'u' => do
      let (n, t) ← fourHex? t
      units? fuel (CodeUnit.ofNat n :: acc) t
    | _ => none
  | fuel + 1, c :: t =>
    if c == '\\' || c.toNat < 0x20 then none else units? fuel (.plain c :: acc) t

/-- Joins surrogate pairs; an unpaired one leaves no text. -/
def joinUnits? : List CodeUnit → Option (List Char)
  | [] => some []
  | .plain c :: rest => (joinUnits? rest).map (c :: ·)
  | .high h :: .low l :: rest =>
    (joinUnits? rest).map (Char.ofNat (0x10000 + (h - 0xD800) * 0x400 + (l - 0xDC00)) :: ·)
  | .high _ :: _ => none
  | .low _ :: _ => none

/-- A string whose opening quote has been read. -/
def string? (t : List Char) : Option (Option String × List Char) := do
  let (units, t) ← units? (t.length + 1) [] t
  some ((joinUnits? units).map String.ofList, t)

/-- At least one digit. -/
def digits? (t : List Char) : Option (List Char × List Char) :=
  match t.takeWhile Char.isDigit with
  | [] => none
  | ds => some (ds, t.dropWhile Char.isDigit)

/-- The whole part of a number: a lone zero or digits that start with none. -/
def wholePart? : List Char → Option (List Char × List Char)
  | '0' :: t => if (t.head?.map Char.isDigit).getD false then none else some (['0'], t)
  | t => digits? t

/-- The fraction of a number, which may be missing. -/
def fraction? : List Char → Option (List Char × List Char)
  | '.' :: t => do
    let (ds, t) ← digits? t
    some ('.' :: ds, t)
  | t => some ([], t)

/-- The exponent of a number, which may be missing. -/
def exponent? : List Char → Option (List Char × List Char)
  | e :: t =>
    if e == 'e' || e == 'E' then do
      let (sign, t) := match t with
        | '+' :: t => (['+'], t)
        | '-' :: t => (['-'], t)
        | t => ([], t)
      let (ds, t) ← digits? t
      some (e :: sign ++ ds, t)
    else some ([], e :: t)
  | [] => some ([], [])

/-- A number. -/
def number? (t : List Char) : Option (String × List Char) := do
  let (sign, t) := match t with
    | '-' :: t => (['-'], t)
    | t => ([], t)
  let (whole, t) ← wholePart? t
  let (fraction, t) ← fraction? t
  let (exponent, t) ← exponent? t
  some (String.ofList (sign ++ whole ++ fraction ++ exponent), t)

mutual

/-- One value, with blanks in front of it. -/
def value? (fuel : Nat) (t : List Char) : Option (Raw × List Char) :=
  match fuel, skipBlanks t with
  | 0, _ => none
  | _, [] => none
  | _, 'n' :: t => (expect? "ull".toList t).map (.null, ·)
  | _, 't' :: t => (expect? "rue".toList t).map (.bool true, ·)
  | _, 'f' :: t => (expect? "alse".toList t).map (.bool false, ·)
  | _, '"' :: t => (string? t).map fun (s, t) ↦ (.str s, t)
  | fuel + 1, c :: t =>
    -- An empty pair of brackets is told apart first: after a comma nothing may be missing.
    if c == '[' then
      match skipBlanks t with
      | ']' :: t => some (.arr [], t)
      | t => (items? fuel t).map fun (items, t) ↦ (.arr items, t)
    else if c == '\x7b' then
      match skipBlanks t with
      | '\x7d' :: t => some (.obj [], t)
      | t => (fields? fuel t).map fun (fields, t) ↦ (.obj fields, t)
    else (number? (c :: t)).map fun (literal, t) ↦ (.number literal, t)

/-- The elements of an array, up to its closing bracket. -/
def items? (fuel : Nat) (t : List Char) : Option (List Raw × List Char) :=
  match fuel with
  | 0 => none
  | fuel + 1 => do
    let (v, t) ← value? fuel t
    match skipBlanks t with
    | ',' :: t => (items? fuel t).map fun (rest, t) ↦ (v :: rest, t)
    | ']' :: t => some ([v], t)
    | _ => none

/-- The fields of an object, up to its closing brace. -/
def fields? (fuel : Nat) (t : List Char) : Option (List (Option String × Raw) × List Char) :=
  match fuel with
  | 0 => none
  | fuel + 1 => do
    match skipBlanks t with
    | '"' :: t =>
      let (key, t) ← string? t
      match skipBlanks t with
      | ':' :: t =>
        let (v, t) ← value? fuel t
        match skipBlanks t with
        | ',' :: t => (fields? fuel t).map fun (rest, t) ↦ ((key, v) :: rest, t)
        | '\x7d' :: t => some ([(key, v)], t)
        | _ => none
      | _ => none
    | _ => none

end

/-- The one value of a text. -/
def read? (text : String) : Option Raw := do
  let chars := text.toList
  let (v, rest) ← value? (2 * chars.length + 2) chars
  if (skipBlanks rest).isEmpty then some v else none

end LexFront.Json

import LexFront.Lexicon.Basic

/-!
# Numerals

Integer and floating literals of C and C++. Digits may be separated by single quotes. A literal is
floating if it has a point or an exponent, and whatever identifier characters follow its digits
belong to it as a suffix. All parts of a numeral before the suffix are ASCII, so that its sizes
count characters as well.

Key facts:

* `digitsSize_le_length`: digits are found inside the text only.
-/

set_option autoImplicit false

namespace LexFront.Cpp.Numeral

/-- The digits `0` and `1`. -/
def isBinary (c : Char) : Bool := c == '0' || c == '1'

/-- The hexadecimal digits. -/
def isHex (c : Char) : Bool :=
  c.isDigit || ('a' ≤ c && c ≤ 'f') || ('A' ≤ c && c ≤ 'F')

/-- The size of further digits after a first one, each with at most one separator before it. -/
def moreDigitsSize (digit : Char → Bool) : Text → Nat
  | '\'' :: d :: rest => if digit d then 2 + moreDigitsSize digit rest else 0
  | d :: rest => if digit d then 1 + moreDigitsSize digit rest else 0
  | [] => 0

/-- The size of the digits at the start of a text, separators between them included. -/
def digitsSize (digit : Char → Bool) : Text → Nat
  | d :: rest => if digit d then 1 + moreDigitsSize digit rest else 0
  | [] => 0

theorem moreDigitsSize_le_length (digit : Char → Bool) (t : Text) :
    moreDigitsSize digit t ≤ t.length := by
  fun_induction moreDigitsSize digit t <;> simp only [List.length_cons, List.length_nil] <;> omega

theorem digitsSize_le_length (digit : Char → Bool) (t : Text) : digitsSize digit t ≤ t.length := by
  cases t with
  | nil => simp [digitsSize]
  | cons d rest =>
    have := moreDigitsSize_le_length digit rest
    simp only [digitsSize, List.length_cons]
    split <;> omega

/-- How the numbers of a base are written. -/
structure Base where
  digit : Char → Bool
  /-- The letter that starts an exponent. -/
  exponentMark : Char → Bool
  /-- Whether a point may be followed by another one. -/
  allowsTwoPoints : Bool

/-- Decimal numbers. Two points after an integer are no part of it. -/
def Base.decimal : Base := ⟨Char.isDigit, fun c ↦ c == 'e' || c == 'E', false⟩

/-- Hexadecimal numbers, after their `0x`. -/
def Base.hexadecimal : Base := ⟨isHex, fun c ↦ c == 'p' || c == 'P', true⟩

namespace Base

/-- The size of a point and the digits behind it. -/
def fractionSize (b : Base) : Text → Nat
  | '.' :: rest =>
    if rest.head? = some '.' && !b.allowsTwoPoints then 0 else 1 + digitsSize b.digit rest
  | _ => 0

/-- The size of an exponent, whose digits are decimal in all bases and may not be missing. -/
def exponentSize (b : Base) : Text → Nat
  | mark :: rest =>
    if b.exponentMark mark then
      let signSize := if rest.head? = some '+' || rest.head? = some '-' then 1 else 0
      match digitsSize Char.isDigit (rest.drop signSize) with
      | 0 => 0
      | digits => 1 + signSize + digits
    else 0
  | [] => 0

/-- The size of a number without its suffix, and whether it is floating. -/
def numberSize (b : Base) (t : Text) : Nat × Bool :=
  let whole := digitsSize b.digit t
  let fraction := b.fractionSize (t.drop whole)
  let exponent := b.exponentSize (t.drop (whole + fraction))
  (whole + fraction + exponent, fraction + exponent != 0)

end Base

/-- The characters that a numeral starts with. -/
def isStart (c : Char) : Bool := c.isDigit || c == '.'

/-- Whether a numeral starts here: with a digit, or with a point and a digit. -/
def starts : Text → Bool
  | '.' :: d :: _ => d.isDigit
  | d :: _ => d.isDigit
  | [] => false

/-- The size of a numeral without its suffix, and whether it is floating. -/
def bodySize (t : Text) : Nat × Bool :=
  match t with
  | '0' :: mark :: d :: rest =>
    if (mark == 'x' || mark == 'X') && (isHex d || d == '.') then
      let (size, isFloating) := Base.hexadecimal.numberSize (d :: rest)
      (2 + size, isFloating)
    else if (mark == 'b' || mark == 'B') && isBinary d then
      (2 + digitsSize isBinary (d :: rest), false)
    else Base.decimal.numberSize t
  | _ => Base.decimal.numberSize t

/-- The numeral at the start of a text, if it is floating or not as asked for. -/
def scan (floating : Bool) (t : Text) : Scan :=
  if starts t then
    let (size, isFloating) := bodySize t
    if isFloating = floating then
      .matched (size + Text.prefixSize Text.isIdentifierPart (t.drop size))
    else .noMatch
  else .noMatch

end LexFront.Cpp.Numeral

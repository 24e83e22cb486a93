/-!
# Strict UTF-8

The encoded form of one character: how many bytes its first byte announces, and which characters
those bytes are. Overlong forms, surrogates, values past the last plane and stray continuation
bytes have no character.
-/

set_option autoImplicit false

namespace LexFront.Utf8

/-- The width that a first byte announces; zero for a byte that starts no character. -/
def width (first : UInt8) : Nat :=
  if first.toNat < 0x80 then 1
  else if 0xC2 ≤ first.toNat ∧ first.toNat ≤ 0xDF then 2
  else if 0xE0 ≤ first.toNat ∧ first.toNat ≤ 0xEF then 3
  else if 0xF0 ≤ first.toNat ∧ first.toNat ≤ 0xF4 then 4
  else 0

/-- The six bits of a continuation byte. -/
def continuation? (b : UInt8) : Option Nat :=
  if 0x80 ≤ b.toNat ∧ b.toNat ≤ 0xBF then some (b.toNat - 0x80) else none

/-- The character of a scalar value that needs at least `least`. -/
def scalar? (least n : Nat) : Option Char :=
  if least ≤ n ∧ (n < 0xD800 ∨ 0xDFFF < n ∧ n < 0x110000) then some (Char.ofNat n) else none

/-- The character that a whole sequence of bytes encodes. -/
def decode? : List UInt8 → Option Char
  | [a] => if a.toNat < 0x80 then scalar? 0 a.toNat else none
  | [a, b] => do
    let b ← continuation? b
    scalar? 0x80 ((a.toNat - 0xC0) * 0x40 + b)
  | [a, b, c] => do
    let b ← continuation? b
    let c ← continuation? c
    scalar? 0x800 (((a.toNat - 0xE0) * 0x40 + b) * 0x40 + c)
  | [a, b, c, d] => do
    let b ← continuation? b
    let c ← continuation? c
    let d ← continuation? d
    scalar? 0x10000 ((((a.toNat - 0xF0) * 0x40 + b) * 0x40 + c) * 0x40 + d)
  | _ => none

end LexFront.Utf8

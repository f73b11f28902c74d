/-!
# Digits of numerals

The ASCII digits that the numbers of a notation are written in, decimal and hexadecimal, and the
numbers that they spell.
-/

set_option autoImplicit false

namespace Glossopoeia.Text

/-- Is `c` one of `0` to `9`? -/
def isAsciiDigit (c : Char) : Bool := '0' ≤ c && c ≤ '9'

/-- The value of an ASCII digit. -/
def digitValue (c : Char) : Nat := c.toNat - '0'.toNat

/-- The value of a digit to base sixteen. -/
def hexValue (c : Char) : Option Nat :=
  if isAsciiDigit c then some (digitValue c)
  else if 'a' ≤ c && c ≤ 'f' then some (c.toNat - 'a'.toNat + 10)
  else if 'A' ≤ c && c ≤ 'F' then some (c.toNat - 'A'.toNat + 10)
  else none

/-- The number that decimal digits spell. -/
def numberOf (digits : List Char) : Nat := digits.foldl (fun n c ↦ n * 10 + digitValue c) 0

/-- The number that digits to base sixteen spell. -/
def hexNumber (digits : List Char) : Option Nat :=
  digits.foldlM (fun n c ↦ (hexValue c).map (n * 16 + ·)) 0

/-- The character whose code digits to base sixteen spell. -/
def charOfHex (digits : List Char) : Option Char :=
  match digits, hexNumber digits with
  | _ :: _, some n => if n.isValidChar then some (Char.ofNat n) else none
  | _, _ => none

end Glossopoeia.Text

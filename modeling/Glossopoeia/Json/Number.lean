import Glossopoeia.Json.Basic
import Glossopoeia.Text.Digit

/-!
# Numbers of a JSON text

How the spelling of a number becomes its value.  A plain integer is whole if it fits in 64 bits.
Everything else becomes a double by one multiplication or division of the leading digits by a power
of ten, which is exact or nearly so; digits beyond the 64th bit count only by their place.
-/

set_option autoImplicit false

namespace Glossopoeia.Json

open Text

/-- The spelling of a number, taken apart. -/
structure Numeral where
  /-- Does it begin with a minus sign? -/
  negative : Bool
  /-- The digits before the point. -/
  whole : List Char
  /-- The digits after the point, if it has one. -/
  fraction : Option (List Char)
  /-- The exponent, if it has one: is it negative, and its digits. -/
  exponent : Option (Bool × List Char)

/-- Read digits onto `value` while it stays within `limit`; what is left begins with the digit that
would exceed it. -/
def accumulate (limit value : Nat) : List Char → Nat × List Char
  | [] => (value, [])
  | d :: ds =>
    let next := value * 10 + digitValue d
    if next ≤ limit then accumulate limit next ds else (value, d :: ds)

/-- The greatest whole number of 64 bits. -/
def wholeLimit : Nat := Nat.pow 2 64 - 1

/-- The greatest exponent that is read digit by digit. -/
def exponentLimit : Nat := Nat.pow 2 31 - 1

/-- The greatest power of ten that is a double. -/
def powerLimit : Nat := 308

/-- The double nearest to `10 ^ n`. -/
def powerOfTen (n : Nat) : Float := Float.ofScientific 1 false n

/-- `x * 10 ^ exponent` by one multiplication or division, after as many divisions by the greatest
power of ten as it takes to bring the exponent in reach; `none` beyond the doubles. -/
def scale (x : Float) (exponent : Int) : Nat → Option Float
  | 0 => some x
  | fuel + 1 =>
    if exponent.natAbs ≤ powerLimit then
      if 0 ≤ exponent then
        let y := x * powerOfTen exponent.natAbs
        if y.isInf then none else some y
      else some (x / powerOfTen exponent.natAbs)
    else if x == 0 then some x
    else if 0 ≤ exponent then none
    else scale (x / powerOfTen powerLimit) (exponent + powerLimit) fuel

/-- Enough divisions to reach zero from any double. -/
def scaleSteps : Nat := 8

/-- The double with the given sign. -/
def signed (negative : Bool) (x : Float) : Json := .float (if negative then -x else x)

/-- A numeral with a point or an exponent, or too long for a whole number. -/
def Numeral.toFloat (n : Numeral) : Json :=
  let (leading, left) := accumulate wholeLimit 0 n.whole
  let fraction := n.fraction.getD []
  let (significand, skipped) := accumulate wholeLimit leading fraction
  let places : Int := left.length - (fraction.length - skipped.length : Nat)
  let finish (exponent : Int) : Json :=
    match scale (UInt64.ofNat significand).toFloat exponent scaleSteps with
    | some x => signed n.negative x
    | none => .unreadable
  match n.exponent with
  | none => finish places
  | some (down, digits) =>
    match accumulate exponentLimit 0 digits with
    | (size, []) =>
      let power := if down then places - size else places + size
      finish (max (min power exponentLimit) (-exponentLimit - 1))
    | _ => if significand != 0 && !down then .unreadable else signed n.negative 0

/-- The value that a numeral spells. -/
def Numeral.value (n : Numeral) : Json :=
  match n.fraction, n.exponent, accumulate wholeLimit 0 n.whole with
  | none, none, (size, []) =>
    if !n.negative then .int size
    else if 0 < size && size ≤ Nat.pow 2 63 then .int (-size)
    else signed true (UInt64.ofNat size).toFloat
  | _, _, _ => n.toFloat

/-- The exponent part of a numeral, if one follows; `none` if it is broken off. -/
def readExponent (cs : List Char) : Option (Option (Bool × List Char) × List Char) :=
  match cs with
  | e :: rest =>
    if e == 'e' || e == 'E' then
      let (down, rest) := match rest with
        | '-' :: rest => (true, rest)
        | '+' :: rest => (false, rest)
        | rest => (false, rest)
      match rest.span isAsciiDigit with
      | ([], _) => none
      | (digits, rest) => some (some (down, digits), rest)
    else some (none, cs)
  | [] => some (none, [])

/-- The fraction of a numeral, if one follows; `none` if it is broken off. -/
def readFraction (cs : List Char) : Option (Option (List Char) × List Char) :=
  match cs with
  | '.' :: rest =>
    match rest.span isAsciiDigit with
    | ([], _) => none
    | (digits, rest) => some (some digits, rest)
  | _ => some (none, cs)

/-- Read a numeral.  No zero leads its digits but a single one. -/
def readNumeral (cs : List Char) : Option (Numeral × List Char) := do
  let (negative, cs) := match cs with
    | '-' :: rest => (true, rest)
    | _ => (false, cs)
  let (whole, cs) := cs.span isAsciiDigit
  match whole with
  | [] => none
  | '0' :: _ :: _ => none
  | _ =>
    let (fraction, cs) ← readFraction cs
    let (exponent, cs) ← readExponent cs
    some (⟨negative, whole, fraction, exponent⟩, cs)

end Glossopoeia.Json

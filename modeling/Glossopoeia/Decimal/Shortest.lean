/-!
# The shortest decimal of a double

A double stands for every real number that rounds to it.  Its shortest decimal is the one of fewest
digits among those, and of these the nearest to the double itself.  `shortest` looks for it on the
decimal grids of one digit, two digits and so on; on each grid only the two neighbours of the value
can lie in the interval.  All comparisons are exact, on natural numbers.
-/

set_option autoImplicit false

namespace Glossopoeia.Decimal

/-- The number `digits * 10 ^ exponent`. -/
structure Scientific where
  /-- The significant digits, read as one number. -/
  digits : Nat
  /-- The power of ten that the last digit counts. -/
  exponent : Int
deriving DecidableEq, Repr

/-- The magnitude `mantissa * 2 ^ exponent`, with what decides which reals round to it. -/
structure Binary where
  /-- The binary mantissa. -/
  mantissa : Nat
  /-- The power of two that its last bit counts. -/
  exponent : Int
  /-- Is the next double below only half as far away as the next one above? -/
  narrowBelow : Bool
deriving DecidableEq, Repr

/-- The `n`th power of two. -/
def twoTo (n : Nat) : Nat := Nat.pow 2 n

/-- The `n`th power of ten. -/
def tenTo (n : Nat) : Nat := Nat.pow 10 n

/-- The magnitude that the bits of a finite double stand for. -/
def Binary.ofBits (bits : UInt64) : Binary :=
  let fraction := bits.toNat % twoTo 52
  let biased := bits.toNat / twoTo 52 % twoTo 11
  if biased = 0 then ⟨fraction, -1074, false⟩
  else ⟨twoTo 52 + fraction, Int.ofNat biased - 1075, fraction == 0 && 1 < biased⟩

/-- The number of decimal digits of `n`. -/
def digitCount (n : Nat) : Nat := (Nat.toDigits 10 n).length

/-- Enough decimal places to see the leading digit of every double. -/
def places : Nat := 400

/-- The count of digits before the decimal point; zero or negative below a tenth. -/
def Binary.magnitude (b : Binary) : Int :=
  let scaled := b.mantissa * twoTo b.exponent.toNat * tenTo places / twoTo (-b.exponent).toNat
  (digitCount scaled : Int) - places

/-- The multiple of `10 ^ scale` that rounds to the double, the nearer if there are two, and of two
equally near the even one.  Quarters of the mantissa's last bit are counted in units of `unit`. -/
def Binary.onGrid? (b : Binary) (scale : Int) : Option Nat :=
  let unit := twoTo (b.exponent - 2).toNat * tenTo (-scale).toNat
  let step := tenTo scale.toNat * twoTo (2 - b.exponent).toNat
  let value := 4 * b.mantissa * unit
  let low := (4 * b.mantissa - if b.narrowBelow then 1 else 2) * unit
  let high := (4 * b.mantissa + 2) * unit
  let closed := b.mantissa % 2 == 0
  let rounds (n : Nat) : Bool :=
    if closed then low ≤ n * step && n * step ≤ high else low < n * step && n * step < high
  let below := value / step
  let gapBelow := value - below * step
  let gapAbove := (below + 1) * step - value
  if rounds below then
    if rounds (below + 1) then
      if gapBelow < gapAbove || (gapBelow == gapAbove && below % 2 == 0) then some below
      else some (below + 1)
    else some below
  else if rounds (below + 1) then some (below + 1) else none

/-- The first hit on the grids of `17 - left`, … digits. -/
def Binary.search (b : Binary) : Nat → Scientific
  | 0 => ⟨0, 0⟩
  | left + 1 =>
    let scale := b.magnitude - (17 - left : Nat)
    match b.onGrid? scale with
    | some n => ⟨n, scale⟩
    | none => b.search left

/-- The same number with its trailing zeros counted in the exponent. -/
def Scientific.dropZeros (d : Scientific) : Nat → Scientific
  | 0 => d
  | fuel + 1 =>
    if d.digits % 10 = 0 && d.digits ≠ 0 then
      dropZeros ⟨d.digits / 10, d.exponent + 1⟩ fuel
    else d

/-- The shortest decimal that rounds to a finite double other than zero. -/
def shortest (bits : UInt64) : Scientific :=
  ((Binary.ofBits bits).search 17).dropZeros 17

/-- The digits of `n`. -/
def digitsOf (n : Nat) : List Char := Nat.toDigits 10 n

/-- A shortest decimal as a document writes it: positional from `0.00001` up to sixteen digits
before the point, always with a point or an exponent, and an exponent without a plus sign. -/
def Scientific.render (d : Scientific) : List Char :=
  let ds := digitsOf d.digits
  let point : Int := d.exponent + ds.length
  if 0 ≤ d.exponent ∧ point ≤ 16 then
    ds ++ List.replicate d.exponent.toNat '0' ++ ['.', '0']
  else if 0 < point ∧ point ≤ 16 then
    ds.take point.toNat ++ '.' :: ds.drop point.toNat
  else if -5 < point ∧ point ≤ 0 then
    '0' :: '.' :: (List.replicate (-point).toNat '0' ++ ds)
  else
    let head := match ds with
      | [] => []
      | [c] => [c]
      | c :: rest => c :: '.' :: rest
    let power := point - 1
    head ++ 'e' :: ((if power < 0 then ['-'] else []) ++ digitsOf power.natAbs)

/-- A finite double as a document writes it. -/
def renderFloat (x : Float) : List Char :=
  let bits := x.toBits
  let sign := if twoTo 63 ≤ bits.toNat then ['-'] else []
  if bits.toNat % twoTo 63 = 0 then sign ++ ['0', '.', '0'] else sign ++ (shortest bits).render

end Glossopoeia.Decimal

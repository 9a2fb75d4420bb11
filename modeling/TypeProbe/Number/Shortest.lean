import TypeProbe.Number.Binary64

/-!
# Shortest decimal text of a floating-point number

A finite number is written with the fewest digits that read back as the same number, and with the
nearest of those; if two are equally near, the larger.  A decimal reads back if it lies within half
a step of the number, where a point half a step away belongs to the number with the even mantissa.
The text is positional at every magnitude, without an exponent and without a point after an integer.
-/

namespace TypeProbe.Binary64

/-- A decimal `digits * 10 ^ power`. -/
structure Decimal where
  digits : Nat
  power : Int
deriving DecidableEq, Inhabited

/-- A positive finite number as a ratio of two integers, times `10 ^ -power`. -/
def scaledBy (x : Binary64) (power : Int) : Nat × Nat :=
  (x.mantissa * Nat.pow 2 x.scale.toNat * Nat.pow 10 (-power).toNat,
    Nat.pow 2 (-x.scale).toNat * Nat.pow 10 power.toNat)

/-- The decimals `d * 10 ^ power` and `(d + 1) * 10 ^ power` around a positive finite number that
read back as it, the nearer one if both do. -/
def nearestOn? (x : Binary64) (power : Int) : Option Decimal :=
  let (value, unit) := x.scaledBy power
  let step := Nat.pow 2 x.scale.toNat * Nat.pow 10 (-power).toNat
  let even := x.mantissa % 2 == 0
  let within (distance reach : Nat) : Bool := decide (distance < reach) || even && distance == reach
  let d := value / unit
  let below := value - d * unit
  let above := (d + 1) * unit - value
  let lower := within (4 * below) (if x.isAtPowerOfTwo then step else 2 * step)
  let upper := within (2 * above) step
  if upper && (!lower || decide (above ≤ below)) then some ⟨d + 1, power⟩
  else if lower then some ⟨d, power⟩
  else none

/-- The exponent of the leading decimal digit of a positive ratio below
one: `tries` bounds the search. -/
def leadingBelowOne (numerator denominator : Nat) : Nat → Int
  | 0 => 0
  | tries + 1 =>
    if denominator ≤ 10 * numerator then -1 else leadingBelowOne (10 * numerator) denominator tries - 1

/-- The exponent of the leading decimal digit of a positive finite number. -/
def leading (x : Binary64) : Int :=
  let (value, unit) := x.scaledBy 0
  if unit ≤ value then (Nat.toDigits 10 (value / unit)).length - 1 else leadingBelowOne value unit 400

/-- The first decimal that reads back, going from coarse grids to fine ones; on the last grid, which
`finer` counts down to, the number is cut off. -/
def shortestFrom (x : Binary64) (power : Int) : Nat → Decimal
  | 0 => ⟨(x.scaledBy power).1 / (x.scaledBy power).2, power⟩
  | finer + 1 => (x.nearestOn? power).getD (x.shortestFrom (power - 1) finer)

/-- The decimal that stands for a positive finite number.  Seventeen digits always suffice. -/
def shortest (x : Binary64) : Decimal :=
  x.shortestFrom x.leading 17

/-- The positional text of a decimal, without trailing zeros behind the point. -/
def Decimal.text (d : Decimal) : String :=
  if 0 ≤ d.power then d.digits.repr ++ String.ofList (List.replicate d.power.toNat '0')
  else
    let places := (-d.power).toNat
    let whole := d.digits / Nat.pow 10 places
    let digits := Nat.toDigits 10 (d.digits % Nat.pow 10 places)
    let fraction := List.replicate (places - digits.length) '0' ++ digits
    let kept := (fraction.reverse.dropWhile (· == '0')).reverse
    if kept.isEmpty then whole.repr else whole.repr ++ "." ++ String.ofList kept

/-- The text of a number, with its sign. -/
def text (x : Binary64) : String :=
  if x.isNaN then "NaN"
  else (if x.isNegative then "-" else "") ++
    if x.isInfinite then "inf" else if x.isZero then "0" else x.shortest.text

end TypeProbe.Binary64

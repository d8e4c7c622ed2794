import SourceLoom.Decimal.Binary64
import SourceLoom.Text

/-!
# The shortest decimal

Among the decimals that round to a number, the shortest is the one with the fewest digits, and of
those the nearest to the number. A record of decisions then says how its digits are laid out.
-/

namespace SourceLoom.Decimal

/-- A decimal `0.d₁d₂… * 10 ^ point`. -/
structure Digits where
  /-- The digits without zeros at the end, as one number. -/
  coefficient : Nat
  /-- How many digits stand before the point. -/
  point : Int
  deriving DecidableEq, Repr

/-- The open or closed interval of the numbers that round to a mantissa and exponent, and the
number itself, all as numerators over one denominator. -/
structure Neighbourhood where
  /-- The lower end. -/
  low : Nat
  /-- The number. -/
  value : Nat
  /-- The upper end. -/
  high : Nat
  /-- The common denominator. -/
  den : Nat
  /-- Whether the ends round to the number, which they do when its mantissa is even. -/
  closed : Bool

/-- The neighbourhood of a positive number. Below the least number of an exponent the next number
is only half as far away as above it. -/
def neighbourhood (mantissa : Nat) (exponent : Int) : Neighbourhood :=
  let narrow := mantissa = Nat.pow 2 (Binary64.precision - 1) ∧ Binary64.leastExponent < exponent
  let (num, den) := Binary64.quotient mantissa exponent
  let unit := num / mantissa
  { low := 4 * num - (if narrow then unit else 2 * unit)
    value := 4 * num
    high := 4 * num + 2 * unit
    den := 4 * den
    closed := mantissa % 2 = 0 }

/-- Whether a multiple of a power of ten lies in the neighbourhood. -/
def Neighbourhood.holds (area : Neighbourhood) (coefficient : Nat) (power : Int) : Bool :=
  let num :=
    if 0 ≤ power then coefficient * Nat.pow 10 power.toNat * area.den else coefficient * area.den
  let scale := if 0 ≤ power then 1 else Nat.pow 10 (-power).toNat
  if area.closed then area.low * scale ≤ num && num ≤ area.high * scale
  else area.low * scale < num && num < area.high * scale

/-- The number of digits before the point of a positive quotient: one more than the exponent of
the greatest power of ten that is not above it. -/
def pointOf (num den : Nat) : Int :=
  if den ≤ num then ((Nat.toDigits 10 (num / den)).length : Int)
  else
    let inverse := (Nat.toDigits 10 ((den - 1) / num)).length
    1 - (inverse : Int)

/-- The better of the two neighbours of a number on the grid of a power of ten, if one of them
lies in the neighbourhood: the nearer one, and of two equally near ones the even one. -/
def onGrid? (area : Neighbourhood) (power : Int) : Option Nat :=
  let num := if 0 ≤ power then area.value else area.value * Nat.pow 10 (-power).toNat
  let den := if 0 ≤ power then area.den * Nat.pow 10 power.toNat else area.den
  let below := num / den
  let nearest := roundQuotient num den
  let other := if nearest = below then below + 1 else below
  if area.holds nearest power then some nearest
  else if area.holds other power then some other
  else none

/-- A number without the zeros at its decimal end. -/
def dropZeros : (fuel coefficient : Nat) → Nat
  | 0, coefficient => coefficient
  | fuel + 1, coefficient =>
    if coefficient % 10 = 0 ∧ coefficient ≠ 0 then dropZeros fuel (coefficient / 10)
    else coefficient

/-- The shortest decimal of a positive number. Seventeen digits always suffice. -/
def shortest (mantissa : Nat) (exponent : Int) : Digits :=
  let area := neighbourhood mantissa exponent
  let point := pointOf area.value area.den
  let found := (List.range 17).findSome? fun (k : Nat) =>
    let power := point - 1 - (k : Int)
    (onGrid? area power).map fun coefficient => (coefficient, power)
  let (coefficient, power) := found.getD (0, point)
  let digits := (Nat.toDigits 10 coefficient).length
  { coefficient := dropZeros digits coefficient, point := power + digits }

/-- How a decimal is laid out. -/
structure Layout where
  /-- From this point upwards a whole number is written with all its digits. -/
  greatestPoint : Int
  /-- Down to this point zeros are written after the decimal point. -/
  leastPoint : Int
  /-- The least number of digits of an exponent. -/
  exponentDigits : Nat
  /-- Whether a whole number keeps one zero after its decimal point. -/
  keepsZero : Bool
  /-- The text of the greater infinity. -/
  infinity : Text
  /-- The text of the undefined number. -/
  undefined : Text

/-- The text of a decimal under a layout. -/
def Digits.toText (layout : Layout) (d : Digits) : Text :=
  let digits := Nat.toDigits 10 d.coefficient
  if layout.leastPoint ≤ d.point ∧ d.point ≤ layout.greatestPoint then
    if d.point ≤ 0 then
      "0.".toList ++ List.replicate (-d.point).toNat '0' ++ digits
    else if digits.length ≤ d.point.toNat then
      digits ++ List.replicate (d.point.toNat - digits.length) '0' ++
        (if layout.keepsZero then ".0".toList else [])
    else digits.take d.point.toNat ++ ['.'] ++ digits.drop d.point.toNat
  else
    let exponent := d.point - 1
    let size := Nat.toDigits 10 exponent.natAbs
    let fraction := digits.drop 1
    digits.take 1 ++ (if fraction.isEmpty then [] else '.' :: fraction) ++
      ['e', if exponent < 0 then '-' else '+'] ++
      List.replicate (layout.exponentDigits - size.length) '0' ++ size

/-- The text of a number under a layout. -/
def Binary64.toText (layout : Layout) : Binary64 → Text
  | .finite negative mantissa exponent =>
    let text :=
      if mantissa = 0 then (if layout.keepsZero then "0.0".toList else ['0'])
      else (shortest mantissa exponent).toText layout
    if negative then '-' :: text else text
  | .infinite negative => if negative then '-' :: layout.infinity else layout.infinity
  | .undefined => layout.undefined

end SourceLoom.Decimal

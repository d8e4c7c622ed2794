/-!
# Numbers of 64 bits

The floating-point numbers that numerals and percentages round to: a mantissa of at most 53 bits
times a power of two, the two infinities and the undefined number. Every operation here rounds
its exact result once, to the nearest number, and a result halfway between two numbers to the one
with an even mantissa.
-/

namespace SourceLoom.Decimal

/-- A floating-point number of 64 bits. -/
inductive Binary64 where
  /-- Plus or minus `mantissa * 2 ^ exponent`. -/
  | finite (negative : Bool) (mantissa : Nat) (exponent : Int)
  /-- Beyond the greatest finite number. -/
  | infinite (negative : Bool)
  /-- The undefined number. -/
  | undefined
  deriving DecidableEq, Repr, Inhabited

/-- The whole number nearest to a quotient, the even one of two that are equally near. -/
def roundQuotient (num den : Nat) : Nat :=
  let floor := num / den
  let twice := 2 * (num % den)
  if twice < den then floor
  else if den < twice then floor + 1
  else if floor % 2 = 0 then floor else floor + 1

namespace Binary64

/-- The number of bits of a full mantissa. -/
def precision : Nat := 53

/-- The exponent of the smallest numbers. -/
def leastExponent : Int := -1074

/-- The exponent of the greatest numbers. -/
def greatestExponent : Int := 971

/-- Zero with a sign. -/
def zero (negative : Bool) : Binary64 := .finite negative 0 leastExponent

/-- A quotient over a power of two, as a quotient of natural numbers. -/
def scaled (num den : Nat) (exponent : Int) : Nat × Nat :=
  if 0 ≤ exponent then (num, den * Nat.pow 2 exponent.toNat)
  else (num * Nat.pow 2 (-exponent).toNat, den)

/-- The exponent at which a positive quotient has a full mantissa, or the least exponent if that
is greater. -/
def exponentOf (num den : Nat) : Int :=
  let guess : Int := (num.log2 : Int) - (den.log2 : Int) - 52
  let floor := let (n, d) := scaled num den guess; n / d
  let exponent := if floor < Nat.pow 2 (precision - 1) then guess - 1 else guess
  max exponent leastExponent

/-- The number nearest to a quotient. -/
def ofQuotient (negative : Bool) (num den : Nat) : Binary64 :=
  if num = 0 then zero negative
  else
    let exponent := exponentOf num den
    let mantissa := let (n, d) := scaled num den exponent; roundQuotient n d
    let (mantissa, exponent) :=
      if mantissa = Nat.pow 2 precision then (Nat.pow 2 (precision - 1), exponent + 1)
      else (mantissa, exponent)
    if greatestExponent < exponent then .infinite negative
    else .finite negative mantissa exponent

/-- The number nearest to `digits * 10 ^ exponent`. Beyond four hundred places before or after
the point every such product is out of range, so the power is not computed there. -/
def ofDecimal (negative : Bool) (digits : Nat) (exponent : Int) : Binary64 :=
  let places : Int := (Nat.toDigits 10 digits).length + exponent
  if digits = 0 ∨ places < -400 then zero negative
  else if 400 < places then .infinite negative
  else if 0 ≤ exponent then ofQuotient negative (digits * Nat.pow 10 exponent.toNat) 1
  else ofQuotient negative digits (Nat.pow 10 (-exponent).toNat)

/-- The magnitude of a finite number as a quotient of natural numbers. -/
def quotient (mantissa : Nat) (exponent : Int) : Nat × Nat :=
  if 0 ≤ exponent then (mantissa * Nat.pow 2 exponent.toNat, 1)
  else (mantissa, Nat.pow 2 (-exponent).toNat)

/-- The number times a positive whole number. -/
def times (factor : Nat) : Binary64 → Binary64
  | .finite negative mantissa exponent =>
    let (num, den) := quotient mantissa exponent
    ofQuotient negative (num * factor) den
  | x => x

/-- The number to so many decimal places. -/
def toPlaces (places : Nat) : Binary64 → Binary64
  | .finite negative mantissa exponent =>
    let (num, den) := quotient mantissa exponent
    ofQuotient negative (roundQuotient (num * Nat.pow 10 places) den) (Nat.pow 10 places)
  | x => x

end Binary64

end SourceLoom.Decimal

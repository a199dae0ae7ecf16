import EvmAtlas.Text.Decimal

/-!
# Scientific notation

A number with a fraction or an exponent is a whole number of units of a power of ten. It
is rounded to the nearest double, so it is too large from half a step beyond the largest
double on.
-/

namespace EvmAtlas

/-- The size of a number: so many units of a power of ten. -/
structure Scientific where
  units : Nat
  exponent : Int
  deriving DecidableEq, Repr

namespace Scientific

/-- The size of a number as it is written: digits, of which some follow a point, and an
exponent after a letter. The sign does not count. -/
def ofText (text : List Char) : Scientific :=
  let unsigned := text.dropWhile fun char => char == '-' || char == '+'
  let digits := unsigned.takeWhile fun char => char.isDigit || char == '.'
  let fraction := (digits.dropWhile (· != '.')).drop 1
  let exponent := (Decimal.toSigned? (unsigned.drop (digits.length + 1))).getD 0
  { units := (Decimal.toNat? (digits.filter (· != '.'))).getD 0
    exponent := exponent - fraction.length }

/-- The least number that is rounded to more than the largest double. It lies half a step
of the last binary place beyond that double, and a tie goes to the even neighbour. -/
def firstTooLarge : Nat :=
  Nat.pow 2 1024 - Nat.pow 2 970

/-- Whether a number is rounded to more than the largest double. The first number that is
too large has 309 digits, so that only numbers of that length need to be compared. -/
def isTooLarge (number : Scientific) : Bool :=
  let length : Int := (Nat.toDigits 10 number.units).length + number.exponent
  if number.units = 0 then false
  else if length ≠ 309 then decide (309 < length)
  else
    decide (firstTooLarge * Nat.pow 10 (-number.exponent).toNat
      ≤ number.units * Nat.pow 10 number.exponent.toNat)

end Scientific

end EvmAtlas

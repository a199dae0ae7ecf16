/-!
# Decimal text

Numbers are written in base ten, with leading zeros where a column has a width.
-/

namespace EvmAtlas.Decimal

/-- The digits of a number, filled up with zeros on the left to a given width. -/
def padded (width number : Nat) : String :=
  let digits := Nat.toDigits 10 number
  String.ofList (List.replicate (width - digits.length) '0' ++ digits)

/-- A number of decimal digits, at least one, with nothing around them. -/
def toNat? (text : List Char) : Option Nat :=
  if text.isEmpty then none
  else text.foldlM (fun total char =>
    if char.isDigit then some (total * 10 + (char.toNat - 48)) else none) 0

/-- A decimal number with an optional minus sign. -/
def toInt? : List Char → Option Int
  | '-' :: digits => (toNat? digits).map fun number => -(number : Int)
  | digits => (toNat? digits).map fun number => (number : Int)

/-- A decimal number with an optional sign of either kind. -/
def toSigned? : List Char → Option Int
  | '+' :: digits => (toNat? digits).map fun number => (number : Int)
  | text => toInt? text

end EvmAtlas.Decimal

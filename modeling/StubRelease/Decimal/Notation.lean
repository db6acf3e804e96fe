/-
# StubRelease.Decimal.Notation -- floating numbers in given numbers of digits

Three notations of a non-negative number: positional with a number of places, scientific with a number of
places, and the shorter one of the two with a number of digits in all. Digits are rounded from the exact
value, a half going to the even neighbour.
-/
import StubRelease.Decimal.Shortest

namespace StubRelease

namespace Floating

/-- A number as a quotient. -/
def quotient (x : Floating) : Nat × Nat :=
  (x.significand * Nat.pow 2 x.exponent.toNat, Nat.pow 2 (-x.exponent).toNat)

/-- A number rounded to a number of places after the point, in units of the last place. -/
def units (x : Floating) (places : Int) : Nat :=
  let (num, den) := quotient x
  roundQuotient (num * Nat.pow 10 places.toNat) (den * Nat.pow 10 (-places).toNat)

/-- Digits with a point in front of the last ones. -/
def pointed (digits : List Char) (places : Nat) : List Char :=
  let digits := List.replicate (places + 1 - digits.length) '0' ++ digits
  let whole := digits.take (digits.length - places)
  if places = 0 then whole else whole ++ '.' :: digits.drop (digits.length - places)

/-- Positional notation with a number of places. -/
def fixed (x : Floating) (places : Nat) : List Char := pointed (Decimal.digits (units x places)) places

/-- The power of ten of the first digit when a number is rounded to some digits after the first, and the
digits. -/
def leading (x : Floating) (places : Nat) : Int × List Char :=
  if x.significand = 0 then (0, List.replicate (places + 1) '0')
  else
    let (num, den) := quotient x
    let guess : Int := (Decimal.digits num).length - (Decimal.digits den).length
    let power := if num * Nat.pow 10 (-guess).toNat < den * Nat.pow 10 guess.toNat then guess - 1 else guess
    let digits := Decimal.digits (units x (places - power))
    if digits.length > places + 1 then (power + 1, digits.take (places + 1)) else (power, digits)

/-- An exponent with its sign and at least two digits. -/
def exponentText (power : Int) : List Char :=
  (if power < 0 then '-' else '+') :: Decimal.padded 2 power.natAbs

/-- Scientific notation with a number of places. -/
def scientific (x : Floating) (places : Nat) : List Char :=
  let (power, digits) := leading x places
  pointed digits places ++ 'e' :: exponentText power

/-- Drops zeros at the end of the places after a point. -/
def dropZeros (t : List Char) : List Char :=
  if t.contains '.' then
    let t := (t.reverse.dropWhile (· = '0')).reverse
    if t.getLast? = some '.' then t.dropLast else t
  else t

/-- The shorter one of the two notations, with a number of digits in all. -/
def general (x : Floating) (digits : Nat) (keepZeros : Bool) : List Char :=
  let digits := max digits 1
  let trim (t : List Char) : List Char := if keepZeros then t else dropZeros t
  let (power, all) := leading x (digits - 1)
  if -4 ≤ power && power < digits then trim (fixed x ((digits : Int) - 1 - power).toNat)
  else trim (pointed all (digits - 1)) ++ 'e' :: exponentText power

end Floating

end StubRelease

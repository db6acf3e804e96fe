/-
# StubRelease.Decimal.Shortest -- floating numbers in the fewest decimal digits

A non-negative finite floating number is a significand times a power of two; a precision says how many bits
the significand may have and how far the exponent goes. `nearest?` is the number of a precision closest to an
exact decimal, ties going to the even significand, and `shortest` is the decimal with the fewest digits that
is nearest to a given double, of two such decimals the closer one. Everything is computed in exact integers.
-/
import StubRelease.Decimal

namespace StubRelease

/-- A non-negative finite floating number: `significand * 2 ^ exponent`. -/
structure Floating where
  significand : Nat
  exponent : Int
deriving DecidableEq, Repr

/-- A decimal: `digits * 10 ^ exponent`. -/
structure ScaledDecimal where
  digits : Nat
  exponent : Int
deriving DecidableEq, Repr

/-- The numbers a machine can hold in a form of its own. -/
structure Precision where
  /-- The bits of a significand. -/
  bits : Nat
  least : Int
  greatest : Int
deriving DecidableEq, Repr

namespace Precision

/-- Double precision. -/
def double : Precision := ⟨53, -1074, 971⟩

/-- Extended precision, with a significand of 64 bits. -/
def extended : Precision := ⟨64, -16445, 16320⟩

end Precision

namespace Floating

/-- The quotient rounded to the nearest integer, a half going to the even one. -/
def roundQuotient (num den : Nat) : Nat :=
  let q := num / den
  let r := num % den
  if 2 * r < den then q
  else if 2 * r = den then q + q % 2
  else q + 1

/-- The number of a precision nearest to a quotient of positive integers; `none` past the greatest one. -/
def nearestQuotient? (p : Precision) (num den : Nat) : Option Floating :=
  let scaled (q : Int) : Nat × Nat := (num * Nat.pow 2 (-q).toNat, den * Nat.pow 2 q.toNat)
  let guess : Int := max p.least ((num.log2 : Int) - den.log2 - p.bits)
  let (n, d) := scaled guess
  let q := if n / d < Nat.pow 2 p.bits then guess else guess + 1
  let (n, d) := scaled q
  let s := roundQuotient n d
  let (s, q) := if s < Nat.pow 2 p.bits then (s, q) else (Nat.pow 2 (p.bits - 1), q + 1)
  if q ≤ p.greatest then some ⟨s, q⟩ else none

/-- The number of a precision nearest to a decimal. Decimals far outside the range are settled by their
magnitude alone: each bit of an exponent is less than a third of a decimal digit. -/
def nearest? (p : Precision) (v : ScaledDecimal) : Option Floating :=
  let magnitude : Int := (Decimal.digits v.digits).length + v.exponent
  let bound : Int := (p.bits - p.least) / 3 + 25
  if v.digits = 0 ∨ magnitude < -bound then some ⟨0, p.least⟩
  else if bound < magnitude then none
  else nearestQuotient? p (v.digits * Nat.pow 10 v.exponent.toNat) (Nat.pow 10 (-v.exponent).toNat)

/-- The two decimals on the grid of `10 ^ p` between which a double lies, the closer one first. -/
def neighbours (x : Floating) (p : Int) : List ScaledDecimal :=
  let num := x.significand * Nat.pow 2 x.exponent.toNat * Nat.pow 10 (-p).toNat
  let den := Nat.pow 2 (-x.exponent).toNat * Nat.pow 10 p.toNat
  let below : ScaledDecimal := ⟨num / den, p⟩
  let above : ScaledDecimal := ⟨num / den + 1, p⟩
  if 2 * (num % den) < den then [below, above] else [above, below]

/-- The first decimal, on grids from `10 ^ p` downwards, that is read back as the double. -/
def shortestFrom (x : Floating) : Nat → Int → ScaledDecimal
  | 0, p => ⟨0, p⟩
  | n + 1, p =>
    match (neighbours x p).find? (fun v => nearest? .double v == some x) with
    | some v => v
    | none => shortestFrom x n (p - 1)

/-- The decimal with the fewest digits that is read back as the double. -/
def shortest (x : Floating) : ScaledDecimal :=
  if x.significand = 0 then ⟨0, 0⟩ else shortestFrom x 700 309

end Floating

namespace ScaledDecimal

/-- Positional notation with at least one digit on either side of the point. -/
def positional (v : ScaledDecimal) : List Char :=
  let cs := Decimal.digits v.digits
  if 0 ≤ v.exponent then cs ++ List.replicate v.exponent.toNat '0' ++ ['.', '0']
  else
    let places := (-v.exponent).toNat
    let cs := List.replicate (places + 1 - cs.length) '0' ++ cs
    cs.take (cs.length - places) ++ '.' :: cs.drop (cs.length - places)

end ScaledDecimal

end StubRelease

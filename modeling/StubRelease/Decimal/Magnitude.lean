/-
# StubRelease.Decimal.Magnitude -- numbers at the beginning of texts

A text may begin with a number: in decimal or hexadecimal digits with a point and an exponent, or as a word
for infinity or for no number at all. `take?` reads the longest such beginning and rounds it to a precision.
Numbers are also written in hexadecimal digits here, which show every bit of a significand.
-/
import StubRelease.Decimal.Notation

namespace StubRelease

/-- A non-negative number, infinity, or what is no number. -/
inductive Magnitude where
  | finite (x : Floating)
  | infinite
  | undefined
deriving DecidableEq, Repr

/-- What a text begins with. -/
structure Numeral where
  negative : Bool
  value : Magnitude
  /-- Whether the value is too great, or so small that it loses bits. -/
  outOfRange : Bool
  /-- What follows. -/
  rest : List Char
deriving Repr

namespace Numeral

/-- Digits with an optional point: those before it, those behind it, and what follows. -/
def digitsAround (isDigit : Char → Bool) (t : List Char) : List Char × List Char × List Char :=
  let whole := t.takeWhile isDigit
  match t.dropWhile isDigit with
  | '.' :: rest =>
    let places := rest.takeWhile isDigit
    if whole.isEmpty && places.isEmpty then ([], [], t) else (whole, places, rest.dropWhile isDigit)
  | rest => (whole, [], rest)

/-- The number that digits of a base stand for. -/
def valueOf (base : Nat) (digits : List Char) : Nat :=
  digits.foldl (fun n c =>
    n * base + (if c.isDigit then c.toNat - 48 else if c.isUpper then c.toNat - 55 else c.toNat - 87)) 0

/-- Whether a minus sign begins a text, and what follows its sign. -/
def afterSign : List Char → Bool × List Char
  | '-' :: rest => (true, rest)
  | '+' :: rest => (false, rest)
  | t => (false, t)

/-- The exponent after a letter, and what follows it; without digits there is none. -/
def exponent (letter : Char) (t : List Char) : Int × List Char :=
  match t with
  | e :: rest =>
    if e.toLower ≠ letter then (0, t)
    else
      let (negative, digits) := afterSign rest
      let shown := digits.takeWhile Char.isDigit
      if shown.isEmpty then (0, t)
      else
        let n : Int := valueOf 10 shown
        (if negative then -n else n, digits.dropWhile Char.isDigit)
  | [] => (0, t)

/-- A quotient in a precision, and whether it is out of range. -/
def rounded (p : Precision) (num den : Nat) : Magnitude × Bool :=
  match Floating.nearestQuotient? p num den with
  | none => (.infinite, true)
  | some x =>
    let (n, d) := x.quotient
    (.finite x, x.significand < Nat.pow 2 (p.bits - 1) && n * den ≠ num * d)

/-- A significand times a power of two, in a precision. -/
def binary (p : Precision) (significand : Nat) (power : Int) : Magnitude × Bool :=
  let magnitude : Int := significand.log2 + power
  if significand = 0 then (.finite ⟨0, p.least⟩, false)
  else if magnitude > p.greatest + p.bits then (.infinite, true)
  else if magnitude < p.least - 2 then (.finite ⟨0, p.least⟩, true)
  else rounded p (significand * Nat.pow 2 power.toNat) (Nat.pow 2 (-power).toNat)

/-- A decimal in a precision. -/
def decimal (p : Precision) (v : ScaledDecimal) : Magnitude × Bool :=
  match Floating.nearest? p v with
  | none => (.infinite, true)
  | some ⟨0, q⟩ => (.finite ⟨0, q⟩, v.digits ≠ 0)
  | some _ => rounded p (v.digits * Nat.pow 10 v.exponent.toNat) (Nat.pow 10 (-v.exponent).toNat)

/-- Whether a text begins with a word in small letters, whatever the case of its own. -/
def begins (word : String) (t : List Char) : Bool := word.toList.isPrefixOf (t.map Char.toLower)

/-- What stands between parentheses at the beginning is passed over. -/
def afterNote (t : List Char) : List Char :=
  match t with
  | '(' :: inner =>
    match inner.dropWhile fun c => c.isAlphanum || c = '_' with
    | ')' :: rest => rest
    | _ => t
  | _ => t

/-- The number without a sign that begins a text, whether it is out of range, and what follows. -/
def unsigned? (p : Precision) (t : List Char) : Option ((Magnitude × Bool) × List Char) :=
  let isHex (c : Char) : Bool := c.isDigit || ('a' ≤ c.toLower && c.toLower ≤ 'f')
  if begins "infinity" t then some ((.infinite, false), t.drop 8)
  else if begins "inf" t then some ((.infinite, false), t.drop 3)
  else if begins "nan" t then some ((.undefined, false), afterNote (t.drop 3))
  else
    let (whole, places, rest) := digitsAround isHex (t.drop 2)
    if begins "0x" t && !(whole.isEmpty && places.isEmpty) then
      let (power, rest) := exponent 'p' rest
      some (binary p (valueOf 16 (whole ++ places)) (power - 4 * places.length), rest)
    else
      let (whole, places, rest) := digitsAround Char.isDigit t
      if whole.isEmpty && places.isEmpty then none
      else
        let (power, rest) := exponent 'e' rest
        some (decimal p ⟨valueOf 10 (whole ++ places), power - places.length⟩, rest)

/-- The number with an optional sign that begins a text. -/
def take? (p : Precision) (t : List Char) : Option Numeral :=
  let (negative, t) := afterSign t
  (unsigned? p t).map fun ((value, outOfRange), rest) => ⟨negative, value, outOfRange, rest⟩

end Numeral

namespace Floating

/-- How many bits of a precision follow the first hexadecimal digit, which has the others. -/
def bitsAfterFirst (p : Precision) : Nat := (p.bits - 1) / 4 * 4

/-- Hexadecimal notation with a number of places, or as many as are needed. The exponent is one of two. -/
def hexadecimal (p : Precision) (x : Floating) (places : Option Nat) : List Char :=
  if x.significand = 0 then '0' :: decimals (places.getD 0) [] ++ "p+0".toList
  else
    let all := bitsAfterFirst p / 4
    let kept := min (places.getD all) all
    let units := roundQuotient x.significand (Nat.pow 2 (4 * (all - kept)))
    let first := Nat.toDigits 16 (units / Nat.pow 2 (4 * kept))
    let digits := Nat.toDigits 16 (units % Nat.pow 2 (4 * kept))
    let digits := if kept = 0 then [] else List.replicate (kept - digits.length) '0' ++ digits
    let digits := match places with
      | none => (digits.reverse.dropWhile (· = '0')).reverse
      | some _ => digits
    let power : Int := x.exponent + bitsAfterFirst p
    first ++ decimals (places.getD digits.length) digits
      ++ 'p' :: (if power < 0 then '-' else '+') :: Decimal.digits power.natAbs
where
  decimals (count : Nat) (digits : List Char) : List Char :=
    if count = 0 then [] else '.' :: digits ++ List.replicate (count - digits.length) '0'

end Floating

end StubRelease

/-
# StubRelease.Toml.Scalar -- numbers, booleans and moments

A value that is neither quoted nor bracketed is a run of letters, digits and a few signs. This module
reads such a run as a boolean, an integer, a decimal, one of the special numbers, a date, a time of day or
both.
-/
import StubRelease.Toml.Text
import StubRelease.Toml.Value

namespace StubRelease.Toml

/-- A character that a scalar may consist of. -/
def isScalarChar (c : Char) : Bool :=
  c.isAlphanum || c == '_' || c == '+' || c == '-' || c == '.' || c == ':'

namespace Scalar

/-! ## Numbers -/

/-- Digits with single underscores between them, the underscores taken out. -/
def grouped (isDigit : Char → Bool) : List Char → Option (List Char)
  | [] => none
  | [c] => if isDigit c then some [c] else none
  | c :: '_' :: rest => if isDigit c then (grouped isDigit rest).map (c :: ·) else none
  | c :: rest => if isDigit c then (grouped isDigit rest).map (c :: ·) else none

/-- The number that digits of a base stand for. -/
def number (base : Nat) (digits : List Char) : Nat :=
  digits.foldl (fun n c => n * base + (hexDigit? c).getD 0) 0

/-- Digits of a base, read as a number. -/
def inBase (base : Nat) (cs : List Char) : Option Nat :=
  let isDigit (c : Char) : Bool := (hexDigit? c).any (· < base)
  (grouped isDigit cs).map (number base)

/-- The digits in front of a point: no zero leads another digit. -/
def wholePart (cs : List Char) : Option (List Char) :=
  match grouped Char.isDigit cs with
  | some ('0' :: _ :: _) => none
  | digits => digits

/-- Whether a character belongs to a run of grouped digits. -/
def isGroupChar (c : Char) : Bool := c.isDigit || c == '_'

/-- A sign, and what it stands in front of. -/
def splitSign : List Char → Bool × List Char
  | '+' :: rest => (false, rest)
  | '-' :: rest => (true, rest)
  | cs => (false, cs)

/-- The exponent after `e`. -/
def exponent (cs : List Char) : Option Int :=
  let (negative, cs) := splitSign cs
  (grouped Char.isDigit cs).map fun digits =>
    let n : Int := number 10 digits
    if negative then -n else n

/-- What follows the whole part of a number: digits of a fraction, and an exponent. -/
def fractionAndExponent (cs : List Char) : Option (List Char × Int) :=
  match cs with
  | '.' :: rest => do
    let digits ← grouped Char.isDigit (rest.takeWhile isGroupChar)
    match rest.dropWhile isGroupChar with
    | [] => some (digits, 0)
    | e :: rest => if e = 'e' ∨ e = 'E' then (exponent rest).map (digits, ·) else none
  | e :: rest => if e = 'e' ∨ e = 'E' then (exponent rest).map ([], ·) else none
  | [] => none

/-- A number in decimal notation, its sign taken off. -/
def decimal (negative : Bool) (cs : List Char) : Option Value := do
  let whole ← wholePart (cs.takeWhile isGroupChar)
  match cs.dropWhile isGroupChar with
  | [] =>
    let n : Int := number 10 whole
    some (.integer (if negative then -n else n))
  | rest =>
    let (fraction, e) ← fractionAndExponent rest
    some (.real negative ⟨number 10 (whole ++ fraction), e - fraction.length⟩)

/-! ## Moments -/

/-- The number two digits stand for. -/
def two (a b : Char) : Option Nat :=
  if a.isDigit && b.isDigit then some (number 10 [a, b]) else none

/-- Days of a month. -/
def monthDays (year month : Nat) : Nat :=
  if month = 2 then if year % 4 = 0 ∧ (year % 100 ≠ 0 ∨ year % 400 = 0) then 29 else 28
  else if month = 4 ∨ month = 6 ∨ month = 9 ∨ month = 11 then 30
  else 31

/-- A date that exists, and what follows it. -/
def date : List Char → Option (List Char)
  | y₁ :: y₂ :: y₃ :: y₄ :: '-' :: m₁ :: m₂ :: '-' :: d₁ :: d₂ :: rest => do
    let century ← two y₁ y₂
    let year ← two y₃ y₄
    let month ← two m₁ m₂
    let day ← two d₁ d₂
    if 1 ≤ month ∧ month ≤ 12 ∧ 1 ≤ day ∧ day ≤ monthDays (100 * century + year) month then some rest
    else none
  | _ => none

/-- A fraction of a second, and what follows it. -/
def secondFraction : List Char → Option (List Char)
  | '.' :: c :: rest => if c.isDigit then some (rest.dropWhile Char.isDigit) else none
  | '.' :: [] => none
  | cs => some cs

/-- A time of day, and what follows it; the seconds may be left out. -/
def time : List Char → Option (List Char)
  | h₁ :: h₂ :: ':' :: m₁ :: m₂ :: rest => do
    let hour ← two h₁ h₂
    let minute ← two m₁ m₂
    if 23 < hour ∨ 59 < minute then none
    else
      match rest with
      | ':' :: s₁ :: s₂ :: rest => do
        let second ← two s₁ s₂
        if 60 < second then none else secondFraction rest
      | ':' :: _ => none
      | rest => some rest
  | _ => none

/-- A distance from UTC and nothing after it. -/
def isOffset : List Char → Bool
  | ['Z'] | ['z'] => true
  | [sign, h₁, h₂, ':', m₁, m₂] =>
    (sign == '+' || sign == '-') && (two h₁ h₂).any (· ≤ 23) && (two m₁ m₂).any (· ≤ 59)
  | _ => false

/-- A date, a time of day, or a date and a time that may have a distance from UTC. -/
def isMoment (cs : List Char) : Bool :=
  match date cs with
  | some [] => true
  | some (mark :: rest) =>
    (mark == 'T' || mark == 't' || mark == ' ') &&
      match time rest with
      | some [] => true
      | some rest => isOffset rest
      | none => false
  | none => time cs == some []

/-- A run that begins like a date or a time of day. -/
def looksLikeMoment : List Char → Bool
  | a :: b :: ':' :: _ => a.isDigit && b.isDigit
  | a :: b :: c :: d :: '-' :: _ => a.isDigit && b.isDigit && c.isDigit && d.isDigit
  | _ => false

/-! ## Scalars -/

/-- The value a run of scalar characters stands for. -/
def ofRun (cs : List Char) : Option Value :=
  if cs = "true".toList then some (.boolean true)
  else if cs = "false".toList then some (.boolean false)
  else if looksLikeMoment cs then
    if isMoment cs then some (.moment (String.ofList cs)) else none
  else
    let (negative, body) := splitSign cs
    if body = "inf".toList then some (.infinite negative)
    else if body = "nan".toList then some .notANumber
    else
      match cs with
      | '0' :: 'x' :: rest => (inBase 16 rest).map fun n => .integer n
      | '0' :: 'o' :: rest => (inBase 8 rest).map fun n => .integer n
      | '0' :: 'b' :: rest => (inBase 2 rest).map fun n => .integer n
      | _ => decimal negative body

/-- The run of scalar characters at the front; a date may be followed by a blank and a time of day. -/
def splitRun (cs : List Char) : List Char × List Char :=
  let run := cs.takeWhile isScalarChar
  let rest := cs.dropWhile isScalarChar
  match date run, rest with
  | some [], ' ' :: c :: more =>
    if c.isDigit then
      (run ++ ' ' :: (c :: more).takeWhile isScalarChar, (c :: more).dropWhile isScalarChar)
    else (run, rest)
  | _, _ => (run, rest)

/-- Reads a scalar. -/
def read : Reader Value := fun cs =>
  let (run, rest) := splitRun cs
  (ofRun run).map fun v => (v, rest)

end Scalar

end StubRelease.Toml

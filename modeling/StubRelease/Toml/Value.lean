/-
# StubRelease.Toml.Value -- what a TOML document holds

The values of a document. A number with a point or an exponent is kept exactly as it was written; only
showing it rounds it to a double. A table remembers how it came about, because that decides what later
lines may add to it.
-/
import StubRelease.Decimal.Shortest

namespace StubRelease.Toml

/-- How a table came about. -/
inductive Origin where
  /-- By its own header line. -/
  | headed
  /-- On the way to a table of a header line. -/
  | implied
  /-- By a dotted key. -/
  | dotted
  /-- Written between braces. -/
  | inlined
deriving DecidableEq, Repr

/-- A value of a document. -/
inductive Value where
  | string (text : String)
  | integer (value : Int)
  /-- A decimal with a point or an exponent, as written. -/
  | real (negative : Bool) (value : ScaledDecimal)
  | infinite (negative : Bool)
  | notANumber
  | boolean (value : Bool)
  /-- A date, a time of day, or both. -/
  | moment (text : String)
  | array (items : List Value)
  | table (origin : Origin) (entries : List (String × Value))
  /-- Tables listed under one header, the last one still open. -/
  | tables (earlier : List (List (String × Value))) (last : List (String × Value))

/-- The entries of a table, in the order they were written. -/
abbrev Entries := List (String × Value)

namespace Value

/-- A sign in front of a text. -/
def signed (negative : Bool) (text : String) : String := if negative then "-" ++ text else text

/-- How a message names an integer; `none` past what 128 bits hold. -/
def describeInteger (n : Int) : Option String :=
  let text := toString n
  if -(Int.pow 2 63) ≤ n ∧ n < Int.pow 2 64 then some ("integer `" ++ text ++ "`")
  else if -(Int.pow 2 127) ≤ n ∧ n < Int.pow 2 127 then some ("integer `" ++ text ++ "` as i128")
  else if 0 ≤ n ∧ n < Int.pow 2 128 then some ("integer `" ++ text ++ "` as u128")
  else none

/-- How a message names a number with a point. -/
def describeReal (text : String) : String := "floating point `" ++ text ++ "`"

/-- How a message names a value that was found where another kind was expected; `none` for a number too
large to be held at all. -/
def describe : Value → Option String
  | string text => some ("string \"" ++ text ++ "\"")
  | integer n => describeInteger n
  | real negative v =>
    (Floating.nearest? .double v).map fun x =>
      describeReal (signed negative (String.ofList x.shortest.positional))
  | infinite negative => some (describeReal (signed negative "inf"))
  | notANumber => some (describeReal "NaN")
  | boolean b => some ("boolean `" ++ (if b then "true" else "false") ++ "`")
  | array _ | tables _ _ => some "sequence"
  | table _ _ | moment _ => some "map"

/-! ## Machine forms -/

mutual

/-- Whether every number in a value has a machine form: 64 bits with a sign for an integer, a double for
any other. -/
def fits : Value → Bool
  | string _ | boolean _ | moment _ | infinite _ | notANumber => true
  | integer n => decide (-(Int.pow 2 63) ≤ n ∧ n < Int.pow 2 63)
  | real _ v => (Floating.nearest? .double v).isSome
  | array items => itemsFit items
  | table _ entries => entriesFit entries
  | tables earlier last => tablesFit earlier && entriesFit last

def itemsFit : List Value → Bool
  | [] => true
  | v :: rest => v.fits && itemsFit rest

def entriesFit : List (String × Value) → Bool
  | [] => true
  | (_, v) :: rest => v.fits && entriesFit rest

def tablesFit : List (List (String × Value)) → Bool
  | [] => true
  | entries :: rest => entriesFit entries && tablesFit rest

end

end Value

end StubRelease.Toml

/-
# StubRelease.Shell.Variable -- variables

A variable has a value and, where the dialect has rows of values, more of them at further places: at numbers
or at keys. Its own value is the one at place 0.
-/
import StubRelease.Shell.Text

namespace StubRelease.Shell

/-- What the places of a variable's values are. -/
inductive Shape where
  /-- There is one value only. -/
  | single
  /-- Numbers, in ascending order. -/
  | row
  /-- Texts. -/
  | keyed
deriving DecidableEq, Repr

/-- What becomes of the letters of a text. -/
inductive LetterCase where
  | upper
  | lower
  /-- The first one is a capital, the others are small. -/
  | capitalized
deriving DecidableEq, Repr

namespace LetterCase

/-- A text with its letters changed. -/
def apply : LetterCase → Text → Text
  | upper, t => t.map Char.toUpper
  | lower, t => t.map Char.toLower
  | capitalized, t => (t.take 1).map Char.toUpper ++ (t.drop 1).map Char.toLower

end LetterCase

/-- A variable. -/
structure Variable where
  value : Option Text
  exported : Bool
  readOnly : Bool
  shape : Shape
  /-- The values at places other than 0. -/
  others : List (Text × Text)
  /-- Whether a text it is given is worked out as an expression. -/
  isNumber : Bool
  /-- What becomes of the letters of a text it is given. -/
  letters : Option LetterCase
  /-- Whether it stands for the variable that its value names. -/
  isReference : Bool

instance : Inhabited Variable := ⟨⟨none, false, false, .single, [], false, none, false⟩⟩

namespace Variable

/-- A variable with one value. -/
def ofText (value : Text) (exported : Bool) : Variable := { (default : Variable) with value := some value, exported }

/-- A variable without the value at a place. -/
def without (v : Variable) (place : Text) : Variable :=
  if place = ['0'] then { v with value := none } else { v with others := v.others.filter (·.1 ≠ place) }

/-- A variable with a value at a place. -/
def put (v : Variable) (place value : Text) : Variable :=
  if place = ['0'] then { v with value := some value }
  else { v with others := (place, value) :: v.others.filter (·.1 ≠ place) }

/-- The slot of a key among 1024, by which keys are listed. -/
def slot (key : Text) : Nat :=
  key.foldl (fun h c => (h * 16777619 % Nat.pow 2 32) ^^^ c.toNat) 2166136261 % 1024

/-- The places and values of a variable in the order in which they are listed. -/
def listed (v : Variable) : List (Text × Text) :=
  let all := (match v.value with
    | some t => [(['0'], t)]
    | none => []) ++ v.others
  let rank (x : Text × Text) : Nat := if v.shape = .keyed then slot x.1 else Text.number x.1
  all.mergeSort fun x y => rank x ≤ rank y

/-- The letters that stand for what is particular about a variable. -/
def marks (v : Variable) : Text :=
  let mark (holds : Bool) (letter : Char) : Text := if holds then [letter] else []
  mark (v.shape = .row) 'a' ++ mark (v.shape = .keyed) 'A' ++ mark v.isNumber 'i' ++ mark v.isReference 'n'
    ++ mark v.readOnly 'r' ++ mark v.exported 'x' ++ mark (v.letters = some .capitalized) 'c'
    ++ mark (v.letters = some .lower) 'l' ++ mark (v.letters = some .upper) 'u'

/-- A variable without values. -/
def emptied (v : Variable) : Variable := { v with value := none, others := [] }

/-- The first free place after all numbers that are taken. -/
def nextPlace (v : Variable) : Nat :=
  (v.listed.getLast?.map fun x => Text.number x.1 + 1).getD 0

end Variable

end StubRelease.Shell

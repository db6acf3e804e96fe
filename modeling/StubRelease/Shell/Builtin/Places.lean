/-
# StubRelease.Shell.Builtin.Places -- expressions and the places of values

An expression is worked out with a shell's variables. The values of a row have their places at numbers,
which are expressions themselves; a negative one counts from the end.
-/
import StubRelease.Shell.Arithmetic
import StubRelease.Shell.Question
import StubRelease.Shell.State

namespace StubRelease.Shell.Builtin

open Eval

/-- The name of a variable, and what stands between the brackets after it if there are any. -/
def splitPlace (t : Text) : Text × Option Text :=
  let name := t.takeWhile (· ≠ '[')
  if name.length < t.length && t.getLast? = some ']' then (name, some ((t.drop (name.length + 1)).dropLast))
  else (t, none)

/-- The place that a number names: a negative one counts back from the end. -/
def numbered? (s : State) (name : Text) (n : Int) : Option Text :=
  let next := (((s.rowOf name).getLast?).map fun x => Text.number x.1 + 1).getD 0
  let n := if n < 0 then next + n else n
  if n < 0 then none else some (Text.ofInt n)

/-- Whether the places of a variable are texts. -/
def isKeyed (s : State) (name : Text) : Bool := (s.lookup? (s.meant name)).any (·.shape = .keyed)

/-- The text of a variable in an expression, perhaps of the value at a place. The number bounds how deep
places stand in each other. -/
def textIn (s : State) : Nat → Text → Except ArithmeticFault Text
  | 0, _ => .ok []
  | n + 1, name => do
    let (base, place) := splitPlace name
    let value ← match place with
      | none => pure (param? s base)
      | some place =>
        if isKeyed s base then pure ((s.rowOf base).lookup place)
        else do
          let (i, _) ← Expression.evalText s.dialect (textIn s n) place
          pure ((numbered? s base i).bind fun place => (s.rowOf base).lookup place)
    match value with
    | some t => return t
    | none => if s.isOn 'u' && s.dialect = .bash then throw (.unset name) else return []

/-- Whether a variable, or a value of it at a place, is set. -/
def isSet (s : State) (t : Text) : Bool :=
  match splitPlace t with
  | (base, none) => (param? s base).isSome
  | (base, some index) =>
    let row := s.rowOf base
    if index = ['@'] || index = ['*'] then !row.isEmpty
    else if isKeyed s base then (row.lookup index).isSome
    else
      match Expression.evalText s.dialect (textIn s 16) index with
      | .ok (n, _) => ((numbered? s base n).bind (List.lookup · row)).isSome
      | .error _ => false

/-- Whether a name is that of a reference. -/
def isReference (s : State) (name : Text) : Bool := (s.lookup? name).any (·.isReference)

/-- Whether the option with a name is on. -/
def isOptionOn (s : State) (name : Text) : Bool :=
  ((optionNames s.dialect).lookup (String.ofList name)).any fun letter => s.hasOption (String.ofList name) letter

/-- What a shell is asked about. -/
def subject (s : State) : Subject :=
  { dialect := s.dialect
    store := s.process.store
    own := match s.dialect with
      | .posix => []
      | .bash => [("-v", isSet s), ("-R", isReference s), ("-o", isOptionOn s)] }

/-- The value of an expression, and what it assigns, the latest first. -/
def workOut (text : Text) : Eval (Int × List (Text × Int)) := do
  if Text.hasPart "RANDOM".toList text then drawNumber
  let s ← get
  match Expression.evalText s.dialect (textIn s 16) text with
  | .error (.unset name) => notSet name "unbound variable".toList
  | .ok found => return found
  | .error fault => abort (fault.describe s.dialect text)

/-- The value of the number between brackets; it may change variables that have one value. -/
def index (text : Text) : Eval Int := do
  let (value, assignments) ← workOut text
  for (name, n) in assignments.reverse do
    if (splitPlace name).2.isNone then assign name (Text.ofInt n)
  return value

/-- The place of a value, from what stands between the brackets. -/
def placeIn (name index : Text) : Eval Text := do
  let s ← get
  let wrong {α : Type} : Eval α := do
    complain (name ++ '[' :: index ++ "]: bad array subscript".toList)
    throw (.fault 1)
  if isKeyed s name then
    if index.isEmpty then wrong else return index
  else
    let n ← Builtin.index index
    match numbered? (← get) name n with
    | some place => return place
    | none => wrong

/-- Gives a variable a value at a place. -/
def assignAt (name place value : Text) : Eval Unit := do
  let s ← get
  let name := s.meant name
  let v := (s.lookup? name).getD default
  if v.readOnly then abort (name ++ ": readonly variable".toList)
  else set (s.setVariable name { v.put place value with
    shape := if v.shape = .single then .row else v.shape })

/-- Gives a variable a row of values. -/
def assignRow (name : Text) (values : List Text) : Eval Unit := do
  let name := (← get).meant name
  let v := ((← get).lookup? name).getD default
  if v.readOnly then abort (name ++ ": readonly variable".toList)
  else
    let row : Variable := { v.emptied with shape := .row }
    let row := values.zipIdx.foldl (fun (v : Variable) (t, i) => v.put (Text.ofNat i) t) row
    modify fun s => s.setVariable name row

/-- The value of an expression; what it assigns is assigned. -/
def compute (text : Text) : Eval Int := do
  let (value, assignments) ← workOut text
  for (name, n) in assignments.reverse do
    match splitPlace name with
    | (base, some index) => assignAt base (← placeIn base index) (Text.ofInt n)
    | (base, none) => assign base (Text.ofInt n)
  return value

/-- What becomes of a text that a variable is given, or that is added to what it has. -/
def treated (v : Variable) (old : Option Text) (text : Text) : Eval Text := do
  if v.isNumber then
    let n ← compute text
    let before ← match old with
      | some t => compute t
      | none => pure 0
    return Text.ofInt (Expression.wrap (before + n))
  else
    let whole := old.getD [] ++ text
    return (v.letters.map (·.apply whole)).getD whole

/-- Gives a variable a text, or adds it to what the variable has. -/
def give (name : Text) (adds : Bool) (text : Text) : Eval Unit := do
  let s ← get
  let v := (s.lookup? (s.meant name)).getD default
  assign name (← treated v (if adds then some ((param? s name).getD []) else none) text)

/-- Gives a variable a text at a place, or adds it to what stands there. -/
def giveAt (name place : Text) (adds : Bool) (text : Text) : Eval Unit := do
  let s ← get
  let v := (s.lookup? (s.meant name)).getD default
  assignAt name place (← treated v (if adds then some (((s.rowOf name).lookup place).getD []) else none) text)

/-- Computes expressions; it fails if the last one is zero. -/
def letCommand (args : List Text) : Eval Nat := do
  let mut value : Int := 0
  for arg in args do value := ← compute arg
  return if value = 0 then 1 else 0

end StubRelease.Shell.Builtin

/-
# StubRelease.Shell.Utility.Printing -- commands that print

Commands that print what follows from their arguments alone: words, formats, sequences of numbers, parts of
paths, and the value of an expression.
-/
import StubRelease.Shell.Flags
import StubRelease.Shell.Format
import StubRelease.Shell.Question
import StubRelease.Shell.Regex

namespace StubRelease.Shell.Utility

open Act

/-- Does nothing and ends with a status. -/
def constant (status : Nat) : Command := fun _ _ => return status

def echo : Command := fun _ args => do
  print (echoed .bash false args)
  return 0

def printf : Command := fun name args => do
  match (if args.head? = some ['-', '-'] then args.drop 1 else args) with
  | [] => lacksOperand name 1
  | format :: args =>
    let (text, complaints, status) := formatted .program format args
    print text
    complaints.forM fun c => complain (name ++ ": ".toList ++ c)
    return status

def test : Command := fun name args => do
  let subject : Subject := ⟨.bash, ← store, []⟩
  match Question.answer subject (name.getLast? = some '[') args with
  | .ok true => return 0
  | .ok false => return 1
  | .error (.unexpected word) =>
    failAs name 2 (match args with
      | [_, last] => "missing argument after ".toList ++ quoteArgument last
      | [_, _, _] => quote word ++ ": binary operator expected".toList
      | first :: second :: third :: _ =>
        "extra argument ".toList ++ quoteArgument (if Question.isUnary subject first then third else second)
      | _ => "missing argument".toList)
  | .error fault => failAs name 2 (fault.describe .bash)

def pwd : Command := .withFlags [.plain "L" ["logical"], .plain "P" ["physical"]] 1 fun name a => do
  if !a.operands.isEmpty then complain (name ++ ": ignoring non-option arguments".toList)
  printLine (Text.ofBytes (Store.placeText (← store).cwd))
  return 0

/-- Prints a line many times. -/
def yes : Command := .withFlags [] 1 fun _ a => do
  let line := if a.operands.isEmpty then ['y'] else Text.unwords a.operands
  print (Text.unlines (List.replicate 4096 line))
  return 0

def printenv : Command := .flagsFirst [.plain "0" ["null"]] 2 fun _ a => do
  let p ← get
  match a.operands with
  | [] =>
    p.environment.forM fun (name, value) => printLine (name ++ '=' :: value)
    return 0
  | names => forEach names fun name => do
    match p.environment.lookup name with
    | some value =>
      printLine value
      return 0
    | none => return 1

/-! ## Sequences -/

/-- A decimal number as a whole number of units of a power of ten, and how many places it has. -/
def decimal? (t : Text) : Option (Int × Nat) :=
  let (negative, body) := Numeral.afterSign (t.dropWhile Text.isSpace)
  let (whole, shown, rest) := Numeral.digitsAround Char.isDigit body
  let (power, rest) := Numeral.exponent 'e' rest
  if !rest.isEmpty || (whole.isEmpty && shown.isEmpty) then none
  else
    let power := power - shown.length
    let n : Int := Text.number (whole ++ shown) * Int.pow 10 power.toNat
    some (if negative then -n else n, (-power).toNat)

/-- The numbers from one to another by steps; the number bounds how many. -/
def numbers (last step : Int) : Nat → Int → List Int
  | 0, _ => []
  | n + 1, first =>
    if (0 ≤ step && last < first) || (step < 0 && first < last) then []
    else first :: numbers last step n (first + step)

/-- A number of units with its point. -/
def shownUnits (places : Nat) (n : Int) : Text :=
  (if n < 0 then ['-'] else []) ++ Floating.pointed (Text.ofNat n.natAbs) places

/-- A number with zeros in front up to a width. -/
def widened (width : Nat) (t : Text) : Text :=
  match t with
  | '-' :: digits => '-' :: List.replicate (width - t.length) '0' ++ digits
  | digits => List.replicate (width - t.length) '0' ++ digits

/-- Whether a word is a negative number and no option. -/
def isNegative : Text → Bool
  | '-' :: c :: _ => c.isDigit || c = '.'
  | _ => false

def seq : Command := fun name args => do
  let flags : List Flag :=
    [.valued "s" ["separator"], .plain "w" ["equal-width"], .valued "f" ["format"]]
  let options := args.takeWhile (!isNegative ·)
  match Arguments.read flags false options with
  | .error fault => misused name 1 fault.describe
  | .ok a =>
    let operands := a.operands ++ args.drop options.length
    let separator := (a.last? "s").getD ['\n']
    match operands[3]?, operands.find? fun (t : Text) => (decimal? t).isNone with
    | some extra, _ => misused name 1 ("extra operand ".toList ++ quoteArgument extra)
    | none, some bad => misused name 1 ("invalid floating point argument: ".toList ++ quoteArgument bad)
    | none, none =>
      let values := operands.filterMap decimal?
      let places := (values.map (·.2)).foldl max 0
      let unit : Int := Int.pow 10 places
      let scaled := values.map fun (n, p) => n * Int.pow 10 (places - p)
      let bounds := match scaled with
        | [last] => some (unit, unit, last)
        | [first, last] => some (first, unit, last)
        | [first, step, last] => some (first, step, last)
        | _ => none
      match bounds with
      | none => lacksOperand name 1
      | some (first, step, last) =>
        if step = 0 then
          misused name 1 ("invalid Zero increment value: ".toList ++ quoteArgument (operands.getD 1 []))
        else
          let all := numbers last step ((last - first) / step + 2).toNat first
          let shown := all.map (shownUnits places)
          let width := (shown.map List.length).foldl max 0
          let shown := match a.last? "f" with
            | some format => shown.map fun t => (formatted .program format [t]).1
            | none => if a.has "w" then shown.map (widened width) else shown
          if !shown.isEmpty then print (Text.join separator shown ++ ['\n'])
          return 0

/-! ## Paths -/

/-- The last part of a path. -/
def lastPart (path : Text) : Text :=
  if path.isEmpty then []
  else
    let trimmed := Text.dropEndWhile (· = '/') path
    if trimmed.isEmpty then ['/'] else (trimmed.reverse.takeWhile (· ≠ '/')).reverse

/-- A name without an ending, unless nothing would be left. -/
def withoutEnding (ending name : Text) : Text :=
  if ending.isSuffixOf name && ending ≠ name then name.take (name.length - ending.length) else name

def basename : Command :=
  .flagsFirst [.plain "a" ["multiple"], .valued "s" ["suffix"], .plain "z" ["zero"]] 1 fun name a => do
    let ends : Text := if a.has "z" then ['\x00'] else ['\n']
    match a.operands with
    | [] => lacksOperand name 1
    | [path] =>
      print (withoutEnding ((a.last? "s").getD []) (lastPart path) ++ ends)
      return 0
    | path :: ending :: more =>
      if a.has "a" || a.has "s" then
        a.operands.forM fun path =>
          print (withoutEnding ((a.last? "s").getD []) (lastPart path) ++ ends)
        return 0
      else
        match more with
        | [] =>
          print (withoutEnding ending (lastPart path) ++ ends)
          return 0
        | extra :: _ => misused name 1 ("extra operand ".toList ++ quoteArgument extra)

/-- All of a path but its last part. -/
def leadingPart (path : Text) : Text :=
  let trimmed := Text.dropEndWhile (· = '/') path
  if trimmed.isEmpty then (if path.isEmpty then ['.'] else ['/'])
  else
    let above := Text.dropEndWhile (· ≠ '/') trimmed
    if above.isEmpty then ['.']
    else
      let above := Text.dropEndWhile (· = '/') above
      if above.isEmpty then ['/'] else above

def dirname : Command := .withFlags [.plain "z" ["zero"]] 1 fun name a => do
  let ends : Text := if a.has "z" then ['\x00'] else ['\n']
  if a.operands.isEmpty then lacksOperand name 1
  else
    a.operands.forM fun path => print (leadingPart path ++ ends)
    return 0

/-! ## Expressions of words -/

/-- Why an expression of words has no value. -/
inductive ExprFault where
  | missing (after : Text)
  | unexpected (word : Text)
  | notInteger
  | divisionByZero
  | badExpression
  | nothing
deriving DecidableEq, Repr

namespace ExprFault

def describe : ExprFault → Text
  | missing after => "syntax error: missing argument after ".toList ++ quoteArgument after
  | unexpected word => "syntax error: unexpected argument ".toList ++ quoteArgument word
  | notInteger => "non-integer argument".toList
  | divisionByZero => "division by zero".toList
  | badExpression => "Invalid regular expression".toList
  | nothing => "missing operand".toList

end ExprFault

namespace Expr

/-- Whether a word counts as false: it is empty or zero. -/
def isNull (t : Text) : Bool :=
  t.isEmpty || (let digits := if t.head? = some '-' then t.drop 1 else t
    !digits.isEmpty && digits.all (· = '0'))

def integer (t : Text) : Except ExprFault Int :=
  match t with
  | '+' :: _ => .error .notInteger
  | _ =>
    match Text.toInt? t with
    | some n => .ok n
    | none => .error .notInteger

def ofBool (b : Bool) : Text := if b then ['1'] else ['0']

/-- Compares as numbers if both are, otherwise as texts. -/
def compare (operator : Text) (x y : Text) : Text :=
  let order : Ordering := match integer x, integer y with
    | .ok a, .ok b => Ord.compare a b
    | _, _ => if x < y then .lt else if y < x then .gt else .eq
  ofBool (match String.ofList operator with
    | "<" => order == .lt
    | "<=" => order != .gt
    | ">" => order == .gt
    | ">=" => order != .lt
    | "!=" => order != .eq
    | _ => order == .eq)

/-- Matches a text from its start: the first group's text, or the length that matches. -/
def matched (x pattern : Text) : Except ExprFault Text :=
  match Regex.read? .basic pattern with
  | none => .error .badExpression
  | some r =>
    match r.matchStart? x with
    | some m => .ok (if r.hasGroup then (m.groups.lookup 1).getD [] else Text.ofNat m.text.length)
    | none => .ok (if r.hasGroup then [] else ['0'])

/-- The operators by rank, the weakest first. -/
def ranks : List (List String) :=
  [["|"], ["&"], ["<", "<=", "=", "==", "!=", ">=", ">"], ["+", "-"], ["*", "/", "%"], [":"]]

/-- What an operator gives. -/
def apply (operator : Text) (x y : Text) : Except ExprFault Text :=
  let arithmetic (f : Int → Int → Int) : Except ExprFault Text := do
    let a ← integer x
    return Text.ofInt (f a (← integer y))
  let division (f : Int → Int → Int) : Except ExprFault Text := do
    let a ← integer x
    let b ← integer y
    if b = 0 then throw .divisionByZero else return Text.ofInt (f a b)
  match String.ofList operator with
  | "|" => .ok (if !isNull x then x else if !isNull y then y else ['0'])
  | "&" => .ok (if isNull x || isNull y then ['0'] else x)
  | "+" => arithmetic (· + ·)
  | "-" => arithmetic (· - ·)
  | "*" => arithmetic (· * ·)
  | "/" => division Int.tdiv
  | "%" => division Int.tmod
  | ":" => matched x y
  | _ => .ok (compare operator x y)

mutual

/-- An expression whose operators have some ranks; `last` is the word in front of it. -/
def rank : Nat → List (List String) → Text → List Text → Except ExprFault (Text × List Text)
  | 0, _, last, _ => .error (.missing last)
  | n + 1, [], last, words => primary n last words
  | n + 1, _ :: stronger, last, words => do
    let (x, rest) ← rank n stronger last words
    more n (stronger.length) x rest

/-- More operators of a rank, which is given by how many are stronger. -/
def more : Nat → Nat → Text → List Text → Except ExprFault (Text × List Text)
  | 0, _, x, rest => .ok (x, rest)
  | n + 1, strength, x, rest =>
    match rest with
    | operator :: words =>
      let operators := (ranks.reverse[strength]?).getD []
      if operators.contains (String.ofList operator) then do
        let (y, rest) ← rank n (ranks.drop (ranks.length - strength)) operator words
        more n strength (← apply operator x y) rest
      else .ok (x, rest)
    | [] => .ok (x, rest)

/-- A word, an expression in parentheses or a function of words. -/
def primary : Nat → Text → List Text → Except ExprFault (Text × List Text)
  | 0, last, _ => .error (.missing last)
  | n + 1, last, words =>
    match words with
    | [] => .error (if last.isEmpty then .nothing else .missing last)
    | ['('] :: rest => do
      let (x, rest) ← rank n ranks ['('] rest
      match rest with
      | [')'] :: rest => return (x, rest)
      | _ => throw (.missing x)
    | ['+'] :: word :: rest => .ok (word, rest)
    | word :: rest =>
      match String.ofList word with
      | "length" => do
        let (x, rest) ← primary n word rest
        return (Text.ofNat x.length, rest)
      | "match" => do
        let (x, rest) ← primary n word rest
        let (y, rest) ← primary n x rest
        return (← matched x y, rest)
      | "index" => do
        let (x, rest) ← primary n word rest
        let (set, rest) ← primary n x rest
        let before := x.takeWhile (!set.contains ·)
        return (if before.length = x.length then ['0'] else Text.ofNat (before.length + 1), rest)
      | "substr" => do
        let (x, rest) ← primary n word rest
        let (start, rest) ← primary n x rest
        let (length, rest) ← primary n start rest
        match Text.toInt? start, Text.toInt? length with
        | some s, some l =>
          if s ≤ 0 || l ≤ 0 then return ([], rest)
          else return ((x.drop (s.toNat - 1)).take l.toNat, rest)
        | _, _ => return ([], rest)
      | _ => .ok (word, rest)

end

/-- The value of an expression of words. -/
def value (words : List Text) : Except ExprFault Text := do
  let (x, rest) ← rank (16 * words.length + 32) ranks [] words
  match rest with
  | [] => return x
  | word :: _ => throw (.unexpected word)

end Expr

def expr : Command := fun name args => do
  match Expr.value (if args.head? = some ['-', '-'] then args.drop 1 else args) with
  | .ok x =>
    printLine x
    return if Expr.isNull x then 1 else 0
  | .error .nothing => lacksOperand name 2
  | .error fault => failAs name 2 fault.describe

end StubRelease.Shell.Utility

/-
# StubRelease.Shell.Question -- conditions on texts, numbers and files

The conditions that `test` is asked. Words are operators or operands by what stands next to them: an
operator in front of an operand is taken for an operand itself where an operator between two operands
follows it.
-/
import StubRelease.Shell.Process
import StubRelease.Shell.Script

namespace StubRelease.Shell

/-- Why a question has no answer. -/
inductive QuestionFault where
  | unexpected (word : Text)
  | lacksArgument (operator : Text)
  | badNumber (word : Text)
  | unclosed
  | unclosedBracket
deriving DecidableEq, Repr

namespace QuestionFault

def describe (d : Dialect) : QuestionFault → Text
  | unexpected w =>
    w ++ (match d with
      | .posix => ": unexpected operator"
      | .bash => ": unary operator expected").toList
  | lacksArgument o => o ++ ": argument expected".toList
  | badNumber w =>
    match d with
    | .posix => "Illegal number: ".toList ++ w
    | .bash => w ++ ": integer expression expected".toList
  | unclosed => "closing paren expected".toList
  | unclosedBracket =>
    (match d with
      | .posix => "missing ]"
      | .bash => "missing \x60]'").toList

end QuestionFault

/-- A question's answer, or why there is none. -/
abbrev Answer := Except QuestionFault

/-- What questions are about. -/
structure Subject where
  dialect : Dialect
  store : Store
  /-- The conditions that a shell answers about itself, by their operators. -/
  own : List (String × (Text → Bool))

namespace Question

def unaryOperators (a : Subject) : List String :=
  ["-b", "-c", "-d", "-e", "-f", "-g", "-h", "-k", "-L", "-n", "-p", "-r", "-s", "-S", "-t", "-u",
    "-w", "-x", "-z", "-O", "-G"]
  ++ (match a.dialect with
    | .posix => []
    | .bash => ["-N", "-a"])
  ++ a.own.map (·.1)

def binaryOperators (d : Dialect) : List String :=
  ["=", "!=", "<", ">", "-eq", "-ne", "-lt", "-le", "-gt", "-ge", "-nt", "-ot", "-ef"]
    ++ (match d with
      | .posix => []
      | .bash => ["=="])

def isUnary (a : Subject) (t : Text) : Bool := (unaryOperators a).contains (String.ofList t)

def isBinary (d : Dialect) (t : Text) : Bool := (binaryOperators d).contains (String.ofList t)

/-- What stands at a path, links followed. -/
def node? (s : Store) (path : Text) : Option Node := (s.nodeAt true path.bytes).toOption

/-- Whether a path leads to the null device. -/
def isDevice (s : Store) (path : Text) : Bool :=
  match s.placeOf true path.bytes with
  | .ok place => place = [Bytes.ofString "dev", Bytes.ofString "null"]
  | .error _ => false

/-- A condition on one operand. -/
def unary (a : Subject) (operator : Text) (x : Text) : Bool :=
  let s := a.store
  let known := (node? s x).isSome
  match String.ofList operator with
  | "-n" => !x.isEmpty
  | "-z" => x.isEmpty
  | "-e" | "-a" | "-r" | "-w" | "-O" | "-G" => known
  | "-f" => (node? s x).any Node.isFile && !isDevice s x
  | "-d" => (node? s x).any Node.isDir
  | "-c" => isDevice s x
  | "-h" | "-L" => (s.nodeAt false x.bytes).toOption.any Node.isLink
  | "-s" => match node? s x with
    | some (.file content _) => !content.bytes.isEmpty
    | some _ => true
    | none => false
  | "-x" => match node? s x with
    | some (.file _ executable) => executable
    | some _ => true
    | none => false
  | other => (a.own.lookup other).any (· x)

/-- A number with blanks around it. -/
def number (x : Text) : Answer Int :=
  match Text.toInt? (Text.dropEndWhile Text.isSpace (x.dropWhile Text.isSpace)) with
  | some n => if -Int.pow 2 63 ≤ n && n < Int.pow 2 63 then .ok n else .error (.badNumber x)
  | none => .error (.badNumber x)

/-- A condition on two operands. In one dialect a missing file is older than any other. -/
def binary (a : Subject) (x operator y : Text) : Answer Bool :=
  let d := a.dialect
  let s := a.store
  let numbers (compare : Int → Int → Bool) : Answer Bool := do
    let n ← number x
    return compare n (← number y)
  match String.ofList operator with
  | "=" | "==" => .ok (x == y)
  | "!=" => .ok (x != y)
  | "<" => .ok (x < y)
  | ">" => .ok (y < x)
  | "-eq" => numbers (· == ·)
  | "-ne" => numbers (· != ·)
  | "-lt" => numbers (· < ·)
  | "-le" => numbers (· ≤ ·)
  | "-gt" => numbers (· > ·)
  | "-ge" => numbers (· ≥ ·)
  | "-nt" => .ok (d = .bash && (node? s x).isSome && (node? s y).isNone)
  | "-ot" => .ok (d = .bash && (node? s x).isNone && (node? s y).isSome)
  | "-ef" =>
    match s.placeOf true x.bytes, s.placeOf true y.bytes with
    | .ok p, .ok q => .ok (p == q)
    | _, _ => .ok false
  | _ => .error (.unexpected operator)

/-- Whether the first word is an operator in front of an operand. -/
def leads (a : Subject) : List Text → Bool
  | operator :: x :: rest => isUnary a operator && (rest.isEmpty || !isBinary a.dialect x)
  | _ => false

/-! ## Reading

Each reader gives its answer and the words from the last one it has read. -/

mutual

/-- Conditions one of which has to hold. -/
def anyOf (a : Subject) : Nat → List Text → Answer (Bool × List Text)
  | 0, ts => .ok (false, ts)
  | n + 1, ts => do
    let (first, rest) ← allOf a n ts
    match rest with
    | last :: ['-', 'o'] :: more =>
      let (second, rest) ← anyOf a n more
      return (first || second, if rest.isEmpty then [last] else rest)
    | _ => return (first, rest)

/-- Conditions all of which have to hold. -/
def allOf (a : Subject) : Nat → List Text → Answer (Bool × List Text)
  | 0, ts => .ok (false, ts)
  | n + 1, ts => do
    let (first, rest) ← negated a n ts
    match rest with
    | last :: ['-', 'a'] :: more =>
      let (second, rest) ← allOf a n more
      return (first && second, if rest.isEmpty then [last] else rest)
    | _ => return (first, rest)

/-- A condition that may be negated. -/
def negated (a : Subject) : Nat → List Text → Answer (Bool × List Text)
  | 0, ts => .ok (false, ts)
  | n + 1, ts =>
    match ts with
    | [['!']] => .ok (true, ts)
    | ['!'] :: rest => do
      let (holds, rest) ← negated a n rest
      return (!holds, rest)
    | _ => simple a n ts

/-- A condition in parentheses or on operands. -/
def simple (a : Subject) : Nat → List Text → Answer (Bool × List Text)
  | 0, ts => .ok (false, ts)
  | n + 1, ts => do
    match ts with
    | [] => return (false, [])
    | ['('] :: [')'] :: rest => return (false, [')'] :: rest)
    | ['('] :: x :: rest =>
      let (holds, rest) ← anyOf a n (x :: rest)
      match rest.drop 1 with
      | [')'] :: more => return (holds, [')'] :: more)
      | _ => throw .unclosed
    | x :: rest =>
      if leads a ts then
        match rest with
        | y :: more => return (unary a x y, y :: more)
        | [] => throw (.lacksArgument x)
      else
        match rest with
        | operator :: more =>
          if isBinary a.dialect operator then
            match more with
            | y :: _ => return (← binary a x operator y, more)
            | [] => throw (.lacksArgument operator)
          else return (!x.isEmpty, ts)
        | [] => return (!x.isEmpty, ts)

end

/-- The answer to words that state a condition; no words state none, which does not hold. Three and four
words are read by their number first. The number bounds the negations. -/
def ask (a : Subject) : Nat → List Text → Answer Bool
  | 0, _ => .ok false
  | n + 1, ts => do
    let whole (ts : List Text) : Answer Bool := do
      let (holds, rest) ← anyOf a (4 * ts.length + 8) ts
      match rest with
      | last :: _ :: _ => throw (.unexpected last)
      | _ => return holds
    let inner := (ts.drop 1).dropLast
    match ts with
    | [] => return false
    | [x, operator, y] =>
      if isBinary a.dialect operator then binary a x operator y
      else if x = ['('] && y = [')'] then whole inner
      else if x = ['!'] then return !(← ask a n (ts.drop 1))
      else whole ts
    | [x, _, _, y] =>
      if x = ['('] && y = [')'] then whole inner
      else if x = ['!'] then return !(← ask a n (ts.drop 1))
      else whole ts
    | _ => whole ts

/-- The answer to what `test` is asked; called by its bracket it needs the closing one. -/
def answer (a : Subject) (bracket : Bool) (args : List Text) : Answer Bool :=
  if bracket then
    if args.getLast? = some [']'] then ask a (args.length + 1) args.dropLast
    else .error .unclosedBracket
  else ask a (args.length + 1) args

end Question

end StubRelease.Shell

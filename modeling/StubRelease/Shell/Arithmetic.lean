/-
# StubRelease.Shell.Arithmetic -- expressions over integers

An expression is read by the ranks of its operators and worked out over integers of 64 bits, which wrap
around. Names stand for variables; an assignment within an expression changes them for what comes after it.
-/
import StubRelease.Shell.Script

namespace StubRelease.Shell

/-- What can be wrong with an expression. -/
inductive ArithmeticFault where
  | expectingEnd
  | expectingPrimary
  | expectingColon
  | divisionByZero
  | negativeExponent
  /-- Variables stand for each other without an end. -/
  | tooDeep
  | badNumber (text : Text)
  /-- A variable that has to be set is not. -/
  | unset (name : Text)
deriving DecidableEq, Repr

/-- An operator between two expressions. -/
inductive BinaryOperator where
  | add | sub | mul | div | mod | power
  | shiftLeft | shiftRight
  | less | lessEqual | greater | greaterEqual | equal | notEqual
  | bitAnd | bitXor | bitOr
deriving DecidableEq, Repr

/-- An operator in front of an expression. -/
inductive UnaryOperator where
  | plus | minus | complement | not
deriving DecidableEq, Repr

/-- An expression. -/
inductive Expression where
  | number (n : Int)
  | named (name : Text)
  | unary (operator : UnaryOperator) (x : Expression)
  | binary (operator : BinaryOperator) (x y : Expression)
  | both (x y : Expression)
  | either (x y : Expression)
  | choose (condition yes no : Expression)
  | assign (name : Text) (operator : Option BinaryOperator) (value : Expression)
  /-- A change by one, whose value is that before it. -/
  | stepped (name : Text) (step : Int)
  | seq (first second : Expression)
deriving Repr

namespace Expression

/-! ## Numbers of 64 bits -/

/-- The integer of 64 bits that a number wraps around to. -/
def wrap (n : Int) : Int := n.bmod (Nat.pow 2 64)

/-- The bits of a number of 64 bits, as a natural number. -/
def bits (n : Int) : Nat := (n % Int.pow 2 64).toNat

def ofBool (b : Bool) : Int := if b then 1 else 0

namespace BinaryOperator

/-- A power of a number, by squaring for every binary digit of the exponent. -/
def raise (x : Int) (y : Nat) : Int :=
  (Nat.toDigits 2 y).foldl (fun n digit => if digit = '1' then wrap (wrap (n * n) * x) else wrap (n * n)) 1

/-- What an operator gives; nothing for a division by zero or a negative exponent. -/
def apply : BinaryOperator → Int → Int → Option Int
  | .add, x, y => some (wrap (x + y))
  | .sub, x, y => some (wrap (x - y))
  | .mul, x, y => some (wrap (x * y))
  | .div, x, y => if y = 0 then none else some (wrap (x.tdiv y))
  | .mod, x, y => if y = 0 then none else some (wrap (x.tmod y))
  | .power, x, y => if y < 0 then none else some (raise x y.toNat)
  | .shiftLeft, x, y => some (wrap (x * Int.pow 2 (y % 64).toNat))
  | .shiftRight, x, y => some (x / Int.pow 2 (y % 64).toNat)
  | .less, x, y => some (ofBool (x < y))
  | .lessEqual, x, y => some (ofBool (x ≤ y))
  | .greater, x, y => some (ofBool (x > y))
  | .greaterEqual, x, y => some (ofBool (x ≥ y))
  | .equal, x, y => some (ofBool (x = y))
  | .notEqual, x, y => some (ofBool (x ≠ y))
  | .bitAnd, x, y => some (wrap (bits x &&& bits y : Nat))
  | .bitXor, x, y => some (wrap (bits x ^^^ bits y : Nat))
  | .bitOr, x, y => some (wrap (bits x ||| bits y : Nat))

end BinaryOperator

namespace UnaryOperator

def apply : UnaryOperator → Int → Int
  | .plus, x => x
  | .minus, x => wrap (-x)
  | .complement, x => -x - 1
  | .not, x => ofBool (x = 0)

end UnaryOperator

/-! ## Reading -/

inductive Token where
  | number (n : Int)
  | name (text : Text)
  | operator (text : String)
  | other
deriving DecidableEq, Repr

/-- Operators, longer ones in front of those they begin with. -/
def operatorTexts : List String :=
  ["<<=", ">>=", "**", "++", "--", "<<", ">>", "<=", ">=", "==", "!=", "&&", "||", "+=", "-=", "*=",
    "/=", "%=", "&=", "^=", "|=", "+", "-", "*", "/", "%", "<", ">", "=", "!", "~", "&", "|", "^", "?",
    ":", "(", ")", ","]

/-- Operators that only one dialect knows. -/
def bashOperatorTexts : List String := ["**", "++", "--", ","]

/-- The number that begins a text, in the base its first digits tell, and what follows it; one that is too great is
the greatest there is. -/
def takeNumber (t : Text) : Int × Text :=
  let (n, rest) := match t with
    | '0' :: x :: c :: rest =>
      if (x = 'x' || x = 'X') && (Text.hexValue? c).isSome then Text.takeDigits 16 0 (c :: rest)
      else Text.takeDigits 8 0 t
    | '0' :: _ => Text.takeDigits 8 0 t
    | _ => Text.takeDigits 10 0 t
  (min n (Nat.pow 2 63 - 1 : Nat), rest)

/-- The value of a digit in a base; where the base leaves room, capitals stand for other digits than small
letters. -/
def digitIn? (base : Nat) (c : Char) : Option Nat :=
  let value : Option Nat :=
    if c.isDigit then some (c.toNat - 48)
    else if c.isLower then some (c.toNat - 87)
    else if c.isUpper then some (c.toNat - (if base ≤ 36 then 55 else 29))
    else if c = '@' then some 62
    else if c = '_' then some 63
    else none
  value.filter (· < base)

/-- The number that all digits of a text stand for in a base. -/
def numberIn? (base : Nat) (digits : Text) : Option Int :=
  (digits.mapM (digitIn? base)).map fun values => wrap (values.foldl (fun n v => n * base + v) 0 : Nat)

/-- Whether a character belongs to a number, whose base may stand in front of a sign. -/
def isOfNumber (c : Char) : Bool := c.isAlphanum || c = '#' || c = '@' || c = '_'

/-- The number a whole text stands for, in the base it names or its first digits tell. -/
def basedNumber? (t : Text) : Option Int :=
  let lead := t.takeWhile (· ≠ '#')
  match t.drop lead.length, lead with
  | '#' :: _, '0' :: _ => none
  | '#' :: digits, _ =>
    match numberIn? 10 lead with
    | some base => if 2 ≤ base && base ≤ 64 && !digits.isEmpty then numberIn? base.toNat digits else none
    | none => none
  | _, '0' :: 'x' :: digits | _, '0' :: 'X' :: digits => numberIn? 16 digits
  | _, '0' :: digits => numberIn? 8 digits
  | _, _ => numberIn? 10 t

/-- What begins with a bracket, up to the one that closes it; nothing if there is none. -/
def bracketed (depth : Nat) : Text → Text
  | '[' :: rest => '[' :: bracketed (depth + 1) rest
  | c :: rest =>
    if depth = 0 then []
    else if c = ']' then c :: (if depth = 1 then [] else bracketed (depth - 1) rest)
    else c :: bracketed depth rest
  | [] => []

/-- The tokens of an expression; the number bounds how many. -/
def tokens (d : Dialect) : Nat → Text → List Token
  | 0, _ => []
  | _, [] => []
  | n + 1, c :: rest =>
    if Text.isSpace c then tokens d n rest
    else if c.isDigit then
      match d with
      | .posix =>
        let (value, after) := takeNumber (c :: rest)
        .number value :: tokens d n after
      | .bash =>
        let digits := (c :: rest).takeWhile isOfNumber
        let token := match basedNumber? digits with
          | some value => .number value
          | none => .other
        token :: tokens d n ((c :: rest).drop digits.length)
    else if Text.isNameChar c then
      let name := (c :: rest).takeWhile Text.isNameChar
      let place := if d = .bash then bracketed 0 ((c :: rest).drop name.length) else []
      .name (name ++ place) :: tokens d n ((c :: rest).drop (name.length + place.length))
    else
      let known := operatorTexts.filter fun o => d = .bash || !bashOperatorTexts.contains o
      match known.find? fun o => o.toList.isPrefixOf (c :: rest) with
      | some o => .operator o :: tokens d n ((c :: rest).drop o.length)
      | none => .other :: tokens d n rest

/-- Reads an expression off the front of tokens. -/
abbrev Reader := StateT (List Token) (Except ArithmeticFault)

/-- The operators between two expressions by rank, the weakest first. -/
def ranks : List (List (String × BinaryOperator)) :=
  [[("|", .bitOr)], [("^", .bitXor)], [("&", .bitAnd)], [("==", .equal), ("!=", .notEqual)],
    [("<=", .lessEqual), (">=", .greaterEqual), ("<", .less), (">", .greater)],
    [("<<", .shiftLeft), (">>", .shiftRight)], [("+", .add), ("-", .sub)],
    [("*", .mul), ("/", .div), ("%", .mod)]]

/-- The operators that change a variable by a value. -/
def assigners : List (String × Option BinaryOperator) :=
  [("=", none), ("+=", some .add), ("-=", some .sub), ("*=", some .mul), ("/=", some .div),
    ("%=", some .mod), ("<<=", some .shiftLeft), (">>=", some .shiftRight), ("&=", some .bitAnd),
    ("^=", some .bitXor), ("|=", some .bitOr)]

mutual

/-- Expressions one after the other. -/
def readSequence (d : Dialect) : Nat → Reader Expression
  | 0 => throw .expectingPrimary
  | n + 1 => do
    let first ← readAssignment d n
    match ← get with
    | .operator "," :: rest =>
      set rest
      return .seq first (← readSequence d n)
    | _ => return first

/-- An assignment or a choice. -/
def readAssignment (d : Dialect) : Nat → Reader Expression
  | 0 => throw .expectingPrimary
  | n + 1 => do
    match ← get with
    | .name name :: .operator o :: rest =>
      match assigners.lookup o with
      | some operator =>
        set rest
        return .assign name operator (← readAssignment d n)
      | none => readChoice d n
    | _ => readChoice d n

/-- A choice by a condition. -/
def readChoice (d : Dialect) : Nat → Reader Expression
  | 0 => throw .expectingPrimary
  | n + 1 => do
    let condition ← readEither d n
    match ← get with
    | .operator "?" :: rest =>
      set rest
      let yes ← readAssignment d n
      match ← get with
      | .operator ":" :: rest =>
        set rest
        return .choose condition yes (← readChoice d n)
      | _ => throw .expectingColon
    | _ => return condition

/-- Expressions one of which has to hold. -/
def readEither (d : Dialect) : Nat → Reader Expression
  | 0 => throw .expectingPrimary
  | n + 1 => do
    let first ← readBoth d n
    match ← get with
    | .operator "||" :: rest =>
      set rest
      return .either first (← readEither d n)
    | _ => return first

/-- Expressions all of which have to hold. -/
def readBoth (d : Dialect) : Nat → Reader Expression
  | 0 => throw .expectingPrimary
  | n + 1 => do
    let first ← readRank d n ranks
    match ← get with
    | .operator "&&" :: rest =>
      set rest
      return .both first (← readBoth d n)
    | _ => return first

/-- An expression whose operators are of some ranks. -/
def readRank (d : Dialect) : Nat → List (List (String × BinaryOperator)) → Reader Expression
  | 0, _ => throw .expectingPrimary
  | n + 1, [] => readPower d n
  | n + 1, rank :: stronger => do
    readMore d n rank stronger (← readRank d n stronger)

/-- More operators of a rank after an expression. -/
def readMore (d : Dialect) : Nat → List (String × BinaryOperator) →
    List (List (String × BinaryOperator)) → Expression → Reader Expression
  | 0, _, _, _ => throw .expectingPrimary
  | n + 1, rank, stronger, first => do
    match ← get with
    | .operator o :: rest =>
      match rank.lookup o with
      | some operator =>
        set rest
        let second ← readRank d n stronger
        readMore d n rank stronger (.binary operator first second)
      | none => return first
    | _ => return first

/-- A power, which is taken from the right. -/
def readPower (d : Dialect) : Nat → Reader Expression
  | 0 => throw .expectingPrimary
  | n + 1 => do
    let base ← readPrimary d n
    match ← get with
    | .operator "**" :: rest =>
      set rest
      return .binary .power base (← readPower d n)
    | _ => return base

/-- An expression without operators between its parts. -/
def readPrimary (d : Dialect) : Nat → Reader Expression
  | 0 => throw .expectingPrimary
  | n + 1 => do
    let unary (operator : UnaryOperator) (rest : List Token) : Reader Expression := do
      set rest
      return .unary operator (← readPrimary d n)
    match ← get with
    | .number value :: rest =>
      set rest
      return .number value
    | .operator "++" :: .name name :: rest =>
      set rest
      return .assign name (some .add) (.number 1)
    | .operator "--" :: .name name :: rest =>
      set rest
      return .assign name (some .sub) (.number 1)
    | .name name :: .operator "++" :: rest =>
      set rest
      return .stepped name 1
    | .name name :: .operator "--" :: rest =>
      set rest
      return .stepped name (-1)
    | .name name :: rest =>
      set rest
      return .named name
    | .operator "(" :: rest =>
      set rest
      let inner ← readSequence d n
      match ← get with
      | .operator ")" :: rest =>
        set rest
        return inner
      | _ => throw .expectingEnd
    | .operator "+" :: rest => unary .plus rest
    | .operator "-" :: rest => unary .minus rest
    | .operator "!" :: rest => unary .not rest
    | .operator "~" :: rest => unary .complement rest
    | _ => throw .expectingPrimary

end

/-- Reads a whole text as an expression. An empty one is zero where that is allowed. -/
def read (d : Dialect) (text : Text) : Except ArithmeticFault Expression :=
  let all := tokens d (text.length + 1) text
  if d = .bash && all.isEmpty then .ok (.number 0)
  else
    match (readSequence d (16 * all.length + 32)).run all with
    | .ok (e, []) => .ok e
    | .ok (_, _ :: _) => .error .expectingEnd
    | .error fault => .error fault

/-! ## Working out -/

/-- Works out expressions with the values assigned so far. -/
abbrev Working := StateT (List (Text × Int)) (Except ArithmeticFault)

/-- Works an expression out; `value` gives the variables that were not assigned. -/
def eval (value : Text → Except ArithmeticFault Int) : Expression → Working Int
  | number n => return n
  | named name => current name
  | unary operator x => return UnaryOperator.apply operator (← eval value x)
  | binary operator x y => do
    let a ← eval value x
    apply operator a (← eval value y)
  | both x y => do
    if (← eval value x) = 0 then return 0 else return ofBool ((← eval value y) ≠ 0)
  | either x y => do
    if (← eval value x) ≠ 0 then return 1 else return ofBool ((← eval value y) ≠ 0)
  | choose condition yes no => do
    if (← eval value condition) ≠ 0 then eval value yes else eval value no
  | assign name operator x => do
    match operator with
    | none => put name (← eval value x)
    | some operator =>
      let a ← current name
      put name (← apply operator a (← eval value x))
  | stepped name step => do
    let a ← current name
    let _ ← put name (wrap (a + step))
    return a
  | seq first second => do
    let _ ← eval value first
    eval value second
where
  current (name : Text) : Working Int := do
    match (← get).lookup name with
    | some n => return n
    | none => liftExcept (value name)
  put (name : Text) (n : Int) : Working Int := do
    modify ((name, n) :: ·)
    return n
  apply (operator : BinaryOperator) (a b : Int) : Working Int :=
    match BinaryOperator.apply operator a b with
    | some n => return n
    | none => throw (if operator = .power then .negativeExponent else .divisionByZero)
  liftExcept {α : Type} : Except ArithmeticFault α → Working α
    | .ok a => pure a
    | .error fault => throw fault

/-- The number a variable's text is: in the standard's dialect a number with blanks around it, in the other
an expression of its own. The number bounds how deep variables stand for each other. -/
def valueOf (d : Dialect) (lookup : Text → Except ArithmeticFault Text) :
    Nat → Text → Except ArithmeticFault Int
  | 0, _ => .error .tooDeep
  | n + 1, name => do
    let text ← lookup name
    match d with
    | .posix =>
      let body := text.dropWhile Text.isSpace
      let (sign, digits) : Int × Text := match body with
        | '-' :: digits => (-1, digits)
        | '+' :: digits => (1, digits)
        | digits => (1, digits)
      let (magnitude, rest) := takeNumber digits
      if (rest.dropWhile Text.isSpace).isEmpty && (digits.head?.any Char.isDigit || body.isEmpty) then
        .ok (sign * magnitude)
      else .error (.badNumber text)
    | .bash =>
      match read .bash text with
      | .error fault => .error fault
      | .ok e =>
        match (eval (valueOf d lookup n) e).run [] with
        | .ok (value, _) => .ok value
        | .error fault => .error fault

/-- Works a text out: its value, and the variables it assigns, the latest first. -/
def evalText (d : Dialect) (lookup : Text → Except ArithmeticFault Text) (text : Text) :
    Except ArithmeticFault (Int × List (Text × Int)) :=
  match read d text with
  | .error fault => .error fault
  | .ok e => (eval (valueOf d lookup 1024) e).run []

end Expression

namespace ArithmeticFault

/-- What a shell says of a fault in an expression. -/
def describe (d : Dialect) (text : Text) (fault : ArithmeticFault) : Text :=
  match d, fault with
  | _, badNumber number => "Illegal number: ".toList ++ number
  | _, unset name => name ++ ": unbound variable".toList
  | .posix, _ =>
    let what := match fault with
      | expectingEnd => "expecting EOF"
      | expectingPrimary => "expecting primary"
      | expectingColon => "expecting ':'"
      | _ => "division by zero"
    "arithmetic expression: ".toList ++ what.toList ++ ": \"".toList ++ text ++ ['"']
  | .bash, _ =>
    let what := match fault with
      | expectingEnd => "syntax error in expression"
      | expectingPrimary => "syntax error: operand expected"
      | expectingColon => "\x60:' expected for conditional expression"
      | negativeExponent => "exponent less than 0"
      | tooDeep => "expression recursion level exceeded"
      | _ => "division by 0"
    text ++ ": ".toList ++ what.toList

end ArithmeticFault

end StubRelease.Shell

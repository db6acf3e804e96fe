/-
# StubRelease.Shell.Format -- escapes and formats

A printed text may hold escapes, and a format says how arguments are printed one after the other; it is gone
through again as long as arguments are left. The dialects differ in the escapes they know and in what they
say of an argument that is no number.
-/
import StubRelease.Calendar.Written
import StubRelease.Decimal.Magnitude
import StubRelease.Shell.Script

namespace StubRelease.Shell

/-- A text with escapes replaced, and whether an escape ended it early. -/
structure Unescaped where
  text : Text
  ended : Bool

namespace Unescaped

/-- Puts characters in front. -/
def after (lead : Text) (u : Unescaped) : Unescaped := { u with text := lead ++ u.text }

end Unescaped

namespace Escape

/-- The character a letter after a backslash stands for. -/
def letter? : Char → Option Char
  | 'n' => some '\n'
  | 't' => some '\t'
  | 'r' => some '\r'
  | 'a' => some '\x07'
  | 'b' => some '\x08'
  | 'e' => some '\x1b'
  | 'f' => some '\x0c'
  | 'v' => some '\x0b'
  | '\\' => some '\\'
  | _ => none

/-- The byte that at most some octal digits stand for, and how many digits there are. -/
def octal (most : Nat) (t : Text) : Char × Nat :=
  let digits := (t.take most).takeWhile fun c => '0' ≤ c && c ≤ '7'
  (Char.ofNat ((Text.takeDigits 8 0 digits).1 % 256), digits.length)

/-- The byte that at most two hexadecimal digits stand for, and how many digits there are. -/
def hexadecimal (t : Text) : Char × Nat :=
  let digits := (t.take 2).takeWhile fun c => (Text.hexValue? c).isSome
  (Char.ofNat (Text.takeDigits 16 0 digits).1, digits.length)

/-- The character whose number hexadecimal digits give, as it is written where only ASCII is known, and how many
digits there are. -/
def codePoint (most : Nat) (t : Text) : Text × Nat :=
  let digits := (t.take most).takeWhile fun c => (Text.hexValue? c).isSome
  let n := (Text.takeDigits 16 0 digits).1
  let shown := (Nat.toDigits 16 n).map Char.toUpper
  let written (lead : String) (width : Nat) : Text :=
    lead.toList ++ List.replicate (width - shown.length) '0' ++ shown
  (if n < 128 then [Char.ofNat n] else if n < 65536 then written "\\u" 4 else written "\\U" 8, digits.length)

/-- An escape that one dialect alone knows, and how many characters after its letter belong to it. -/
def further? (c : Char) (rest : Text) : Option (Text × Nat) :=
  let known (found : Text × Nat) : Option (Text × Nat) := if found.2 = 0 then none else some found
  match c with
  | 'E' => some (['\x1b'], 0)
  | 'x' =>
    let (e, used) := hexadecimal rest
    known ([e], used)
  | 'u' => known (codePoint 4 rest)
  | 'U' => known (codePoint 8 rest)
  | _ => none

/-- What an escape in a quote with a dollar sign stands for, and how many characters after the backslash it has. -/
def inDollarQuote (chars : Text) : Text × Nat :=
  match chars with
  | [] => (['\\'], 0)
  | 'c' :: c :: _ => ([if c = '?' then '\x7f' else Char.ofNat (c.toUpper.toNat % 32)], 2)
  | c :: rest =>
    match letter? c, further? c rest with
    | some e, _ => ([e], 1)
    | none, some (text, used) => (text, 1 + used)
    | none, none =>
      if "'\"?".toList.contains c then ([c], 1)
      else if '0' ≤ c && c ≤ '7' then
        let (e, used) := octal 3 chars
        ([e], used)
      else (['\\', c], 1)

/-- A text with the escapes replaced that quotes with a dollar sign have. The number bounds the steps. -/
def dollarText : Nat → Text → Text
  | n + 1, '\\' :: rest =>
    let (text, used) := inDollarQuote rest
    text ++ dollarText n (rest.drop used)
  | n + 1, c :: rest => c :: dollarText n rest
  | _, _ => []

/-- Replaces the escapes of printed words. Octal digits come after a zero, perhaps also without it. The number
bounds the steps. -/
def replaceFrom (d : Dialect) (withoutZero : Bool) : Nat → Text → Unescaped
  | 0, t => ⟨t, false⟩
  | _, [] => ⟨[], false⟩
  | n + 1, '\\' :: c :: rest =>
    let go (text rest : Text) : Unescaped := (replaceFrom d withoutZero n rest).after text
    match letter? c with
    | some e => go [e] rest
    | none =>
      if c = 'c' then ⟨[], true⟩
      else if c = '0' then
        let (e, used) := octal 3 rest
        go [e] (rest.drop used)
      else if withoutZero && '1' ≤ c && c ≤ '7' then
        let (e, used) := octal 3 (c :: rest)
        go [e] (rest.drop (used - 1))
      else
        match if d = .bash then further? c rest else none with
        | some (text, used) => go text (rest.drop used)
        | none => go ['\\', c] rest
  | n + 1, c :: rest => (replaceFrom d withoutZero n rest).after [c]

/-- Replaces the escapes of printed words. -/
def replace (d : Dialect) (t : Text) : Unescaped := replaceFrom d (d = .posix) t.length t

/-- Replaces the escapes of an argument of a format. -/
def replaceArgument (d : Dialect) (t : Text) : Unescaped := replaceFrom d true t.length t

end Escape

/-- What `echo` prints. The standard's dialect knows one option and replaces escapes always; the other
replaces them if asked to, or `always` unless asked not to. -/
def echoed (d : Dialect) (always : Bool) (args : List Text) : Text :=
  let finish (ends : Bool) (u : Unescaped) : Text :=
    if ends && !u.ended then u.text ++ ['\n'] else u.text
  match d with
  | .posix =>
    match args with
    | ['-', 'n'] :: rest => finish false (Escape.replace d (Text.unwords rest))
    | _ => finish true (Escape.replace d (Text.unwords args))
  | .bash =>
    let isOption (t : Text) : Bool := match t with
      | '-' :: c :: letters => (c :: letters).all "neE".toList.contains
      | _ => false
    let letters := (args.takeWhile isOption).flatten
    let text := Text.unwords (args.dropWhile isOption)
    let escaping := ((letters.filter "eE".toList.contains).getLast?).getD (if always then 'e' else 'E') = 'e'
    finish (!letters.contains 'n') (if escaping then Escape.replace d text else ⟨text, false⟩)

/-! ## Numbers -/

/-- What a format says about the width of what it prints. -/
structure Layouting where
  flags : Text
  width : Nat
  digits : Option Nat

namespace Layouting

/-- Fills up to the width; a sign stands in front of zeros. -/
def fill (l : Layouting) (zeros : Bool) (sign body : Text) : Text :=
  let missing := l.width - (sign.length + body.length)
  if l.flags.contains '-' then sign ++ body ++ List.replicate missing ' '
  else if zeros && l.flags.contains '0' then sign ++ List.replicate missing '0' ++ body
  else List.replicate missing ' ' ++ sign ++ body

/-- The sign of a number. -/
def sign (l : Layouting) (negative : Bool) : Text :=
  if negative then ['-']
  else if l.flags.contains '+' then ['+']
  else if l.flags.contains ' ' then [' ']
  else []

/-- A text. -/
def text (l : Layouting) (t : Text) : Text :=
  let kept := match l.digits with
    | some n => t.take n
    | none => t
  fill l false [] kept

/-- Zeros in front, up to the number of digits asked for. -/
def atLeast (l : Layouting) (digits : Text) : Text :=
  match l.digits with
  | some n => List.replicate (n - digits.length) '0' ++ (if n = 0 && digits = ['0'] then [] else digits)
  | none => digits

/-- A whole number, printed as a letter asks. -/
def integer (l : Layouting) (kind : Char) (n : Int) : Text :=
  let zeros := l.digits.isNone
  let word := (n % Int.pow 2 64).toNat
  let base (b : Nat) : Text := Nat.toDigits b word
  match kind with
  | 'd' | 'i' => fill l zeros (sign l (n < 0)) (atLeast l (Text.ofNat n.natAbs))
  | 'o' =>
    let digits := atLeast l (base 8)
    fill l zeros [] (if l.flags.contains '#' && digits.head? ≠ some '0' then '0' :: digits else digits)
  | 'x' | 'X' =>
    let lead := if l.flags.contains '#' && word ≠ 0 then ['0', kind] else []
    let digits := atLeast l (base 16)
    fill l zeros lead (if kind = 'X' then digits.map Char.toUpper else digits)
  | _ => fill l zeros [] (atLeast l (base 10))

/-- A number with a point after its whole digits. -/
def withPoint (t : Text) : Text :=
  let whole := t.takeWhile fun c => c ≠ 'e' && c ≠ 'p'
  if whole.contains '.' then t else whole ++ '.' :: t.drop whole.length

/-- A number of a precision, printed as a letter asks. -/
def magnitude (l : Layouting) (kind : Char) (p : Precision) (negative : Bool) (v : Magnitude) : Text :=
  let cased (t : Text) : Text := if kind.isUpper then t.map Char.toUpper else t
  match v with
  | .infinite => fill l false (sign l negative) (cased "inf".toList)
  | .undefined => fill l false (sign l negative) (cased "nan".toList)
  | .finite x =>
    let places := l.digits.getD 6
    let pointed := l.flags.contains '#'
    let (lead, body) := match kind.toLower with
      | 'f' => ([], Floating.fixed x places)
      | 'e' => ([], Floating.scientific x places)
      | 'a' => (['0', 'x'], Floating.hexadecimal p x l.digits)
      | _ => ([], Floating.general x places pointed)
    fill l true (sign l negative ++ cased lead) (cased (if pointed then withPoint body else body))

end Layouting

/-! ## Formats -/

/-- What a format makes of its arguments: the text, what is complained of, and the arguments that are
left. -/
structure Formatted where
  text : Text
  complaints : List Text
  rest : List Text
  failed : Bool
  /-- Whether nothing more is printed. -/
  ended : Bool

/-- How formats are read: by the shell of a dialect, or by a program of its own. -/
inductive FormatManner where
  | shell (d : Dialect)
  | program
deriving DecidableEq, Repr

namespace FormatManner

def dialect : FormatManner → Dialect
  | shell d => d
  | program => .bash

/-- The precision of numbers with a fraction. -/
def precision : FormatManner → Precision
  | shell .posix => .double
  | _ => .extended

/-- What is said of a number that is too great or too small. -/
def outOfRange (m : FormatManner) (arg : Text) : Text :=
  (if m = shell .bash then "warning: ".toList else []) ++ arg ++ ": Numerical result out of range".toList

/-- What is said of an argument that is no number, or has something after its number. -/
def notNumber (m : FormatManner) (arg : Text) (begins : Bool) : Text :=
  match m with
  | shell .posix =>
    arg ++ (if begins then ": not completely converted" else ": expected numeric value").toList
  | shell .bash => arg ++ ": invalid number".toList
  | program =>
    '\'' :: arg ++ (if begins then "': value not completely converted"
      else "': expected a numeric value").toList

/-- What is said of a conversion that is not known, and the status. -/
def unknownConversion (m : FormatManner) (spec : Text) (kind : Option Char) : Text :=
  match m, kind with
  | shell .posix, some c => spec ++ [c] ++ ": invalid directive".toList
  | shell .posix, none => "missing format character".toList
  | shell .bash, some c => '\x60' :: c :: "': invalid format character".toList
  | shell .bash, none => "\x60%': missing format character".toList
  | program, some c => spec ++ [c] ++ ": invalid conversion specification".toList
  | program, none => spec ++ ": invalid conversion specification".toList

end FormatManner

/-- The number of the character after a quote, if an argument begins with a quote. -/
def characterOf? : Text → Option Nat
  | '"' :: rest | '\'' :: rest => some ((rest.head?.map Char.toNat).getD 0)
  | _ => none

/-- The whole number an argument stands for, and what is complained of. A number without a sign of its own may
be twice as great, and a negative one counts down from its end. -/
def integerOf (m : FormatManner) (signed : Bool) (arg : Text) : Int × List Text :=
  match characterOf? arg with
  | some n => (n, [])
  | none =>
    let body := arg.dropWhile Text.isSpace
    let (negative, digits) := Numeral.afterSign body
    let (n, rest) := match digits with
      | '0' :: x :: c :: rest =>
        if (x = 'x' || x = 'X') && (Text.hexValue? c).isSome then Text.takeDigits 16 0 (c :: rest)
        else Text.takeDigits 8 0 digits
      | '0' :: _ => Text.takeDigits 8 0 digits
      | _ => Text.takeDigits 10 0 digits
    let begins := digits.head?.any Char.isDigit
    let value : Int := if negative then -n else n
    let kept := if signed then max (-Int.pow 2 63) (min value (Int.pow 2 63 - 1))
      else if Nat.pow 2 64 ≤ n then Int.pow 2 64 - 1
      else value
    if !begins && !arg.isEmpty then (0, [m.notNumber arg false])
    else if !rest.isEmpty then (kept, [m.notNumber arg true])
    else if kept ≠ value then (kept, [m.outOfRange arg])
    else (kept, [])

/-- The number with a fraction an argument stands for, with its sign, and what is complained of. -/
def magnitudeOf (m : FormatManner) (arg : Text) : Bool × Magnitude × List Text :=
  let zero : Magnitude := .finite ⟨0, m.precision.least⟩
  match characterOf? arg with
  | some n => (false, (Numeral.binary m.precision n 0).1, [])
  | none =>
    match Numeral.take? m.precision (arg.dropWhile Text.isSpace) with
    | none => (false, zero, if arg.isEmpty then [] else [m.notNumber arg false])
    | some numeral =>
      (numeral.negative, numeral.value,
        if !numeral.rest.isEmpty then [m.notNumber arg true]
        else if numeral.outOfRange then [m.outOfRange arg]
        else [])

namespace Formatted

/-- Puts what was printed before in front. -/
def after (text : Text) (complaints : List Text) (f : Formatted) : Formatted :=
  { f with text := text ++ f.text, complaints := complaints ++ f.complaints }

def done (rest : List Text) : Formatted := ⟨[], [], rest, false, false⟩

end Formatted

/-- A text that shows, with a backslash in front of each sign; the character before it tells where a tilde or a
number sign would begin something. -/
def backslashed : Option Char → Text → Text
  | _, [] => []
  | before, c :: rest =>
    let isSign := " !\"$&'()*,;<>?[\\]^\x60\x7b|\x7d".toList.contains c || (c = '#' && before.isNone)
      || (c = '~' && before.all fun b => b = ':' || b = '=')
    (if isSign then ['\\', c] else [c]) ++ backslashed (some c) rest

/-- Whether a character shows as itself. -/
def isShown (c : Char) : Bool := ' ' ≤ c && c ≤ '~'

/-- A text in a quote with a dollar sign. -/
def dollarQuoted (t : Text) : Text :=
  let digit (n : Nat) : Char := Char.ofNat (48 + n % 8)
  "$'".toList ++ t.flatMap (fun c =>
    if isShown c then (if c = '\'' || c = '\\' then ['\\', c] else [c])
    else
      match "\x07\x08\t\n\x0b\x0c\r\x1b".toList.zip "abtnvfrE".toList |>.lookup c with
      | some letter => ['\\', letter]
      | none => ['\\', digit (c.toNat / 64), digit (c.toNat / 8), digit c.toNat]) ++ ['\'']

/-- A text as a shell would have to be given it: in a quote with a dollar sign if it has characters that do not
show, and otherwise with a backslash in front of each sign. -/
def escaped (t : Text) : Text :=
  if t.isEmpty then ['\'', '\'']
  else if t.all isShown then backslashed none t
  else dollarQuoted t

/-- A text in single quotes, each of which in the text stands alone behind a backslash. -/
def singlyQuoted (t : Text) : Text :=
  if t = ['\''] then ['\\', '\'']
  else '\'' :: t.flatMap (fun c => if c = '\'' then "'\\''".toList else [c]) ++ ['\'']

/-- A text in double quotes, or in a quote with a dollar sign if it has characters that do not show. -/
def doublyQuoted (t : Text) : Text :=
  if t.all isShown then
    '"' :: t.flatMap (fun c => if "\"\\$\x60".toList.contains c then ['\\', c] else [c]) ++ ['"']
  else dollarQuoted t

/-- A text in quotes that do for it. -/
def anyhowQuoted (t : Text) : Text := if t.all isShown then singlyQuoted t else dollarQuoted t

/-- A format for moments between parentheses, and what follows its sign; parentheses in it are paired. -/
def momentFormat? : Nat → Text → Option (Text × Text)
  | depth, c :: rest =>
    if c = ')' && depth = 0 then
      match rest with
      | 'T' :: after => some ([], after)
      | _ => none
    else
      (momentFormat? (if c = '(' then depth + 1 else if c = ')' then depth - 1 else depth) rest).map
        fun (format, after) => (c :: format, after)
  | _, [] => none

/-- What a moment's format makes of an argument, unless that is too long; a shell has no clock, and now is the
beginning of time. -/
def momentOf (format : Text) (arg : Int) : Text :=
  let written := (Moment.ofSecond (if arg = -1 || arg = -2 then 0 else arg)).write
    (if format.isEmpty then "%X".toList else format)
  if written.length < 128 then written else []

/-- One pass over a format. The number bounds the steps. -/
def formatOnce (m : FormatManner) : Nat → Text → List Text → Formatted
  | 0, _, args => .done args
  | _, [], args => .done args
  | n + 1, '\\' :: rest, args =>
    match rest with
    | [] => ⟨['\\'], [], args, false, false⟩
    | c :: more =>
      match Escape.letter? c with
      | some e => (formatOnce m n more args).after [e] []
      | none =>
        if '0' ≤ c && c ≤ '7' then
          let (e, used) := Escape.octal 3 rest
          (formatOnce m n (rest.drop used) args).after [e] []
        else if m.dialect = .bash && "\"'?".toList.contains c then (formatOnce m n more args).after [c] []
        else if m = .program && c = 'c' then ⟨[], [], args, false, true⟩
        else
          match if m.dialect = .bash then Escape.further? c more else none with
          | some (text, used) => (formatOnce m n (more.drop used) args).after text []
          | none => (formatOnce m n more args).after ['\\', c] []
  | n + 1, '%' :: '%' :: rest, args => (formatOnce m n rest args).after ['%'] []
  | n + 1, '%' :: rest, args =>
    let flags := rest.takeWhile "#-+ 0".toList.contains
    let rest := rest.drop flags.length
    let (width, flags, rest, args) := match rest with
      | '*' :: rest =>
        let w := (integerOf m true (args.headD [])).1
        (w.natAbs, if w < 0 then '-' :: flags else flags, rest, args.drop 1)
      | _ =>
        let digits := rest.takeWhile Char.isDigit
        (Text.number digits, flags, rest.drop digits.length, args)
    let (digits, rest, args) := match rest with
      | '.' :: '*' :: rest =>
        let p := (integerOf m true (args.headD [])).1
        (if p < 0 then none else some p.toNat, rest, args.drop 1)
      | '.' :: rest =>
        let digits := rest.takeWhile Char.isDigit
        (some (Text.number digits), rest.drop digits.length, args)
      | _ => (none, rest, args)
    let rest := if m.dialect = .bash then rest.dropWhile "hlLjzt".toList.contains else rest
    let l : Layouting := ⟨flags, width, digits⟩
    let arg := args.headD []
    match rest with
    | [] => ⟨[], [m.unknownConversion ['%'] none], args, true, true⟩
    | kind :: rest =>
      let go (text : Text) (complaints : List Text) : Formatted :=
        (formatOnce m n rest (args.drop 1)).after text complaints
      if kind = 's' then go (l.text arg) []
      else if kind = 'b' then
        let u := Escape.replaceArgument m.dialect arg
        if u.ended then ⟨l.text u.text, [], [], false, true⟩ else go (l.text u.text) []
      else if kind = 'c' then go (l.fill false [] [arg.headD '\x00']) []
      else if (kind = 'q' || kind = 'Q') && m.dialect = .bash then go (l.text (escaped arg)) []
      else if kind = '(' && m = .shell .bash then
        match momentFormat? 0 rest with
        | some (format, rest) =>
          let (value, complaints) := if args.isEmpty then (-1, []) else integerOf m true arg
          (formatOnce m n rest (args.drop 1)).after (l.text (momentOf format value)) complaints
        | none => (formatOnce m n (flags ++ kind :: rest) args).after ['%'] []
      else if "diouxX".toList.contains kind then
        let (value, complaints) := integerOf m (kind = 'd' || kind = 'i') arg
        go (l.integer kind value) complaints
      else if "aAeEfFgG".toList.contains kind then
        let (negative, value, complaints) := magnitudeOf m arg
        go (l.magnitude kind m.precision negative value) complaints
      else ⟨[], [m.unknownConversion ('%' :: flags) (some kind)], args, true, true⟩
  | n + 1, c :: rest, args => (formatOnce m n rest args).after [c] []

/-- Passes over a format as long as arguments are left and it uses them. -/
def formatAll (m : FormatManner) (format : Text) : Nat → List Text → Formatted
  | 0, args => .done args
  | n + 1, args =>
    let f := formatOnce m (format.length + 1) format args
    if f.ended || f.rest.isEmpty || f.rest.length = args.length then f
    else (formatAll m format n f.rest).after f.text f.complaints

/-- What a format makes of arguments: the text, the complaints and the status. -/
def formatted (m : FormatManner) (format : Text) (args : List Text) : Text × List Text × Nat :=
  let f := formatAll m format (args.length + 1) args
  let f := match m, f.rest with
    | .program, unused :: _ =>
      if f.ended then f
      else { f with complaints := f.complaints ++
        ["warning: ignoring excess arguments, starting with '".toList ++ unused ++ ['\'']] }
    | _, _ => f
  let warned := m ≠ .shell .posix && f.complaints.all fun c => "warning".toList.isPrefixOf c
  let status :=
    if f.failed && m = .shell .posix then 2
    else if f.failed || !(f.complaints.isEmpty || warned) then 1
    else 0
  (f.text, f.complaints, status)

end StubRelease.Shell

/-
# StubRelease.Shell.Utility.EditScript -- the commands that edit lines

A script is a list of commands, each chosen by up to two addresses. It is read whole before anything is edited, and
what is wrong in it is told before its first command runs.
-/
import StubRelease.Shell.Regex

namespace StubRelease.Shell.Utility

namespace Editor

/-- A line that is chosen. -/
inductive Address where
  | line (n : Nat)
  | last
  | every (first step : Nat)
  /-- A line that matches; without an expression the one used last. -/
  | found (regex : Option Regex) (ignoreCase : Bool)
  /-- Some lines after the first one. -/
  | more (n : Nat)
  /-- The next line whose number is a multiple. -/
  | multiple (n : Nat)

/-- A part of what replaces a match. -/
inductive Piece where
  | text (t : Text)
  | group (n : Nat)
  /-- From here on letters are made capital or small, up to the next such mark; the next one only, if
  `once`. -/
  | capital (upper : Option Bool) (once : Bool)

/-- How matches are replaced. -/
structure Substitution where
  /-- Without an expression the one used last. -/
  regex : Option Regex
  ignoreCase : Bool
  pieces : List Piece
  all : Bool
  /-- The number of the first match that is replaced. -/
  number : Nat
  /-- How often the line is printed after it was changed. -/
  prints : Bool
  file : Option Text

/-- What a command does. -/
inductive Action where
  | substitute (s : Substitution)
  | translate (pairs : List (Char × Char))
  | delete
  | deleteFirst
  | print
  | printFirst
  | next
  | nextAppended
  | quit (code : Nat)
  | stop (code : Nat)
  | append (t : Text)
  | insert (t : Text)
  | change (t : Text)
  | hold
  | holdAppended
  | get
  | getAppended
  | exchange
  | number
  | fileName
  /-- Shows control characters; lines are broken at a width if one is given. -/
  | show (width : Option Nat)
  | read (path : Text)
  | readLine (path : Text)
  | write (path : Text)
  | writeFirst (path : Text)
  | label (name : Text)
  | jump (name : Text)
  | jumpIf (name : Text)
  | jumpUnless (name : Text)
  | clear
  | open
  | close
  | nothing

/-- A command with its addresses. -/
structure Step where
  first : Option Address
  second : Option Address
  negated : Bool
  action : Action

/-! ## Escapes -/

/-- The number that at most some digits of a base stand for as a character, and what follows them. -/
def numbered? (base most : Nat) (t : Text) : Option (Char × Text) :=
  let digits := (t.take most).takeWhile fun c => (Text.hexValue? c).any (· < base)
  if digits.isEmpty then none
  else some (Char.ofNat ((Text.takeDigits base 0 digits).1 % 256), t.drop digits.length)

/-- The character that is named after a backslash, and what follows. -/
def control? : Text → Option (Char × Text)
  | 'a' :: rest => some ('\x07', rest)
  | 'f' :: rest => some ('\x0c', rest)
  | 'n' :: rest => some ('\n', rest)
  | 'r' :: rest => some ('\r', rest)
  | 't' :: rest => some ('\t', rest)
  | 'v' :: rest => some ('\x0b', rest)
  | 'c' :: c :: rest => some (Char.ofNat (c.toUpper.toNat ^^^ 64), rest)
  | 'd' :: rest => numbered? 10 3 rest
  | 'o' :: rest => numbered? 8 3 rest
  | 'x' :: rest => numbered? 16 2 rest
  | _ => none

/-- An expression with the characters that are named in it. The number bounds the steps. -/
def plainly : Nat → Text → Text
  | 0, t => t
  | _, [] => []
  | n + 1, '\\' :: rest =>
    match control? rest, rest with
    | some ('\\', rest), _ => '\\' :: '\\' :: plainly n rest
    | some (c, rest), _ => c :: plainly n rest
    | none, c :: rest => '\\' :: c :: plainly n rest
    | none, [] => ['\\']
  | n + 1, c :: rest => c :: plainly n rest

/-! ## Reading -/

abbrev Reader := StateT Text (Except Text)

def fail {α : Type} (text : String) : Reader α := throw text.toList

def skip (p : Char → Bool) : Reader Unit := modify (·.dropWhile p)

/-- A set in brackets in an expression, its opening bracket read; it may stand open. -/
def bracketed : Text → Text × Text := fun t =>
  let (caret, t) := if t.head? = some '^' then (['^'], t.drop 1) else ([], t)
  let (closing, t) := if t.head? = some ']' then ([']'], t.drop 1) else ([], t)
  let (body, rest) := upTo (t.length + 1) t
  (caret ++ closing ++ body, rest)
where
  upTo : Nat → Text → Text × Text
    | 0, t => ([], t)
    | _, [] => ([], [])
    | _, ']' :: rest => ([']'], rest)
    | n + 1, '[' :: c :: rest =>
      if ":.=".toList.contains c then
        let name := rest.takeWhile (· ≠ ']')
        let (body, after) := upTo n (rest.drop (name.length + 1))
        ('[' :: c :: name ++ ']' :: body, after)
      else
        let (body, after) := upTo n (c :: rest)
        ('[' :: body, after)
    | n + 1, c :: rest =>
      let (body, after) := upTo n rest
      (c :: body, after)

/-- A text up to a delimiter, which stands for itself after a backslash and in a set of an expression. The number
bounds the steps. -/
def delimited (delimiter : Char) (isRegex : Bool) : Nat → Reader Text
  | 0 => fail "unterminated"
  | n + 1 => do
    match ← get with
    | [] => fail "unterminated \x60s' command"
    | '\\' :: c :: rest =>
      set rest
      let more ← delimited delimiter isRegex n
      if c = delimiter && (isRegex || c ≠ '&') then return c :: more
      else if c = '\n' && isRegex then return '\n' :: more
      else return '\\' :: c :: more
    | c :: rest =>
      set rest
      if c = delimiter then return []
      else if isRegex && c = '[' && (bracketed rest).2.contains delimiter then
        let (set', rest) := bracketed rest
        set rest
        return c :: set' ++ (← delimited delimiter isRegex n)
      else if c = '\n' then fail "unterminated \x60s' command"
      else return c :: (← delimited delimiter isRegex n)

/-- An expression; an empty one stands for the one used last. -/
def regexOf (form : Regex.Form) (lines : Bool) (t : Text) : Reader (Option Regex) :=
  if t.isEmpty then return none
  else
    match Regex.read? form (plainly (t.length + 1) t) with
    | some r => return some (if lines then r.linewise else r)
    | none => fail "Invalid preceding regular expression"

def number : Reader Nat := do
  let digits := (← get).takeWhile Char.isDigit
  modify (·.drop digits.length)
  return Text.number digits

/-- An address, if one comes next. -/
def address? (form : Regex.Form) : Reader (Option Address) := do
  let t ← get
  let found (delimiter : Char) (rest : Text) : Reader (Option Address) := do
    set rest
    let expression ← delimited delimiter true (rest.length + 1)
    let flags := (← get).takeWhile fun c => c = 'I' || c = 'M'
    modify (·.drop flags.length)
    return some (.found (← regexOf form (flags.contains 'M') expression) (flags.contains 'I'))
  match t with
  | '$' :: rest =>
    set rest
    return some .last
  | '/' :: rest => found '/' rest
  | '\\' :: c :: rest => found c rest
  | '+' :: rest =>
    set rest
    return some (.more (← number))
  | '~' :: rest =>
    set rest
    return some (.multiple (← number))
  | c :: _ =>
    if c.isDigit then
      let n ← number
      match ← get with
      | '~' :: rest =>
        set rest
        let step ← number
        return some (if step = 0 then .line n else .every n step)
      | _ => return some (.line n)
    else return none
  | [] => return none

/-- The pieces of a replacement. The number bounds the steps. -/
def pieces : Nat → Text → List Piece
  | 0, _ => []
  | _, [] => []
  | n + 1, '&' :: rest => .group 0 :: pieces n rest
  | n + 1, '\\' :: c :: rest =>
    if c.isDigit then .group (c.toNat - '0'.toNat) :: pieces n rest
    else
      match control? (c :: rest) with
      | some (named, rest) => .text [named] :: pieces n rest
      | none =>
        match c with
        | 'U' => .capital (some true) false :: pieces n rest
        | 'L' => .capital (some false) false :: pieces n rest
        | 'u' => .capital (some true) true :: pieces n rest
        | 'l' => .capital (some false) true :: pieces n rest
        | 'E' => .capital none false :: pieces n rest
        | c => .text [c] :: pieces n rest
  | n + 1, c :: rest => .text [c] :: pieces n rest

/-- A path up to the end of a line. -/
def path : Reader Text := do
  skip Text.isBlank
  let t := (← get).takeWhile (· ≠ '\n')
  modify (·.drop t.length)
  if t.isEmpty then fail "missing filename in r/R/w/W commands"
  return t

/-- The flags after a substitution. -/
structure SubstituteFlags where
  all : Bool := false
  prints : Bool := false
  ignoreCase : Bool := false
  lines : Bool := false
  number : Option Nat := none
  file : Option Text := none

/-- Reads the flags after a substitution. The number bounds the steps. -/
def substituteFlags : Nat → SubstituteFlags → Reader SubstituteFlags
  | 0, f => return f
  | n + 1, f => do
    match ← get with
    | 'g' :: rest =>
      if f.all then fail "multiple \x60g' options to \x60s' command"
      set rest
      substituteFlags n { f with all := true }
    | 'p' :: rest =>
      if f.prints then fail "multiple \x60p' options to \x60s' command"
      set rest
      substituteFlags n { f with prints := true }
    | 'i' :: rest | 'I' :: rest =>
      set rest
      substituteFlags n { f with ignoreCase := true }
    | 'm' :: rest | 'M' :: rest =>
      set rest
      substituteFlags n { f with lines := true }
    | 'w' :: rest =>
      set rest
      return { f with file := some (← path) }
    | '\x7d' :: _ | '#' :: _ | [] => return f
    | '\n' :: rest | ';' :: rest =>
      set rest
      return f
    | c :: rest =>
      if c.isDigit then
        if f.number.isSome then fail "multiple number options to \x60s' command"
        let k ← number
        if k = 0 then fail "number option to \x60s' command may not be zero"
        substituteFlags n { f with number := some k }
      else if Text.isBlank c then
        set rest
        substituteFlags n f
      else fail "unknown option to \x60s'"

/-- The text after a command that puts lines in: up to the end of a line, unless a backslash stands in front
of it. The number bounds the steps. -/
def textLines : Nat → Reader Text
  | 0 => return []
  | n + 1 => do
    match ← get with
    | [] => return ['\n']
    | '\n' :: rest =>
      set rest
      return ['\n']
    | ['\\'] =>
      set ([] : Text)
      return ['\n']
    | '\\' :: c :: rest =>
      match control? (c :: rest) with
      | some (named, rest) =>
        set rest
        return named :: (← textLines n)
      | none =>
        set rest
        return c :: (← textLines n)
    | c :: rest =>
      set rest
      return c :: (← textLines n)

/-- A text of whole lines after a command. -/
def givenText (n : Nat) : Reader Text := do
  skip Text.isBlank
  match ← get with
  | ['\\'] =>
    set ([] : Text)
    return []
  | '\\' :: rest =>
    match rest.dropWhile Text.isBlank with
    | '\n' :: more =>
      set more
      textLines n
    | [] =>
      set ([] : Text)
      return []
    | _ =>
      set rest
      textLines n
  | [] => fail "expected \\ after \x60a', \x60c' or \x60i'"
  | _ => textLines n

/-- A name up to the end of a command. -/
def name : Reader Text := do
  skip Text.isBlank
  let t := (← get).takeWhile fun c => !Text.isSpace c && c ≠ ';' && c ≠ '\x7d'
  modify (·.drop t.length)
  return t

/-- Nothing but the end of a command may follow. -/
def finished (a : Action) : Reader Action := do
  skip Text.isBlank
  match ← get with
  | '\n' :: rest | ';' :: rest =>
    set rest
    return a
  | [] | '\x7d' :: _ | '#' :: _ => return a
  | _ => fail "extra characters after command"

/-- The greatest number of a group that pieces name. -/
def greatestGroup (pieces : List Piece) : Nat :=
  (pieces.map fun
    | .group n => n
    | _ => 0).foldl max 0

/-- What one command does. -/
def action (form : Regex.Form) (n : Nat) : Reader Action := do
  match ← get with
  | [] => fail "missing command"
  | c :: rest =>
    set rest
    match c with
    | '\x7b' => return .open
    | '\x7d' => finished .close
    | '=' => finished .number
    | 'd' => finished .delete
    | 'D' => finished .deleteFirst
    | 'F' => finished .fileName
    | 'p' => finished .print
    | 'P' => finished .printFirst
    | 'n' => finished .next
    | 'N' => finished .nextAppended
    | 'h' => finished .hold
    | 'H' => finished .holdAppended
    | 'g' => finished .get
    | 'G' => finished .getAppended
    | 'x' => finished .exchange
    | 'z' => finished .clear
    | 'l' =>
      skip Text.isBlank
      let given := (← get).head?.any Char.isDigit
      let width ← number
      finished (.show (if given then some width else none))
    | 'q' =>
      skip Text.isBlank
      finished (.quit (← number))
    | 'Q' =>
      skip Text.isBlank
      finished (.stop (← number))
    | 'a' => return .append (← givenText n)
    | 'i' => return .insert (← givenText n)
    | 'c' => return .change (← givenText n)
    | ':' =>
      let label ← name
      if label.isEmpty then fail "\":\" lacks a label"
      return .label label
    | 'b' => return .jump (← name)
    | 't' => return .jumpIf (← name)
    | 'T' => return .jumpUnless (← name)
    | 'r' => return .read (← path)
    | 'R' => return .readLine (← path)
    | 'w' => return .write (← path)
    | 'W' => return .writeFirst (← path)
    | 'v' =>
      let wanted ← name
      let most := wanted.takeWhile (· ≠ '.')
      if Text.number (most.filter Char.isDigit) > 4 then fail "expected newer version of sed"
      finished .nothing
    | '#' =>
      skip (· ≠ '\n')
      return .nothing
    | 's' =>
      match rest with
      | [] => fail "unterminated \x60s' command"
      | delimiter :: rest =>
        set rest
        let pattern ← delimited delimiter true n
        let replacement ← delimited delimiter false n
        let f ← substituteFlags n {}
        let r ← regexOf form f.lines pattern
        let parts := pieces (replacement.length + 1) replacement
        if r.any fun (r : Regex) => r.groupCount < greatestGroup parts then
          fail "invalid reference on \x60s' command's RHS"
        return .substitute ⟨r, f.ignoreCase, parts, f.all, f.number.getD 1, f.prints, f.file⟩
    | 'y' =>
      match rest with
      | [] => fail "unterminated \x60y' command"
      | delimiter :: rest =>
        set rest
        let plain (t : Text) : Text := (pieces (t.length + 1) t).flatMap fun
          | .text t => t
          | _ => ['&']
        let x := plain (← delimited delimiter false n)
        let y := plain (← delimited delimiter false n)
        if x.length = y.length then finished (.translate (x.zip y))
        else fail "strings for \x60y' command are different lengths"
    | c => throw ("unknown command: \x60".toList ++ [c, '\''])

/-- What a command's addresses may be. -/
def checked (s : Step) : Reader Step := do
  match s.first, s.second with
  | some (.more _), _ | some (.multiple _), _ => fail "invalid usage of +N or ~N as first address"
  | some (.line 0), some (.found _ _) => pure ()
  | some (.line 0), _ => fail "invalid usage of line address 0"
  | _, _ => pure ()
  match s.action with
  | .close => if s.first.isSome then fail "unexpected \x60\x7d'"
  | .label _ => if s.first.isSome then fail ": doesn't want any addresses"
  | .quit _ | .stop _ => if s.second.isSome then fail "command only uses one address"
  | _ => pure ()
  return s

/-- Reads commands. The number bounds the steps. -/
def steps (form : Regex.Form) : Nat → Reader (List Step)
  | 0 => return []
  | n + 1 => do
    skip fun c => Text.isSpace c || c = ';'
    if (← get).isEmpty then return []
    else
      let first ← address? form
      skip Text.isBlank
      let second ← if first.isSome && (← get).head? = some ',' then do
          modify (·.drop 1)
          skip Text.isBlank
          match ← address? form with
          | some a => pure (some a)
          | none => fail "unexpected \x60,'"
        else pure none
      skip Text.isBlank
      let negated := (← get).head? = some '!'
      if negated then
        modify (·.drop 1)
        skip Text.isBlank
        if (← get).head? = some '!' then fail "multiple \x60!'s"
      if first.isSome && (← get).head? = some '#' then fail "comments don't accept any addresses"
      let act ← action form (n + 1)
      let step ← checked ⟨first, second, negated, act⟩
      return step :: (← steps form n)

/-- Whether blocks are closed that were not opened, or are left open. -/
def unbalanced? (all : List Step) : Option String :=
  let depths := all.scanl (fun (d : Int) s => match s.action with
    | .open => d + 1
    | .close => d - 1
    | _ => d) 0
  if depths.any (· < 0) then some "unexpected \x60\x7d'"
  else if depths.getLast?.any (0 < ·) then some "unmatched \x60\x7b'"
  else none

/-- A label that some commands jump to and that none of them has. -/
def missingLabel? (all : List Step) : Option Text :=
  let labels := all.filterMap fun s => match s.action with
    | .label name => some name
    | _ => none
  let targets := all.filterMap fun s => match s.action with
    | .jump name | .jumpIf name | .jumpUnless name => some name
    | _ => none
  targets.find? fun name => !name.isEmpty && !labels.contains name

/-- Whether a script begins by saying that lines are not printed unless a command asks for it. -/
def isQuiet (t : Text) : Bool := t = ['#', 'n'] || ['#', 'n', '\n'].isPrefixOf t

/-- Reads a whole script. -/
def read (form : Regex.Form) (t : Text) : Except Text (List Step) :=
  match (steps form (t.length + 2)).run t with
  | .error e => .error e
  | .ok (all, _) =>
    match unbalanced? all with
    | some fault => .error fault.toList
    | none => .ok all

/-- The files that commands read. -/
def filesRead (all : List Step) : List Text :=
  all.filterMap fun s => match s.action with
    | .read path | .readLine path => some path
    | _ => none

/-- The files that commands write. -/
def filesWritten (all : List Step) : List Text :=
  (all.filterMap fun s => match s.action with
    | .write path | .writeFirst path => some path
    | .substitute s => s.file
    | _ => none).eraseDups

end Editor

end StubRelease.Shell.Utility

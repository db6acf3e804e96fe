/-
# StubRelease.Shell.Parser -- reading a script

A script is read command by command, counting lines: a command is run before the next one is read, so a
fault further down is found only when the commands above it have been run. The recursion is bounded by a
number computed from the text's length.
-/
import StubRelease.Shell.Format

namespace StubRelease.Shell

/-- Why a text is no script. -/
inductive ScriptFault where
  /-- Something stands where it cannot, and perhaps what should stand there. -/
  | unexpected (found : Text) (wanted : Option Text)
  | unterminatedQuote
  | unterminatedCommand
  | missingBrace
  | missingParentheses
  | badFunctionName
  | badLoopVariable
  /-- The bound on the recursion is used up. -/
  | tooDeep
deriving DecidableEq, Repr

/-- A document that is announced but not read yet. -/
structure Announced where
  number : Nat
  delimiter : Text
  /-- Whether tabs at the start of its lines are dropped. -/
  indented : Bool
  /-- Whether it is taken as it stands. -/
  verbatim : Bool

/-- An alias that was replaced by its text. -/
structure Replaced where
  name : Text
  /-- How much was left of the script behind it. -/
  left : Nat
  /-- How much is left where the next word begins, if that one may be an alias too. -/
  next : Option Nat

/-- What is left of a script, and the number of its first line. -/
structure Input where
  chars : Text
  line : Nat
  dialect : Dialect
  announced : List Announced
  documents : Documents
  /-- The number of the next document. -/
  next : Nat
  /-- The texts that words stand for where a command begins. -/
  aliases : List (Text × Text)
  replaced : List Replaced
  /-- Whether words may have groups of patterns. -/
  groups : Bool

/-- Reads a part of a script; a fault comes with the line it is found in. -/
abbrev Parser := StateT Input (Except (ScriptFault × Nat))

namespace Parser

def fail {α : Type} (fault : ScriptFault) : Parser α := do throw (fault, (← get).line)

/-- The next character, if there is one. -/
def peek : Parser (Option Char) := return (← get).chars.head?

/-- Whether the given characters come next. -/
def sees (text : String) : Parser Bool := return text.toList.isPrefixOf (← get).chars

/-- Takes characters off the front. -/
def drop (n : Nat) : Parser Unit := modify fun i =>
  { i with chars := i.chars.drop n, line := i.line + (i.chars.take n).count '\n' }

/-- Takes the longest beginning of a kind of characters. -/
def takeWhile (p : Char → Bool) : Parser Text := do
  let taken := (← get).chars.takeWhile p
  drop taken.length
  return taken

/-- A character that ends an unquoted word. -/
def isMeta (c : Char) : Bool := " \t\n;&|<>()".toList.contains c

def speaks (d : Dialect) : Parser Bool := return (← get).dialect = d

/-- Skips blanks, escaped line ends and a comment. -/
def blanks : Nat → Parser Unit
  | 0 => pure ()
  | n + 1 => do
    let _ ← takeWhile Text.isBlank
    if ← sees "\\\n" then
      drop 2
      blanks n
    else if ← sees "#" then
      let _ ← takeWhile (· != '\n')

/-- Drops escaped line ends. -/
def continued : Nat → Parser Unit
  | 0 => pure ()
  | n + 1 => do
    if ← sees "\\\n" then
      drop 2
      continued n

/-! ## Tokens -/

/-- The kind of what comes next. -/
inductive Look where
  | done
  | newline
  | operator (text : String)
  | keyword (text : String)
  | redirection
  | word (text : Text)
deriving DecidableEq

def keywords : List String :=
  ["!", "case", "do", "done", "elif", "else", "esac", "fi", "for", "if", "in", "then", "until",
    "while", "\x7b", "\x7d"]

def bashKeywords : List String := ["function", "[[", "time", "select"]

/-- Keywords and operators that end a list of commands. -/
def enders : List String :=
  ["then", "else", "elif", "fi", "do", "done", "esac", "\x7d", ")", ";;", ";&", ";;&"]

def operators : List String := ["&&", "||", ";;", ";", "&", "|", "(", ")"]

def bashOperators : List String := [";;&", ";&", "|&"]

namespace Look

/-- How a complaint names what was found. -/
def describe (d : Dialect) : Look → Text
  | done => "end of file".toList
  | newline => "newline".toList
  | operator text | keyword text => if d = .bash then text.toList else '"' :: text.toList ++ ['"']
  | redirection => "redirection".toList
  | word text => if d = .bash then text else "word".toList

def isEnder : Look → Bool
  | operator text | keyword text => enders.contains text
  | _ => false

end Look

/-- The variable in braces that a redirection names in front of its operator. -/
def namedDescriptor? (chars : Text) : Option Text :=
  match chars with
  | '\x7b' :: rest =>
    let name := rest.takeWhile Text.isNameChar
    match rest.drop name.length with
    | '\x7d' :: c :: _ => if Text.isName name && (c = '<' || c = '>') then some name else none
    | _ => none
  | _ => none

/-- Whether a redirection begins a text. -/
def beginsRedirection (d : Dialect) (chars : Text) : Bool :=
  let digits := chars.takeWhile Char.isDigit
  let rest := chars.drop digits.length
  let redirects := rest.head? = some '<' || rest.head? = some '>'
  (redirects && (digits.length ≤ 1 || d = .bash))
    || (d = .bash && ("&>".toList.isPrefixOf chars || (namedDescriptor? chars).isSome))

/-- What comes next, after blanks. -/
def look (n : Nat) : Parser Look := do
  blanks (n + 1)
  let i ← get
  match i.chars with
  | [] => return .done
  | '\n' :: _ => return .newline
  | chars =>
    if i.dialect = .bash && ("<(".toList.isPrefixOf chars || ">(".toList.isPrefixOf chars) then return .word []
    else if beginsRedirection i.dialect chars then return .redirection
    else
      let all := (if i.dialect = .bash then bashOperators else []) ++ operators
      match all.find? fun o => o.toList.isPrefixOf chars with
      | some o => return .operator o
      | none =>
        let raw := chars.takeWhile (!isMeta ·)
        let text := String.ofList raw
        if keywords.contains text || (i.dialect = .bash && bashKeywords.contains text) then
          return .keyword text
        else return .word raw

/-- Puts its text in place of an alias that comes next, unless it is in that text already. The number bounds how
many aliases stand for each other. -/
def replaceAlias : Nat → Parser Unit
  | 0 => pure ()
  | n + 1 => do
    if (← get).aliases.isEmpty then return
    match ← look n with
    | .word raw =>
      let i ← get
      let isWithin (r : Replaced) : Bool := r.name = raw && r.left < i.chars.length
      match if i.replaced.any isWithin then none else i.aliases.lookup raw with
      | some text =>
        let rest := i.chars.drop raw.length
        let next := if text.getLast?.any Text.isBlank then some (rest.dropWhile Text.isBlank).length else none
        set { i with chars := text ++ rest, replaced := ⟨raw, rest.length, next⟩ :: i.replaced }
        replaceAlias n
      | none => pure ()
    | _ => pure ()

/-- Replaces an alias that comes next behind one that lets it be one. -/
def replaceNextAlias (n : Nat) : Parser Unit := do
  if (← get).replaced.isEmpty then return
  blanks (n + 1)
  let i ← get
  if i.replaced.any (·.next = some i.chars.length) then replaceAlias n

/-- Refuses what comes next. -/
def unexpected {α : Type} (n : Nat) (wanted : Option String) : Parser α := do
  let found ← look n
  let d := (← get).dialect
  if found = .newline && d = .posix then drop 1
  fail (.unexpected (found.describe d) (wanted.map fun w => '"' :: w.toList ++ ['"']))

/-- Takes a keyword or operator that has to come next. -/
def expect (n : Nat) (text : String) : Parser Unit := do
  match ← look n with
  | .operator found | .keyword found =>
    if found = text then drop text.length else unexpected n (some text)
  | _ => unexpected n (some text)

/-! ## Words -/

/-- Where a word is read. -/
inductive Place where
  | bare
  | quoted
  | braced (inQuotes : Bool)
  /-- Between the slashes of a replacement. -/
  | replaced (inQuotes : Bool)
  | document
  /-- In an expression, perhaps one that a semicolon ends; the number counts open parentheses. -/
  | expression (clause : Bool) (depth : Nat)
  /-- Between brackets that hold an expression; the number counts open ones. -/
  | index (depth : Nat)
  /-- A pattern to the right of an operator between double brackets. -/
  | condition
  /-- In a group of patterns. -/
  | group
deriving DecidableEq

namespace Place

/-- Whether what stands here is quoted. -/
def isQuoted : Place → Bool
  | bare | condition | index _ | group => false
  | quoted | document | expression _ _ => true
  | braced inQuotes | replaced inQuotes => inQuotes

/-- Whether a character ends the word. -/
def ends : Place → Char → Bool
  | bare, c => isMeta c
  | quoted, c => c == '"'
  | braced _, c => c == '}'
  | replaced _, c => c == '}' || c == '/'
  | document, _ => false
  | expression clause _, c => clause && c == ';'
  | index depth, c => depth == 0 && c == ']'
  | condition, c => c == ' ' || c == '\t' || c == '\n' || c == ';'
  | group, c => c == ')'

/-- Whether a backslash in front of a character is dropped, in quotes. -/
def escapes : Place → Char → Bool
  | document, c => "$\x60\\".toList.contains c
  | braced _, c | replaced _, c => "$\x60\"\\\x7d".toList.contains c
  | _, c => "$\x60\"\\".toList.contains c

end Place

/-- The name of a parameter after a dollar sign. -/
def paramName? (chars : Text) : Option Text :=
  match chars with
  | c :: _ =>
    if c.isDigit || "#*@?$!-".toList.contains c then some [c]
    else
      let name := chars.takeWhile Text.isNameChar
      if Text.isName name then some name else none
  | [] => none

/-- The name of a parameter between braces. -/
def bracedName? (chars : Text) : Option Text :=
  match chars with
  | c :: _ => if c.isDigit then some (chars.takeWhile Char.isDigit) else paramName? chars
  | [] => none

/-- Whether the closing brace comes next. -/
def seesBrace : Parser Bool := return (← peek) == some '}'

/-- Takes a character that may come next, as a word. -/
def takeFirst (c : Char) : Parser Word := do
  if (← peek) == some c then
    drop 1
    return [.text [c] false]
  else return []

def closeBrace : Parser Unit := do
  if ← seesBrace then drop 1 else fail .missingBrace

/-- The rule after a parameter's name, and whether it is for an empty parameter too. -/
def rule : Parser (Rule × Bool) := do
  let i ← get
  let bash := i.dialect = .bash
  match i.chars with
  | ':' :: '-' :: _ => drop 2; return (.default, true)
  | ':' :: '=' :: _ => drop 2; return (.assign, true)
  | ':' :: '+' :: _ => drop 2; return (.alternative, true)
  | ':' :: '?' :: _ => drop 2; return (.demand, true)
  | '-' :: _ => drop 1; return (.default, false)
  | '=' :: _ => drop 1; return (.assign, false)
  | '+' :: _ => drop 1; return (.alternative, false)
  | '?' :: _ => drop 1; return (.demand, false)
  | '#' :: '#' :: _ => drop 2; return (.dropStart true, false)
  | '#' :: _ => drop 1; return (.dropStart false, false)
  | '%' :: '%' :: _ => drop 2; return (.dropEnd true, false)
  | '%' :: _ => drop 1; return (.dropEnd false, false)
  | ':' :: _ => if bash then drop 1; return (.slice, false) else return (.unknown, false)
  | '/' :: '/' :: _ => if bash then drop 2; return (.replace true, false) else return (.unknown, false)
  | '/' :: _ => if bash then drop 1; return (.replace false, false) else return (.unknown, false)
  | '^' :: '^' :: _ =>
    if bash then drop 2; return (.recase .upper true, false) else return (.unknown, false)
  | '^' :: _ => if bash then drop 1; return (.recase .upper false, false) else return (.unknown, false)
  | ',' :: ',' :: _ =>
    if bash then drop 2; return (.recase .lower true, false) else return (.unknown, false)
  | ',' :: _ => if bash then drop 1; return (.recase .lower false, false) else return (.unknown, false)
  | '~' :: '~' :: _ =>
    if bash then drop 2; return (.recase .other true, false) else return (.unknown, false)
  | '~' :: _ => if bash then drop 1; return (.recase .other false, false) else return (.unknown, false)
  | '@' :: c :: _ => if bash then drop 2; return (.form c, false) else return (.unknown, false)
  | _ => return (.unknown, false)

/-- The text between backquotes: a backslash in front of a backquote, a dollar sign or another backslash
is dropped, in quotes also one in front of a double quote. The closing backquote is taken. -/
def backquoted (inQuotes : Bool) : Nat → Parser Text
  | 0 => fail .tooDeep
  | n + 1 => do
    match ← peek with
    | none => fail .unterminatedCommand
    | some '\x60' =>
      drop 1
      return []
    | some '\\' =>
      drop 1
      match ← peek with
      | none => fail .unterminatedCommand
      | some '\n' => drop 1; backquoted inQuotes n
      | some c =>
        drop 1
        let rest ← backquoted inQuotes n
        if "$\x60\\".toList.contains c || (inQuotes && c = '"') then return c :: rest
        else return '\\' :: c :: rest
    | some c =>
      drop 1
      return c :: (← backquoted inQuotes n)

/-- The rest of a quote with a dollar sign. -/
def dollarQuoted : Nat → Parser Text
  | 0 => fail .tooDeep
  | n + 1 => do
    match ← peek with
    | none => fail .unterminatedQuote
    | some '\'' =>
      drop 1
      return []
    | some '\\' =>
      drop 1
      let (text, length) := Escape.inDollarQuote (← get).chars
      drop length
      return text ++ (← dollarQuoted n)
    | some c =>
      drop 1
      return c :: (← dollarQuoted n)

/-- Takes a document's lines up to its delimiter or the end of the script. -/
def documentLines (a : Announced) : Nat → Parser Text
  | 0 => fail .tooDeep
  | n + 1 => do
    if (← get).chars.isEmpty then return []
    else
      if a.indented then
        let _ ← takeWhile (· = '\t')
      let line ← takeWhile (· ≠ '\n')
      let ended ← sees "\n"
      drop 1
      if line = a.delimiter then return []
      else if ended then return line ++ '\n' :: (← documentLines a n)
      else return line

/-- Announces a document and gives its number. -/
def announce (delimiter : Text) (indented verbatim : Bool) : Parser Nat := do
  let number := (← get).next
  modify fun i =>
    { i with
      next := number + 1
      announced := i.announced ++ [⟨number, delimiter, indented, verbatim⟩] }
  return number

/-- The text of a word as it is written, its quotes removed, and whether there were any. -/
def delimiterOf : Word → Text × Bool
  | [] => ([], false)
  | .text t quoted :: rest =>
    let (text, any) := delimiterOf rest
    (t ++ text, quoted || any)
  | .param name _ _ _ _ _ _ :: rest =>
    let (text, any) := delimiterOf rest
    ('$' :: name ++ text, any)
  | _ :: rest => delimiterOf rest

/-- The descriptor a redirection names in front of its operator. -/
def descriptor (otherwise : Nat) (digits : Text) : Nat :=
  if digits.isEmpty then otherwise else Text.number digits

/-- Names of commands that no function may have. -/
def reserved : List String :=
  [".", ":", "break", "continue", "eval", "exec", "exit", "export", "readonly", "return", "set",
    "shift", "times", "trap", "unset"]

/-- The operators between double brackets that stand between two words. -/
def comparisons : List String :=
  ["==", "=", "!=", "=~", "<", ">", "-eq", "-ne", "-lt", "-le", "-gt", "-ge", "-nt", "-ot", "-ef"]

/-- The commands whose arguments may give variables several values. -/
def declarations : List String := ["declare", "typeset", "local", "readonly", "export"]

/-- Whether a word is an option by which variables must not be changed any longer. -/
def fixes (word : Word) : Bool :=
  match Word.plain? word with
  | some ('-' :: letters) => letters.contains 'r'
  | _ => false

/-- What is left of a word without the letter for variables that must not be changed any longer, if it is an
option. -/
def withoutFixing? (word : Word) : Option Word :=
  match Word.plain? word with
  | some ('-' :: letters) =>
    let kept := letters.filter (· ≠ 'r')
    if kept.isEmpty then none else some [.text ('-' :: kept) false]
  | _ => some word

/-- Whether what comes next gives a variable several values: its name, and whether those before are kept. -/
def rowAhead? (chars : Text) : Option (Text × Bool) :=
  let name := chars.takeWhile Text.isNameChar
  let after := chars.drop name.length
  if !Text.isName name then none
  else if "=(".toList.isPrefixOf after then some (name, false)
  else if "+=(".toList.isPrefixOf after then some (name, true)
  else none

/-- Reads something if it can be read, and nothing otherwise. -/
def attempt {α : Type} (reader : Parser α) : Parser (Option α) := fun i =>
  match reader i with
  | .ok (a, rest) => .ok (some a, rest)
  | .error _ => .ok (none, i)

/-- Whether double quotes stand for themselves. -/
def keepsQuotes (place : Place) : Parser Bool := do
  match place with
  | .document => return true
  | .expression _ _ => speaks .posix
  | _ => return false

mutual

/-- The parts of a word up to its end. -/
def parts : Nat → Place → Parser Word
  | 0, _ => fail .tooDeep
  | n + 1, place => do
    match ← peek with
    | none =>
      match place with
      | .bare | .document | .condition => return []
      | .quoted => fail .unterminatedQuote
      | .braced _ | .replaced _ | .index _ | .group => fail .missingBrace
      | .expression _ _ => fail .missingParentheses
    | some c =>
      if place = .bare && ((← sees "<(") || (← sees ">(")) && (← speaks .bash) then
        drop 2
        let script ← list n true
        expect n ")"
        return .file (c = '>') script :: (← parts n place)
      else if place.ends c then return []
      else if (place = .bare || place = .group) && "?*+@!".toList.contains c && (← get).groups
          && (← get).chars[1]? = some '(' then
        drop 2
        let inner ← parts n .group
        drop 1
        return [.text [c] false, .text ['('] false] ++ inner ++ .text [')'] false :: (← parts n place)
      else if c = '\\' then
        drop 1
        match ← peek with
        | none => return [.text ['\\'] true]
        | some d =>
          drop 1
          if d = '\n' then parts n place
          else if place.isQuoted && !place.escapes d then
            return .text ['\\', d] true :: (← parts n place)
          else return .text [d] true :: (← parts n place)
      else if c = '\'' && !place.isQuoted then
        drop 1
        let text ← takeWhile (· != '\'')
        if ← sees "'" then drop 1 else fail .unterminatedQuote
        return .text text true :: (← parts n place)
      else if c = '"' && !(← keepsQuotes place) then
        drop 1
        match place with
        | .expression _ _ => parts n place
        | _ =>
          let inner ← parts n .quoted
          if ← sees "\"" then drop 1 else fail .unterminatedQuote
          let inner := if inner.isEmpty then [.text [] true] else inner
          return inner ++ (← parts n place)
      else if c = '$' then
        drop 1
        if (← sees "'") && !place.isQuoted && (← speaks .bash) then
          drop 1
          let text := (← dollarQuoted n).takeWhile (· ≠ '\x00')
          return .text text true :: (← parts n place)
        else if (← sees "\"") && !place.isQuoted && (← speaks .bash) then parts n place
        else
          let part ← dollar n place
          return part :: (← parts n place)
      else if c = '\x60' then
        drop 1
        let text ← backquoted (place = .quoted) n
        let script ← within n text
        return .output script place.isQuoted :: (← parts n place)
      else
        match place, c with
        | .expression clause depth, '(' =>
          drop 1
          return .text [c] true :: (← parts n (.expression clause (depth + 1)))
        | .expression _ 0, ')' =>
          if ← sees "))" then return []
          else if ← speaks .bash then fail .missingParentheses
          else
            drop 1
            return .text [c] true :: (← parts n place)
        | .expression clause (depth + 1), ')' =>
          drop 1
          return .text [c] true :: (← parts n (.expression clause depth))
        | .index depth, '[' =>
          drop 1
          return .text [c] false :: (← parts n (.index (depth + 1)))
        | .index depth, ']' =>
          drop 1
          return .text [c] false :: (← parts n (.index (depth - 1)))
        | _, _ =>
          drop 1
          return .text [c] place.isQuoted :: (← parts n place)

/-- A word outside quotes; a tilde at its start stands for a home directory. -/
def word : Nat → Parser Word
  | 0 => fail .tooDeep
  | n + 1 => do
    let parts ← parts n .bare
    let d := (← get).dialect
    return Word.withTilde d false parts

/-- What a dollar sign introduces. -/
def dollar : Nat → Place → Parser Part
  | 0, _ => fail .tooDeep
  | n + 1, place => do
    continued (n + 1)
    let quoted := place.isQuoted
    let commands : Parser Part := do
      drop 1
      let script ← list n true
      expect n ")"
      return .output script quoted
    if ← sees "((" then
      let i ← get
      let bash ← speaks .bash
      let read : Parser Word := do
        drop 2
        let expression ← parts n (.expression false 0)
        drop 2
        return expression
      match read i with
      | .ok (expression, rest) =>
        set rest
        return .arithmetic expression quoted
      | .error fault => if bash && fault.1 = .missingParentheses then commands else throw fault
    else if ← sees "(" then commands
    else if (← sees "[") && (← speaks .bash) then
      drop 1
      let expression ← parts n (.index 0)
      drop 1
      return .arithmetic expression quoted
    else if ← sees "\x7b" then
      drop 1
      braced n quoted
    else
      match paramName? (← get).chars with
      | some name =>
        drop name.length
        return .ofName name quoted
      | none => return .text ['$'] quoted

/-- A place between brackets, if there is one. -/
def subscript : Nat → Parser (Option Word)
  | 0 => fail .tooDeep
  | n + 1 => do
    if (← speaks .bash) && (← sees "[") then
      drop 1
      let place ← parts n (.index 0)
      drop 1
      return some place
    else return none

/-- A parameter between braces, after the opening one. -/
def braced : Nat → Bool → Parser Part
  | 0, _ => fail .tooDeep
  | n + 1, quoted => do
    let chars := (← get).chars
    let bash ← speaks .bash
    let opens (name rest : Text) : Bool := bash && Text.isName name && rest[name.length]? = some '['
    let counted := match chars with
      | '#' :: rest => (bracedName? rest).filter fun (name : Text) =>
          rest[name.length]? = some '\x7d' || opens name rest
      | _ => none
    let named := match chars with
      | '!' :: rest => if bash then (bracedName? rest).filter fun (name : Text) =>
          Text.isName name || name.all Char.isDigit || name = ['#'] else none
      | _ => none
    match counted, named with
    | some name, _ =>
      drop (name.length + 1)
      let place ← subscript n
      closeBrace
      return .param name place .length false [] [] quoted
    | none, some name =>
      drop (name.length + 1)
      if (← sees "*\x7d") || (← sees "@\x7d") then
        let all := (← get).chars.take 1
        drop 2
        return .param name (some [.text all false]) .named false [] [] quoted
      else
        let place ← subscript n
        closeBrace
        let isAll := match place with
          | some [.text ['@'] false] | some [.text ['*'] false] => true
          | _ => false
        return .param name place (if isAll then .places else .indirect) false [] [] quoted
    | none, none =>
      match bracedName? chars with
      | none =>
        let word ← parts n (.braced quoted)
        closeBrace
        return .param [] none .unknown false word [] quoted
      | some name =>
        drop name.length
        let place ← if Text.isName name then subscript n else pure none
        if ← seesBrace then
          drop 1
          return .param name place .plain false [] [] quoted
        else
          let (r, orEmpty) ← rule
          match r with
          | .dropStart _ | .dropEnd _ =>
            let word ← parts n (.braced false)
            closeBrace
            return .param name place r orEmpty word [] quoted
          | .replace _ =>
            /- a slash at the pattern's start belongs to it -/
            let begun ← takeFirst '/'
            let word := begun ++ (← parts n (.replaced false))
            if ← sees "/" then
              drop 1
              let second ← parts n (.braced false)
              closeBrace
              let d := (← get).dialect
              return .param name place r orEmpty word (Word.withTilde d false second) quoted
            else
              closeBrace
              return .param name place r orEmpty word [] quoted
          | _ =>
            let word ← parts n (.braced quoted)
            closeBrace
            let d := (← get).dialect
            let word := if quoted then word else Word.withTilde d false word
            return .param name place r orEmpty word [] quoted

/-- A whole text as a script, in the middle of another one. -/
def within : Nat → Text → Parser Script
  | 0, _ => fail .tooDeep
  | n + 1, text => do
    let i ← get
    set { i with chars := text, announced := [], replaced := [] }
    let script ← list n true
    match ← look n with
    | .done => pure ()
    | _ => unexpected n none
    modify fun j => { j with chars := i.chars, line := i.line, announced := i.announced, replaced := i.replaced }
    return script

/-- Reads the documents that were announced before a line end. -/
def readDocuments : Nat → Parser Unit
  | 0 => fail .tooDeep
  | n + 1 => do
    match (← get).announced with
    | [] => pure ()
    | a :: rest =>
      modify fun i => { i with announced := rest }
      let text ← documentLines a (n + 1)
      let word ← if a.verbatim then pure [.text text true]
        else
          let i ← get
          set { i with chars := text }
          let word ← parts n .document
          modify fun j => { j with chars := i.chars, line := i.line }
          pure word
      modify fun i => { i with documents := i.documents ++ [(a.number, word)] }
      readDocuments n

/-- Takes a line end, and the documents below it. -/
def newline : Nat → Parser Unit
  | 0 => fail .tooDeep
  | n + 1 => do
    drop 1
    readDocuments n

/-- Skips blanks, comments and line ends. -/
def lineEnds : Nat → Parser Unit
  | 0 => fail .tooDeep
  | n + 1 => do
    match ← look n with
    | .newline =>
      newline n
      lineEnds n
    | _ => pure ()

/-- A word after a redirection's operator. -/
def target : Nat → Parser Word
  | 0 => fail .tooDeep
  | n + 1 => do
    match ← look n with
    | .word _ | .keyword _ => word n
    | _ => unexpected n none

/-- A redirection. -/
def redirection : Nat → Parser Redirection
  | 0 => fail .tooDeep
  | n + 1 => do
    let before ← get
    match if before.dialect = .bash then namedDescriptor? before.chars else none with
    | some name =>
      drop (name.length + 2)
      return .named name (← redirection n)
    | none => pure ()
    let digits ← takeWhile Char.isDigit
    let i ← get
    let bash := i.dialect = .bash
    let duplicate (number : Nat) : Parser Redirection := do
      let word ← target n
      let isGood := match word with
        | [.text ['-'] _] => true
        | _ =>
          word.any (fun part => match part with
            | .text _ _ => false
            | _ => true)
            || (match Word.plain? word with
              | some text => text.all Char.isDigit && text.length = 1
              | none => false)
      if isGood then return .duplicate number word
      else if bash && number = 1 && digits.isEmpty then return .both false word
      else return .duplicate number word
    match i.chars with
    | '&' :: '>' :: '>' :: _ =>
      drop 3
      return .both true (← target n)
    | '&' :: '>' :: _ =>
      drop 2
      return .both false (← target n)
    | '>' :: '>' :: _ =>
      drop 2
      return .file (descriptor 1 digits) .append (← target n)
    | '>' :: '&' :: _ =>
      drop 2
      duplicate (descriptor 1 digits)
    | '>' :: '|' :: _ =>
      drop 2
      return .file (descriptor 1 digits) .clobber (← target n)
    | '>' :: _ =>
      drop 1
      return .file (descriptor 1 digits) .truncate (← target n)
    | '<' :: '<' :: '<' :: _ =>
      if bash then
        drop 3
        return .word (descriptor 0 digits) (← target n)
      else
        drop 2
        unexpected n none
    | '<' :: '<' :: rest =>
      let indented := rest.head? = some '-'
      drop (if indented then 3 else 2)
      let (delimiter, verbatim) := delimiterOf (← target n)
      return .document (descriptor 0 digits) (← announce delimiter indented verbatim)
    | '<' :: '&' :: _ =>
      drop 2
      duplicate (descriptor 0 digits)
    | '<' :: '>' :: _ =>
      drop 2
      return .file (descriptor 0 digits) .readWrite (← target n)
    | _ =>
      drop 1
      return .file (descriptor 0 digits) .read (← target n)

/-- The redirections after a compound command. -/
def redirections : Nat → Parser (List Redirection)
  | 0 => fail .tooDeep
  | n + 1 => do
    match ← look n with
    | .redirection =>
      let r ← redirection n
      return r :: (← redirections n)
    | _ => return []

/-- A compound command with the redirections after it. -/
def redirected : Nat → Nat → Script → Parser Script
  | 0, _, _ => fail .tooDeep
  | n + 1, line, body => do
    let rs ← redirections n
    return if rs.isEmpty then body else .redirect line body rs

/-- The items between the parentheses of several values, up to the closing one. -/
def rowItems : Nat → Parser (List (Option Word × Word))
  | 0 => fail .tooDeep
  | n + 1 => do
    lineEnds n
    match ← look n with
    | .operator ")" =>
      drop 1
      return []
    | .word _ | .keyword _ =>
      let placed ← attempt (do
        match ← subscript n with
        | some place => if ← sees "=" then drop 1; return place else fail .missingBrace
        | none => fail .missingBrace)
      let value ← word n
      return (placed, value) :: (← rowItems n)
    | _ => unexpected n none

/-- The place and the value after a variable's name, and whether the value is added to the one before. -/
def placedValue : Nat → Parser (Option Word × Bool)
  | 0 => fail .tooDeep
  | n + 1 => do
    let place ← subscript n
    if ← sees "+=" then
      if ← speaks .posix then fail .missingBrace
      drop 2
      return (place, true)
    else if ← sees "=" then
      drop 1
      return (place, false)
    else fail .missingBrace

/-- The words, assignments and redirections of a simple command, or the function it defines. `rows` are
several values that its arguments give variables. -/
def simple : Nat → Nat → List Assignment → List Word → List Assignment → List Redirection → Parser Script
  | 0, _, _, _, _, _ => fail .tooDeep
  | n + 1, line, assignments, words, rows, rs => do
    let finish : Parser Script := do
      let plain : Script := .simple line assignments words rs
      let given : Script := .simple line rows [] []
      /- a variable that must not be changed any longer is marked so when it has its values -/
      let fixing := "readonly".toList
      if rows.isEmpty then return plain
      else if words.head?.bind Word.plain? = some fixing then return .seq given plain
      else if words.any fixes then
        let fixed : List Word := rows.map fun row => [.text row.name false]
        return .seq (.seq (.simple line assignments (words.filterMap withoutFixing?) rs) given)
          (.simple line [] ([.text fixing false] :: fixed) [])
      else return .seq plain given
    let more : Parser Script := do
      let chars := (← get).chars
      let bash ← speaks .bash
      let name := chars.takeWhile Text.isNameChar
      let declares := words.isEmpty ||
        (words.head?.bind Word.plain?).any fun w => declarations.contains (String.ofList w)
      match if bash && declares then rowAhead? chars else none with
      | some (name, adds) =>
        drop (name.length + (if adds then 3 else 2))
        let row : Assignment := .row name adds (← rowItems n)
        if words.isEmpty then simple n line (assignments ++ [row]) words rows rs
        else simple n line assignments (words ++ [[.text name false]]) (rows ++ [row]) rs
      | none =>
        let placed ← if words.isEmpty && Text.isName name then
            attempt (do
              drop name.length
              placedValue n)
          else pure none
        match placed with
        | some (place, adds) =>
          let value ← parts n .bare
          let value := Word.withTildes (← get).dialect value
          simple n line (assignments ++ [.single name place adds value]) words rows rs
        | none =>
          let word ← word n
          let word := match if bash then Word.declared? .bash word else none with
            | some (name, value) => .text name false :: .text ['='] false :: value
            | none => word
          simple n line assignments (words ++ [word]) rows rs
    if words.isEmpty then replaceAlias n else replaceNextAlias n
    match ← look n with
    | .redirection =>
      let r ← redirection n
      simple n line assignments words rows (rs ++ [r])
    | .word _ | .keyword _ => more
    | .operator "(" =>
      match assignments, words, rs with
      | [], [word], [] =>
        drop 1
        expect n ")"
        match Word.plain? word with
        | some name =>
          let bash ← speaks .bash
          if bash || (Text.isName name && !reserved.contains (String.ofList name)) then
            lineEnds n
            match ← look n with
            | .word _ | .redirection => if bash then unexpected n none
            | _ => pure ()
            return ← definition n name
          else fail .badFunctionName
        | none => fail .badFunctionName
      | _, _, _ => finish
    | _ => finish

/-- A function's body, which gets a name. -/
def definition : Nat → Text → Parser Script
  | 0, _ => fail .tooDeep
  | n + 1, name => do
    let before := (← get).chars
    let body ← command n
    return .define name body (before.take (before.length - (← get).chars.length))

/-- One command. -/
def command : Nat → Parser Script
  | 0 => fail .tooDeep
  | n + 1 => do
    replaceAlias n
    match ← look n with
    | .word _ | .redirection => simple n (← get).line [] [] [] []
    | .operator "(" =>
      let line := (← get).line
      if (← sees "((") && (← speaks .bash) then
        drop 2
        let expression ← parts n (.expression false 0)
        drop 2
        redirected n line (.compute line expression)
      else
        drop 1
        let body ← list n false
        expect n ")"
        redirected n line (.subshell body)
    | .keyword word =>
      let line := (← get).line
      match word with
      | "if" =>
        drop 2
        redirected n line (← condition n)
      | "while" | "until" =>
        drop 5
        let test ← list n false
        expect n "do"
        let body ← list n false
        expect n "done"
        redirected n line (.cycle (word = "while") test body)
      | "for" =>
        drop 3
        blanks n
        if (← sees "((") && (← speaks .bash) then redirected n line (← countedLoop n line)
        else
          let (name, items, body) ← eachLoop n
          redirected n line (.each line name items body)
      | "select" =>
        drop 6
        let (name, items, body) ← eachLoop n
        redirected n line (.menu line name items body)
      | "case" =>
        drop 4
        let subject ← target n
        lineEnds n
        expect n "in"
        redirected n line (.case line subject (← arms n))
      | "\x7b" =>
        drop 1
        let body ← list n false
        expect n "\x7d"
        redirected n line body
      | "[[" =>
        drop 2
        let test ← anyOf n
        expectWord n "]]"
        redirected n line (.check line test)
      | "function" =>
        drop 8
        blanks n
        let name ← takeWhile (!isMeta ·)
        if (← look n) = .operator "(" then
          drop 1
          expect n ")"
        lineEnds n
        definition n name
      | "time" =>
        drop 4
        if (← look n) = .word "-p".toList then drop 2
        command n
      | _ => unexpected n none
    | _ => unexpected n none

/-- A word that has to come next. -/
def expectWord : Nat → String → Parser Unit
  | 0, _ => fail .tooDeep
  | n + 1, text => do
    lineEnds n
    match ← look n with
    | .word found => if found = text.toList then drop found.length else unexpected n none
    | _ => unexpected n none

/-- The variable, the values and the body of a loop over values, after its keyword. -/
def eachLoop : Nat → Parser (Text × List Word × Script)
  | 0 => fail .tooDeep
  | n + 1 => do
    let name ← match ← look n with
      | .word raw => pure raw
      | .keyword raw => pure raw.toList
      | _ => fail .badLoopVariable
    if !Text.isName name && (← speaks .posix) then fail .badLoopVariable
    drop name.length
    lineEnds n
    let items ← if (← look n) = .keyword "in" then do
        drop 2
        let words ← wordList n
        match ← look n with
        | .operator ";" => drop 1
        | .newline => pure ()
        | _ => unexpected n none
        pure words
      else do
        if (← look n) = .operator ";" then drop 1
        pure [[.ofName ['@'] true]]
    lineEnds n
    expect n "do"
    let body ← list n false
    expect n "done"
    return (name, items, body)

/-- A loop with expressions, after its keyword. -/
def countedLoop : Nat → Nat → Parser Script
  | 0, _ => fail .tooDeep
  | n + 1, line => do
    drop 2
    let start ← parts n (.expression true 0)
    if ← sees ";" then drop 1 else unexpected n none
    let check ← parts n (.expression true 0)
    if ← sees ";" then drop 1 else unexpected n none
    let step ← parts n (.expression false 0)
    drop 2
    if (← look n) = .operator ";" then drop 1
    lineEnds n
    if (← look n) = .keyword "\x7b" then
      drop 1
      let body ← list n false
      expect n "\x7d"
      return .counted line start check step body
    else
      expect n "do"
      let body ← list n false
      expect n "done"
      return .counted line start check step body

/-- The words up to the end of a line or command. -/
def wordList : Nat → Parser (List Word)
  | 0 => fail .tooDeep
  | n + 1 => do
    match ← look n with
    | .word _ | .keyword _ =>
      let word ← word n
      return word :: (← wordList n)
    | _ => return []

/-- A condition after `if` or `elif`, up to its `fi`. -/
def condition : Nat → Parser Script
  | 0 => fail .tooDeep
  | n + 1 => do
    let test ← list n false
    expect n "then"
    let yes ← list n false
    match ← look n with
    | .keyword "elif" =>
      drop 4
      return .choose test yes (← condition n)
    | .keyword "else" =>
      drop 4
      let no ← list n false
      expect n "fi"
      return .choose test yes no
    | _ =>
      expect n "fi"
      return .choose test yes .skip

/-- The patterns of an arm of a choice. -/
def patterns : Nat → Parser (List Word)
  | 0 => fail .tooDeep
  | n + 1 => do
    let pattern ← match ← look n with
      | .word _ | .keyword _ => word n
      | _ => unexpected n none
    if (← look n) = .operator "|" then
      drop 1
      return pattern :: (← patterns n)
    else
      expect n ")"
      return [pattern]

/-- The arms of a choice, up to its `esac`. -/
def arms : Nat → Parser (List (List Word × Script × AfterArm))
  | 0 => fail .tooDeep
  | n + 1 => do
    lineEnds n
    match ← look n with
    | .keyword "esac" =>
      drop 4
      return []
    | .done => unexpected n (some ")")
    | found =>
      if found = .operator "(" then drop 1
      let choice ← patterns n
      let body ← list n true
      match ← look n with
      | .keyword "esac" =>
        drop 4
        return [(choice, body, .stop)]
      | .operator ";&" =>
        drop 2
        return (choice, body, .next) :: (← arms n)
      | .operator ";;&" =>
        drop 3
        return (choice, body, .other) :: (← arms n)
      | _ =>
        expect n ";;"
        return (choice, body, .stop) :: (← arms n)

/-- Conditions between double brackets, one of which has to hold. -/
def anyOf : Nat → Parser Condition
  | 0 => fail .tooDeep
  | n + 1 => do
    let first ← allOf n
    lineEnds n
    if (← look n) = .operator "||" then
      drop 2
      return .either first (← anyOf n)
    else return first

/-- Conditions between double brackets, all of which have to hold. -/
def allOf : Nat → Parser Condition
  | 0 => fail .tooDeep
  | n + 1 => do
    let first ← oneCondition n
    lineEnds n
    if (← look n) = .operator "&&" then
      drop 2
      return .both first (← allOf n)
    else return first

/-- One condition between double brackets. -/
def oneCondition : Nat → Parser Condition
  | 0 => fail .tooDeep
  | n + 1 => do
    lineEnds n
    match ← look n with
    | .keyword "!" =>
      drop 1
      return .negate (← oneCondition n)
    | .operator "(" =>
      drop 1
      let inner ← anyOf n
      lineEnds n
      expect n ")"
      return inner
    | .word raw =>
      let isUnary := match raw with
        | ['-', c] => c.isAlpha
        | _ => false
      let x ← word n
      match ← look n with
      | .word next =>
        if comparisons.contains (String.ofList next) then
          drop next.length
          blanks n
          let groups := (← get).groups
          modify fun i => { i with groups := true }
          let y ← parts n (if next = "=~".toList then .condition else .bare)
          modify fun i => { i with groups }
          return .binary x next y
        else if isUnary && next ≠ "]]".toList then return .unary raw (← word n)
        else return .unary "-n".toList x
      | .redirection =>
        let operator ← takeWhile fun c => c = '<' || c = '>'
        blanks n
        return .binary x operator (← word n)
      | _ => return .unary "-n".toList x
    | _ => unexpected n none

/-- A pipeline, perhaps with its status reversed. -/
def pipeline : Nat → Parser Script
  | 0 => fail .tooDeep
  | n + 1 => do
    if (← look n) = .keyword "!" then
      drop 1
      if ← speaks .bash then
        match ← look n with
        | .newline | .done | .operator ";" => return .negate (.simple (← get).line [] [] [])
        | _ => return .negate (← pipeline n)
      else return .negate (← stages n)
    else stages n

/-- Commands joined by pipes. -/
def stages : Nat → Parser Script
  | 0 => fail .tooDeep
  | n + 1 => do
    let first ← command n
    let all ← moreStages n first
    return match all with
      | [only] => only
      | _ => .pipe all

/-- A command and those it is piped to. -/
def moreStages : Nat → Script → Parser (List Script)
  | 0, _ => fail .tooDeep
  | n + 1, first => do
    let after (length : Nat) (first : Script) : Parser (List Script) := do
      drop length
      lineEnds n
      return first :: (← moreStages n (← command n))
    match ← look n with
    | .operator "|" => after 1 first
    | .operator "|&" =>
      let merge : Redirection := .duplicate 2 [.text ['1'] true]
      after 2 (match first with
        | .simple line assignments words rs => .simple line assignments words (rs ++ [merge])
        | other => .redirect 0 other [merge])
    | _ => return [first]

/-- Pipelines joined by `&&` and `||`. -/
def joined : Nat → Script → Parser Script
  | 0, _ => fail .tooDeep
  | n + 1, first => do
    match ← look n with
    | .operator "&&" =>
      drop 2
      lineEnds n
      joined n (.both first (← pipeline n))
    | .operator "||" =>
      drop 2
      lineEnds n
      joined n (.either first (← pipeline n))
    | _ => return first

/-- A list of commands up to what cannot go on; `mayEnd` says whether it may be empty. -/
def list : Nat → Bool → Parser Script
  | 0, _ => fail .tooDeep
  | n + 1, mayEnd => do
    lineEnds n
    replaceAlias n
    lineEnds n
    let found ← look n
    if found = .done then
      readDocuments n
      return .skip
    else if mayEnd && found.isEnder then return .skip
    else
      let first ← joined n (← pipeline n)
      match ← look n with
      | .operator ";" =>
        drop 1
        return .seq first (← list n true)
      | .operator "&" =>
        drop 1
        return .seq (.background first) (← list n true)
      | .newline => return .seq first (← list n true)
      | .done =>
        readDocuments n
        return first
      | _ => return first

end

/-- The commands up to the end of a line, or `none` at the end of the script. `before` is what was read of
the line already. -/
def topLine : Nat → Option Script → Parser (Option Script)
  | 0, _ => fail .tooDeep
  | n + 1, before => do
    let add (next : Script) : Option Script :=
      some (match before with
        | some script => .seq script next
        | none => next)
    replaceAlias n
    match ← look n with
    | .newline =>
      newline n
      return some (before.getD .skip)
    | .done =>
      readDocuments n
      return before
    | _ =>
      let next ← joined n (← pipeline n)
      match ← look n with
      | .operator ";" =>
        drop 1
        topLine n (add next)
      | .operator "&" =>
        drop 1
        topLine n (add (.background next))
      | .newline | .done => topLine n (add next)
      | _ => unexpected n none

end Parser

/-- A bound on the recursion of reading a text. Every alias may stand for the texts of all others. -/
def Input.bound (i : Input) : Nat :=
  let total := i.aliases.foldl (fun n a => n + a.2.length) 0
  (8 * i.chars.length + 64) * ((1 + total) * (1 + total))

/-- A script to be read from its beginning; the number is that of its first document. -/
def Input.start (d : Dialect) (text : Text) (next : Nat) : Input := ⟨text, 1, d, [], [], next, [], [], false⟩

/-- Reads the commands up to the end of a line, if there are any, and what is left. -/
def Input.readLine (i : Input) : Except (ScriptFault × Nat) (Option Script × Input) :=
  (Parser.topLine i.bound none).run i

namespace ScriptFault

/-- What a shell says of a fault. -/
def describe (d : Dialect) : ScriptFault → Text
  | unexpected found wanted =>
    match d with
    | .posix =>
      found ++ " unexpected".toList
        ++ ((wanted.map fun w => " (expecting ".toList ++ w ++ [')']).getD [])
    | .bash =>
      if found = "end of file".toList then "unexpected end of file".toList
      else "near unexpected token \x60".toList ++ found ++ ['\'']
  | unterminatedQuote => "Unterminated quoted string".toList
  | unterminatedCommand => "EOF in backquote substitution".toList
  | missingBrace => "Missing '\x7d'".toList
  | missingParentheses => "Missing '))'".toList
  | badFunctionName => "Bad function name".toList
  | badLoopVariable => "Bad for loop variable".toList
  | tooDeep => "too deep".toList

end ScriptFault

end StubRelease.Shell

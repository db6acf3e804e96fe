/-
# StubRelease.Shell.Flags -- the options of commands

Options of the usual commands are single letters, which may stand together after one dash, and words after
two dashes, which may be shortened. An option may have an argument. What is no option is an operand; after
`--` everything is.
-/
import StubRelease.Shell.Process

namespace StubRelease.Shell

/-- Whether an option has an argument. -/
inductive Takes where
  | nothing
  | argument
  /-- An argument only if it is written together with the option. -/
  | attached
deriving DecidableEq, Repr

/-- An option: its key, which is its letter if it has one, and its words. -/
structure Flag where
  key : String
  words : List String
  takes : Takes
deriving Repr

namespace Flag

/-- An option without an argument. -/
def plain (key : String) (words : List String) : Flag := ⟨key, words, .nothing⟩

/-- An option with an argument. -/
def valued (key : String) (words : List String) : Flag := ⟨key, words, .argument⟩

/-- The options of letters without words. -/
def letters (text : String) : List Flag := text.toList.map fun c => plain (String.ofList [c]) []

end Flag

/-- Why options cannot be read. -/
inductive UsageFault where
  | invalid (letter : Char)
  | lacksArgument (letter : Char)
  | unrecognized (word : Text)
  | wordLacksArgument (word : Text)
  | wordTakesNone (word : Text)
  | ambiguous (word : Text)
deriving DecidableEq, Repr

namespace UsageFault

def describe : UsageFault → Text
  | invalid c => "invalid option -- '".toList ++ [c, '\'']
  | lacksArgument c => "option requires an argument -- '".toList ++ [c, '\'']
  | unrecognized w => "unrecognized option '".toList ++ w ++ ['\'']
  | wordLacksArgument w => "option '".toList ++ w ++ "' requires an argument".toList
  | wordTakesNone w => "option '".toList ++ w ++ "' doesn't allow an argument".toList
  | ambiguous w => "option '".toList ++ w ++ "' is ambiguous".toList

end UsageFault

/-- Options with their arguments in order, and operands. -/
structure Arguments where
  options : List (String × Text)
  operands : List Text

namespace Arguments

def has (a : Arguments) (key : String) : Bool := a.options.any (·.1 = key)

/-- The argument of the last option of a key. -/
def last? (a : Arguments) (key : String) : Option Text :=
  (a.options.reverse.find? (·.1 = key)).map (·.2)

/-- The arguments of all options of a key. -/
def all (a : Arguments) (key : String) : List Text := (a.options.filter (·.1 = key)).map (·.2)

/-- The last one of some keys. -/
def lastOf? (a : Arguments) (keys : List String) : Option String :=
  (a.options.reverse.find? fun o => keys.contains o.1).map (·.1)

/-- An option that is a word: its value may follow an `=`. -/
def readWord (flags : List Flag) (word : Text) (rest : List Text) :
    Except UsageFault ((String × Text) × List Text) :=
  let name := (word.drop 2).takeWhile (· ≠ '=')
  let value := if word.contains '=' then some (word.drop (name.length + 3)) else none
  let written := word.take (name.length + 2)
  let known (p : String → Bool) : List Flag := flags.filter fun f => f.words.any p
  let exact := known fun w => w.toList = name
  let begun := known fun w => name.isPrefixOf w.toList
  match (if exact.isEmpty then begun else exact) with
  | [] => .error (.unrecognized word)
  | f :: others =>
    if !others.isEmpty then .error (.ambiguous written)
    else
      match f.takes, value, rest with
      | .nothing, none, _ => .ok ((f.key, []), rest)
      | .nothing, some _, _ => .error (.wordTakesNone written)
      | .attached, value, _ => .ok ((f.key, value.getD []), rest)
      | .argument, some value, _ => .ok ((f.key, value), rest)
      | .argument, none, value :: rest => .ok ((f.key, value), rest)
      | .argument, none, [] => .error (.wordLacksArgument written)

/-- Options that are letters after one dash. -/
def readLetters (flags : List Flag) : Text → List Text →
    Except UsageFault (List (String × Text) × List Text)
  | [], rest => .ok ([], rest)
  | c :: more, rest =>
    match flags.find? fun f => f.key = String.ofList [c] with
    | none => .error (.invalid c)
    | some f =>
      match f.takes with
      | .nothing =>
        (readLetters flags more rest).map fun (options, rest) => ((f.key, []) :: options, rest)
      | .attached => .ok ([(f.key, more)], rest)
      | .argument =>
        if !more.isEmpty then .ok ([(f.key, more)], rest)
        else
          match rest with
          | value :: rest => .ok ([(f.key, value)], rest)
          | [] => .error (.lacksArgument c)

/-- Reads options and operands; `mixed` says whether options may follow operands. The number bounds the
steps. -/
def readFrom (flags : List Flag) (mixed : Bool) : Nat → List Text → Except UsageFault Arguments
  | 0, _ => .ok ⟨[], []⟩
  | _, [] => .ok ⟨[], []⟩
  | n + 1, word :: rest =>
    match word with
    | ['-', '-'] => .ok ⟨[], rest⟩
    | '-' :: '-' :: _ => do
      let (option, rest) ← readWord flags word rest
      let a ← readFrom flags mixed n rest
      return { a with options := option :: a.options }
    | '-' :: c :: letters => do
      let (options, rest) ← readLetters flags (c :: letters) rest
      let a ← readFrom flags mixed n rest
      return { a with options := options ++ a.options }
    | _ =>
      if mixed then do
        let a ← readFrom flags mixed n rest
        return { a with operands := word :: a.operands }
      else .ok ⟨[], word :: rest⟩

/-- Reads options and operands. -/
def read (flags : List Flag) (mixed : Bool) (args : List Text) : Except UsageFault Arguments :=
  readFrom flags mixed (args.length + 1) args

end Arguments

/-- A command: it is given the name it is called by and its arguments, and gives its status. -/
abbrev Command := Text → List Text → Act Nat

namespace Act

/-- The commands that compare files give their name with every message. -/
def namesItself (name : Text) : Bool :=
  ["cmp", "diff"].any fun known => known.toList.isSuffixOf name

/-- Points to a command's help. -/
def tryHelp (name : Text) : Act Unit :=
  complain ((if namesItself name then name ++ ": ".toList else [])
    ++ "Try '".toList ++ name ++ " --help' for more information.".toList)

/-- Complains in a command's name. -/
def failAs (name : Text) (status : Nat) (text : Text) : Act Nat :=
  fail status (name ++ ": ".toList ++ text)

/-- Complains of a command's arguments. -/
def misused (name : Text) (status : Nat) (text : Text) : Act Nat := do
  complain (name ++ ": ".toList ++ text)
  tryHelp name
  return status

/-- Complains of a missing operand. -/
def lacksOperand (name : Text) (status : Nat) : Act Nat :=
  misused name status "missing operand".toList

/-- Says that an operation on a file was refused. -/
def refused (name : Text) (status : Nat) (subject : Text) (fault : IoFault) : Act Nat :=
  failAs name status (subject ++ ": ".toList ++ reason fault)

/-- Text within single quotes, as a shell reads it back; control characters stand in quotes of their own
kind. The flag tells whether those are open. -/
def quotedBody : Bool → Text → Text
  | _, [] => []
  | escaped, c :: rest =>
    if c < ' ' || '\x7f' ≤ c then
      let code := match c with
        | '\n' => "\\n".toList
        | '\t' => "\\t".toList
        | '\r' => "\\r".toList
        | _ => ['\\', digit (c.toNat / 64), digit (c.toNat / 8), digit c.toNat]
      (if escaped then [] else "'$'".toList) ++ code ++ quotedBody true rest
    else
      (if escaped then "''".toList else []) ++ (if c = '\'' then "'\\''".toList else [c]) ++ quotedBody false rest
where
  digit (n : Nat) : Char := Char.ofNat (48 + n % 8)

/-- A text in quotes. -/
def quote (t : Text) : Text :=
  if t.contains '\'' && !t.any fun c => "\"$\x60\\!".toList.contains c || c < ' ' || '\x7f' ≤ c then '"' :: t ++ ['"']
  else '\'' :: quotedBody false t ++ ['\'']

/-- An argument in quotes that is no name of a file. -/
def quoteArgument (t : Text) : Text :=
  '\'' :: (t.flatMap fun c => if c = '\'' || c = '\\' then ['\\', c] else [c]) ++ ['\'']

/-- A name as messages show it: in quotes if a shell would not read it as it is. -/
def named (t : Text) : Text :=
  let odd (c : Char) : Bool := c ≤ ' ' || '\x7f' ≤ c || "!\"$&()*;<=>[^\x60|'?\\".toList.contains c
  if t.isEmpty || t.any odd || ['#', '~'].any (t.head? = some ·) || t = ['\x7b'] || t = ['\x7d'] then quote t
  else t

/-- Says that an operation on a file of this name was refused. -/
def refusedFile (name : Text) (status : Nat) (path : Text) (fault : IoFault) : Act Nat :=
  refused name status (named path) fault

/-- Applies a command to every operand; it fails if it fails for one of them. -/
def forEach (operands : List Text) (command : Text → Act Nat) : Act Nat := do
  let results ← operands.mapM command
  return (results.find? (· ≠ 0)).getD 0

end Act

namespace Command

/-- A command with options; `mixed` says whether they may follow operands. Its help is empty. -/
def reading (mixed : Bool) (flags : List Flag) (usage : Nat) (run : Text → Arguments → Act Nat) : Command :=
  fun name args => do
    match Arguments.read (flags ++ [.plain "help" ["help"], .plain "version" ["version"]]) mixed args with
    | .error fault => Act.misused name usage fault.describe
    | .ok a => if a.has "help" || a.has "version" then return 0 else run name a

/-- A command with options among its operands. -/
def withFlags (flags : List Flag) (usage : Nat) (run : Text → Arguments → Act Nat) : Command :=
  reading true flags usage run

/-- A command with options before its operands. -/
def flagsFirst (flags : List Flag) (usage : Nat) (run : Text → Arguments → Act Nat) : Command :=
  reading false flags usage run

end Command

end StubRelease.Shell

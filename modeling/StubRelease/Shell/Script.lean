/-
# StubRelease.Shell.Script -- scripts

A script is made of words and commands. A word has quoted and unquoted parts, among them parameters and
what other scripts print. Commands are simple ones, with assignments and redirections, or they are joined,
chosen, repeated, named and run apart from the shell. The text of a document that stands below its command
is kept apart from the script and is named by a number.
-/
import StubRelease.Shell.Text

namespace StubRelease.Shell

/-- The two manners of speaking a shell may have. -/
inductive Dialect where
  | posix
  | bash
deriving DecidableEq, Repr

/-- What becomes of letters. -/
inductive CaseChange where
  | upper
  | lower
  /-- Capitals become small, and the other way round. -/
  | other
deriving DecidableEq, Repr

/-- What a parameter is replaced by. -/
inductive Rule where
  /-- Its value. -/
  | plain
  /-- The length of its value. -/
  | length
  /-- A word in its place, if it is not set. -/
  | default
  /-- A word in its place, which it is set to. -/
  | assign
  /-- A word in its place when it *is* set. -/
  | alternative
  /-- Its value; the shell ends with a word as its complaint if it is not set. -/
  | demand
  /-- Its value without a part at the start. -/
  | dropStart (longest : Bool)
  /-- Its value without a part at the end. -/
  | dropEnd (longest : Bool)
  /-- Some characters of its value. -/
  | slice
  /-- Its value with parts replaced. -/
  | replace (all : Bool)
  /-- Its value with its letters changed, the first one or all. -/
  | recase (change : CaseChange) (all : Bool)
  /-- The value of the variable it names. -/
  | indirect
  /-- The places of its elements. -/
  | places
  /-- The names of the variables that begin as it does. -/
  | named
  /-- Its value in another form, which a letter stands for. -/
  | form (letter : Char)
  /-- Nothing: the braces hold no known rule. -/
  | unknown
deriving DecidableEq, Repr

/-- How a file is opened. -/
inductive OpenMode where
  | read
  | truncate
  | append
  | readWrite
  /-- Truncated even where existing files are protected. -/
  | clobber
deriving DecidableEq, Repr

/-- What follows the arm of a choice that was taken. -/
inductive AfterArm where
  | stop
  /-- The next arm, whatever its patterns. -/
  | next
  /-- The next arm that has a pattern that matches. -/
  | other
deriving DecidableEq, Repr

mutual

/-- A part of a word. -/
inductive Part where
  | text (text : Text) (quoted : Bool)
  /-- A parameter, or the element of one at a place. `orEmpty` says whether the rule is for an empty one
  too. -/
  | param (name : Text) (place : Option (List Part)) (rule : Rule) (orEmpty : Bool) (word second : List Part)
      (quoted : Bool)
  /-- What a script prints. -/
  | output (script : Script) (quoted : Bool)
  /-- The path of a file with what a script prints, or of one that a script reads. -/
  | file (reads : Bool) (script : Script)
  /-- The value of an expression. -/
  | arithmetic (expression : List Part) (quoted : Bool)

/-- What gives a variable a value. -/
inductive Assignment where
  /-- One value, perhaps at a place; `adds` says whether it is added to the one before. -/
  | single (name : Text) (place : Option (List Part)) (adds : Bool) (value : List Part)
  /-- Several values, perhaps with their places; `adds` says whether those before are kept. -/
  | row (name : Text) (adds : Bool) (items : List (Option (List Part) × List Part))

/-- A redirection of a descriptor. -/
inductive Redirection where
  | file (descriptor : Nat) (mode : OpenMode) (target : List Part)
  | duplicate (descriptor : Nat) (source : List Part)
  /-- A document that stands below the command. -/
  | document (descriptor : Nat) (number : Nat)
  /-- A word with a line end as input. -/
  | word (descriptor : Nat) (word : List Part)
  /-- What is printed and what is complained of, both to one file. -/
  | both (append : Bool) (target : List Part)
  /-- One of a descriptor whose number a variable has, or is given. -/
  | named (holder : Text) (redirection : Redirection)

/-- A condition between double brackets. -/
inductive Condition where
  | unary (operator : Text) (x : List Part)
  | binary (x : List Part) (operator : Text) (y : List Part)
  | negate (condition : Condition)
  | both (first second : Condition)
  | either (first second : Condition)

/-- A script. -/
inductive Script where
  | skip
  | simple (line : Nat) (assignments : List Assignment) (words : List (List Part))
      (redirections : List Redirection)
  | redirect (line : Nat) (body : Script) (redirections : List Redirection)
  | seq (first second : Script)
  | both (first second : Script)
  | either (first second : Script)
  | negate (body : Script)
  | pipe (stages : List Script)
  | background (body : Script)
  | choose (condition yes no : Script)
  | case (line : Nat) (subject : List Part) (arms : List (List (List Part) × Script × AfterArm))
  /-- Repeated for every value of a variable. -/
  | each (line : Nat) (name : Text) (items : List (List Part)) (body : Script)
  /-- Repeated for every value of a variable that is chosen by its number from a menu. -/
  | menu (line : Nat) (name : Text) (items : List (List Part)) (body : Script)
  /-- Repeated as long as a condition holds, or until it does. -/
  | cycle (holds : Bool) (condition body : Script)
  /-- Repeated as long as an expression is not zero; another one is worked out before, and one after every
  round. -/
  | counted (line : Nat) (start check step : List Part) (body : Script)
  | subshell (body : Script)
  /-- Names a command; the text is what that one is written as. -/
  | define (name : Text) (body : Script) (source : Text)
  | compute (line : Nat) (expression : List Part)
  | check (line : Nat) (condition : Condition)

end

instance : Inhabited Script := ⟨.skip⟩

/-- A word. -/
abbrev Word := List Part

/-- The texts of documents by their numbers. -/
abbrev Documents := List (Nat × Word)

namespace Part

/-- The value of a parameter. -/
def ofName (name : Text) (quoted : Bool) : Part := .param name none .plain false [] [] quoted

/-- The home directory, where a tilde stands for it. -/
def home (d : Dialect) : Part :=
  let otherwise := match d with
    | .posix => ['~']
    | .bash => "/root".toList
  .param "HOME".toList none .default false [.text otherwise true] [] true

end Part

namespace Assignment

def name : Assignment → Text
  | single name _ _ _ | row name _ _ => name

end Assignment

namespace Word

/-- The text of a word that is plain and unquoted. -/
def plain? : Word → Option Text
  | [] => some []
  | .text t false :: rest => (plain? rest).map (t ++ ·)
  | _ => none

/-- The home directories of the users a machine has from the beginning. -/
def homes : List (String × String) :=
  [("root", "/root"), ("daemon", "/usr/sbin"), ("bin", "/bin"), ("sys", "/dev"), ("sync", "/bin"),
    ("games", "/usr/games"), ("man", "/var/cache/man"), ("lp", "/var/spool/lpd"), ("mail", "/var/mail"),
    ("news", "/var/spool/news"), ("uucp", "/var/spool/uucp"), ("proxy", "/bin"), ("www-data", "/var/www"),
    ("backup", "/var/backups"), ("list", "/var/list"), ("irc", "/run/ircd"), ("_apt", "/nonexistent"),
    ("nobody", "/nonexistent")]

/-- What the name after a tilde stands for. -/
def directory? (d : Dialect) (user : Text) : Option Part :=
  if user.isEmpty then some (.home d)
  else if d = .bash && user = ['+'] then some (.ofName "PWD".toList true)
  else if d = .bash && user = ['-'] then some (.ofName "OLDPWD".toList true)
  else (homes.lookup (String.ofList user)).map fun path => .text path.toList true

/-- The unquoted characters of a word up to a slash or, between colons, up to a colon, and what follows them. -/
def userName (colons : Bool) : Word → Text × Word
  | .text [c] false :: rest =>
    if c = '/' || (colons && c = ':') then ([], .text [c] false :: rest)
    else
      let (name, after) := userName colons rest
      (c :: name, after)
  | rest => ([], rest)

/-- A word with the directory that a tilde at its start stands for. -/
def withTilde (d : Dialect) (colons : Bool) (word : Word) : Word :=
  match word with
  | .text ['~'] false :: rest =>
    let (user, after) := userName colons rest
    let isWhole := match after with
      | [] | .text ['/'] false :: _ | .text [':'] false :: _ => true
      | _ => false
    match if isWhole then directory? d user else none with
    | some part => part :: after
    | none => word
  | _ => word

/-- A value with the directories that tildes at its start and after its colons stand for. -/
def withTildes (d : Dialect) (word : Word) : Word :=
  let colon (part : Part) : Bool := match part with
    | .text [':'] false => true
    | _ => false
  let pieces := word.foldr (fun part (pieces : List Word) =>
    if colon part then [] :: pieces
    else
      match pieces with
      | piece :: more => (part :: piece) :: more
      | [] => [[part]]) [[]]
  [Part.text [':'] false].intercalate (pieces.map (withTilde d true))

/-- The name and the value of a word that gives a variable one. -/
def declared? (d : Dialect) (word : Word) : Option (Text × Word) :=
  let lead := word.takeWhile fun
    | .text ['='] _ | .text _ true => false
    | .text _ false => true
    | _ => false
  match plain? lead, word.drop lead.length with
  | some name, .text ['='] false :: value =>
    let adds := d = .bash && name.getLast? = some '+'
    if Text.isName (if adds then name.dropLast else name) then some (name, withTildes d value) else none
  | _, _ => none

end Word

end StubRelease.Shell

/-
# StubRelease.CommandLine.Scan -- reading a command line from left to right

A grammar says which options there are and how many values. A scan handles the words in order; the first
refusal, request for help or request for the version ends it. A value that cannot be accepted, or an
option still without its value, is reported when the next word is understood or the line ends; a word that
is not understood at all is reported first. Missing values are reported only at the end.
-/
import StubRelease.CommandLine.Word
import StubRelease.Terminal

namespace StubRelease.CommandLine

/-- What an option does. -/
inductive Action where
  | quiet
  | skipAggregate
  /-- Takes a value, the name of a version; may be repeated. -/
  | version
  | showHelp
  | showVersion
deriving DecidableEq, Repr

namespace Action

/-- The long name of an option. -/
def name : Action → String
  | quiet => "quiet"
  | skipAggregate => "no-aggregate"
  | version => "version"
  | showHelp => "help"
  | showVersion => "version"

/-- How a message shows an option. -/
def shown (a : Action) : String := "--" ++ a.name

end Action

/-- The options and values of a program. -/
structure Grammar where
  /-- The options that have a single-character form. -/
  shorts : List (Char × Action)
  /-- Every option. -/
  longs : List Action
  /-- The names of the values, all of them required. -/
  positionals : List String

namespace Grammar

def short? (g : Grammar) (c : Char) : Option Action := g.shorts.lookup c

def long? (g : Grammar) (name : Bytes) : Option Action :=
  g.longs.find? fun a => Bytes.ofString a.name == name

end Grammar

/-- Why a command line is refused. -/
inductive Refusal where
  /-- Required values are missing. -/
  | missing (names : List String)
  /-- An unknown option, or a value too many. -/
  | unexpected (shown : String)
  /-- A flag given twice. -/
  | repeated (option : String)
  /-- A flag with an attached value. -/
  | unwantedValue (value option : String)
  /-- An option without its value. -/
  | valueless (option : String)
  /-- A value that is not UTF-8. -/
  | notText
deriving DecidableEq, Repr

namespace Refusal

/-- The text of a refusal. What it shows of the command line is freed of terminal controls. -/
def message : Refusal → String
  | missing names =>
    "error: the following required arguments were not provided:"
      ++ String.join (names.map fun name => "\n  <" ++ name ++ ">")
  | unexpected shown => "error: unexpected argument '" ++ Terminal.shown shown ++ "' found"
  | repeated option => "error: the argument '" ++ option ++ "' cannot be used multiple times"
  | unwantedValue value option =>
    "error: unexpected value '" ++ Terminal.shown value ++ "' for '" ++ option ++ "' found; no more were expected"
  | valueless option =>
    "error: a value is required for '" ++ option ++ " <VERSION>' but none was supplied"
  | notText => "error: invalid UTF-8 was detected in one or more arguments"

end Refusal

/-- What ends a scan early. -/
inductive Halt where
  | help
  | version
  | refused (refusal : Refusal)
deriving DecidableEq, Repr

/-- What was found on a command line. -/
structure Found where
  values : List String
  versions : List String
  quiet : Bool
  skipAggregate : Bool
deriving DecidableEq, Repr

/-- A scan in progress. -/
structure Scan where
  found : Found
  /-- Reported as soon as the next word is understood. -/
  pending : Option Refusal
  /-- Whether an option waits for its value. -/
  waiting : Bool
  /-- How many values were taken, acceptable or not. -/
  taken : Nat

namespace Scan

def start : Scan := ⟨⟨[], [], false, false⟩, none, false, 0⟩

/-- Reports what is pending. -/
def settle (s : Scan) : Except Halt Scan :=
  match s.pending with
  | some refusal => .error (.refused refusal)
  | none => .ok { s with waiting := false }

/-- Sets a flag, which may be set only once. -/
def raise (s : Scan) (a : Action) : Except Halt Scan := do
  let s ← s.settle
  match a with
  | .quiet =>
    if s.found.quiet then .error (.refused (.repeated a.shown))
    else .ok { s with found := { s.found with quiet := true } }
  | .skipAggregate =>
    if s.found.skipAggregate then .error (.refused (.repeated a.shown))
    else .ok { s with found := { s.found with skipAggregate := true } }
  | .showHelp => .error .help
  | .showVersion => .error .version
  | .version => .ok { s with waiting := true, pending := some (.valueless a.shown) }

/-- Takes the value of an option. -/
def addVersion (s : Scan) (value : Bytes) : Scan :=
  match value.toString? with
  | some text =>
    { s with found := { s.found with versions := s.found.versions ++ [text] },
             pending := none, waiting := false }
  | none => { s with pending := some .notText, waiting := false }

/-- Takes a value of the program. -/
def addValue (g : Grammar) (s : Scan) (value : Bytes) : Except Halt Scan :=
  if s.taken < g.positionals.length then do
    let s ← s.settle
    match value.toString? with
    | some text =>
      pure { s with found := { s.found with values := s.found.values ++ [text] },
                    taken := s.taken + 1 }
    | none => pure { s with pending := some .notText, taken := s.taken + 1 }
  else .error (.refused (.unexpected value.lossy))

/-- A long option. -/
def long (g : Grammar) (s : Scan) (name : Bytes) (attached : Option Bytes) : Except Halt Scan :=
  match g.long? name, attached with
  | none, _ => .error (.refused (.unexpected ("--" ++ name.lossy)))
  | some .version, some value => do
    let s ← s.settle
    (s.addVersion value).settle
  | some a, some value => .error (.refused (.unwantedValue value.lossy a.shown))
  | some a, none => s.raise a

/-- The characters of a cluster, one flag each, then the part that is not text. -/
def flags (g : Grammar) (s : Scan) (invalid : Bytes) : List Char → Except Halt Scan
  | [] => if invalid.isEmpty then .ok s else .error (.refused (.unexpected ("-" ++ invalid.lossy)))
  | c :: rest =>
    match g.short? c with
    | some a =>
      match s.raise a with
      | .ok s => flags g s invalid rest
      | .error halt => .error halt
    | none => .error (.refused (.unexpected ("-" ++ c.toString)))

/-- A word before the end of the options. -/
def word (g : Grammar) (s : Scan) : Word → Except Halt Scan
  | .endOfOptions => .ok { s with waiting := false }
  | .long name attached => s.long g name attached
  | .cluster bs =>
    let (text, invalid) := Bytes.splitText bs
    s.flags g invalid text.toList
  | .value bs => if s.waiting then .ok (s.addVersion bs) else s.addValue g bs

/-- The words after the end of the options. -/
def values (g : Grammar) : Scan → List Bytes → Except Halt Scan
  | s, [] => .ok s
  | s, bs :: rest =>
    match s.addValue g bs with
    | .ok s => values g s rest
    | .error halt => .error halt

/-- The words of a command line. -/
def words (g : Grammar) : Scan → List Bytes → Except Halt Scan
  | s, [] => .ok s
  | s, bs :: rest =>
    match Word.ofBytes bs with
    | .endOfOptions => values g { s with waiting := false } rest
    | w =>
      match s.word g w with
      | .ok s => words g s rest
      | .error halt => .error halt

/-- What is pending or missing when the line ends. -/
def finish (g : Grammar) (s : Scan) : Except Halt Found := do
  let s ← s.settle
  if s.taken < g.positionals.length then
    .error (.refused (.missing (g.positionals.drop s.taken)))
  else pure s.found

end Scan

/-- Reads the words after the program's name. -/
def Grammar.scan (g : Grammar) (words : List Bytes) : Except Halt Found := do
  let s ← Scan.words g .start words
  s.finish g

end StubRelease.CommandLine

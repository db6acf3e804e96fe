/-
# StubRelease.Shell.Invocation -- starting a shell

A shell is started with options and with a script, which is an argument, a file or what is given as input.
It begins with the variables of its environment and a few of its own.
-/
import StubRelease.Shell.Installed
import StubRelease.Shell.Interpreter

namespace StubRelease.Shell

open Eval

/-- How deep commands may stand in each other and call each other. -/
def nestingLimit : Nat := 40000

/-- A shell that begins in a process. -/
def State.begin (d : Dialect) (name : Text) (p : Process) : State :=
  let given := p.environment.filterMap fun (name, value) =>
    if Text.isName name then some (name, Variable.ofText value true) else none
  let own (name : String) (value : Text) : Text × Variable := (name.toList, .ofText value false)
  let fixed (name : String) (value : Text) : Text × Variable :=
    (name.toList, { Variable.ofText value false with readOnly := true, isNumber := true })
  let usual : List (Text × Variable) :=
    [own "PATH" "/usr/local/sbin:/usr/local/bin:/usr/sbin:/usr/bin:/sbin:/bin".toList,
     own "IFS" [' ', '\t', '\n'], own "OPTIND" ['1'], own "PS4" ['+', ' '],
     (if d = .bash then fixed else own) "PPID" (Text.ofNat p.parent)]
    ++ (if d = .bash then [own "BASH_VERSION" "5.2.21(1)-release".toList, fixed "UID" ['0'], fixed "EUID" ['0'],
      own "BASH" "/usr/bin/bash".toList, own "OSTYPE" "linux-gnu".toList,
      own "MACHTYPE" "x86_64-pc-linux-gnu".toList, own "HOSTTYPE" "x86_64".toList, own "OPTERR" ['1']] else [])
  let level := ((given.lookup "SHLVL".toList).bind (·.value)).bind Text.toNat?
  let usual := if d = .bash then ("SHLVL".toList, .ofText (Text.ofNat (level.getD 0 + 1)) true) :: usual else usual
  let given := if d = .bash then given.filter (·.1 ≠ "SHLVL".toList) else given
  let kept := given.filter fun v => !(["IFS", "OPTIND", "PPID"].contains (String.ofList v.1))
  let bindings := kept ++ usual.filter fun v => (kept.lookup v.1).isNone
  let s : State :=
    { process := p
      dialect := d
      name := name
      inline := false
      args := []
      bindings
      functions := []
      aliases := []
      remembered := []
      options := if d = .bash then ['h', 'B'] else []
      status := 0
      substituted := none
      shownNumber := p.number
      lastJob := none
      jobs := []
      traps := []
      deaf := p.ignored
      hidden := []
      callers := []
      piped := []
      kept := []
      files := []
      readers := []
      choices := initialChoices
      loops := 0
      sourced := 0
      documents := []
      line := 0
      command := none
      mask := 0o22
      optionIndex := 1
      letters := 0
      disabled := []
      bounds := []
      depth := 0
      lastWord := name
      seed := 123459876 }
  s.setVariable "PWD".toList (.ofText (Builtin.currentDir s) true)

/-- What a shell's options leave: whether the script is an argument or what is given as input, and the
operands. -/
structure Start where
  inline : Bool
  fromInput : Bool
  operands : List Text

namespace Start

/-- Options of a shell that make no difference to a script. -/
def indifferent : Dialect → Text
  | .posix => "limpVEb".toList
  | .bash => "lihkmprtBDHPT".toList

/-- Reads the letters of an option. -/
def letters (d : Dialect) (on : Bool) : Text → Start → Eval Start
  | [], start => return start
  | 'c' :: more, start => letters d on more { start with inline := true }
  | 's' :: more, start => letters d on more { start with fromInput := true }
  | 'o' :: more, start => do
    match start.operands with
    | name :: rest =>
      Builtin.setNamed name on
      letters d on more { start with operands := rest }
    | [] => letters d on more start
  | c :: more, start => do
    if (indifferent d).contains c then letters d on more start
    else if (Builtin.optionLetters d).contains c then
      Builtin.setOption c on
      letters d on more start
    else if d = .bash then
      act (Act.complain ((← get).name ++ ": ".toList ++ [if on then '-' else '+', c] ++ ": invalid option".toList))
      throw (.exit 2)
    else abort ("Illegal option ".toList ++ [if on then '-' else '+', c])

/-- Reads the options of a shell. -/
def read (d : Dialect) : Nat → List Text → Start → Eval Start
  | 0, words, start => return { start with operands := words }
  | n + 1, words, start => do
    match words with
    | ['-'] :: rest | ['-', '-'] :: rest => return { start with operands := rest }
    | ('-' :: '-' :: name) :: rest =>
      if d = .posix then abort "Illegal option --".toList
      else if ["norc", "noprofile", "posix", "login", "noediting"].contains (String.ofList name) then
        read d n rest start
      else if ["version", "help"].contains (String.ofList name) then throw (.exit 0)
      else
        act (Act.complain ((← get).name ++ ": --".toList ++ name ++ ": invalid option".toList))
        throw (.exit 2)
    | ('-' :: option) :: rest => do
      let start ← letters d true option { start with operands := rest }
      read d n start.operands start
    | ('+' :: option) :: rest => do
      let start ← letters d false option { start with operands := rest }
      read d n start.operands start
    | operands => return { start with operands }

end Start

/-- Reads the script that is in a file, or says why that cannot be done. -/
def readScript (path : Text) : Eval Text := do
  let s ← get
  match ← act (Act.readFile path), s.dialect with
  | .ok bytes, d =>
    if (Installed.nameIn? bytes).isSome then
      match d with
      | .posix =>
        complain "Syntax error: word unexpected".toList
        throw (.exit 2)
      | .bash =>
        act (Act.complain (path ++ ": ".toList ++ path ++ ": cannot execute binary file".toList))
        throw (.exit 126)
    else return Text.ofBytes bytes
  | .error fault, .posix =>
    if fault = .os .isDirectory then return []
    else
      complain (Binding.refusal .posix true path fault)
      throw (.exit 2)
  | .error fault, .bash =>
    act (Act.complain ((if fault = .os .isDirectory then [] else s.name ++ ": ".toList) ++ path ++ ": ".toList
      ++ Act.reason fault))
    throw (.exit (if fault = .notFound then 127 else 126))

/-- The name and the text of the function that a variable of the environment is. -/
def functionIn? (name value : Text) : Option (Text × Text) :=
  let lead := "BASH_FUNC_".toList
  let inner := (name.drop lead.length).take (name.length - lead.length - 2)
  if State.functionVariable inner = name && "() \x7b".toList.isPrefixOf value then some (inner, inner ++ ' ' :: value)
  else none

/-- Defines the functions that the environment has. -/
def takeFunctions (spawn : Spawn) : Eval Unit := do
  for (name, text) in (← get).process.environment.filterMap fun v => functionIn? v.1 v.2 do
    runText spawn nestingLimit .plain text
    modify fun s => { s with
      functions := s.functions.map fun (other, f) => (other, { f with exported := f.exported || other = name }) }

/-- Runs a shell's script, for a shell that has not read its arguments. -/
def runStart (spawn : Spawn) (d : Dialect) (words : List Text) : Eval Unit := do
  if d = .bash then takeFunctions spawn
  let start ← Start.read d (words.length + 1) words ⟨false, false, []⟩
  if start.inline then
    match start.operands with
    | [] =>
      if d = .bash then
        act (Act.complain ((← get).name ++ ": -c: option requires an argument".toList))
        throw (.exit 2)
      else abort "-c requires an argument".toList
    | text :: rest =>
      modify fun s => { s with name := rest.headD s.name, args := rest.drop 1, inline := true }
      runText spawn nestingLimit ⟨false, true⟩ text
  else
    match start.fromInput, start.operands with
    | false, path :: args =>
      let text ← readScript path
      modify fun s => { s with name := path, args }
      runText spawn nestingLimit .plain text
    | _, args =>
      modify fun s => { s with args }
      match ← act (Act.readAll 0) with
      | .ok bytes => runText spawn nestingLimit .plain (Text.ofBytes bytes)
      | .error _ => pure ()

/-- A shell as a program. -/
def shell (spawn : Spawn) (d : Dialect) : Program := fun name args p =>
  let (result, s) := (toEnd spawn nestingLimit (runStart spawn d args)).run (State.begin d name p)
  match result with
  | .ok finish => (finish, s.process)
  | .error _ => (.killed 11, s.process)

end StubRelease.Shell

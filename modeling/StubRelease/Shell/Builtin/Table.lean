/-
# StubRelease.Shell.Builtin.Table -- the commands of the shell itself

Some commands belong to the shell, and no program is looked for when they are called. A few of them are
special: an assignment in front of them stays, and a fault in one of them ends a shell that keeps to the
standard.
-/
import StubRelease.Shell.Builtin.Directories
import StubRelease.Shell.Builtin.Naming
import StubRelease.Shell.Format

namespace StubRelease.Shell.Builtin

open Eval

/-- Prints what a command is to print; a closed output is complained of. -/
def put (name : Text) (t : Text) : Eval Nat := do
  if (← act (Act.write 1 t.bytes)) || t.isEmpty then return 0
  else if (← get).dialect = .bash then refuse 1 "write error: Bad file descriptor".toList
  else refuse 1 (name ++ ": I/O error".toList)

def echo : Builtin := fun name args => do
  let s ← get
  put name (echoed s.dialect (s.choices.contains "xpg_echo") args)

def printf : Builtin := fun name args => do
  let d := (← get).dialect
  refuseOptions (if d = .bash then "v" else "") args
  let args := if args.head? = some ['-', '-'] then args.drop 1 else args
  match d, args with
  | .bash, ['-', 'v'] :: target :: format :: args =>
    let (text, complaints, status) := formatted (.shell d) format args
    complaints.forM complain
    assign target text
    return status
  | _, [] =>
    if d = .bash then
      act (Act.complain "printf: usage: printf [-v var] format [arguments]".toList)
      return 2
    else abort "usage: printf format [arg ...]".toList
  | _, format :: args =>
    let (text, complaints, status) := formatted (.shell d) format args
    let written ← put name text
    complaints.forM complain
    return if status = 0 then written else status

def test : Builtin := fun name args => do
  let s ← get
  match Question.answer (subject s) (name = ['[']) args with
  | .ok true => return 0
  | .ok false => return 1
  | .error fault => refuse 2 (fault.describe s.dialect)

/-- Does nothing and ends with a status. -/
def constant (status : Nat) : Builtin := fun _ _ => return status

/-- Prints nothing that is known beforehand. -/
def times : Builtin := fun _ _ => do
  act (Act.print "0m0.000000s 0m0.000000s\n0m0.000000s 0m0.000000s\n".toList)
  return 0

/-- The letters of what is bounded, with the bounds that are usual. -/
def usualBounds : Dialect → List (Char × String)
  | .posix =>
    [('t', "unlimited"), ('f', "unlimited"), ('d', "unlimited"), ('s', "8192"), ('c', "0"), ('m', "unlimited"),
      ('l', "8192"), ('p', "unlimited"), ('n', "1048576"), ('v', "unlimited"), ('w', "unlimited"), ('r', "0")]
  | .bash =>
    [('c', "0"), ('d', "unlimited"), ('e', "0"), ('f', "unlimited"), ('i', "unlimited"), ('l', "8192"),
      ('m', "unlimited"), ('n', "1048576"), ('p', "8"), ('q', "819200"), ('r', "0"), ('s', "8192"),
      ('t', "unlimited"), ('u', "unlimited"), ('v', "unlimited"), ('x', "unlimited")]

/-- Shows or sets a bound on what programs may use. Nothing is held to it. -/
def ulimit : Builtin := fun _ args => do
  let s ← get
  let known := usualBounds s.dialect
  refuseOptions (String.ofList ("HSa".toList ++ known.map (·.1))) args
  let isOption (a : Text) : Bool := a.head? = some '-' && a.length > 1
  let letters := (args.takeWhile isOption).flatten.filter fun c => !"-HS".toList.contains c
  let letter := (letters.getLast?).getD 'f'
  match args.dropWhile isOption with
  | value :: _ =>
    if value = "unlimited".toList || (Text.toNat? value).isSome then
      modify fun s => { s with bounds := (letter, value) :: s.bounds }
      return 0
    else if s.dialect = .bash then refuse 1 (value ++ ": invalid number".toList)
    else abort "bad number".toList
  | [] =>
    if letter = 'a' then return 0
    else
      act (Act.printLine ((s.bounds.lookup letter).getD ((known.lookup letter).getD "unlimited").toList))
      return 0

/-- Says where the function at work, or one it is called by, was called. -/
def caller : Builtin := fun _ args => do
  let s ← get
  let at' (i : Nat) : Option Text := (s.callers[i]?).map fun (_, line) => Text.ofNat line
  match args with
  | [] =>
    act (Act.printLine (match at' 0 with
      | some line => line ++ ' ' :: s.name
      | none => "0 NULL".toList))
    return 0
  | arg :: _ =>
    match Text.toNat? arg with
    | none => refuse 2 (arg ++ ": invalid number".toList)
    | some i =>
      match at' i with
      | some line =>
        let outer := ((s.callers[i + 1]?).map (·.1)).getD "main".toList
        act (Act.printLine (Text.unwords [line, outer, s.name]))
        return 0
      | none => return 1

/-- The special commands. -/
def special? (d : Dialect) (name : String) : Option Builtin :=
  match name with
  | ":" => some (constant 0)
  | "break" => some (loopControl .leaveLoops)
  | "continue" => some (loopControl .nextRound)
  | "exit" => some exit
  | "export" => some exportCommand
  | "readonly" => some readOnlyCommand
  | "return" => some leave
  | "set" => some setCommand
  | "shift" => some shift
  | "times" => some times
  | "trap" => some trap
  | "unset" => some unset
  | "local" => if d = .posix then some declare else none
  | _ => none

/-- The other commands of a shell. -/
def regular? (d : Dialect) (name : String) : Option Builtin :=
  match name with
  | "echo" => some echo
  | "printf" => some printf
  | "test" | "[" => some test
  | "true" => some (constant 0)
  | "false" => some (constant 1)
  | "cd" => some cd
  | "chdir" => if d = .posix then some cd else none
  | "pwd" => some pwd
  | "read" => some read
  | "getopts" => some getopts
  | "umask" => some umask
  | "kill" => some kill
  | "wait" => some wait
  | "jobs" => some jobs
  | "alias" => some aliasCommand
  | "unalias" => some unalias
  | "ulimit" => some ulimit
  | "fg" | "bg" => some fun _ _ => refuse 2 "No current job".toList
  | "local" | "declare" | "typeset" => if d = .bash then some declare else none
  | "let" => if d = .bash then some fun _ args => letCommand args else none
  | "pushd" => if d = .bash then some pushd else none
  | "popd" => if d = .bash then some popd else none
  | "dirs" => if d = .bash then some dirs else none
  | "mapfile" | "readarray" => if d = .bash then some mapfile else none
  | "shopt" => if d = .bash then some shopt else none
  | "caller" => if d = .bash then some caller else none
  | "history" | "help" | "bind" | "complete" | "fc" => if d = .bash then some (constant 0) else none
  | "disown" | "suspend" | "logout" | "compgen" => if d = .bash then some (constant 1) else none
  | _ => none

/-- The commands that run others. -/
def running (d : Dialect) : List String :=
  ["eval", ".", "command", "exec", "type", "hash"] ++ (if d = .bash then ["source", "builtin", "enable"] else [])

/-- Whether a command is special. -/
def isSpecial (d : Dialect) (name : String) : Bool :=
  (special? d name).isSome || ["eval", ".", "exec"].contains name || (d = .bash && name = "source")

/-- Whether a command belongs to the shell. -/
def isBuiltin (d : Dialect) (name : String) : Bool :=
  (special? d name).isSome || (regular? d name).isSome || (running d).contains name

end StubRelease.Shell.Builtin

/-
# StubRelease.Shell.Executor -- starting programs

An executable file is started if it is a program or names its interpreter in its first line. The program of a
call that was found and started has a process of its own, which is given nothing and whose output is collected.
-/
import StubRelease.Shell.Invocation
import StubRelease.Tool.Session

namespace StubRelease.Shell

/-- How deep programs may start each other. -/
def depthLimit : Nat := 64

/-- How many interpreters that are scripts themselves may stand behind each other. -/
def interpreterLimit : Nat := 5

/-- How many bytes of a file tell what it is. -/
def headLength : Nat := 256

/-! ## Interpreters -/

/-- An interpreter, and the argument it is given before the script. -/
structure Interpreter where
  path : Text
  argument : Option Text
deriving DecidableEq, Repr

namespace Interpreter

/-- The interpreter in the line after its sign. What is longer than the line that can be read has no
interpreter unless its name is complete. -/
def ofHead? (head : Text) : Option Interpreter :=
  let padded := head ++ List.replicate (headLength - 2 - head.length) '\x00'
  let isEnd (c : Char) : Bool := Text.isBlank c || c = '\x00'
  let line : Option Text :=
    if padded.contains '\n' then some (Text.dropEndWhile Text.isBlank (padded.takeWhile (· ≠ '\n')))
    else
      let whole := padded.dropLast
      let name := whole.dropWhile Text.isBlank
      if name.isEmpty || !name.any isEnd then none else some (Text.dropEndWhile Text.isBlank whole)
  line.bind fun line =>
    let name := line.dropWhile Text.isBlank
    let path := name.takeWhile (!isEnd ·)
    let rest := name.drop path.length
    if name.isEmpty then none
    else
      let argument := rest.dropWhile Text.isBlank
      some ⟨path, if rest.head?.any Text.isBlank && !argument.isEmpty then
        some (argument.takeWhile (· ≠ '\x00')) else none⟩

/-- The interpreter that a file names in its first line. -/
def ofContent? (content : Bytes) : Option (Option Interpreter) :=
  match Text.ofBytes (content.take headLength) with
  | '#' :: '!' :: rest => some (ofHead? rest)
  | _ => none

end Interpreter

/-- What is to be run for a file: the program's name, the name it is called by, and its arguments. The number
bounds the interpreters. -/
def resolve (s : Store) : Nat → Text → Text → List Text → Except Errno (Bytes × Text × List Text)
  | n, path, called, args =>
    match openProgram s path with
    | .error e => .error e
    | .ok content =>
      let bytes := content.bytes
      match Interpreter.ofContent? bytes, n with
      | some (some i), n + 1 => resolve s n i.path i.path (i.argument.toList ++ path :: args)
      | some (some _), 0 => .error .tooManyLinks
      | some none, _ => .error .notExecutable
      | none, _ =>
        match Installed.nameIn? bytes with
        | some name => .ok (name, called, args)
        | none => .error .notExecutable

/-! ## Starting -/

/-- The program of a name. -/
def program? (spawn : Spawn) (name : String) : Option Program :=
  match Installed.shells.lookup name with
  | some d => some (shell spawn d)
  | none =>
    match Installed.commands.lookup name with
    | some command => some (.ofCommand command)
    | none => (Installed.starters spawn).lookup name

/-- Starts a program, handing programs it starts itself to `spawn`. -/
def startWith (spawn : Spawn) : Spawn := fun path called args p =>
  match resolve p.store interpreterLimit path called args with
  | .error e => .error e
  | .ok (name, called, args) =>
    match (Bytes.toString? name).bind (program? spawn) with
    | some program => .ok (program called args p)
    | none => .error .notExecutable

/-- Starts a program; the number bounds how deep programs start each other. -/
def start : Nat → Spawn
  | 0 => fun _ _ _ _ => .error ⟨11⟩
  | n + 1 => startWith (start n)

/-! ## Calls -/

/-- The number of a program that is called. -/
def calledNumber : Nat := 4711

/-- A process that begins: it is given nothing, and what it prints is collected. -/
def beginning (environment : List (Text × Text)) (store : Store) : Process where
  machine := ⟨store, #[.source [], .sink [], .sink []], calledNumber + 1, []⟩
  number := calledNumber
  parent := calledNumber - 1
  descriptors := [(0, 0), (1, 1), (2, 2)]
  environment := environment
  ignored := []

/-- What a process has collected in a stream. -/
def collected (p : Process) (stream : Nat) : Bytes :=
  match p.machine.streams[stream]? with
  | some (.sink bytes) => bytes
  | _ => []

/-- What programs do that are called with an environment. -/
def programsWith (environment : List (Text × Text)) : Programs := fun path name args store => do
  let (finish, p) ← start depthLimit path name args (beginning environment store)
  let status : WaitStatus := match finish with
    | .exited code => .ofExitCode code
    | .killed signal => .ofSignal signal
  return ⟨status, collected p 1, collected p 2, p.store⟩

/-- The environment of programs that are called. -/
def usualEnvironment : List (Text × Text) :=
  [("PATH".toList, usualPath), ("HOME".toList, "/root".toList)]

/-- The executor that starts programs in an environment. -/
def executorIn (environment : List (Text × Text)) : Executor Unit where
  run c _ store := callWith (searchPath environment) (programsWith environment) c store

/-- The executor that starts programs with some variables besides the usual ones. -/
def executorWith (given : List (String × Bytes)) : Executor Unit :=
  executorIn (given.map (fun v => (v.1.toList, Text.ofBytes v.2)) ++ usualEnvironment)

/-- The executor that starts programs. -/
def executor : Executor Unit := executorWith []

end StubRelease.Shell

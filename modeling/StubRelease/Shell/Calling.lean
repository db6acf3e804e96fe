/-
# StubRelease.Shell.Calling -- the program of a call

A program is called by name, which is looked up in the directories for programs, or by path, which is seen from
the directory the call runs in. Its file has to be executable, and a program whose directory or file is missing
is not started at all, which is a refusal of the operating system. What a program does once it is started is not
said here: `callWith` is told.
-/
import StubRelease.Shell.Text
import StubRelease.Tool.Session

namespace StubRelease.Shell

/-! ## Finding programs -/

/-- Whether a program stands at a path, and whether it may be run. -/
def programAt (s : Store) (path : Text) : Option Bool :=
  match s.nodeAt true path.bytes with
  | .ok (.file _ executable) => some executable
  | _ => none

/-- The paths a file of a name may have in the directories of a search path. -/
def pathsIn (search name : Text) : List Text :=
  (Text.splitAt ':' search).map fun (dir : Text) => if dir.isEmpty then name else dir ++ '/' :: name

/-- The path of a program that is called by its name: the first one in a search path that may be run. -/
def findIn (s : Store) (search name : Text) : Except Errno Text :=
  if name.contains '/' then .ok name
  else
    let paths := pathsIn search name
    match paths.find? fun path => programAt s path = some true with
    | some path => .ok path
    | none => .error (if paths.any fun path => programAt s path = some false then .accessDenied
        else .notFound)

/-- The file of a program, which has to be executable. -/
def openProgram (s : Store) (path : Text) : Except Errno Content :=
  match s.nodeAt true path.bytes with
  | .error (.os e) => .error e
  | .error (.other _) => .error .invalidArgument
  | .ok (.file content true) => .ok content
  | .ok _ => .error .accessDenied

/-- The directories that programs are looked for in by default. -/
def usualPath : Text := "/usr/local/sbin:/usr/local/bin:/usr/sbin:/usr/bin:/sbin:/bin".toList

/-- The directories that programs are looked for in with an environment. -/
def searchPath (environment : List (Text × Text)) : Text :=
  (environment.lookup "PATH".toList).getD "/usr/local/bin:/usr/bin:/bin".toList

/-! ## Calls -/

/-- A program that has ended: its status, what it printed, and the store it left. -/
structure Ended where
  status : WaitStatus
  out : Bytes
  err : Bytes
  store : Store

/-- What programs do that are started by their path, the name they are called by and their arguments, in the current
directory of a store. One that cannot be run after all is refused. -/
abbrev Programs := Text → Text → List Text → Store → Except Errno Ended

/-- The fault of an argument that holds a NUL byte. -/
def nulArgument : IoFault := .other "nul byte found in provided data"

/-- Starts the program of a call in a store whose current directory is the one the call runs in. -/
def startHere (search : Text) (programs : Programs) (c : Call) (here : Store) : Except Errno Ended := do
  let name := Text.ofString c.program
  let path ← findIn here search name
  let _ ← openProgram here path
  programs path name (c.arguments.map Text.ofString) here

/-- Starts a call's program in the call's directory. -/
def callWith (search : Text) (programs : Programs) (c : Call) (store : Store) : Reply Unit :=
  let refused (fault : IoFault) : Reply Unit := ⟨.error (.io fault), [], [], (), store⟩
  if (c.cwd.text :: c.program :: c.arguments).any fun text => text.toList.contains '\x00' then
    refused nulArgument
  else
    match store.placeOf true c.cwd.bytes, store.isDir c.cwd.bytes with
    | .ok place, true =>
      match startHere search programs c { store with cwd := place } with
      | .error e => refused (.os e)
      | .ok ended => ⟨.ok ended.status, ended.out, ended.err, (), { ended.store with cwd := store.cwd }⟩
    | .ok _, false => refused (.os .notDirectory)
    | .error fault, _ => refused fault

end StubRelease.Shell

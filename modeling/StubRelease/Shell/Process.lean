/-
# StubRelease.Shell.Process -- running programs

A machine is a store and the streams that are open in it. A process runs in a machine with descriptors that
stand for streams, and with an environment. Processes share the machine: what one writes the next one finds,
and a stream read by one is read further by the next.
-/
import StubRelease.Archive.Encode
import StubRelease.Shell.Calling
import StubRelease.Tree.Action

namespace StubRelease.Shell

/-- Something that is open. -/
inductive Stream where
  /-- Collects what is written. -/
  | sink (bytes : Bytes)
  /-- Gives what was put in beforehand. -/
  | source (unread : Bytes)
  /-- A file, read and written from an offset on; `atEnd` writes at its end only. -/
  | file (place : List Name) (offset : Nat) (atEnd : Bool)
  | directory
  /-- Takes everything and gives nothing. -/
  | null

instance : Inhabited Stream := ⟨.null⟩

/-- The tree of all files and the streams that are open. -/
structure Machine where
  store : Store
  streams : Array Stream
  /-- The number of the next process. -/
  nextNumber : Nat
  /-- The signals that were sent to processes that are at work, by their numbers. -/
  signals : List (Nat × Nat)

/-- A running program. -/
structure Process where
  machine : Machine
  number : Nat
  /-- The number of the process that started it. -/
  parent : Nat
  /-- The stream of each descriptor. -/
  descriptors : List (Nat × Nat)
  environment : List (Text × Text)
  /-- The signals that do nothing to it. -/
  ignored : List Nat

/-- How a program ended. -/
inductive Finish where
  | exited (code : Nat)
  | killed (signal : Nat)
deriving DecidableEq, Repr

/-- Works in a process. -/
abbrev Act := StateM Process

/-- Starts the program at a path, with the name it is called by and its arguments, in a process like a
given one. -/
abbrev Spawn := Text → Text → List Text → Process → Except Errno (Finish × Process)

namespace Process

def store (p : Process) : Store := p.machine.store

def setStore (p : Process) (store : Store) : Process := { p with machine := { p.machine with store } }

/-- The value of a variable of the environment. -/
def environmentValue? (p : Process) (name : String) : Option Text := p.environment.lookup name.toList

/-- The stream of a descriptor. -/
def stream? (p : Process) (descriptor : Nat) : Option Stream :=
  (p.descriptors.lookup descriptor).bind fun n => p.machine.streams[n]?

/-- Sets the stream of a descriptor to what it has become. -/
def setStream (p : Process) (descriptor : Nat) (s : Stream) : Process :=
  match p.descriptors.lookup descriptor with
  | some n =>
    { p with machine := { p.machine with streams := p.machine.streams.setIfInBounds n s } }
  | none => p

/-- The file at a place, as a stream. The null device takes everything and gives nothing. -/
def streamAt (place : List Name) (atEnd : Bool) : Stream :=
  if place = [Bytes.ofString "dev", Bytes.ofString "null"] then .null else .file place 0 atEnd

/-- Bytes with others written over them from an offset on. -/
def overwrite (old : Bytes) (offset : Nat) (new : Bytes) : Bytes :=
  old.take offset ++ List.replicate (offset - old.length) 0 ++ new ++ old.drop (offset + new.length)

/-- Writes to a descriptor, and says whether it could be written to. -/
def write (p : Process) (descriptor : Nat) (bs : Bytes) : Bool × Process :=
  match p.stream? descriptor with
  | some (.sink old) => (true, p.setStream descriptor (.sink (old ++ bs)))
  | some (.file place offset atEnd) =>
    match p.store.top.get? place with
    | some (.file content _) =>
      let old := content.bytes
      let offset := if atEnd then old.length else offset
      let written := p.setStore (p.store.fill place (.plain (overwrite old offset bs)))
      (true, written.setStream descriptor (.file place (offset + bs.length) atEnd))
    | _ => (true, p)
  | some .null => (true, p)
  | _ => (false, p)

end Process

namespace Act

/-- A file operation in the process's directory. -/
def files {α : Type} (op : Files α) : Act (Except IoFault α) := fun p =>
  let (result, store) := op p.store
  (result, p.setStore store)

def store : Act Store := return (← get).store

/-- Opens a stream and gives its number. -/
def openStream (s : Stream) : Act Nat := modifyGet fun p =>
  (p.machine.streams.size, { p with machine := { p.machine with streams := p.machine.streams.push s } })

/-- Binds a descriptor to a stream. -/
def attach (descriptor stream : Nat) : Act Unit :=
  modify fun p => { p with descriptors := (descriptor, stream) :: p.descriptors.filter (·.1 ≠ descriptor) }

def close (descriptor : Nat) : Act Unit :=
  modify fun p => { p with descriptors := p.descriptors.filter (·.1 ≠ descriptor) }

/-! ## Writing -/

/-- Writes to a descriptor, and says whether it could be written to. -/
def write (descriptor : Nat) (bs : Bytes) : Act Bool := modifyGet (·.write descriptor bs)

/-- Prints a text. -/
def print (t : Text) : Act Unit := do
  let _ ← write 1 t.bytes

/-- Prints a line. -/
def printLine (t : Text) : Act Unit := print (t ++ ['\n'])

/-- Complains in a line of its own. -/
def complain (t : Text) : Act Unit := do
  let _ ← write 2 (t ++ ['\n']).bytes

/-- Complains, and gives the status to end with. -/
def fail (status : Nat) (t : Text) : Act Nat := do
  complain t
  return status

/-! ## Reading -/

/-- Reads what is left of a descriptor, or says why it cannot be read. -/
def readAll (descriptor : Nat) : Act (Except IoFault Bytes) := do
  let p ← get
  match p.stream? descriptor with
  | some (.source unread) =>
    set (p.setStream descriptor (.source []))
    return .ok unread
  | some (.file place offset atEnd) =>
    match p.store.top.get? place with
    | some (.file content _) =>
      let bytes := content.bytes
      set (p.setStream descriptor (.file place bytes.length atEnd))
      return .ok (bytes.drop offset)
    | _ => return .ok []
  | some .directory => return .error (.os .isDirectory)
  | some _ => return .ok []
  | none => return .error (.os ⟨9⟩)

/-- Gives back bytes that were read last. -/
def unread (descriptor : Nat) (bs : Bytes) : Act Unit := modify fun p =>
  match p.stream? descriptor with
  | some (.source rest) => p.setStream descriptor (.source (bs ++ rest))
  | some (.file place offset atEnd) => p.setStream descriptor (.file place (offset - bs.length) atEnd)
  | _ => p

/-- Whether what a descriptor stands for can be read again from where reading stops. -/
def isSeekable (descriptor : Nat) : Act Bool := return match (← get).stream? descriptor with
  | some (.file _ _ _) => true
  | _ => false

/-! ## Opening -/

/-- The descriptor that a path stands for, if it is one of those that stand for descriptors. -/
def descriptorOf? (path : Text) : Option Nat :=
  match String.ofList path with
  | "/dev/stdin" => some 0
  | "/dev/stdout" => some 1
  | "/dev/stderr" => some 2
  | _ =>
    let lead := "/dev/fd/".toList
    if lead.isPrefixOf path then Text.toNat? (path.drop lead.length) else none

/-- What a path leads to that may stand for a descriptor: a stream that is open, or a path. A file that is open
is opened anew. -/
def opened (path : Text) : Act (Nat ⊕ Text) := do
  let p ← get
  match (descriptorOf? path).bind fun d => p.descriptors.lookup d with
  | none => return .inr path
  | some n =>
    match p.machine.streams[n]? with
    | some (.file place _ _) => return .inr (Text.ofBytes (Store.placeText place))
    | _ => return .inl n

/-- Opens a file for reading. -/
def openRead (path : Text) : Act (Except IoFault Nat) := do
  match ← opened path with
  | .inl n => return .ok n
  | .inr path =>
    match (← store).placeOf true path.bytes with
    | .error fault => return .error fault
    | .ok place =>
      match (← store).top.get? place with
      | some (.dir _) => return .ok (← openStream .directory)
      | _ => return .ok (← openStream (Process.streamAt place false))

/-- Opens a file for writing; it is made if it is missing, and emptied unless it is written at its end. -/
def openWrite (path : Text) (atEnd : Bool) : Act (Except IoFault Nat) := do
  match ← opened path with
  | .inl n => return .ok n
  | .inr path =>
    let place ← if atEnd && (← store).isFile path.bytes then
        files (Files.ask (·.placeOf true path.bytes))
      else files (Files.emptyFile path.bytes)
    match place with
    | .error fault => return .error fault
    | .ok place => return .ok (← openStream (Process.streamAt place atEnd))

/-- Opens a file for reading and writing; it is made if it is missing. -/
def openBoth (path : Text) : Act (Except IoFault Nat) := do
  if (← store).isFile path.bytes then openRead path else openWrite path false

/-- Reads a whole file. -/
def readFile (path : Text) : Act (Except IoFault Bytes) := do
  match descriptorOf? path, ← opened path with
  | some d, .inl _ => readAll d
  | _, .inr path => return (← files (Files.readFile path.bytes)).map Content.bytes
  | none, .inl _ => return .error .notFound

/-- Writes a whole file. -/
def writeFile (path : Text) (bs : Bytes) : Act (Except IoFault Unit) := do
  match ← openWrite path false with
  | .error fault => return .error fault
  | .ok stream =>
    let saved := (← get).descriptors
    attach 1 stream
    let _ ← write 1 bs
    modify fun p => { p with descriptors := saved }
    return .ok ()

/-- What is said of a fault. -/
def reason : IoFault → Text
  | .os e => e.describe.toList
  | .other text => text.toList

/-! ## Starting programs -/

/-- The path of a program that another one calls. -/
def findProgram (p : Process) (name : Text) : Except Errno Text :=
  findIn p.store (searchPath p.environment) name

/-- A number for a new process. -/
def newNumber : Act Nat := modifyGet fun p =>
  (p.machine.nextNumber, { p with machine := { p.machine with nextNumber := p.machine.nextNumber + 1 } })

/-- Runs a program to its end. What it does to the machine stays; the directory is the process's own. A
program that runs in place of its process has that one's number. -/
def launch (spawn : Spawn) (inPlace : Bool) (path name : Text) (args : List Text) :
    Act (Except Errno Finish) := do
  let p ← get
  let started ← if inPlace then pure p else pure { p with number := ← newNumber, parent := p.number }
  match spawn path name args { started with machine := (← get).machine } with
  | .error e => return .error e
  | .ok (finish, q) =>
    let store := { q.store with cwd := p.store.cwd }
    set { p with machine := { q.machine with store } }
    return .ok finish

/-- Whether the first line of a file shows that it is no script. -/
def isBinary (bytes : Bytes) : Bool :=
  (Bytes.ofString "\x7fELF").isPrefixOf bytes || ((bytes.take 80).takeWhile (· ≠ 10)).contains 0

/-- Runs the program at a path; one that does not name its interpreter is a script of a shell. -/
def launchAt (spawn : Spawn) (inPlace : Bool) (shell path name : Text) (args : List Text) :
    Act (Except Errno Finish) := do
  match ← launch spawn inPlace path name args with
  | .error e =>
    let text ← readFile path
    if e = .notExecutable && !(text.toOption.any isBinary) then launch spawn inPlace shell shell (path :: args)
    else return .error e
  | .ok finish => return .ok finish

/-- Runs a program that is called by name. -/
def launchNamed (spawn : Spawn) (shell : Text) (name : Text) (args : List Text) :
    Act (Except Errno Finish) := do
  match findProgram (← get) name with
  | .error e => return .error e
  | .ok path => launchAt spawn false shell path name args

end Act

end StubRelease.Shell

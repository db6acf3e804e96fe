/-
# StubRelease.Shell.Redirecting -- where commands read and print

A redirection binds a descriptor of the shell to a file, to another descriptor or to a document, once its
words are expanded. One that is refused is complained of.
-/
import StubRelease.Shell.State

namespace StubRelease.Shell

open Eval

/-- A redirection whose words are expanded. -/
inductive Binding where
  | file (descriptor : Nat) (mode : OpenMode) (path : Text)
  | duplicate (descriptor : Nat) (source : Text)
  | document (descriptor : Nat) (text : Text)
  | both (append : Bool) (path : Text)

namespace Binding

/-- A binding of another descriptor. -/
def on (descriptor : Nat) : Binding → Binding
  | file _ mode path => file descriptor mode path
  | duplicate _ source => duplicate descriptor source
  | document _ text => document descriptor text
  | both append path => both append path

/-- What is said of a file that cannot be opened. -/
def refusal (d : Dialect) (reading : Bool) (path : Text) (fault : IoFault) : Text :=
  match d with
  | .posix =>
    let (verb, missing) := if reading then ("open ", "No such file")
      else ("create ", "Directory nonexistent")
    let reason := if fault = .notFound || fault = .os .notDirectory then missing.toList else Act.reason fault
    "cannot ".toList ++ verb.toList ++ path ++ ": ".toList ++ reason
  | .bash => path ++ ": ".toList ++ Act.reason fault

/-- Binds a descriptor to what was opened, or complains. -/
def attach (descriptor : Nat) (reading : Bool) (path : Text) : Except IoFault Nat → Eval Bool
  | .ok stream => do
    act (Act.attach descriptor stream)
    return true
  | .error fault => do
    complain (refusal (← get).dialect reading path fault)
    return false

/-- Opens a file in a mode. -/
def openFile (mode : OpenMode) (path : Text) : Eval (Except IoFault Nat) := do
  match mode with
  | .read => act (Act.openRead path)
  | .readWrite => act (Act.openBoth path)
  | .append => act (Act.openWrite path true)
  | .clobber => act (Act.openWrite path false)
  | .truncate =>
    let s ← get
    if s.isOn 'C' && s.process.store.isFile path.bytes then return .error (.os .alreadyExists)
    else act (Act.openWrite path false)

/-- Makes a binding, and says whether it could be made. -/
def apply : Binding → Eval Bool
  | file descriptor mode path => do
    attach descriptor (mode = .read) path (← openFile mode path)
  | duplicate descriptor source => do
    let s ← get
    if source = ['-'] then
      act (Act.close descriptor)
      return true
    else
      match if s.dialect = .posix && source.length ≠ 1 then none else Text.toNat? source with
      | some n =>
        match s.process.descriptors.lookup n with
        | some stream =>
          act (Act.attach descriptor stream)
          return true
        | none =>
          complain (source ++ ": Bad file descriptor".toList)
          return false
      | none =>
        if s.dialect = .bash then
          match ← openFile .truncate source with
          | .ok stream =>
            act (Act.attach 1 stream)
            act (Act.attach 2 stream)
            return true
          | .error fault => attach descriptor false source (.error fault)
        else abort "Syntax error: Bad fd number".toList
  | document descriptor text => do
    let stream ← act (Act.openStream (.source text.bytes))
    act (Act.attach descriptor stream)
    return true
  | both append path => do
    match ← openFile (if append then .append else .truncate) path with
    | .ok stream =>
      act (Act.attach 1 stream)
      act (Act.attach 2 stream)
      return true
    | .error fault => attach 1 false path (.error fault)

end Binding

/-! ## Programs -/

namespace Eval

/-- Gives the process the variables that programs are given. -/
def exportAll : Eval Unit := do
  let s ← get
  let environment := s.environment
  let ignored := s.deaf ++ (s.traps.filter (·.2.isEmpty)).map (·.1)
  act (modify fun p => { p with environment, ignored })

/-- The usual shell for programs that do not name their interpreter. -/
def fallback : Dialect → Text
  | .posix => "/bin/sh".toList
  | .bash => "/bin/bash".toList

/-- The path of a program, which is remembered if it was looked for in the shell's own search path. `uses` says
how often it is about to be run. -/
def locate (search : Option Text) (uses : Nat) (name : Text) : Eval (Except Errno Text) := do
  let s ← get
  match if search.isNone then s.remembered.lookup name else none with
  | some (path, count) =>
    set { s with remembered := s.remembered.map fun (known, path, n) =>
      (known, path, if known = name then count + uses else n) }
    return .ok path
  | none =>
    let found := findIn s.process.store (search.getD ((s.value? "PATH".toList).getD [])) name
    match found with
    | .ok path =>
      if search.isNone && !name.contains '/' then
        set { s with remembered := s.remembered ++ [(name, path, uses)] }
    | .error _ => pure ()
    return found

/-- The status of a program that is not found, and what is said of it. -/
def notFound (s : State) (name : Text) (e : Errno) : Nat × Text :=
  match s.dialect with
  | .posix =>
    let path := (s.value? "PATH".toList).getD []
    let denied := e = .accessDenied || (pathsIn path name).any fun path => s.process.store.isDir path.bytes
    (127, name ++ ": ".toList ++ (if denied then Errno.describe .accessDenied else "not found").toList)
  | .bash =>
    if e = .notFound then (127, name ++ ": command not found".toList)
    else (126, name ++ ": ".toList ++ e.describe.toList)

/-- The status of a program that could not be started, and what is said of it. -/
def notStarted (s : State) (path name : Text) (e : Errno) : Nat × Text :=
  match s.dialect with
  | .posix =>
    let missing := e = .notFound || e = .notDirectory
    (if missing || e = .tooManyLinks || e = .nameTooLong then 127 else 126,
      name ++ ": ".toList ++ (if missing then "not found" else e.describe).toList)
  | .bash =>
    if e = .notFound then
      (127, path ++ ": ".toList ++ (if s.process.store.present path.bytes then
        "cannot execute: required file not found" else e.describe).toList)
    else if s.process.store.isDir path.bytes then (126, path ++ ": Is a directory".toList)
    else (126, path ++ ": ".toList ++ e.describe.toList)

/-- Runs a program in a process of its own. With `last` nothing follows it in this shell, which then ends
as the program does. -/
def runProgram (spawn : Spawn) (last : Bool) (search : Option Text) (name : Text) (args : List Text) :
    Eval Unit := do
  finishJobs false
  exportAll
  let _ ← freeSlot
  match ← locate search 1 name with
  | .error e =>
    let (status, text) := notFound (← get) name e
    complain text
    setStatus status
  | .ok path =>
    let s ← get
    match ← act (Act.launchAt spawn (last && s.traps.isEmpty) (fallback s.dialect) path name args) with
    | .ok finish =>
      setStatus (statusOf finish)
      match finish with
      | .killed signal => if last && s.traps.isEmpty then throw (.killed signal) else mourn finish
      | .exited _ => pure ()
    | .error e =>
      let (status, text) := notStarted s path name e
      complain text
      setStatus status

/-- Ends the shell by running a program in its place. -/
def replaceBy (spawn : Spawn) (name : Text) (args : List Text) : Eval Unit := do
  finishJobs false
  exportAll
  let s ← get
  let started ← match ← locate none 0 name with
    | .error e => pure (.error e)
    | .ok path => act (Act.launchAt spawn true (fallback s.dialect) path name args)
  match started with
  | .ok finish =>
    modify fun s => { s with traps := [] }
    match finish with
    | .exited status => throw (.exit status)
    | .killed signal => throw (.killed signal)
  | .error e =>
    let (status, text) := notStarted s name name e
    if s.dialect = .bash && !name.contains '/' && e = .notFound then complain (name ++ ": not found".toList)
    else complain text
    throw (.exit status)

end Eval

end StubRelease.Shell

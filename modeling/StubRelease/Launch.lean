/-
# StubRelease.Launch -- a program from its start to its exit

A program is started with a command line, an environment and a clock, in the current directory of a store.
It prints a notice, or checks its request and works; how it ended is its exit code. A failure's text is the
last line it prints.
-/
import StubRelease.BatchRun
import StubRelease.CommandLine.Program

namespace StubRelease

/-- The directory a program was started in. -/
def invocationDir (s : Store) : Except Failure Path :=
  match s.top.get? s.cwd with
  | some (.dir _) =>
    match Bytes.toString? (Store.placeText s.cwd) with
    | some text => .ok ⟨text⟩
    | none => .error (.notText (Store.placeText s.cwd))
  | _ => .error (.io .notFound)

/-- Reports how a run ended: the exit code, and the failure's text on a line. -/
def report {α : Type} (result : Except Failure α) (stderr : Sink) : Int × Sink :=
  match result with
  | .ok _ => (0, stderr)
  | .error failure => (failure.exitCode, stderr.writeLine failure.message)

/-- How a program is started. -/
structure Launch where
  program : CommandLine.Program
  /-- The command line, the program's own path first. -/
  line : List Bytes
  /-- The value of the variable that overrides the label. -/
  labelOverride : Option Bytes
  now : Instant

/-- How a program ended. -/
structure Exit (σ : Type) where
  code : Int
  stdout : Bytes
  stderr : Bytes
  session : Session σ

namespace Launch

variable {σ : Type}

/-- The variables that are handed to the tools. -/
def environment (l : Launch) : List (String × Bytes) :=
  (l.labelOverride.map fun value => (Label.overrideVariable, value)).toList

/-- The work for one version: the request is checked before the label. -/
def runSingle (e : Executor σ) (l : Launch) (raw : RawRequest) : Run σ Unit := do
  let root ← Run.ofStore invocationDir
  let request ← Run.ofStore fun _ => raw.validate root
  let label ← Run.ofStore fun _ => Label.ofEnvironment l.labelOverride l.now
  let _ ← package e request root label
  pure ()

/-- The work for several versions. -/
def runBatch (e : Executor σ) (l : Launch) (raw : RawBatch) : Run σ Unit := do
  let root ← Run.ofStore invocationDir
  let batch ← Run.ofStore fun _ => raw.validate root
  let label ← Run.ofStore fun _ => Label.ofEnvironment l.labelOverride l.now
  let _ ← buildAll e batch root label
  pure ()

/-- The work a command line asks for, or the notice to print. -/
def work (e : Executor σ) (l : Launch) : Except Failure (CommandLine.Parsed (Run σ Unit)) :=
  match l.program with
  | .single =>
    match CommandLine.readSingle l.line with
    | .ok (.request raw) => .ok (.request (l.runSingle e raw))
    | .ok (.notice notice) => .ok (.notice notice)
    | .error failure => .error failure
  | .batch =>
    match CommandLine.readBatch l.line with
    | .ok (.request raw) => .ok (.request (l.runBatch e raw))
    | .ok (.notice notice) => .ok (.notice notice)
    | .error failure => .error failure

/-- Ends a session with the report of a result. -/
def exit {α : Type} (result : Except Failure α) (s : Session σ) : Exit σ :=
  let (code, stderr) := report result s.stderr
  { code, stdout := s.stdout, stderr := stderr.kept, session := { s with stderr } }

/-- Runs a program from start to exit. Tools print where the program prints. -/
def run (e : Executor σ) (l : Launch) (store : Store) (tools : σ) : Exit σ :=
  let s := Session.start store tools .unlimited true
  match l.work e with
  | .error failure => exit (.error failure : Except Failure Unit) s
  | .ok (.notice notice) =>
    exit (.ok ()) { s with stdout := Bytes.ofString notice.text }
  | .ok (.request work) =>
    let (result, s) := work s
    exit result s

end Launch

end StubRelease

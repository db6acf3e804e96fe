/-
# StubRelease.Tool.Session -- a run and the tools it calls

An executor is the machine that a run is made on: it runs calls, and hands out the entries of directories
in an order of its own. It has a state and may change the store in any way it likes. A session is
everything a run can see or change: the store, the executor's state, the calls so far with their results,
and what was printed. A call that does not succeed ends the run with its failure.
-/
import StubRelease.Progress
import StubRelease.Tool.Call
import StubRelease.Tool.Status
import StubRelease.Work

namespace StubRelease

/-- What a call results in: how it ended, what it printed, and the states it leaves. -/
structure Reply (σ : Type) where
  result : Except Failure WaitStatus
  out : Bytes
  err : Bytes
  tools : σ
  store : Store

/-- Runs calls, and hands out what directories hold. -/
structure Executor (σ : Type) where
  run : Call → σ → Store → Reply σ
  order : Listing.Order := .ascending

/-- A call that was made, how it ended, and the store it left. -/
structure ToolEvent where
  call : Call
  result : Except Failure WaitStatus
  after : Store

/-- Everything a run can see or change. -/
structure Session (σ : Type) where
  store : Store
  tools : σ
  /-- The calls so far, in order. -/
  history : List ToolEvent
  stdout : Bytes
  /-- Where progress goes. -/
  stderr : Sink
  /-- Whether what tools print to their standard error goes there too. -/
  shared : Bool

/-- A session that begins. -/
def Session.start {σ : Type} (store : Store) (tools : σ) (stderr : Sink) (shared : Bool) :
    Session σ :=
  { store, tools, history := [], stdout := [], stderr, shared }

/-- Works in a session and may fail. -/
abbrev Run (σ : Type) := ExceptT Failure (StateM (Session σ))

namespace Run

variable {σ : Type}

/-- A step on the store as a step of a run. -/
def ofWork {α : Type} (step : Work α) : Run σ α := fun s =>
  match step s.store with
  | (result, store) => (result, { s with store })

/-- A file operation as a step of a run. -/
def ofFiles {α : Type} (op : Files α) : Run σ α := ofWork (Work.ofFiles op)

/-- Answers from what the store holds. -/
def ofStore {α : Type} (question : Store → Except Failure α) : Run σ α := fun s =>
  (question s.store, s)

/-- Prints a line of progress. -/
def say (text : String) : Run σ Unit :=
  modify fun s => { s with stderr := s.stderr.writeLine text }

/-- Prints a line of progress unless the run is quiet. -/
def progress (quiet : Bool) (text : String) : Run σ Unit := if quiet then pure () else say text

/-- Makes a call and gives how it ended. -/
def call (e : Executor σ) (c : Call) : Run σ WaitStatus := fun s =>
  let r := e.run c s.tools s.store
  (r.result,
    { s with
      store := r.store
      tools := r.tools
      history := s.history ++ [⟨c, r.result, r.store⟩]
      stdout := s.stdout ++ r.out
      stderr := if s.shared then s.stderr.write r.err else s.stderr })

/-- Makes a call that has to succeed. -/
def callChecked (e : Executor σ) (c : Call) : Run σ Unit := do
  let status ← call e c
  if status.isSuccess then pure () else throw (.commandFailed c.program status.code?)

end Run

end StubRelease

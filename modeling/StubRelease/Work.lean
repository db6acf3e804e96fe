/-
# StubRelease.Work -- steps of a run that touch files only

A step works on the store and fails with a cause. A refused file operation becomes a failure of its own
kind; the store a failing step leaves is part of its result.
-/
import StubRelease.Failure
import StubRelease.Tree.Files

namespace StubRelease

/-- Works on a store and may fail. -/
abbrev Work := ExceptT Failure (StateM Store)

namespace Work

/-- A file operation as a step. -/
def ofFiles {α : Type} (op : Files α) : Work α := fun s =>
  match op s with
  | (.ok a, s) => (.ok a, s)
  | (.error fault, s) => (.error (.io fault), s)

/-- Fails unless a condition on the store holds. -/
def require (condition : Store → Bool) (otherwise : Failure) : Work Unit := do
  if condition (← get) then pure () else throw otherwise

end Work

end StubRelease

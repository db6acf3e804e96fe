/-
# StubRelease.Tool.Scripted -- tools that do what a script of steps says

A scripted executor answers its calls by the steps of a list: each step changes the store, given the
directory of the call, and then ends in its result. Calls past the end of the list succeed and do nothing.
Calls are recorded.
-/
import StubRelease.Tool.Session

namespace StubRelease.Scripted

/-- What one call does, and what it results in. -/
structure Step where
  effect : Path → Work Unit
  result : Except Failure WaitStatus

/-- The calls so far, and the steps that are left. -/
structure Progress where
  calls : List Call
  left : List Step

/-- The executor. -/
def executor : Executor Progress where
  run c p store :=
    let calls := p.calls ++ [c]
    match p.left with
    | [] => { result := .ok .success, out := [], err := [], tools := ⟨calls, []⟩, store }
    | step :: left =>
      match step.effect c.cwd store with
      | (.ok (), store) => { result := step.result, out := [], err := [], tools := ⟨calls, left⟩, store }
      | (.error failure, store) =>
        { result := .error failure, out := [], err := [], tools := ⟨calls, left⟩, store }

end StubRelease.Scripted

/-
# StubRelease.Tool.Rehearsed -- tools that expect given calls

A rehearsed executor has a list of expected calls with their results. Each call takes the first expectation
off the list and is answered with its result if it is the expected one; otherwise, and when nothing is
expected any more, the answer is a mismatch. The store is never touched.
-/
import StubRelease.Tool.Session

namespace StubRelease.Rehearsed

/-- A call that is expected, and what it results in. -/
structure Expectation where
  call : Call
  result : Except Failure WaitStatus

/-- A program with its arguments, as a message shows it. -/
def shown (c : Call) : String := "`" ++ c.program ++ " " ++ " ".intercalate c.arguments ++ "`"

/-- Whether a call is the expected one; directories are compared component by component. -/
def isExpected (expected c : Call) : Bool :=
  expected.program == c.program && expected.arguments == c.arguments && expected.cwd.sameAs c.cwd

/-- The mismatch of a call that comes after all expected ones. -/
def surplus (c : Call) : Failure := .stubMismatch ("unexpected invocation of " ++ shown c)

/-- The mismatch of a call that is not the expected one. -/
def mismatch (expected c : Call) : Failure :=
  .stubMismatch ("expected " ++ shown expected ++ " in " ++ expected.cwd.text ++ ", got " ++ shown c
    ++ " in " ++ c.cwd.text)

/-- Judges a call against the expectations that are left. -/
def answer (c : Call) : List Expectation → Except Failure WaitStatus × List Expectation
  | [] => (.error (surplus c), [])
  | x :: rest => (if isExpected x.call c then x.result else .error (mismatch x.call c), rest)

/-- The executor; its state is the expectations that are left. -/
def executor : Executor (List Expectation) where
  run c expected store :=
    let (result, left) := answer c expected
    { result, out := [], err := [], tools := left, store }

end StubRelease.Rehearsed

/-
# StubRelease.Request -- what is asked for, before and after it is checked

The words of a command line become a request whose mode and versions are supported and whose paths no
longer depend on where the tools run. A request for one version checks the mode before the version; a
request for several keeps the first occurrence of each version and reports the first unsupported one.
-/
import StubRelease.Mode
import StubRelease.Version

namespace StubRelease

/-- The words of a request for one version. -/
structure RawRequest where
  mode : String
  version : String
  sourceDir : Path
  blenderDir : Path
  quiet : Bool
deriving DecidableEq, Repr

/-- A request to package one version. -/
structure Request where
  mode : Mode
  version : Version
  sourceDir : Path
  blenderDir : Path
  quiet : Bool
deriving DecidableEq, Repr

/-- The words of a request for several versions. -/
structure RawBatch where
  versions : List String
  skipAggregate : Bool
  sourceDir : Path
  blenderDir : Path
  quiet : Bool
deriving DecidableEq, Repr

/-- A request to release several versions. -/
structure Batch where
  versions : List Version
  sourceDir : Path
  blenderDir : Path
  aggregate : Bool
  quiet : Bool
deriving DecidableEq, Repr

/-- Checks a request; relative paths are seen from `cwd`. -/
def RawRequest.validate (r : RawRequest) (cwd : Path) : Except Failure Request := do
  let mode ← Mode.parse r.mode
  let version ← Version.parse r.version
  pure ⟨mode, version, cwd.join r.sourceDir, cwd.join r.blenderDir, r.quiet⟩

namespace Batch

/-- Adds the versions of a list that were not seen before, in order. -/
def selectFrom (seen : List Version) : List String → Except Failure (List Version)
  | [] => .ok seen
  | value :: rest =>
    match Version.parse value with
    | .error failure => .error failure
    | .ok v => selectFrom (if v ∈ seen then seen else seen ++ [v]) rest

/-- The versions a list asks for: all of them if it is empty. -/
def select (values : List String) : Except Failure (List Version) :=
  if values.isEmpty then .ok Version.all else selectFrom [] values

end Batch

/-- Checks a request; relative paths are seen from `cwd`. -/
def RawBatch.validate (b : RawBatch) (cwd : Path) : Except Failure Batch := do
  let versions ← Batch.select b.versions
  pure ⟨versions, cwd.join b.sourceDir, cwd.join b.blenderDir, !b.skipAggregate, b.quiet⟩

/-- The request for one version of a batch. -/
def Batch.request (b : Batch) (v : Version) : Request :=
  ⟨.release, v, b.sourceDir, b.blenderDir, b.quiet⟩

end StubRelease

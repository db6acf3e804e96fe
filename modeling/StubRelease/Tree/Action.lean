/-
# StubRelease.Tree.Action -- laying out a tree

A tree is described by actions that make directories, files and links, or take something away. Directories
above what is made are made too.
-/
import StubRelease.Tree.Files

namespace StubRelease

/-- One change of a tree; its paths are seen from a base directory. -/
inductive TreeAction where
  | dir (path : Bytes)
  | file (path data : Bytes) (executable : Bool)
  | link (path target : Bytes)
  | remove (path : Bytes)
deriving Repr

namespace TreeAction

/-- A byte path seen from a directory. -/
def seenFrom (base path : Bytes) : Bytes :=
  if path.head? = some Route.slashByte then path
  else
    match base.getLast? with
    | none => path
    | some b => if b = Route.slashByte then base ++ path else base ++ Route.slashByte :: path

/-- Makes the directories above a path. -/
def makeParents (path : Bytes) : Files Unit := do
  let r ← Files.ask fun _ => Route.read path
  match r.parent? with
  | none => pure ()
  | some above =>
    if above.absolute || !above.hops.isEmpty then Files.makeDirsAlong above.hops.length above

/-- Removes a file, a link or a whole tree. -/
def removeAny (path : Bytes) : Files Unit := do
  match ← Files.ask (·.nodeAt false path) with
  | .dir _ => Files.removeTree path
  | _ => Files.removeFile path

/-- Carries an action out. -/
def apply (base : Bytes) : TreeAction → Files Unit
  | dir path => Files.makeDirs (seenFrom base path)
  | file path data executable => do
    makeParents (seenFrom base path)
    Files.writeFile (seenFrom base path) (.plain data)
    if executable then Files.makeExecutable (seenFrom base path)
  | link path target => do
    makeParents (seenFrom base path)
    Files.makeLink target (seenFrom base path)
  | remove path => removeAny (seenFrom base path)

/-- Carries actions out in order, up to the first that is refused. -/
def applyAll (base : Bytes) : List TreeAction → Files Unit
  | [] => pure ()
  | a :: rest => do
    a.apply base
    applyAll base rest

end TreeAction

end StubRelease

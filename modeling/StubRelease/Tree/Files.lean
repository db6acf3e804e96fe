/-
# StubRelease.Tree.Files -- file operations

The operations on a store, each with the refusals of a Unix system and in the order in which that system
finds them. An operation that is refused may have done part of its work: the store it leaves is part of
its result.
-/
import StubRelease.Tree.Store

namespace StubRelease

/-- Works on a store and may be refused. -/
abbrev Files := ExceptT IoFault (StateM Store)

namespace Files

/-- Refuses with a numbered fault. -/
def refuse {α : Type} (e : Errno) : Files α := throw (.os e)

/-- Hands a question to the store. -/
def ask {α : Type} (question : Store → Except IoFault α) : Files α := do
  liftExcept (question (← get))
where
  liftExcept : Except IoFault α → Files α
    | .ok a => pure a
    | .error fault => throw fault

/-- Looks a name up in the directory at a place. -/
def entry (dir : List Name) (name : Name) : Files (Option Node) := do
  match (← get).entry dir name with
  | .ok node => pure node
  | .error e => refuse e

/-! ## Directories -/

/-- Makes one directory. -/
def makeDirAlong (r : Route) : Files Unit := do
  match (← get).placeOfRoute r with
  | .error e => refuse e
  | .ok ⟨_, .fixed _, _⟩ => refuse .alreadyExists
  | .ok ⟨dir, .name name, _⟩ =>
    match ← entry dir name with
    | some _ => refuse .alreadyExists
    | none => modify (·.put dir name .emptyDir)

/-- Makes one directory. -/
def makeDir (path : Bytes) : Files Unit := do
  makeDirAlong (← ask fun _ => Route.read path)

/-- Makes a directory unless one is there already. -/
def ensureDirAlong (r : Route) : Files Unit :=
  tryCatch (makeDirAlong r) fun fault => do
    if (← get).isDirAlong r then pure () else throw fault

/-- Makes a directory and those above it; the number bounds how many. -/
def makeDirsAlong : Nat → Route → Files Unit
  | 0, r => ensureDirAlong r
  | n + 1, r =>
    tryCatch (makeDirAlong r) fun fault => do
      if fault = .notFound then
        match r.parent? with
        | none => throw (.other "failed to create whole tree")
        | some above =>
          if above.absolute || !above.hops.isEmpty then makeDirsAlong n above
          ensureDirAlong r
      else if (← get).isDirAlong r then pure ()
      else throw fault

/-- Makes a directory and those above it that are missing. -/
def makeDirs (path : Bytes) : Files Unit := do
  if path = [] then pure ()
  else
    let r ← ask fun _ => Route.read path
    makeDirsAlong r.hops.length r

/-- The names in a directory, in the order in which they are handed out. -/
def readDir (order : Listing.Order) (path : Bytes) : Files (List Name) := do
  match ← ask (·.nodeAt true path) with
  | .dir entries => pure (order.arrange path (Listing.names entries))
  | _ => refuse .notDirectory

/-- Removes an empty directory. The one a path stays in, the one above it and the root are refused before
they are looked at. -/
def removeDir (path : Bytes) : Files Unit := do
  match ← ask (·.place path) with
  | ⟨_, .fixed (some .up), _⟩ => refuse .directoryNotEmpty
  | ⟨_, .fixed none, _⟩ => refuse .busy
  | ⟨_, .fixed _, _⟩ => refuse .invalidArgument
  | ⟨dir, .name name, _⟩ =>
    match ← entry dir name with
    | none => refuse .notFound
    | some (.dir []) => modify (·.drop dir name)
    | some (.dir (_ :: _)) => refuse .directoryNotEmpty
    | some _ => refuse .notDirectory

/-! ## Files -/

/-- Where a file is written: a path that ends in a slash, also one that a link leads to, names a
directory. -/
def writeSpot (path : Bytes) : Files Spot := do
  match ← ask (·.place path) with
  | ⟨_, .fixed _, _⟩ => refuse .isDirectory
  | ⟨_, .name _, true⟩ => refuse .isDirectory
  | ⟨dir, .name name, false⟩ =>
    let s ← get
    match s.locate true path with
    | .ok spot => pure spot
    | .error fault =>
      if s.leadsToSlash Store.linkLimit dir name then refuse .isDirectory
      else throw fault

/-- Opens a file for writing: an existing one is emptied, a missing one made. Gives its place. -/
def emptyFile (path : Bytes) : Files (List Name) := do
  match ← writeSpot path with
  | .free dir name =>
    modify (·.put dir name (.ofBytes []))
    pure (dir ++ [name])
  | .taken place =>
    match (← get).top.get? place with
    | some (.file _ _) =>
      modify (·.fill place (.plain []))
      pure place
    | _ => refuse .isDirectory

/-- Writes a whole file. -/
def writeFile (path : Bytes) (content : Content) : Files Unit := do
  let place ← emptyFile path
  modify (·.fill place content)

/-- Reads a whole file. -/
def readFile (path : Bytes) : Files Content := do
  match ← ask (·.nodeAt true path) with
  | .file content _ => pure content
  | _ => refuse .isDirectory

/-- Marks a file as executable. -/
def makeExecutable (path : Bytes) : Files Unit := do
  let place ← ask (·.placeOf true path)
  match (← get).top.get? place with
  | some (.file content _) => modify (·.replace place (.file content true))
  | _ => pure ()

/-- Copies a file with its permission to be executed. The destination is emptied before the source is
read, so a file copied onto itself is lost. -/
def copyFile (source dest : Bytes) : Files Unit := do
  let origin ← ask (·.placeOf true source)
  match (← get).top.get? origin with
  | some (.file _ executable) =>
    let place ← emptyFile dest
    let content := match (← get).top.get? origin with
      | some (.file content _) => content
      | _ => default
    modify (·.replace place (.file content executable))
  | _ => throw (.other "the source path is neither a regular file nor a symlink to a regular file")

/-- Removes a file or a link. -/
def removeFile (path : Bytes) : Files Unit := do
  match ← ask (·.place path) with
  | ⟨_, .fixed _, _⟩ => refuse .isDirectory
  | ⟨dir, .name name, slash⟩ =>
    match ← entry dir name with
    | none => refuse .notFound
    | some (.dir _) => refuse .isDirectory
    | some _ => if slash then refuse .notDirectory else modify (·.drop dir name)

/-- Removes a directory with everything in it; of a link only the link itself. The directory is emptied
first, so a path that stays in it leaves it empty, and one that no longer leads anywhere afterwards is
done. -/
def removeTree (path : Bytes) : Files Unit := do
  let place ← ask (·.placeOf false path)
  match (← get).top.get? place with
  | some (.dir _) =>
    modify (·.replace place .emptyDir)
    tryCatch (removeDir path) fun fault => if fault = .notFound then pure () else throw fault
  | some (.link _) => removeFile path
  | _ => refuse .notDirectory

/-- Makes a symbolic link. -/
def makeLink (target path : Bytes) : Files Unit := do
  match ← ask (·.place path) with
  | ⟨_, .fixed _, _⟩ => refuse .alreadyExists
  | ⟨dir, .name name, slash⟩ =>
    match ← entry dir name with
    | some _ => refuse .alreadyExists
    | none => if slash then refuse .notFound else modify (·.put dir name (.link target))

/-! ## Renaming -/

/-- Whether a node may take the place of another: a directory that of an empty directory, anything else
that of anything but a directory. -/
def mayReplace (node : Node) : Option Node → Except Errno Unit
  | none => .ok ()
  | some (.dir entries) =>
    if node.isDir then if entries.isEmpty then .ok () else .error .directoryNotEmpty
    else .error .isDirectory
  | some _ => if node.isDir then .error .notDirectory else .ok ()

/-- Moves an entry, which may take the place of another one. -/
def rename (source dest : Bytes) : Files Unit := do
  let p ← ask (·.place source)
  let q ← ask (·.place dest)
  match p.last, q.last with
  | .name a, .name b =>
    match ← entry p.dir a with
    | none => refuse .notFound
    | some node =>
      let old ← entry q.dir b
      let here := p.dir ++ [a]
      let there := q.dir ++ [b]
      if !node.isDir && (p.slash || q.slash) then refuse .notDirectory
      else if here.isPrefixOf q.dir then refuse .invalidArgument
      else if there.isPrefixOf p.dir then refuse .directoryNotEmpty
      else if here = there then pure ()
      else
        match mayReplace node old with
        | .error e => refuse e
        | .ok () => modify fun s => (s.drop p.dir a).put q.dir b node
  | _, _ => refuse .busy

end Files

end StubRelease

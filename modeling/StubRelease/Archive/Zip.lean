/-
# StubRelease.Archive.Zip -- zipping a tree of generated modules

A tree is zipped under one directory named at the top of the archive: every directory comes before what it
holds, and the entries of a directory follow each other in ascending byte order. A link in the tree is
opened like a file. When something cannot be added the archive keeps what was added so far, a file that
could not be read included as an empty one. Whoever reads the archive while it is written gets what was
written of it.
-/
import StubRelease.Work

namespace StubRelease.Archive

/-- Members in the order they were added, and why adding stopped early, if it did. -/
structure Packed where
  members : List Member
  failure : Option Failure

namespace Packed

/-- One member, nothing wrong. -/
def one (m : Member) : Packed := ⟨[m], none⟩

/-- Goes on unless adding has stopped. -/
def followedBy (p : Packed) (next : Packed) : Packed :=
  match p.failure with
  | some _ => p
  | none => ⟨p.members ++ next.members, next.failure⟩

/-- One part after the other. -/
def all (parts : List Packed) : Packed := parts.foldr followedBy ⟨[], none⟩

/-- How many members are files. -/
def files (p : Packed) : Nat := (p.members.filter Member.isFile).length

end Packed

/-- The path of an entry of a directory. -/
def entryPath (dir : Bytes) (name : Name) : Bytes :=
  match dir.getLast? with
  | none => name
  | some b => if b = Route.slashByte then dir ++ name else dir ++ Route.slashByte :: name

/-- The name in an archive of an entry of a directory. -/
def memberName (dir : Bytes) (name : Name) : Bytes := dir ++ Route.slashByte :: name

/-- What a file holds that is opened by its path. -/
def contentAt (s : Store) (path : Bytes) : Except IoFault Content :=
  match s.nodeAt true path with
  | .ok (.file content _) => .ok content
  | .ok _ => .error (.os .isDirectory)
  | .error fault => .error fault

/-- What is found while an archive is written into the file at a place. -/
def whileWriting (s : Store) (place : List Name) : Store := s.fill place .unfinished

/-- Whether a path is too long to be opened. -/
def tooLong (path : Bytes) : Bool := Route.lengthLimit ≤ path.length

/-- The fault of a directory whose path is too long to be listed. -/
def listingFault (path : Bytes) : IoFault :=
  .other ("IO error for operation on " ++ path.lossy ++ ": " ++ (IoFault.os .nameTooLong).message)

mutual

/-- The members of a node that stands at `path` and goes by `name` in the archive. -/
def zipNode (s : Store) (name path : Bytes) : Node → Packed
  | .dir entries =>
    let here := Member.directory (name ++ [Route.slashByte])
    if tooLong path then ⟨[here], some (.io (listingFault path))⟩
    else (Packed.one here).followedBy (zipEntries s name path entries)
  | .file content _ =>
    if tooLong path then ⟨[.file name default], some (.io (.os .nameTooLong))⟩
    else .one (.file name content)
  | .link _ =>
    match contentAt s path with
    | .ok content => .one (.file name content)
    | .error fault => ⟨[.file name default], some (.io fault)⟩

/-- The members of the entries of a directory. -/
def zipEntries (s : Store) (name path : Bytes) : List (Name × Node) → Packed
  | [] => ⟨[], none⟩
  | (n, child) :: rest =>
    match Bytes.toString? n with
    | none => ⟨[], some (.notText (entryPath path n))⟩
    | some _ =>
      (zipNode s (memberName name n) (entryPath path n) child).followedBy
        (zipEntries s name path rest)

end

/-- A written zip archive: where it is, and how many files it holds. -/
structure ZipSummary where
  path : Path
  files : Nat
deriving DecidableEq, Repr

/-- Zips the directory `source` under `rootName` into `output`. A `source` that is a link to a directory
goes into the archive as a link would. -/
def zipDirectory (source : Path) (rootName : String) (output : Path) : Work ZipSummary := do
  Work.require (·.isDir source.bytes) (.missingInput source)
  let place ← Work.ofFiles (Files.emptyFile output.bytes)
  let s := whileWriting (← get) place
  let packed := match s.nodeAt false source.bytes with
    | .ok node => zipNode s (Bytes.ofString rootName) source.bytes node
    | .error fault => ⟨[], some (.io fault)⟩
  modify (·.fill place (.archive .zip packed.members))
  match packed.failure with
  | some failure => throw failure
  | none => pure ⟨output, packed.files⟩

end StubRelease.Archive

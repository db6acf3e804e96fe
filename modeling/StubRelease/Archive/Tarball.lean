/-
# StubRelease.Archive.Tarball -- packing the outputs of a batch

A tarball holds a directory under the directory's own name, every link replaced by what it leads to. The
entries of a directory follow each other as the directory hands them out. When something cannot be added
the tarball keeps what was added so far.
-/
import StubRelease.Archive.Zip
import StubRelease.Layout

namespace StubRelease.Archive

mutual

/-- The members of a node that stands at `path` and goes by `name` in the tarball. `jump` goes on in a
directory that a link leads to. -/
def tarNodeWith (order : Listing.Order) (jump : Bytes → Bytes → Node → Packed) (s : Store)
    (name path : Bytes) : Node → Packed
  | .dir entries =>
    if tooLong path then ⟨[], some (.io (.os .nameTooLong))⟩
    else
      let parts := tarEntriesWith order jump s name path entries
      (Packed.one (.directory name)).followedBy <|
        .all ((Listing.inOrder (order.arrange path (Listing.names entries)) parts).map (·.2))
  | .file content _ =>
    if tooLong path then ⟨[], some (.io (.os .nameTooLong))⟩
    else .one (.file name content)
  | .link _ =>
    match s.nodeAt true path with
    | .ok node => jump name path node
    | .error fault => ⟨[], some (.io fault)⟩

/-- The members of every entry of a directory, under the entry's name. -/
def tarEntriesWith (order : Listing.Order) (jump : Bytes → Bytes → Node → Packed) (s : Store)
    (name path : Bytes) : List (Name × Node) → Listing Packed
  | [] => []
  | (n, child) :: rest =>
    (n, tarNodeWith order jump s (memberName name n) (entryPath path n) child) ::
      tarEntriesWith order jump s name path rest

end

/-- The members of a node, following at most a number of links below each other. -/
def tarNode (order : Listing.Order) (s : Store) : Nat → Bytes → Bytes → Node → Packed
  | 0 => tarNodeWith order (fun _ _ _ => ⟨[], some (.io (.os .tooManyLinks))⟩) s
  | n + 1 => tarNodeWith order (tarNode order s n) s

/-- Packs the directory `source` into `output`. -/
def createTarball (order : Listing.Order) (source output : Path) : Work Unit := do
  Work.require (·.isDir source.bytes) (.missingInput source)
  match Path.lastName? source.bytes with
  | none => throw (.missingInput source)
  | some rootName =>
    let place ← Work.ofFiles (Files.emptyFile output.bytes)
    let s := whileWriting (← get) place
    let packed := match s.nodeAt true source.bytes with
      | .ok node => tarNode order s (Store.linkLimit + 1) rootName source.bytes node
      | .error fault => ⟨[], some (.io fault)⟩
    modify (·.fill place (.archive .tarball packed.members))
    match packed.failure with
    | some failure => throw failure
    | none => pure ()

/-- The tarball of a directory under the root. -/
def tarballPath (root : Path) (name : String) : Path := root / (name ++ ".tar.gz")

/-- Packs directories under the root, each into its tarball beside it. -/
def tarballs (order : Listing.Order) (root : Path) : List String → Work (List Path)
  | [] => pure []
  | name :: rest => do
    createTarball order (root / name) (tarballPath root name)
    return tarballPath root name :: (← tarballs order root rest)

/-- Packs the archives and the distributions. -/
def aggregateOutputs (order : Listing.Order) (root : Path) : Work (List Path) :=
  tarballs order root [Layout.rawModulesName, Layout.releaseName]

end StubRelease.Archive

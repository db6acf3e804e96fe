/-
# StubRelease.Main -- the command line

Reads the tree of the current directory, runs a program on it, and writes back what changed. Which of the
two programs runs is decided by the name the executable was started under. Tools are run as programs of the
machine or as scripts of the tree, where a file that names its interpreter may be run; links are neither
read nor written.
-/
import Std.Time.DateTime.Timestamp
import StubRelease.Launch
import StubRelease.Shell.Executor

namespace StubRelease.Main

open IO.FS

/-- The tree of what a directory holds. -/
partial def readTree (found : Array DirEntry) : IO Node := do
  let mut entries : Listing Node := []
  for entry in found do
    let name := Bytes.ofString entry.fileName
    match (← entry.path.symlinkMetadata).type with
    | .dir => entries := Listing.put name (← readTree (← entry.path.readDir)) entries
    | .file =>
      let data := (← readBinFile entry.path).data.toList
      let isScript := (Bytes.ofString "#!").isPrefixOf data
      entries := Listing.put name (.file (.plain data) isScript) entries
    | _ => pure ()
  return .dir entries

/-- Makes the tree below a directory what it should be; `before` is what it was. -/
partial def writeTree (dir : String) (before after : Listing Node) : IO Unit := do
  for (name, node) in before do
    if (Listing.find? name after).isNone then
      let path := dir ++ "/" ++ name.lossy
      if node.isDir then removeDirAll path else removeFile path
  for (name, node) in after do
    let path := dir ++ "/" ++ name.lossy
    match node, Listing.find? name before with
    | .dir entries, some (.dir old) => writeTree path old entries
    | .dir entries, _ =>
      createDirAll path
      writeTree path [] entries
    | .file content _, some (.file old _) =>
      if content.bytes != old.bytes then writeBinFile path ⟨content.bytes.toArray⟩
    | .file content _, _ => writeBinFile path ⟨content.bytes.toArray⟩
    | .link _, _ => pure ()

/-- The tree with one directory's tree at a place. -/
def treeAt : List Name → Node → Node
  | [], node => node
  | name :: rest, node => .dir [(name, treeAt rest node)]

/-- The tree of a machine with one directory's tree at a place. -/
def machineWith : List Name → Node → Node
  | [], node => node
  | name :: rest, node => (Shell.Installed.tree []).put [] name (treeAt rest node)

/-- The program of an executable's name. -/
def programOf (path : String) : CommandLine.Program :=
  if (Path.fileName? ⟨path⟩) = some CommandLine.Program.batch.name then .batch else .single

def write (stream : IO.FS.Stream) (bs : Bytes) : IO Unit := do
  stream.write ⟨bs.toArray⟩
  stream.flush

end StubRelease.Main

open StubRelease in
/-- Runs the program the executable is named for. -/
def main (args : List String) : IO UInt32 := do
  let app := (← IO.appPath).toString
  let cwd ← IO.currentDir
  let now ← Std.Time.Timestamp.now
  let place := (Path.pieces (· == '/') cwd.toString.toList).filter (!·.isEmpty)
    |>.map fun piece => Bytes.ofString (String.ofList piece)
  let here ← Main.readTree (← cwd.readDir)
  let launch : Launch :=
    { program := Main.programOf app
      line := (app :: args).map Bytes.ofString
      labelOverride := (← IO.getEnv Label.overrideVariable).map Bytes.ofString
      now := ⟨now.toNanosecondsSinceUnixEpoch.val⟩ }
  let ended := launch.run (Shell.executorWith launch.environment) ⟨Main.machineWith place here, place⟩ ()
  let before := (here.entries? []).getD []
  let after := (ended.session.store.top.entries? place).getD []
  Main.writeTree cwd.toString before after
  Main.write (← IO.getStdout) ended.stdout
  Main.write (← IO.getStderr) ended.stderr
  return ended.code.toNat.toUInt32

/-
# StubRelease.Staging -- turning a working directory into a project

After the generator has run, the generated modules are moved up out of its output directory, the packaging
metadata is copied in, and the readme is converted. Once the setup script has built distributions, they are
moved to the release tree. No move replaces anything.
-/
import StubRelease.Archive.Zip
import StubRelease.Tool.Session

namespace StubRelease.Staging

/-- The generator's output in a working directory. -/
def generatedDir (workDir : Path) : Path := workDir / Layout.generatedName

/-- Moves `source` to `dest`, where nothing may stand. -/
def movePath (source dest : Path) : Work Unit := do
  Work.require (fun s => !s.present dest.bytes) (.destinationExists dest)
  Work.ofFiles (Files.rename source.bytes dest.bytes)

/-- The fault of a generated entry whose name is no text. -/
def nameFault (path : Bytes) : IoFault := .other ("PathBuf contains invalid UTF-8: " ++ path.lossy)

/-- Moves one generated entry up. -/
def promoteEntry (workDir : Path) (name : Name) : Work Unit :=
  match Bytes.toString? name with
  | none =>
    throw (.io (nameFault (Archive.entryPath (generatedDir workDir).bytes name)))
  | some text => movePath (generatedDir workDir / text) (workDir / text)

/-- Moves generated entries up in the order they are listed, and removes the emptied directory. -/
def promoteListed (workDir : Path) (listing : List Name) : Work Nat := do
  each listing
  Work.ofFiles (Files.removeDir (generatedDir workDir).bytes)
  pure listing.length
where
  each : List Name → Work Unit
    | [] => pure ()
    | name :: rest => do
      promoteEntry workDir name
      each rest

/-- Moves every generated entry up and gives how many there were. -/
def promoteGenerated (order : Listing.Order) (workDir : Path) : Work Nat := do
  let generated := generatedDir workDir
  Work.require (·.isDir generated.bytes) (.missingInput generated)
  let listing ← Work.ofFiles (Files.readDir order generated.bytes)
  promoteListed workDir listing

/-- Copies one metadata file into a working directory. -/
def copyMetadataFile (workDir scriptDir : Path) (name : String) : Work Unit := do
  let source := scriptDir / name
  Work.require (·.isFile source.bytes) (.missingInput source)
  Work.ofFiles (Files.copyFile source.bytes (workDir / name).bytes)

/-- Copies the packaging metadata into a working directory. -/
def copyMetadata (workDir : Path) (c : Config) : Work Unit :=
  each Config.metadataNames
where
  each : List String → Work Unit
    | [] => pure ()
    | name :: rest => do
      copyMetadataFile workDir c.scriptDir name
      each rest

/-- Converts the readme. -/
def convertReadme {σ : Type} (e : Executor σ) (workDir : Path) (c : Config) : Run σ Unit := do
  Run.ofWork (Work.require (·.isFile c.readme.bytes) (.missingInput c.readme))
  Run.callChecked e (.readme c workDir)

/-- Moves the built distributions into `releaseDir`, which is made if needed. -/
def publishDist (workDir releaseDir : Path) : Work Path := do
  let dist := workDir / Layout.distName
  Work.require (·.isDir dist.bytes) (.missingInput dist)
  Work.ofFiles (Files.makeDirs releaseDir.bytes)
  let dest := releaseDir / Layout.distName
  movePath dist dest
  pure dest

end StubRelease.Staging

/-
# StubRelease.Pipeline -- one run from start to finish

A run generates modules, archives them, lays out a project and calls the setup script, strictly in
sequence. A release is built in a directory of its own, which stays when a step fails; a development
install is built in the release directory. Nothing is rolled back.
-/
import StubRelease.Config.Load
import StubRelease.Staging

namespace StubRelease

/-- What a successful run leaves. -/
structure Outcome where
  /-- The archive of generated modules. -/
  archive : Path
  /-- The distributions; a development install has none. -/
  dist : Option Path
deriving DecidableEq, Repr

/-- What one run works with. -/
structure Job (σ : Type) where
  executor : Executor σ
  config : Config
  layout : Layout
  sourceDir : Path
  blenderDir : Path
  quiet : Bool

namespace Job

variable {σ : Type}

def progress (j : Job σ) (text : String) : Run σ Unit := Run.progress j.quiet text

/-- Makes the two output directories. -/
def makeOutputDirs (j : Job σ) : Run σ Unit := do
  Run.ofFiles (Files.makeDirs j.layout.rawModulesDir.bytes)
  Run.ofFiles (Files.makeDirs j.layout.releaseDir.bytes)

/-- Archives the generated modules of a working directory and moves the archive to its place. -/
def archiveGenerated (j : Job σ) (workDir : Path) : Run σ Unit := do
  let draft := j.layout.draftArchivePath workDir
  let summary ← Run.ofWork
    (Archive.zipDirectory (Staging.generatedDir workDir) j.layout.archiveRootName draft)
  Run.ofFiles (Files.rename summary.path.bytes j.layout.archivePath.bytes)

/-- Generates, archives, and lays out a project in a working directory. -/
def generateAndStage (j : Job σ) (mode : Mode) (workDir : Path) : Run σ Path := do
  j.progress Progress.generating
  Run.callChecked j.executor
    (.generator j.config mode j.layout.version j.sourceDir j.blenderDir workDir)
  j.progress (Progress.archiving j.layout.archiveFileName)
  j.archiveGenerated workDir
  let _ ← Run.ofWork (Staging.promoteGenerated j.executor.order workDir)
  Run.ofWork (Staging.copyMetadata workDir j.config)
  j.progress Progress.converting
  Staging.convertReadme j.executor workDir j.config
  pure j.layout.archivePath

/-- Calls the setup script with one command after the other. -/
def runSetup (j : Job σ) (workDir : Path) : List SetupCommand → Run σ Unit
  | [] => pure ()
  | command :: rest => do
    j.progress (Progress.runningSetup command.text)
    Run.callChecked j.executor (.setup j.config command workDir)
    runSetup j workDir rest

/-- Builds a release in its working directory and publishes the distributions. -/
def releaseIn (j : Job σ) (workDir : Path) : Run σ Outcome := do
  let archive ← j.generateAndStage .release workDir
  j.runSetup workDir SetupCommand.forRelease
  let dist ← Run.ofWork (Staging.publishDist workDir j.layout.versionReleaseDir)
  pure ⟨archive, some dist⟩

/-- Nothing may stand where the working directory will be made. -/
def requireNoWorkDir (layout : Layout) : Work Unit :=
  Work.require (fun s => !s.present layout.workDir.bytes) (.workDirExists layout.workDir)

/-- Builds a release in a fresh working directory, which is removed on success. -/
def release (j : Job σ) : Run σ Outcome := do
  j.makeOutputDirs
  Run.ofWork (requireNoWorkDir j.layout)
  let workDir := j.layout.workDir
  Run.ofFiles (Files.makeDir workDir.bytes)
  let outcome ← j.releaseIn workDir
  Run.ofFiles (Files.removeTree workDir.bytes)
  match outcome.dist with
  | some dist => j.progress (Progress.released j.layout.version dist)
  | none => pure ()
  pure outcome

/-- Installs a development build from the release directory. -/
def develop (j : Job σ) : Run σ Outcome := do
  j.makeOutputDirs
  let workDir := j.layout.releaseDir
  let archive ← j.generateAndStage .develop workDir
  j.runSetup workDir [.develop]
  j.progress (Progress.installed j.layout.version workDir)
  pure ⟨archive, none⟩

/-- One run. -/
def run (j : Job σ) (mode : Mode) : Run σ Outcome := do
  j.progress (Progress.start mode j.layout.version)
  match mode with
  | .release => j.release
  | .develop => j.develop

end Job

/-- Packages one version: nothing may stand at the working directory's place, the configuration has to be
valid, and then the run starts. -/
def package {σ : Type} (e : Executor σ) (r : Request) (root : Path) (label : Label) :
    Run σ Outcome := do
  let layout : Layout := ⟨root, r.version, label⟩
  Run.ofWork (Job.requireNoWorkDir layout)
  let config ← Run.ofStore (Config.load · root)
  Job.run ⟨e, config, layout, r.sourceDir, r.blenderDir, r.quiet⟩ r.mode

end StubRelease

/-
# StubRelease.Layout -- where a run reads and writes

Every path of a run follows from the directory it was started in, the version and the label. Nothing here
looks at a file.
-/
import StubRelease.Label
import StubRelease.Path
import StubRelease.Version

namespace StubRelease

namespace Layout

/-- The directory that receives the archives of generated modules. -/
def rawModulesName : String := "raw_modules"

/-- The directory that receives the distributions. -/
def releaseName : String := "release"

/-- The directory the generator writes, seen from the one it runs in. -/
def generatedName : String := "out"

/-- The directory the setup script writes distributions into. -/
def distName : String := "dist"

/-- What every archive's name begins with. -/
def archiveStem : String := "fake_bpy_modules"

end Layout

/-- The places of one run. -/
structure Layout where
  root : Path
  version : Version
  label : Label

namespace Layout

/-- The throwaway directory a release is built in. -/
def workDir (l : Layout) : Path := l.root / ("tmp-" ++ l.version.text)

def rawModulesDir (l : Layout) : Path := l.root / rawModulesName

def releaseDir (l : Layout) : Path := l.root / releaseName

/-- The directory that receives this version's distributions. -/
def versionReleaseDir (l : Layout) : Path := l.releaseDir / l.version.text

/-- The one directory at the top of the archive. -/
def archiveRootName (l : Layout) : String :=
  archiveStem ++ "_" ++ l.version.text ++ "-" ++ l.label.text

def archiveFileName (l : Layout) : String := l.archiveRootName ++ ".zip"

/-- Where the finished archive stands. -/
def archivePath (l : Layout) : Path := l.rawModulesDir / l.archiveFileName

/-- Where the archive is written before it is moved. -/
def draftArchivePath (l : Layout) (dir : Path) : Path := dir / l.archiveFileName

end Layout

end StubRelease

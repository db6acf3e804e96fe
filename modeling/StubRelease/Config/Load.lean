/-
# StubRelease.Config.Load -- the configuration of a checkout

The settings are read from the configuration file at the root when a file stands there, links followed,
and are the standard ones otherwise. Either way their paths are seen from the root.
-/
import StubRelease.Config
import StubRelease.Work

namespace StubRelease.Config

/-- Where the configuration file of a checkout stands. -/
def path (root : Path) : Path := root / fileName

/-- The bytes of a file read as text: an archive is no text. -/
def textOf (content : Content) : Except IoFault String :=
  match content with
  | .plain bytes =>
    match Bytes.toString? bytes with
    | some text => .ok text
    | none => .error .notText
  | .archive _ _ | .unfinished => .error .notText

/-- The text of the configuration file. -/
def readText (s : Store) (file : Path) : Except Failure String :=
  match s.nodeAt true file.bytes with
  | .error fault => .error (.invalidConfig file fault.message)
  | .ok (.file content _) =>
    match textOf content with
    | .ok text => .ok text
    | .error fault => .error (.invalidConfig file fault.message)
  | .ok _ => .error (.invalidConfig file (IoFault.os .isDirectory).message)

/-- The settings of the checkout at `root`, before their paths are resolved. -/
def loadRaw (s : Store) (root : Path) : Except Failure Config :=
  if s.isFile (path root).bytes then
    match readText s (path root) with
    | .ok text => parse (path root) text
    | .error failure => .error failure
  else .ok standard

/-- The settings of the checkout at `root`. -/
def load (s : Store) (root : Path) : Except Failure Config :=
  (loadRaw s root).map (·.resolvedAgainst root)

end StubRelease.Config

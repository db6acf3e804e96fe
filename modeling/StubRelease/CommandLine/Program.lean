/-
# StubRelease.CommandLine.Program -- the two command lines

`fake-bpy-packager` packages one version in either mode, `fake-bpy-build-all` releases several. This
module holds their grammars and help texts, and turns a command line into a request, an informational
text, or a failure.
-/
import StubRelease.CommandLine.Scan
import StubRelease.Request

namespace StubRelease.CommandLine

/-- The two programs. -/
inductive Program where
  | single
  | batch
deriving DecidableEq, Repr

/-- A text a program prints instead of working. -/
inductive Notice where
  | help (text : String)
  | version (text : String)
deriving DecidableEq, Repr

def Notice.text : Notice → String
  | help text | version text => text

namespace Program

/-- The name a program goes by when it is not told another. -/
def name : Program → String
  | single => "fake-bpy-packager"
  | batch => "fake-bpy-build-all"

/-- The version both programs carry. -/
def versionText : String := "fake-bpy-packager 0.3.0\n"

def grammar : Program → Grammar
  | single =>
    { shorts := [('q', .quiet), ('h', .showHelp), ('V', .showVersion)]
      longs := [.quiet, .showHelp, .showVersion]
      positionals := ["MODE", "VERSION", "SOURCE_DIR", "BLENDER_DIR"] }
  | batch =>
    { shorts := [('q', .quiet), ('h', .showHelp)]
      longs := [.version, .skipAggregate, .quiet, .showHelp]
      positionals := ["SOURCE_DIR", "BLENDER_DIR"] }

/-- The first line of both help texts. -/
def about : String := "Release pipeline that generates, archives, and packages the fake bpy module"

/-- The help text after the line that names the program. -/
def helpBody : Program → String
  | single =>
    "
Arguments:
  <MODE>         Deploy mode: `develop` or `release`
  <VERSION>      Blender version to generate modules for
  <SOURCE_DIR>   Blender source checkout handed to the generator
  <BLENDER_DIR>  Blender installation handed to the generator

Options:
  -q, --quiet    Suppress progress output
  -h, --help     Print help
  -V, --version  Print version

SUPPORTED VERSIONS:
  2.78 2.79 2.80 2.81 2.82

ENVIRONMENT:
  RELEASE_VERSION   Label embedded in archive names [default: today, YYYYMMDD]
  RUST_LOG          Log verbosity (e.g. info, debug)

EXAMPLES:
  Build release distributions for Blender 2.79:
    $ fake-bpy-packager release 2.79 ~/src/blender ~/blender-2.79b

  Install a development build for Blender 2.80:
    $ fake-bpy-packager develop 2.80 ~/src/blender ~/blender-2.80
"
  | batch =>
    "
Arguments:
  <SOURCE_DIR>   Blender source checkout handed to the generator
  <BLENDER_DIR>  Blender installation handed to the generator

Options:
      --version <VERSION>  Version to build (repeatable) [default: every supported version]
      --no-aggregate       Skip packing `raw_modules/` and `release/` into tarballs
  -q, --quiet              Suppress progress output
  -h, --help               Print help
"

/-- The help text for a program that was started under a name. -/
def help (p : Program) (name : String) : String :=
  about ++ "\n\nUsage: " ++ Terminal.shown name ++ " [OPTIONS]"
    ++ String.join (p.grammar.positionals.map fun value => " <" ++ value ++ ">") ++ "\n" ++ p.helpBody

/-- The name a program was started under: the last name of its path, if that is text. -/
def startedAs (p : Program) (path : Option Bytes) : String :=
  ((path.bind Path.lastName?).bind Bytes.toString?).getD p.name

end Program

/-- A command line that was understood. -/
inductive Parsed (α : Type) where
  | request (request : α)
  | notice (notice : Notice)
deriving DecidableEq, Repr

/-- Reads a whole command line, the program's own path first. -/
def Program.read (p : Program) (line : List Bytes) : Except Failure (Parsed Found) :=
  match p.grammar.scan line.tail with
  | .ok found => .ok (.request found)
  | .error .help => .ok (.notice (.help (p.help (p.startedAs line.head?))))
  | .error .version => .ok (.notice (.version Program.versionText))
  | .error (.refused refusal) => .error (.invalidInvocation refusal.message)

/-- The request of a command line for one version, from its four values. -/
def Found.rawRequest (f : Found) : RawRequest :=
  let value (i : Nat) : String := f.values.getD i ""
  ⟨value 0, value 1, ⟨value 2⟩, ⟨value 3⟩, f.quiet⟩

/-- The request of a command line for several versions, from its two values. -/
def Found.rawBatch (f : Found) : RawBatch :=
  let value (i : Nat) : String := f.values.getD i ""
  ⟨f.versions, f.skipAggregate, ⟨value 0⟩, ⟨value 1⟩, f.quiet⟩

/-- Reads a command line of the program for one version. -/
def readSingle (line : List Bytes) : Except Failure (Parsed RawRequest) :=
  match Program.single.read line with
  | .ok (.request found) => .ok (.request found.rawRequest)
  | .ok (.notice notice) => .ok (.notice notice)
  | .error failure => .error failure

/-- Reads a command line of the program for several versions. -/
def readBatch (line : List Bytes) : Except Failure (Parsed RawBatch) :=
  match Program.batch.read line with
  | .ok (.request found) => .ok (.request found.rawBatch)
  | .ok (.notice notice) => .ok (.notice notice)
  | .error failure => .error failure

end StubRelease.CommandLine

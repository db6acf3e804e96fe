/-
# StubRelease.Tool.Call -- the tools a run calls

A run calls three tools: the generator script through a shell, the converter of the readme, and the setup
script through an interpreter. A call is the program, its arguments and the directory it runs in.
-/
import StubRelease.Config
import StubRelease.Layout
import StubRelease.Request

namespace StubRelease

/-- A program, its arguments, and the directory it runs in. -/
structure Call where
  program : String
  arguments : List String
  cwd : Path
deriving DecidableEq, Repr

/-- The commands of the setup script. -/
inductive SetupCommand where
  | sdist
  | bdistWheel
  | develop
deriving DecidableEq, Repr

namespace SetupCommand

/-- The command as the setup script reads it. -/
def text : SetupCommand → String
  | sdist => "sdist"
  | bdistWheel => "bdist_wheel"
  | develop => "develop"

/-- The commands of a release, in order. -/
def forRelease : List SetupCommand := [sdist, bdistWheel]

end SetupCommand

namespace Call

/-- The name of the setup script. -/
def setupScript : String := "setup.py"

/-- The readme the setup script reads. -/
def convertedReadme : String := "README.rst"

/-- What the generator script is told: a release names the version after the tag. -/
def generatorArguments (mode : Mode) (version : Version) (sourceDir blenderDir : Path) :
    List String :=
  [sourceDir.text, blenderDir.text, version.sourceTag]
    ++ (match mode with
      | .release => [version.text]
      | .develop => [])
    ++ [Layout.generatedName]

/-- Runs the generator script. -/
def generator (c : Config) (mode : Mode) (version : Version) (sourceDir blenderDir cwd : Path) :
    Call where
  program := c.shell
  arguments := c.generatorScript.text :: generatorArguments mode version sourceDir blenderDir
  cwd

/-- Converts the readme. -/
def readme (c : Config) (cwd : Path) : Call where
  program := c.pandoc
  arguments := ["-f", "markdown", "-t", "rst", "-o", convertedReadme, c.readme.text]
  cwd

/-- Runs the setup script. -/
def setup (c : Config) (command : SetupCommand) (cwd : Path) : Call where
  program := c.python
  arguments := [setupScript, command.text]
  cwd

end Call

end StubRelease

/-
# StubRelease.Tool.Imitation -- tools that imitate the real ones

The imitated generator writes a small module tree, the imitated converter a readme, and the imitated setup
script one distribution for each command. Calls are recorded. A failure can be injected into every call
whose program or arguments contain a given word.
-/
import StubRelease.Tool.Session

namespace StubRelease.Imitation

/-- A word, and the exit code of the calls that mention it. -/
structure Injection where
  word : String
  code : Int
deriving DecidableEq, Repr

/-- Whether a text contains a word. -/
def occurs (word : List Char) : List Char → Bool
  | [] => word.isEmpty
  | c :: rest => word.isPrefixOf (c :: rest) || occurs word rest

/-- Whether a call mentions a word in its program or its arguments. -/
def mentions (c : Call) (word : String) : Bool :=
  (c.program :: c.arguments).any fun text => occurs word.toList text.toList

/-- The text of the imitated package. -/
def packageText : String := "from . import types\n"

/-- The text of the imitated module beside it. -/
def moduleText : String := "class Vector: ...\n"

/-- The text of the imitated readme. -/
def readmeText : String := "fake-bpy-module\n"

/-- The file of an imitated source distribution. -/
def sdistName : String := "fake-bpy-module.tar.gz"

/-- The file of an imitated wheel. -/
def wheelName : String := "fake_bpy_module-py3-none-any.whl"

def writeText (path : Path) (text : String) : Files Unit :=
  Files.writeFile path.bytes (.plain (Bytes.ofString text))

/-- Writes a small module tree. -/
def generate (out : Path) : Files Unit := do
  Files.makeDirs (out / "bpy").bytes
  writeText (out / "bpy/__init__.py") packageText
  writeText (out / "mathutils.py") moduleText

/-- Writes a distribution that holds its own name. -/
def writeDist (cwd : Path) (name : String) : Files Unit := do
  let dist := cwd / Layout.distName
  Files.makeDirs dist.bytes
  writeText (dist / name) name

/-- What a call does to the files, by the form of its arguments. -/
def effect (cwd : Path) (arguments : List String) : Files Unit :=
  match generatorOutput? arguments with
  | some out => generate (cwd / out)
  | none =>
    if arguments = ["setup.py", "sdist"] then writeDist cwd sdistName
    else if arguments = ["setup.py", "bdist_wheel"] then writeDist cwd wheelName
    else
      match readmeOutput? arguments with
      | some output => writeText (cwd / output) readmeText
      | none => pure ()
where
  /-- The last argument, if the first one ends in the generator's name. -/
  generatorOutput? : List String → Option String
    | script :: next :: rest =>
      if Config.generatorName.toList.isSuffixOf script.toList then (next :: rest).getLast? else none
    | _ => none
  /-- The argument between `-o` and the last one. -/
  readmeOutput? (arguments : List String) : Option String :=
    match arguments.reverse with
    | _ :: output :: option :: _ => if option = "-o" then some output else none
    | _ => none

/-- The executor; its state is the calls so far. -/
def executor (injection : Option Injection) (order : Listing.Order) : Executor (List Call) where
  order
  run c calls store :=
    let calls := calls ++ [c]
    let injected := (injection.filter fun i => mentions c i.word).map (·.code)
    match injected with
    | some code =>
      { result := .ok (.ofExitCode code), out := [], err := [], tools := calls, store }
    | none =>
      match Work.ofFiles (effect c.cwd c.arguments) store with
      | (.ok (), store) => { result := .ok .success, out := [], err := [], tools := calls, store }
      | (.error failure, store) =>
        { result := .error failure, out := [], err := [], tools := calls, store }

end StubRelease.Imitation

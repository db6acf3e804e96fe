/-
# StubRelease.Config -- where the scripts and tools are

A checkout keeps its scripts and its readme at fixed places, and the tools have usual names. A
configuration file may override each of the five settings by a string; any other key or value is refused.
Of several defects the one of the least key is reported, so the order of the lines does not matter.
-/
import StubRelease.Failure
import StubRelease.Toml.Document

namespace StubRelease

/-- The places and names a run works with. -/
structure Config where
  /-- The directory of the generator script and the packaging metadata. -/
  scriptDir : Path
  /-- The readme that is converted. -/
  readme : Path
  /-- The shell that runs the generator script. -/
  shell : String
  /-- The interpreter that runs the setup script. -/
  python : String
  /-- The converter of the readme. -/
  pandoc : String
deriving DecidableEq, Repr

namespace Config

/-- The settings of a checkout without a configuration file. -/
def standard : Config := ⟨⟨"src"⟩, ⟨"README.md"⟩, "bash", "python3", "pandoc"⟩

/-- The name of the configuration file. -/
def fileName : String := "fake_bpy_packager.toml"

/-- The name of the generator script. -/
def generatorName : String := "gen_module.sh"

/-- The packaging metadata, in the order it is copied. -/
def metadataNames : List String := ["setup.py", "MANIFEST.in"]

def generatorScript (c : Config) : Path := c.scriptDir / generatorName

/-- The packaging metadata in the script directory. -/
def metadataFiles (c : Config) : List Path := metadataNames.map fun name => c.scriptDir / name

/-- The settings with their relative paths seen from `root`. -/
def resolvedAgainst (c : Config) (root : Path) : Config :=
  { c with scriptDir := root.join c.scriptDir, readme := root.join c.readme }

/-- Resolved settings stay what they are, whatever they are resolved against next. -/
theorem resolvedAgainst_resolvedAgainst (c : Config) {root : Path} (other : Path)
    (h : root.isAbsolute = true) :
    (c.resolvedAgainst root).resolvedAgainst other = c.resolvedAgainst root := by
  simp [resolvedAgainst, Path.join_join_of_isAbsolute _ _ h]

/-! ## Settings -/

/-- The five settings. -/
inductive Setting where
  | scriptDir
  | readme
  | shell
  | python
  | pandoc
deriving DecidableEq, Repr

namespace Setting

def all : List Setting := [scriptDir, readme, shell, python, pandoc]

/-- The key of a setting. -/
def key : Setting → String
  | scriptDir => "script_dir"
  | readme => "readme"
  | shell => "shell"
  | python => "python"
  | pandoc => "pandoc"

/-- The setting of a key. -/
def ofKey? (key : String) : Option Setting := all.find? (fun s => s.key == key)

/-- What a message expects of a setting's value. -/
def expected : Setting → String
  | scriptDir | readme => "a UTF-8 path string"
  | shell | python | pandoc => "a string"

end Setting

/-- Gives a setting a value. -/
def set (c : Config) (s : Setting) (value : String) : Config :=
  match s with
  | .scriptDir => { c with scriptDir := ⟨value⟩ }
  | .readme => { c with readme := ⟨value⟩ }
  | .shell => { c with shell := value }
  | .python => { c with python := value }
  | .pandoc => { c with pandoc := value }

/-- The value of a setting. -/
def get (c : Config) : Setting → String
  | .scriptDir => c.scriptDir.text
  | .readme => c.readme.text
  | .shell => c.shell
  | .python => c.python
  | .pandoc => c.pandoc

/-! ## Reading -/

/-- The reason given for a document that is not TOML. -/
def malformedReason : String := "<toml syntax>"

/-- The reason given for a key that is no setting. -/
def unknownKeyReason (key : String) : String :=
  "unknown field `" ++ key ++ "`, expected one of "
    ++ ", ".intercalate (Setting.all.map fun s => "`" ++ s.key ++ "`")

/-- The reason given for a value that is no string. -/
def wrongTypeReason (s : Setting) (found : String) : String :=
  "invalid type: " ++ found ++ ", expected " ++ s.expected

/-- What is wrong with an entry, if anything is. -/
def defect? (entry : String × Toml.Value) : Option String :=
  match Setting.ofKey? entry.1 with
  | none => some (unknownKeyReason entry.1)
  | some s =>
    match entry.2 with
    | .string _ => none
    | v =>
      match v.describe with
      | some found => some (wrongTypeReason s found)
      | none => some malformedReason

/-- Applies an entry that has no defect. -/
def apply (c : Config) (entry : String × Toml.Value) : Config :=
  match Setting.ofKey? entry.1, entry.2 with
  | some s, .string text => c.set s text
  | _, _ => c

/-- The entries in ascending order of their keys. -/
def sorted (entries : Toml.Entries) : Toml.Entries :=
  entries.mergeSort fun a b => decide (a.1 ≤ b.1)

/-- The settings of a table, or the defect of its least defective key. -/
def ofEntries (entries : Toml.Entries) : Except String Config :=
  match (sorted entries).findSome? defect? with
  | some reason => .error reason
  | none => .ok (entries.foldl apply standard)

/-- Reads the text of the configuration file at `path`. -/
def parse (path : Path) (text : String) : Except Failure Config :=
  match Toml.parse text with
  | none => .error (.invalidConfig path malformedReason)
  | some entries =>
    match ofEntries entries with
    | .error reason => .error (.invalidConfig path reason)
    | .ok c => .ok c

/-- Reads a text that is refused as malformed also for a number without a machine form, wherever it
stands. -/
def parseBounded (path : Path) (text : String) : Except Failure Config :=
  match Toml.parse text with
  | none => .error (.invalidConfig path malformedReason)
  | some entries =>
    if Toml.Value.entriesFit entries then parse path text
    else .error (.invalidConfig path malformedReason)

end Config

end StubRelease

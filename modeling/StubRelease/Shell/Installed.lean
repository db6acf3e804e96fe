/-
# StubRelease.Shell.Installed -- the programs of a machine

A machine has the usual programs in its usual place. A program is a file that says so in its first bytes and
names what it does, so that copies and links of it are programs too.
-/
import StubRelease.Shell.Utility.Comparing
import StubRelease.Shell.Utility.Dump
import StubRelease.Shell.Utility.Editor
import StubRelease.Shell.Utility.Filters
import StubRelease.Shell.Utility.Find
import StubRelease.Shell.Utility.Search
import StubRelease.Shell.Utility.Starting
import StubRelease.Shell.Utility.Telling
import StubRelease.Shell.Utility.Trees

namespace StubRelease.Shell

namespace Installed

open Utility

/-- Programs that work on their own, by name. -/
def commands : List (String × Command) :=
  [("true", constant 0), ("false", constant 1), ("echo", Utility.echo), ("printf", Utility.printf),
   ("test", Utility.test), ("[", Utility.test), ("pwd", Utility.pwd), ("yes", yes), ("printenv", printenv),
   ("seq", seq), ("basename", basename), ("dirname", dirname), ("expr", expr), ("sleep", sleep),
   ("mkdir", mkdir), ("rmdir", rmdir), ("rm", rm), ("touch", touch), ("chmod", chmod), ("cp", cp), ("mv", mv),
   ("ln", ln), ("install", install), ("truncate", truncate), ("mktemp", mktemp), ("ls", ls),
   ("readlink", readlink), ("realpath", realpath), ("stat", stat), ("cat", cat), ("tac", tac), ("rev", rev),
   ("tee", tee), ("head", head), ("tail", tail), ("wc", wc), ("sort", sort), ("uniq", uniq), ("cut", cut),
   ("paste", paste), ("fold", fold), ("nl", nl), ("tr", tr), ("comm", comm), ("cmp", cmp), ("diff", diff),
   ("grep", grepAs (some .soughtBasic)), ("egrep", grepAs (some .soughtExtended)), ("fgrep", grepAs none), ("sed", sed),
   ("which", which), ("sync", constant 0), ("dir", ls), ("vdir", ls), ("uname", uname), ("whoami", whoami),
   ("arch", arch), ("nproc", nproc), ("id", Utility.id), ("date", date), ("chown", Utility.chown "user"),
   ("chgrp", Utility.chown "group"), ("unlink", unlink), ("base64", base64), ("od", od)]

/-- Programs that start others, by name. -/
def starters (spawn : Spawn) : List (String × Program) :=
  let run (words : List Text) : Act Nat := do
    match words with
    | [] => return 0
    | program :: args =>
      match ← Act.launchNamed spawn plainShell program args with
      | .ok (.exited 0) => return 0
      | .ok _ => return 1
      | .error e => Act.failAs "find".toList 1 (Act.quote program ++ ": ".toList ++ e.describe.toList)
  let needsProgram (name : Text) : Act Finish := do
    return .exited (← Act.lacksOperand name 125)
  [("env", env spawn), ("xargs", xargs spawn), ("timeout", timeout spawn),
   ("find", .ofCommand (find run)),
   ("nice", unchanged spawn [.valued "n" ["adjustment"]] 125 "" fun _ _ => do
      Act.printLine ['0']
      return .exited 0),
   ("nohup", unchanged spawn [] 125 "failed to run command " fun name _ => needsProgram name),
   ("setsid", unchanged spawn [.plain "w" ["wait"], .plain "f" ["fork"], .plain "c" ["ctty"]] 1 ""
      fun name _ => needsProgram name),
   ("stdbuf", unchanged spawn [.valued "o" ["output"], .valued "i" ["input"], .valued "e" ["error"]] 125 ""
      fun name _ => needsProgram name)]

/-- The shells, by name. -/
def shells : List (String × Dialect) := [("sh", .posix), ("dash", .posix), ("bash", .bash)]

/-- The names of all programs. -/
def names : List String :=
  commands.map (·.1) ++ (starters fun _ _ _ _ => .error .notFound).map (·.1) ++ shells.map (·.1)

/-- What a program's file begins with. -/
def mark : Bytes := [0x7f, 0x45, 0x4c, 0x46]

/-- The file of a program. -/
def fileOf (name : String) : Node := .file (.plain (mark ++ Bytes.ofString name)) true

/-- The name of the program that a file's content is. -/
def nameIn? (content : Bytes) : Option Bytes :=
  if mark.isPrefixOf content then some (content.drop mark.length) else none

/-- The listing of some files and directories. -/
def listing (entries : List (String × Node)) : Listing Node :=
  entries.foldl (fun l (name, node) => Listing.put (Bytes.ofString name) node l) []

/-- The tree of a machine with one more directory tree in it. -/
def tree (extra : List (String × Node)) : Node :=
  let empty := Node.emptyDir
  let dir (entries : List (String × Node)) : Node := .dir (listing entries)
  .dir (listing ([
    ("bin", .link (Bytes.ofString "usr/bin")),
    ("sbin", .link (Bytes.ofString "usr/sbin")),
    ("lib", .link (Bytes.ofString "usr/lib")),
    ("usr", dir [("bin", dir (names.map fun name => (name, fileOf name))), ("sbin", empty), ("lib", empty),
      ("share", empty), ("local", dir [("bin", empty), ("lib", empty)])]),
    ("dev", dir [("null", .file (.plain []) false), ("tty", .file (.plain []) false)]),
    ("etc", dir [("passwd", .ofBytes (Bytes.ofString "root:x:0:0:root:/root:/bin/bash\n"))]),
    ("home", empty), ("opt", empty), ("proc", empty), ("root", empty), ("tmp", empty),
    ("var", dir [("tmp", empty), ("log", empty)])] ++ extra))

end Installed

end StubRelease.Shell

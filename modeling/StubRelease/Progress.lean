/-
# StubRelease.Progress -- what a run says while it works

The lines of a run are texts; where they go is a sink that keeps what it is given until it is full. A
full sink refuses everything and nobody minds: progress is a best effort. Main statement: a sink with a
limit keeps the beginning of what an unlimited one keeps.
-/
import StubRelease.Mode
import StubRelease.Version

namespace StubRelease

namespace Progress

/-- Printed before a run starts. -/
def start (mode : Mode) (version : Version) : String :=
  "Packaging fake bpy module for Blender " ++ version.text ++ " (" ++ mode.text ++ ")..."

/-- Printed after a release. -/
def released (version : Version) (dist : Path) : String :=
  "Released fake bpy module for Blender " ++ version.text ++ " to " ++ dist.text

/-- Printed after a development install. -/
def installed (version : Version) (dir : Path) : String :=
  "Installed fake bpy module for Blender " ++ version.text ++ " in development mode from " ++ dir.text

/-- Printed after a batch. -/
def packaged (count : Nat) : String :=
  "Packaged " ++ toString count ++ " Blender " ++ (if count = 1 then "version" else "versions")

/-- One tarball of a batch. -/
def tarball (path : Path) : String := "  - " ++ path.text

def generating : String := "Generating modules..."

def archiving (fileName : String) : String := "Archiving " ++ fileName ++ "..."

def converting : String := "Converting README to reStructuredText..."

def runningSetup (command : String) : String := "Running setup.py " ++ command ++ "..."

end Progress

/-- Where progress goes: the bytes kept so far, and how many can be kept at all. -/
structure Sink where
  limit : Option Nat
  kept : Bytes
deriving DecidableEq, Repr

namespace Sink

/-- A sink that keeps everything. -/
def unlimited : Sink := ⟨none, []⟩

/-- Keeps of `bs` what still fits. -/
def write (s : Sink) (bs : Bytes) : Sink :=
  match s.limit with
  | none => { s with kept := s.kept ++ bs }
  | some n => { s with kept := (s.kept ++ bs).take n }

/-- Writes a text and a line end. -/
def writeLine (s : Sink) (text : String) : Sink := s.write (Bytes.ofString (text ++ "\n"))

@[simp] theorem limit_write (s : Sink) (bs : Bytes) : (s.write bs).limit = s.limit := by
  unfold write; split <;> simp_all

/-- Writing to a sink of limit `n` keeps the first `n` bytes of what an unlimited one keeps. -/
theorem kept_write_of_limit {s t : Sink} {n : Nat} (bs : Bytes) (hs : s.limit = some n)
    (ht : t.limit = none) (h : s.kept = t.kept.take n) :
    (s.write bs).kept = ((t.write bs).kept).take n := by
  simp only [write, hs, ht, h]
  rw [List.take_append, List.take_append, List.take_take, List.length_take]
  congr 1
  · simp
  · congr 1; omega

end Sink

end StubRelease

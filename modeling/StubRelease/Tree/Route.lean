/-
# StubRelease.Tree.Route -- the way a path describes

A path is read as hops from the root or from the current directory: stay, go up, go into an entry. Main
statement: the hops of a joined path are the hops of its parts, one after the other.
-/
import StubRelease.Errno
import StubRelease.Path
import StubRelease.Tree.Listing

namespace StubRelease

/-- One step of a way. -/
inductive Hop where
  | here
  | up
  | into (name : Name)
deriving DecidableEq, Repr

namespace Hop

/-- The step a piece between slashes stands for; an empty piece is none. -/
def ofPiece? (piece : Bytes) : Option Hop :=
  let dot := Bytes.ofChar '.'
  if piece = [] then none
  else if piece = [dot] then some here
  else if piece = [dot, dot] then some up
  else some (into piece)

end Hop

/-- The way a path describes. -/
structure Route where
  /-- Whether it starts at the root. -/
  absolute : Bool
  hops : List Hop
  /-- Whether the path ends in a slash. -/
  slash : Bool
deriving DecidableEq, Repr

namespace Route

def slashByte : UInt8 := Bytes.ofChar '/'

/-- The hops of a path. -/
def hopsOf (bs : Bytes) : List Hop := (Path.pieces (· == slashByte) bs).filterMap Hop.ofPiece?

/-- The way of a path. -/
def ofBytes (bs : Bytes) : Route :=
  ⟨bs.head? == some slashByte, hopsOf bs, bs.getLast? == some slashByte⟩

/-- No path is as long as this, in bytes. -/
def lengthLimit : Nat := 4096

/-- No name is longer than this, in bytes. -/
def nameLimit : Nat := 255

/-- The way of a path the operating system accepts. -/
def read (bs : Bytes) : Except IoFault Route :=
  if 0 ∈ bs then .error .nulInPath
  else if bs = [] then .error (.os .notFound)
  else if lengthLimit ≤ bs.length then .error (.os .nameTooLong)
  else .ok (ofBytes bs)

/-- The hops of a path whose last entry is looked at: after a final slash it has to be a directory. -/
def allHops (r : Route) : List Hop := if r.slash then r.hops ++ [.here] else r.hops

/-- The path one directory up; the root and the empty path have none. No `.` is left at its end. -/
def parent? (r : Route) : Option Route :=
  match r.hops.reverse.dropWhile (· = .here) with
  | _ :: rest => some ⟨r.absolute, (rest.dropWhile (· = .here)).reverse, false⟩
  | [] => none

end Route

/-- The hops of two paths with a slash in between are the hops of both. -/
theorem Route.hopsOf_append_slash (p q : Bytes) :
    hopsOf (p ++ slashByte :: q) = hopsOf p ++ hopsOf q := by
  rw [hopsOf, Path.pieces_append_cons (by simp), List.filterMap_append, hopsOf, hopsOf]

end StubRelease

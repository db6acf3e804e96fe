/-
# StubRelease.Tree.Store -- finding what a path leads to

A store is the tree of all files and the place of the current directory. Looking a path up walks its hops
from one of the two, replacing every symbolic link on the way by its target; at most forty links are
followed in one walk. The walk ends at a place, that is at a list of names without any link, or at a free
name in a directory. Main statement: plain names that lead to a node below a place are walked as they
stand (`walk_into`).
-/
import StubRelease.Tree.Node
import StubRelease.Tree.Route

namespace StubRelease

/-- The tree of all files, and the place of the current directory. -/
structure Store where
  top : Node
  cwd : List Name

/-- Where a walk ends. -/
inductive Spot where
  /-- Something stands at the place. -/
  | taken (place : List Name)
  /-- Nothing has the name in the directory at the place. -/
  | free (dir : List Name) (name : Name)
deriving DecidableEq, Repr

namespace Store

/-- How many links one walk follows at most. -/
def linkLimit : Nat := 40

/-- Walks hops from a place. `jump` goes on when a link has been replaced by its target; a link at the
very end is replaced only if `follow` says so. -/
def walkWith (jump : List Name → List Hop → Except Errno Spot) (top : Node) (follow : Bool) :
    List Name → List Hop → Except Errno Spot
  | place, [] => .ok (.taken place)
  | place, hop :: rest =>
    match top.get? place with
    | some (.dir entries) =>
      match hop with
      | .here => walkWith jump top follow place rest
      | .up => walkWith jump top follow place.dropLast rest
      | .into name =>
        if Route.nameLimit < name.length then .error .nameTooLong
        else
          match Listing.find? name entries with
          | none => if rest.isEmpty then .ok (.free place name) else .error .notFound
          | some (.link target) =>
            if rest.isEmpty && !follow then .ok (.taken (place ++ [name]))
            else
              let way := Route.ofBytes target
              jump (if way.absolute then [] else place) (way.allHops ++ rest)
          | some _ => walkWith jump top follow (place ++ [name]) rest
    | some _ => .error .notDirectory
    | none => .error .notFound

/-- Walks hops from a place, following a bounded number of links. -/
def walk (top : Node) (follow : Bool) : Nat → List Name → List Hop → Except Errno Spot
  | 0 => walkWith (fun _ _ => .error .tooManyLinks) top follow
  | n + 1 => walkWith (walk top follow n) top follow

/-- What stands between a place and a node below it is a directory. -/
theorem get?_of_get?_append_cons {top node : Node} {place : List Name} {name : Name}
    {rest : List Name} (h : top.get? (place ++ name :: rest) = some node) :
    ∃ entries child, top.get? place = some (.dir entries) ∧
      Listing.find? name entries = some child ∧ child.get? rest = some node := by
  rw [Node.get?_append] at h
  cases hp : top.get? place with
  | none => simp [hp] at h
  | some n =>
    rw [hp, Option.bind_some] at h
    cases n with
    | file _ _ => simp [Node.get?] at h
    | link _ => simp [Node.get?] at h
    | dir entries =>
      rw [Node.get?_dir_cons] at h
      cases hc : Listing.find? name entries with
      | none => simp [hc] at h
      | some child => exact ⟨entries, child, rfl, hc, by simpa [hc] using h⟩

/-- Names that lead to a node which is no link are walked as they stand. -/
theorem walkWith_into (jump : List Name → List Hop → Except Errno Spot) {top node : Node}
    (follow : Bool) (place names : List Name) (h : top.get? (place ++ names) = some node)
    (hlink : node.isLink = false) (hshort : ∀ name ∈ names, name.length ≤ Route.nameLimit) :
    walkWith jump top follow place (names.map .into) = .ok (.taken (place ++ names)) := by
  induction names generalizing place with
  | nil => simp [walkWith]
  | cons name rest ih =>
    obtain ⟨entries, child, hdir, hchild, hrest⟩ := get?_of_get?_append_cons h
    have hname : ¬ Route.nameLimit < name.length := by
      have := hshort name (by simp); omega
    have hnext := ih (place ++ [name]) (by simpa using h)
      (fun n hn => hshort n (List.mem_cons_of_mem _ hn))
    simp only [List.map_cons, walkWith, hdir, hname, if_false, hchild]
    cases child with
    | link _ =>
      cases rest with
      | nil => simp at hrest; subst hrest; simp [Node.isLink] at hlink
      | cons _ _ => simp [Node.get?] at hrest
    | file _ _ => simpa using hnext
    | dir _ => simpa using hnext

theorem walk_into {top node : Node} (follow : Bool) (n : Nat) (place names : List Name)
    (h : top.get? (place ++ names) = some node) (hlink : node.isLink = false)
    (hshort : ∀ name ∈ names, name.length ≤ Route.nameLimit) :
    walk top follow n place (names.map .into) = .ok (.taken (place ++ names)) := by
  cases n <;> exact walkWith_into _ follow place names h hlink hshort

/-- Where a way starts. -/
def origin (s : Store) (r : Route) : List Name := if r.absolute then [] else s.cwd

/-- Where a way leads; `follow` is about a link at its very end. -/
def follow (s : Store) (follow : Bool) (r : Route) : Except Errno Spot :=
  walk s.top follow linkLimit (s.origin r) r.allHops

/-- Where a path leads. -/
def locate (s : Store) (toTarget : Bool) (path : Bytes) : Except IoFault Spot :=
  match Route.read path with
  | .error fault => .error fault
  | .ok r =>
    match s.follow toTarget r with
    | .error e => .error (.os e)
    | .ok spot => .ok spot

/-- The place of what stands at a path. -/
def placeOf (s : Store) (toTarget : Bool) (path : Bytes) : Except IoFault (List Name) :=
  match s.locate toTarget path with
  | .error fault => .error fault
  | .ok (.taken place) => .ok place
  | .ok (.free _ _) => .error .notFound

/-- What stands at a path. -/
def nodeAt (s : Store) (toTarget : Bool) (path : Bytes) : Except IoFault Node :=
  match s.placeOf toTarget path with
  | .error fault => .error fault
  | .ok place =>
    match s.top.get? place with
    | some node => .ok node
    | none => .error .notFound

/-- Whether something stands at a path, links followed. -/
def present (s : Store) (path : Bytes) : Bool := (s.nodeAt true path).isOk

/-- Whether an entry of any kind stands at a path. -/
def hasEntry (s : Store) (path : Bytes) : Bool := (s.nodeAt false path).isOk

/-- Whether a directory stands at a path, links followed. -/
def isDir (s : Store) (path : Bytes) : Bool :=
  match s.nodeAt true path with
  | .ok node => node.isDir
  | .error _ => false

/-- Whether a file stands at a path, links followed. -/
def isFile (s : Store) (path : Bytes) : Bool :=
  match s.nodeAt true path with
  | .ok node => node.isFile
  | .error _ => false

/-! ## The last step of a path -/

/-- What the last step of a path names. -/
inductive Last where
  | name (name : Name)
  /-- No entry: the step is `.` or `..`, or there is none and the path is the root. -/
  | fixed (step : Option Hop)
deriving DecidableEq, Repr

/-- The last step of a path, and the directory it is taken in. -/
structure Place where
  dir : List Name
  last : Last
  /-- Whether the path ends in a slash. -/
  slash : Bool
deriving DecidableEq, Repr

/-- The directory that the last step of a way is taken in. -/
def placeOfRoute (s : Store) (r : Route) : Except Errno Place :=
  match walk s.top true linkLimit (s.origin r) r.hops.dropLast with
  | .error e => .error e
  | .ok (.free _ _) => .error .notFound
  | .ok (.taken dir) =>
    match s.top.get? dir with
    | some (.dir _) =>
      match r.hops.getLast? with
      | some (.into name) => .ok ⟨dir, .name name, r.slash⟩
      | step => .ok ⟨dir, .fixed step, r.slash⟩
    | some _ => .error .notDirectory
    | none => .error .notFound

/-- The last step of a path. -/
def place (s : Store) (path : Bytes) : Except IoFault Place :=
  match Route.read path with
  | .error fault => .error fault
  | .ok r =>
    match s.placeOfRoute r with
    | .error e => .error (.os e)
    | .ok p => .ok p

/-- Whether a chain of links from an entry leads to a path that ends in a slash, in a directory that
exists. The number bounds the chain. -/
def leadsToSlash (s : Store) : Nat → List Name → Name → Bool
  | 0, _, _ => false
  | n + 1, dir, name =>
    match s.top.get? (dir ++ [name]) with
    | some (.link target) =>
      match placeOfRoute { s with cwd := dir } (Route.ofBytes target) with
      | .ok ⟨_, _, true⟩ => true
      | .ok ⟨dir, .name name, false⟩ => leadsToSlash s n dir name
      | _ => false
    | _ => false

/-- Looks a name up in the directory at a place. -/
def entry (s : Store) (dir : List Name) (name : Name) : Except Errno (Option Node) :=
  if Route.nameLimit < name.length then .error .nameTooLong
  else .ok (s.top.get? (dir ++ [name]))

/-- What a way leads to, links followed. -/
def nodeAlong (s : Store) (r : Route) : Option Node :=
  match s.follow true r with
  | .ok (.taken place) => s.top.get? place
  | _ => none

/-- Whether a way leads to a directory, links followed. -/
def isDirAlong (s : Store) (r : Route) : Bool := (s.nodeAlong r).any Node.isDir

/-- The text of a place: its names after slashes. -/
def placeText (place : List Name) : Bytes :=
  if place.isEmpty then [Route.slashByte] else place.flatMap fun name => Route.slashByte :: name

/-! ## Edits at places -/

/-- Puts a node under a name into the directory at a place. -/
def put (s : Store) (dir : List Name) (name : Name) (node : Node) : Store :=
  { s with top := s.top.put dir name node }

/-- Takes the entry of a name out of the directory at a place. -/
def drop (s : Store) (dir : List Name) (name : Name) : Store :=
  { s with top := s.top.drop dir name }

/-- Replaces what stands at a place. -/
def replace (s : Store) (place : List Name) (node : Node) : Store :=
  match place.getLast? with
  | some name => s.put place.dropLast name node
  | none => s

/-- Replaces what the file at a place holds. -/
def fill (s : Store) (place : List Name) (content : Content) : Store :=
  match s.top.get? place with
  | some (.file _ executable) => s.replace place (.file content executable)
  | _ => s

end Store

end StubRelease

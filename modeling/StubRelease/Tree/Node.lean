/-
# StubRelease.Tree.Node -- files, links and directories

A node is a file, a symbolic link or a directory of nodes. A list of names leads from a node to a node
below it; such a list names a place without any link on the way, and `get?` is what stands there. Edits
are made in the directory at a place, and change what stands below that directory only.
-/
import StubRelease.Tree.Content
import StubRelease.Tree.Listing

namespace StubRelease

/-- What can stand at a place. -/
inductive Node where
  | file (content : Content) (executable : Bool)
  | link (target : Bytes)
  | dir (entries : List (Name × Node))

instance : Inhabited Node := ⟨.dir []⟩

namespace Node

/-- An empty directory. -/
def emptyDir : Node := .dir []

/-- A file of plain bytes. -/
def ofBytes (bytes : Bytes) : Node := .file (.plain bytes) false

def isDir : Node → Bool
  | dir _ => true
  | _ => false

def isFile : Node → Bool
  | file _ _ => true
  | _ => false

def isLink : Node → Bool
  | link _ => true
  | _ => false

/-- What stands at a place below a node. -/
def get? : Node → List Name → Option Node
  | n, [] => some n
  | dir entries, name :: rest =>
    match Listing.find? name entries with
    | some child => child.get? rest
    | none => none
  | _, _ :: _ => none

/-- The entries of the directory at a place. -/
def entries? (n : Node) (place : List Name) : Option (Listing Node) :=
  match n.get? place with
  | some (dir entries) => some entries
  | _ => none

/-- Edits the entries of the directory at a place; without a directory there nothing changes. -/
def editDir (edit : Listing Node → Listing Node) : List Name → Node → Node
  | [], dir entries => dir (edit entries)
  | name :: rest, dir entries =>
    match Listing.find? name entries with
    | some child => dir (Listing.put name (editDir edit rest child) entries)
    | none => dir entries
  | _, n => n

/-- Puts a node under a name into the directory at a place. -/
def put (n : Node) (place : List Name) (name : Name) (child : Node) : Node :=
  editDir (Listing.put name child) place n

/-- Takes the entry of a name out of the directory at a place. -/
def drop (n : Node) (place : List Name) (name : Name) : Node := editDir (Listing.drop name) place n

@[simp] theorem get?_nil (n : Node) : n.get? [] = some n := by cases n <;> rfl

theorem get?_dir_cons (entries : Listing Node) (name : Name) (rest : List Name) :
    (dir entries).get? (name :: rest) = (Listing.find? name entries).bind (·.get? rest) := by
  rw [get?]; cases Listing.find? name entries <;> rfl

/-- Going on from a place is one longer way. -/
theorem get?_append (n : Node) (p q : List Name) :
    n.get? (p ++ q) = (n.get? p).bind (·.get? q) := by
  induction p generalizing n with
  | nil => simp
  | cons name rest ih =>
    cases n with
    | dir entries =>
      rw [List.cons_append, get?_dir_cons, get?_dir_cons]
      cases Listing.find? name entries with
      | none => rfl
      | some child => exact ih child
    | file _ _ => rfl
    | link _ => rfl

/-- An edit is seen in the directory it was made in. -/
theorem get?_editDir_self {edit : Listing Node → Listing Node} {place : List Name} {n : Node}
    {entries : Listing Node} (h : n.get? place = some (dir entries)) :
    (editDir edit place n).get? place = some (dir (edit entries)) := by
  induction place generalizing n with
  | nil =>
    have : n = dir entries := by simpa using h
    subst this; simp [editDir]
  | cons name rest ih =>
    cases n with
    | file _ _ => simp [get?] at h
    | link _ => simp [get?] at h
    | dir es =>
      rw [get?_dir_cons] at h
      cases hc : Listing.find? name es with
      | none => simp [hc] at h
      | some child =>
        have h' : child.get? rest = some (dir entries) := by simpa [hc] using h
        simp only [editDir, hc, get?_dir_cons, Listing.find?_put_self, Option.bind_some]
        exact ih h'

end Node

end StubRelease

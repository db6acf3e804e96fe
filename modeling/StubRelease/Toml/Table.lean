/-
# StubRelease.Toml.Table -- adding lines to a table

A document is built line by line: header lines open tables, key lines add entries. This module decides
which additions are allowed. A table has at most one header, a dotted key may not reach into a table that
has one, and nothing can be added to a value written in place.
-/
import StubRelease.Toml.Value

namespace StubRelease.Toml

/-- A table that is still open: how it came about and what it holds. -/
structure Open where
  origin : Origin
  entries : Entries

namespace Entries

/-- The value of a key. -/
def find? (key : String) : Entries → Option Value
  | [] => none
  | (k, v) :: rest => if k = key then some v else find? key rest

/-- Sets the value of a key, in place if it has one and at the end otherwise. -/
def set (key : String) (value : Value) : Entries → Entries
  | [] => [(key, value)]
  | (k, v) :: rest => if k = key then (k, value) :: rest else (k, v) :: set key value rest

end Entries

namespace Open

/-- An empty document. -/
def empty : Open := ⟨.headed, []⟩

def find? (t : Open) (key : String) : Option Value := Entries.find? key t.entries

def set (t : Open) (key : String) (value : Value) : Open :=
  { t with entries := Entries.set key value t.entries }

/-- Edits the table at the end of a path, creating the tables on the way. Under a list of tables the
path goes on in the last one; a dotted path may not pass through a table that has a header. -/
def within (viaDots : Bool) (edit : Open → Option Open) : List String → Open → Option Open
  | [], t => edit t
  | key :: rest, t =>
    match t.find? key with
    | none =>
      (within viaDots edit rest ⟨if viaDots then .dotted else .implied, []⟩).map fun sub =>
        t.set key (.table sub.origin sub.entries)
    | some (.table origin entries) =>
      if origin = .inlined ∨ (viaDots = true ∧ origin = .headed) then none
      else
        (within viaDots edit rest ⟨origin, entries⟩).map fun sub =>
          t.set key (.table sub.origin sub.entries)
    | some (.tables earlier last) =>
      (within viaDots edit rest ⟨.headed, last⟩).map fun sub => t.set key (.tables earlier sub.entries)
    | some _ => none

/-- A dotted key ends in a table made by dotted keys, a plain one in any other table; either way the
last part must be new. -/
def addKey (dotted : Bool) (key : String) (value : Value) (t : Open) : Option Open :=
  if (t.origin = .dotted) ≠ (dotted = true) then none
  else
    match t.find? key with
    | none => some (t.set key value)
    | some _ => none

/-- Adds `path.key = value`. -/
def insert (path : List String) (key : String) (value : Value) (t : Open) : Option Open :=
  within true (addKey (!path.isEmpty) key value) path t

/-- Gives a table its header: it is new, or was so far only passed through by other headers. -/
def openTable (key : String) (t : Open) : Option Open :=
  match t.find? key with
  | none => some (t.set key (.table .headed []))
  | some (.table .implied entries) => some (t.set key (.table .headed entries))
  | some _ => none

/-- Opens one more table of a list of tables. -/
def openItem (key : String) (t : Open) : Option Open :=
  match t.find? key with
  | none => some (t.set key (.tables [] []))
  | some (.tables earlier last) => some (t.set key (.tables (earlier ++ [last]) []))
  | some _ => none

end Open

end StubRelease.Toml

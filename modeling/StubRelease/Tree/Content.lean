/-
# StubRelease.Tree.Content -- what a file holds

A file holds plain bytes or an archive. An archive is the list of its members in the order they were
written: statements about archives speak of members, not of an encoding. An archive may hold itself, as far
as it could be read when it came to its own file.
-/
import StubRelease.Bytes

namespace StubRelease

/-- The two kinds of archive. -/
inductive Packing where
  | zip
  | tarball
deriving DecidableEq, Repr

mutual

/-- What a file holds. -/
inductive Content where
  | plain (bytes : Bytes)
  | archive (packing : Packing) (members : List Member)
  /-- In a member of an archive: what could be read of the archive itself when the member was added. -/
  | unfinished

/-- A member of an archive, under its full name in the archive. -/
inductive Member where
  | directory (name : Bytes)
  | file (name : Bytes) (content : Content)

end

instance : Inhabited Content := ⟨.plain []⟩

namespace Member

def name : Member → Bytes
  | directory name | file name _ => name

def isFile : Member → Bool
  | directory _ => false
  | file _ _ => true

end Member

end StubRelease

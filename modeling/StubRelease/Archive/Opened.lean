/-
# StubRelease.Archive.Opened -- what a file turns out to be

A file that begins like an archive is one if all of it can be read: bytes that are no archive, or whose
data does not agree with its checksum, are plain bytes.
-/
import StubRelease.Archive.Opened.Tar
import StubRelease.Archive.Opened.Zip

namespace StubRelease.Archive

/-- What a file turns out to be when it is opened. -/
inductive Opened where
  | bytes
  | zip (members : List ZipMember)
  | tarball (members : List TarMember)

/-- Opens a file. -/
def Opened.ofBytes (bs : Bytes) : Opened :=
  if (Bytes.ofString "PK").isPrefixOf bs then ((readZip? bs).map zip).getD bytes
  else if ([0x1f, 0x8b] : Bytes).isPrefixOf bs then ((readTar? bs).map tarball).getD bytes
  else bytes

end StubRelease.Archive

/-
# StubRelease.Archive.Encode -- the bytes of an archive

One way to write the two kinds of archive as bytes. Data is deflated into stored blocks, which every
reader of the format accepts. Dates are the earliest ones the formats know, in place of the hour of the run.
-/
import StubRelease.Archive.Crc32
import StubRelease.Archive.Number
import StubRelease.Tree.Content

namespace StubRelease.Archive

/-- The longest stored block. -/
def blockSize : Nat := 65535

/-- A stored block. -/
def storedBlock (last : Bool) (data : Bytes) : Bytes :=
  (if last then 1 else 0) :: little 2 data.length ++ little 2 (65535 - data.length) ++ data

/-- Data as stored blocks; the number bounds how many come before the last one. -/
def deflateFrom : Nat → Bytes → Bytes
  | 0, data => storedBlock true data
  | n + 1, data =>
    if data.length ≤ blockSize then storedBlock true data
    else storedBlock false (data.take blockSize) ++ deflateFrom n (data.drop blockSize)

/-- Deflated data that is as long as before. -/
def deflate (data : Bytes) : Bytes := deflateFrom (data.length / blockSize) data

/-! ## Zip -/

/-- A member ready to be written: its name, method, mode, data and packed data. -/
structure ZipRecord where
  name : Bytes
  method : Nat
  mode : Nat
  data : Bytes
  packed : Bytes

namespace ZipRecord

def directory (name : Bytes) : ZipRecord := ⟨name, 0, 0o40755, [], []⟩

def file (name data : Bytes) : ZipRecord := ⟨name, 8, 0o100644, data, deflate data⟩

/-- A file before any of its data is written. -/
def begun (name : Bytes) : ZipRecord := ⟨name, 8, 0o100644, [], []⟩

/-- A name that is more than ASCII is marked as UTF-8. -/
def flags (r : ZipRecord) : Nat := if r.name.all (· < 128) then 0 else 0x0800

/-- The fields both headers share, from the flags to the name's length. -/
def fields (r : ZipRecord) : Bytes :=
  little 2 r.flags ++ little 2 r.method ++ little 2 0 ++ little 2 0x0021
    ++ little 4 (crc32 r.data).toNat ++ little 4 r.packed.length ++ little 4 r.data.length
    ++ little 2 r.name.length

/-- The record in front of the data, and the data. -/
def front (r : ZipRecord) : Bytes :=
  little 4 0x04034b50 ++ little 2 20 ++ r.fields ++ little 2 0 ++ r.name ++ r.packed

/-- The record in the directory at the end. -/
def back (r : ZipRecord) (offset : Nat) : Bytes :=
  little 4 0x02014b50 ++ little 2 0x0314 ++ little 2 20 ++ r.fields ++ little 2 0 ++ little 2 0
    ++ little 2 0 ++ little 2 0 ++ little 4 (r.mode * 65536) ++ little 4 offset ++ r.name

end ZipRecord

/-- The directory at the end, its records pointing at what comes from `offset` on. -/
def zipDirectoryFrom : Nat → List ZipRecord → Bytes
  | _, [] => []
  | offset, r :: rest => r.back offset ++ zipDirectoryFrom (offset + r.front.length) rest

/-- A whole zip archive. -/
def zipBytes (records : List ZipRecord) : Bytes :=
  let front := records.flatMap ZipRecord.front
  let back := zipDirectoryFrom 0 records
  front ++ back ++ little 4 0x06054b50 ++ little 4 0 ++ little 2 records.length
    ++ little 2 records.length ++ little 4 back.length ++ little 4 front.length ++ little 2 0

/-! ## Tarball -/

/-- Octal digits, ending in a zero byte. -/
def octal (width n : Nat) : Bytes :=
  let digits := (Nat.toDigits 8 n).map Bytes.ofChar
  List.replicate (width - 1 - digits.length) 48 ++ digits ++ [0]

/-- Fills up with zeros to a length. -/
def padTo (n : Nat) (bs : Bytes) : Bytes := bs.take n ++ List.replicate (n - bs.length) 0

/-- Fills up to whole blocks of 512 bytes. -/
def padBlocks (bs : Bytes) : Bytes := bs ++ List.replicate ((512 - bs.length % 512) % 512) 0

/-- A header; `kind` is the byte of the member's type. -/
def tarHeader (name : Bytes) (mode size : Nat) (kind : UInt8) : Bytes :=
  let before : Bytes :=
    padTo 100 name ++ octal 8 mode ++ octal 8 0 ++ octal 8 0 ++ octal 12 size ++ octal 12 0
  let after : Bytes := kind :: List.replicate 100 0 ++ Bytes.ofString "ustar  " ++ [0]
    ++ List.replicate 247 0
  let sum := (before ++ List.replicate 8 32 ++ after).foldl (fun n (b : UInt8) => n + b.toNat) 0
  before ++ octal 7 sum ++ [32] ++ after

/-- A member; a name too long for its header comes in a member of its own in front. -/
def tarMember (name : Bytes) (mode : Nat) (kind : UInt8) (data : Bytes) : Bytes :=
  let long := if name.length < 100 then []
    else tarHeader (Bytes.ofString "././@LongLink") 0o644 (name.length + 1) 76
      ++ padBlocks (name ++ [0])
  long ++ tarHeader name mode data.length kind ++ padBlocks data

/-- What stands in front of compressed bytes. -/
def gzipHead : Bytes := [0x1f, 0x8b, 8, 0, 0, 0, 0, 0, 0, 255]

/-- Bytes compressed with a checksum. -/
def gzip (data : Bytes) : Bytes :=
  gzipHead ++ deflate data ++ little 4 (crc32 data).toNat ++ little 4 (data.length % 4294967296)

/-- The two blocks of zeros at the end. -/
def tarEnd : Bytes := List.replicate 1024 0

end StubRelease.Archive

namespace StubRelease

open Archive

mutual

/-- The bytes of a file in an archive, which gives what can be read of itself. -/
def Content.bytesIn (itself : Unit → Bytes) : Content → Bytes
  | .plain bytes => bytes
  | .archive .zip members => zipBytes (zipRecords [] members)
  | .archive .tarball members => gzip (tarBytes members ++ tarEnd)
  | .unfinished => itself ()

/-- Members as records of a zip archive; those before them come last one first. -/
def zipRecords (before : List ZipRecord) : List Member → List ZipRecord
  | [] => before.reverse
  | m :: rest => zipRecords (zipRecord before m :: before) rest

/-- A member as a record of a zip archive. The archive can be read up to the front of the member's own record. -/
def zipRecord (before : List ZipRecord) : Member → ZipRecord
  | .directory name => .directory name
  | .file name content =>
    .file name (content.bytesIn fun _ => (ZipRecord.begun name :: before).reverse.flatMap ZipRecord.front)

/-- Members as parts of a tarball. -/
def tarBytes : List Member → Bytes
  | [] => []
  | m :: rest => tarPart m ++ tarBytes rest

/-- A member as a part of a tarball. No more than what stands in front of all data can be read of a tarball, as
what follows is compressed together. -/
def tarPart : Member → Bytes
  | .directory name => Archive.tarMember name 0o755 53 []
  | .file name content => Archive.tarMember name 0o644 48 (content.bytesIn fun _ => gzipHead)

end

/-- The bytes of a file. -/
def Content.bytes (content : Content) : Bytes := content.bytesIn fun _ => []

end StubRelease

/-
# StubRelease.Archive.Opened.Zip -- reading zip archives

A zip archive is read from the record at its end, which says where the directory of its members begins;
what stands in front of the archive shifts all its places alike. Of several records that could be the end
the last one counts with which a directory can be read.
-/
import StubRelease.Archive.CodePage
import StubRelease.Archive.Inflate
import StubRelease.Archive.Number

namespace StubRelease.Archive

/-- How a member of a zip archive is packed. -/
inductive ZipMethod where
  | stored
  | deflated
deriving DecidableEq, Repr

namespace ZipMethod

/-- The method of a number in an archive. -/
def ofNumber? : Nat → Option ZipMethod
  | 0 => some stored
  | 8 => some deflated
  | _ => none

/-- The method's name. -/
def text : ZipMethod → String
  | stored => "Stored"
  | deflated => "Deflated"

/-- Unpacks data. -/
def unpack? : ZipMethod → Bytes → Option Bytes
  | stored, data => some data
  | deflated, data =>
    let inflated := inflate data
    if inflated.stop = some .corrupt then none else some inflated.data

end ZipMethod

/-- A member read from a zip archive; an archive need not give it a mode. -/
structure ZipMember where
  name : String
  method : ZipMethod
  mode : Option Nat
  data : Bytes
deriving DecidableEq, Repr

/-! ## The directory -/

/-- A member as the directory describes it. -/
structure ZipEntry where
  /-- The name as it is written. -/
  written : Bytes
  name : String
  comment : String
  /-- Nothing if the member cannot be unpacked. -/
  method : Option ZipMethod
  mode : Option Nat
  sum : Nat
  size : Nat
  packedSize : Nat
  /-- Where the record in front of the data stands. -/
  front : Nat
deriving DecidableEq, Repr

namespace ZipEntry

/-- The mode a record gives, by the system it was written on: a Unix mode stands in the upper half of the
attributes, one of the oldest systems is made up from its directory and read-only marks. -/
def modeOf (system attributes : Nat) : Option Nat :=
  if attributes = 0 then none
  else if system = 3 then some (attributes / 65536)
  else if system = 0 then
    let mode := if attributes.testBit 4 then 0o040775 else 0o100664
    some (if attributes.testBit 0 then mode &&& 0o555 else mode)
  else none

/-- A text in a record, in UTF-8 or with one byte for each character. -/
def textOf (utf8 : Bool) (bs : Bytes) : String := if utf8 then bs.lossy else ofCodePage bs

/-- A number that stands in an extra field because it does not fit its place, or all three do. -/
def wide? (all : Bool) (n : Nat) (bs : Bytes) : Option (Nat × Bytes) :=
  if all || n = 0xFFFFFFFF then (numberAt? bs 0 8).map fun n => (n, bs.drop 8) else some (n, bs)

/-- A text in UTF-8 for another one, whose checksum it comes with. -/
def unicode? (replaced content : Bytes) : Option String := do
  if (← numberAt? content 1 4) ≠ (crc32 replaced).toNat then none
  else Bytes.toString? (content.drop 5)

/-- What an extra field changes. Times are only looked at for their length; a member that is encrypted
cannot be read. -/
def withExtra? (e : ZipEntry) (kind : Nat) (content : Bytes) : Option ZipEntry :=
  match kind with
  | 0x0001 => do
    let all := decide (24 ≤ content.length)
    let (size, rest) ← wide? all e.size content
    let (packedSize, rest) ← wide? all e.packedSize rest
    let (front, _) ← wide? all e.front rest
    return { e with size, packedSize, front }
  | 0x000a =>
    if content.length = 32 && numberAt? content 4 2 = some 1 && numberAt? content 6 2 = some 24 then
      some e
    else none
  | 0x5455 => do
    let flags ← content.head?
    let times := ((List.range 8).filter flags.toNat.testBit).length
    if content.length = 5 || content.length = 1 + 4 * times then return e else none
  | 0x6375 => do return { e with comment := ← unicode? (Bytes.ofString e.comment) content }
  | 0x7075 => do return { e with name := ← unicode? e.written content, written := content.drop 5 }
  | 0x9901 => none
  | _ => some e

/-- What extra fields change; the number bounds how many there are. -/
def withExtras? : Nat → ZipEntry → Bytes → Option ZipEntry
  | 0, e, _ => some e
  | n + 1, e, bs =>
    match numberAt? bs 0 2, numberAt? bs 2 2 with
    | some kind, some size => do
      let content ← slice? bs 4 size
      withExtras? n (← e.withExtra? kind content) (bs.drop (4 + size))
    | _, _ => some e

/-- The member that the record at an offset describes, and the length of the record. -/
def at? (bs : Bytes) (offset : Nat) : Option (ZipEntry × Nat) := do
  let field (place size : Nat) := numberAt? bs (offset + place) size
  if (← field 0 4) ≠ 0x02014b50 then failure
  let flags ← field 8 2
  let nameSize ← field 28 2
  let extraSize ← field 30 2
  let commentSize ← field 32 2
  let front ← field 42 4
  let written ← slice? bs (offset + 46) nameSize
  let extra ← slice? bs (offset + 46 + nameSize) extraSize
  let comment ← slice? bs (offset + 46 + nameSize + extraSize) commentSize
  let textOf := textOf (flags.testBit 11)
  let e : ZipEntry :=
    { written, name := textOf written, comment := textOf comment
      method := (ZipMethod.ofNumber? (← field 10 2)).filter fun _ => !flags.testBit 0
      mode := modeOf (← field 5 1) (← field 38 4)
      sum := ← field 16 4, size := ← field 24 4, packedSize := ← field 20 4, front }
  return (← withExtras? extra.length e extra, 46 + nameSize + extraSize + commentSize)

/-- Where a member's data begins; the record in front of it repeats the name. -/
def dataOffset? (bs : Bytes) (e : ZipEntry) : Option Nat := do
  if (← numberAt? bs e.front 4) ≠ 0x04034b50 then failure
  return e.front + 30 + (← numberAt? bs (e.front + 26) 2) + (← numberAt? bs (e.front + 28) 2)

/-- Reads the member. -/
def member? (bs : Bytes) (e : ZipEntry) : Option ZipMember := do
  let method ← e.method
  let data ← method.unpack? ((bs.drop (← e.dataOffset? bs)).take e.packedSize)
  if (crc32 data).toNat = e.sum then return ⟨e.name, method, e.mode, data⟩ else failure

end ZipEntry

/-- Where a directory begins, how many members it has, and how far the places it gives are shifted. -/
structure ZipDirectory where
  start : Nat
  count : Nat
  shift : Nat
deriving DecidableEq, Repr

namespace ZipDirectory

/-- The places where a signature stands, the last one first. -/
def placesFrom (signature : Bytes) (found : List Nat) : Nat → Bytes → List Nat
  | _, [] => found
  | n, b :: rest =>
    placesFrom signature (if signature.isPrefixOf (b :: rest) then n :: found else found) (n + 1) rest

/-- The places where a signature stands, the last one first. -/
def places (signature : Nat) (bs : Bytes) : List Nat := placesFrom (little 4 signature) [] 0 bs

/-- The directory that an end record at a place gives, its comment within the file. The first record from
where it should begin shows where it does begin. -/
def ofEnd? (bs : Bytes) (place : Nat) : Option ZipDirectory := do
  let field (at_ size : Nat) := numberAt? bs (place + at_) size
  let disk ← field 4 2
  let directoryDisk ← field 6 2
  let count ← field 8 2
  let total ← field 10 2
  let offset ← field 16 4
  if bs.length < place + 22 + (← field 20 2) then failure
  let start ←
    if total = 0 then some (max place offset)
    else (places 0x02014b50 bs).reverse.find? fun n => offset ≤ n && n < place
  if disk = directoryDisk then return ⟨start, count, start - offset⟩ else failure

/-- Some entries, described from an offset on. What they describe comes before the directory. -/
def entriesFrom? (bs : Bytes) (d : ZipDirectory) : Nat → Nat → Option (List ZipEntry)
  | 0, _ => some []
  | n + 1, offset => do
    let (e, length) ← ZipEntry.at? bs offset
    let e := { e with front := d.shift + e.front }
    if d.start ≤ e.front || d.start < (← e.dataOffset? bs) then failure
    return e :: (← entriesFrom? bs d n (offset + length))

/-- All entries of a directory. -/
def entries? (bs : Bytes) (d : ZipDirectory) : Option (List ZipEntry) :=
  entriesFrom? bs d d.count d.start

/-- Puts an entry in the place of the one of its name, or at the end. -/
def put (e : ZipEntry) : List ZipEntry → List ZipEntry
  | [] => [e]
  | other :: rest => if other.name = e.name then e :: rest else other :: put e rest

end ZipDirectory

/-- The members of a zip archive, in the order of its directory; of two with one name the later counts. -/
def readZip? (bs : Bytes) : Option (List ZipMember) := do
  let entries ← (ZipDirectory.places 0x06054b50 bs).findSome? fun place => do
    (← ZipDirectory.ofEnd? bs place).entries? bs
  (entries.foldl (fun known e => ZipDirectory.put e known) []).mapM (ZipEntry.member? bs)

end StubRelease.Archive

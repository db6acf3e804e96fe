/-
# StubRelease.Archive.Opened.Tar -- reading tarballs

A tarball is a sequence of members, each a header of one block and data in whole blocks. Some members only
announce what belongs to the next one: a name too long for its header, or records that replace what the
header says. A block of zeros ends the archive, and so does the end of the data.
-/
import StubRelease.Archive.Gzip

namespace StubRelease.Archive

/-- What a member of a tarball is. -/
inductive TarKind where
  | regular
  | link
  | symlink
  | characterDevice
  | blockDevice
  | directory
  | fifo
  | contiguous
  /-- The name of the next member. -/
  | longName
  /-- Where the next member, a link, leads. -/
  | longLink
  /-- A file of which the parts between others are zeros. -/
  | sparse
  /-- Records for all members from here on. -/
  | globalRecords
  /-- Records for the next member. -/
  | records
  | other (byte : UInt8)
deriving DecidableEq, Repr

namespace TarKind

/-- The kind of a byte in a header. -/
def ofByte (b : UInt8) : TarKind :=
  match Char.ofNat b.toNat with
  | '\x00' | '0' => regular
  | '1' => link
  | '2' => symlink
  | '3' => characterDevice
  | '4' => blockDevice
  | '5' => directory
  | '6' => fifo
  | '7' => contiguous
  | 'L' => longName
  | 'K' => longLink
  | 'S' => sparse
  | 'g' => globalRecords
  | 'x' => records
  | _ => other b

end TarKind

/-- A member read from a tarball. -/
structure TarMember where
  name : Bytes
  kind : TarKind
  data : Bytes
deriving DecidableEq, Repr

/-! ## Numbers -/

/-- The bytes before the first zero. -/
def beforeZero (bs : Bytes) : Bytes := bs.takeWhile (· ≠ 0)

/-- A character that text is written apart with. -/
def isSpace (c : Char) : Bool :=
  ('\t' ≤ c && c ≤ '\r') || ('\u2000' ≤ c && c ≤ '\u200A')
    || [' ', '\u0085', '\u00A0', '\u1680', '\u2028', '\u2029', '\u202F', '\u205F', '\u3000'].contains c

/-- A number in digits of a base, which a plus sign can begin. -/
def digits? (base : Nat) (cs : List Char) : Option Nat :=
  let digits := if cs.head? = some '+' then cs.tail else cs
  if digits.isEmpty || !digits.all fun c => '0' ≤ c && c.toNat < '0'.toNat + base then none
  else some (digits.foldl (fun n c => base * n + (c.toNat - '0'.toNat)) 0)

/-- A number in octal digits with white space around it, or in binary with the highest bit set. -/
def tarNumber? (bs : Bytes) : Option Nat :=
  if bs.headD 0 ≥ 0x80 then some (ofBig (bs.drop (bs.length - 8)))
  else do
    let text ← (beforeZero bs).toString?
    let cs := text.toList.dropWhile isSpace
    digits? 8 (cs.reverse.dropWhile isSpace).reverse

/-- A decimal number of 64 bits. -/
def decimal? (bs : Bytes) : Option Nat := do
  let n ← digits? 10 (← bs.toString?).toList
  if n < Nat.pow 2 64 then return n else none

/-! ## Records -/

/-- The parts between line feeds. -/
def linesOf (bs : Bytes) : List Bytes :=
  bs.foldr (fun b lines =>
    if b = 10 then [] :: lines
    else match lines with
      | [] => [[b]]
      | line :: rest => (b :: line) :: rest) [[]]

/-- A record in a line: its length, a blank, a key and a value. -/
def recordOf? (line : Bytes) : Option (Bytes × Bytes) := do
  let size := line.takeWhile (· ≠ 32)
  let pair ← (line.drop size.length).tail?
  let key := pair.takeWhile (· ≠ Bytes.ofChar '=')
  let value ← (pair.drop key.length).tail?
  if (← decimal? size) = line.length + 1 then return (key, value) else none

/-- Records up to an empty line, each of which can be ill-formed. -/
def recordsOf (bs : Bytes) : List (Option (Bytes × Bytes)) :=
  ((linesOf bs).takeWhile (!·.isEmpty)).map recordOf?

/-- The size that records give; after one that is ill-formed none counts. -/
def recordedSize? : List (Option (Bytes × Bytes)) → Option Nat
  | [] | none :: _ => none
  | some (key, value) :: rest =>
    if key = Bytes.ofString "size" then decimal? value else recordedSize? rest

/-- The path that records give. -/
def recordedPath? (records : List (Option (Bytes × Bytes))) : Option Bytes :=
  ((records.filterMap id).find? (·.1 = Bytes.ofString "path")).map (·.2)

/-! ## Headers -/

/-- A header, of 512 bytes. -/
abbrev TarHeader := Bytes

namespace TarHeader

/-- The size of a header, and the unit of all that follows it. -/
def blockSize : Nat := 512

/-- Some bytes of a header. -/
def field (h : TarHeader) (offset size : Nat) : Bytes := (List.drop offset h).take size

/-- The sum of a header's bytes, the sum itself counted as blanks. -/
def sum (h : TarHeader) : Nat :=
  (h.field 0 148 ++ List.replicate 8 32 ++ h.field 156 356).foldl (fun n (b : UInt8) => n + b.toNat) 0

/-- The two marks of headers with more than the oldest fields. -/
def isStandard (h : TarHeader) : Bool := h.field 257 8 = Bytes.ofString "ustar\x0000"

def isGnu (h : TarHeader) : Bool := h.field 257 8 = Bytes.ofString "ustar  \x00"

def kind (h : TarHeader) : TarKind := TarKind.ofByte ((h.field 156 1).headD 0)

/-- The name, with the directories that stand apart from it. -/
def name (h : TarHeader) : Bytes :=
  let name := beforeZero (h.field 0 100)
  let above := beforeZero (h.field 345 155)
  if h.isStandard && !above.isEmpty then above ++ Bytes.ofChar '/' :: name else name

end TarHeader

/-- A size in whole blocks. -/
def inBlocks (size : Nat) : Nat :=
  (size + TarHeader.blockSize - 1) / TarHeader.blockSize * TarHeader.blockSize

/-! ## Sparse files -/

/-- A part of a sparse file that is not zeros. -/
structure SparsePart where
  offset : Nat
  size : Nat
deriving DecidableEq, Repr

namespace SparsePart

/-- The parts listed one after the other in a block, those left out that are empty. -/
def listed? (block : Bytes) (offset count : Nat) : Option (List SparsePart) := do
  let parts ← (List.range count).mapM fun n => do
    let place ← slice? block (offset + 24 * n) 12
    let size ← slice? block (offset + 24 * n + 12) 12
    if place.head? = some 0 || size.head? = some 0 then return none
    return some ⟨← tarNumber? place, ← tarNumber? size⟩
  return parts.filterMap id

/-- The parts listed in blocks after a header, and what comes after them; the number bounds how many blocks
there are. -/
def extended? : Nat → Bool → Bytes → Option (List SparsePart × Bytes)
  | 0, _, _ => none
  | _, false, bs => some ([], bs)
  | n + 1, true, bs => do
    let block ← slice? bs 0 TarHeader.blockSize
    let parts ← listed? block 0 21
    let (more, rest) ← extended? n (block[504]? = some 1) (bs.drop TarHeader.blockSize)
    return (parts ++ more, rest)

/-- Whether parts follow each other from a place in the file to its end and from a place in the data to its
end; one that comes in the midst of a block of the data has to be empty. -/
def fit (length size : Nat) : Nat → Nat → List SparsePart → Bool
  | place, used, [] => place = length && used = size
  | place, used, p :: rest =>
    (p.size = 0 || used % TarHeader.blockSize = 0) && place ≤ p.offset && used + p.size ≤ size
      && fit length size (p.offset + p.size) (used + p.size) rest

/-- The file that parts make up. -/
def fill : Nat → Bytes → List SparsePart → Bytes
  | _, _, [] => []
  | place, data, p :: rest =>
    List.replicate (p.offset - place) 0 ++ data.take p.size
      ++ fill (p.offset + p.size) (data.drop p.size) rest

/-- The data of a sparse file, whose header is given, and what comes after the lists of parts. -/
def expand? (h : TarHeader) (size : Nat) (bs : Bytes) : Option (Bytes × Bytes) := do
  if !h.isGnu then failure
  let first ← listed? h 386 4
  let (more, rest) ← extended? (bs.length + 1) (h.field 482 1 = [1]) bs
  let length ← tarNumber? (h.field 483 12)
  if fit length size 0 0 (first ++ more) then return (fill 0 rest (first ++ more), rest) else failure

end SparsePart

/-! ## Members -/

/-- What was announced of the next member. -/
structure Announced where
  name : Option Bytes
  link : Option Bytes
  records : Option Bytes
deriving DecidableEq, Repr

namespace Announced

def nothing : Announced := ⟨none, none, none⟩

/-- The name of a member: one announced, a zero at its end left out, before one in the records. -/
def nameOf (a : Announced) (h : TarHeader) : Bytes :=
  match a.name with
  | some name => if name.getLast? = some 0 then name.dropLast else name
  | none => ((a.records.map recordsOf).bind recordedPath?).getD h.name

/-- Adds what a member announces; a second announcement of one kind is refused. `none` inside says that it
announces nothing. -/
def add? (a : Announced) (h : TarHeader) (data : Bytes) : Option (Option Announced) :=
  let once (old : Option Bytes) (new : Announced) : Option (Option Announced) :=
    if old.isSome then none else some (some new)
  if !h.isStandard && !h.isGnu then some none
  else match h.kind with
    | .longName => once a.name { a with name := some data }
    | .longLink => once a.link { a with link := some data }
    | .records => once a.records { a with records := some data }
    | _ => some none

end Announced

/-- The members from here on; `sound` says whether the data has an end. The number bounds how many headers
are read. -/
def tarMembers? (sound : Bool) : Nat → Announced → Bytes → Option (List TarMember)
  | 0, _, _ => none
  | n + 1, announced, bs => do
    let last : Option (List TarMember) := if announced = .nothing then some [] else none
    if bs.isEmpty then if sound then last else none
    else
      let header ← slice? bs 0 TarHeader.blockSize
      if header.all (· = 0) then last
      else
        if (← tarNumber? (TarHeader.field header 148 8)) ≠ TarHeader.sum header then failure
        let written ← tarNumber? (TarHeader.field header 124 12)
        let size := ((announced.records.map recordsOf).bind recordedSize?).getD written
        let bs := bs.drop TarHeader.blockSize
        let data := bs.take size
        match ← announced.add? header data with
        | some announced =>
          let _ ← slice? bs 0 (inBlocks size)
          tarMembers? sound n announced (bs.drop (inBlocks size))
        | none =>
          let kind := TarHeader.kind header
          let (data, bs) ← if kind = .sparse then SparsePart.expand? header size bs
            else some (data, bs)
          let _ ← slice? bs 0 (inBlocks size)
          return ⟨announced.nameOf header, kind, data⟩
            :: (← tarMembers? sound n .nothing (bs.drop (inBlocks size)))

/-- The members of a tarball. -/
def readTar? (bs : Bytes) : Option (List TarMember) := do
  let unpacked ← Unpacked.ofBytes? bs
  tarMembers? unpacked.sound (unpacked.data.length / TarHeader.blockSize + 2) .nothing unpacked.data

end StubRelease.Archive

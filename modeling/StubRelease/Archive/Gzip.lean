/-
# StubRelease.Archive.Gzip -- compressed files

A compressed file begins with a header of optional parts, goes on with deflated data, and ends with the
checksum and the length of what that data holds. The end is looked at only by who reads up to it: data can
be read from a file that breaks off.
-/
import StubRelease.Archive.Inflate
import StubRelease.Archive.Number

namespace StubRelease.Archive

/-- What can be read from a compressed file. -/
structure Unpacked where
  data : Bytes
  /-- Whether the data has an end, and its checksum and length are right. -/
  sound : Bool
deriving DecidableEq, Repr

namespace Unpacked

/-- What comes after some bytes, if there are so many. -/
def after? (n : Nat) (bs : Bytes) : Option Bytes := if n ≤ bs.length then some (bs.drop n) else none

/-- What comes after a part that begins with its length. -/
def afterCounted? : Bytes → Option Bytes
  | a :: b :: rest => after? (ofLittle [a, b]) rest
  | _ => none

/-- What comes after a text that ends with a zero. -/
def afterText? : Bytes → Option Bytes
  | [] => none
  | b :: rest => if b = 0 then some rest else afterText? rest

/-- What comes after a header, which can hold a checksum of itself. -/
def afterHeader? (bs : Bytes) : Option Bytes :=
  match bs with
  | 0x1f :: 0x8b :: 8 :: flags :: rest => do
    let has (n : Nat) : Bool := flags.toNat.testBit n
    let rest ← after? 6 rest
    let rest ← if has 2 then afterCounted? rest else some rest
    let rest ← if has 3 then afterText? rest else some rest
    let rest ← if has 4 then afterText? rest else some rest
    if has 5 || has 6 || has 7 then none
    else if has 1 then
      let sum := (crc32 (bs.take (bs.length - rest.length))).toNat % 65536
      if (← numberAt? rest 0 2) = sum then after? 2 rest else none
    else some rest
  | _ => none

/-- Reads a compressed file; what comes after its end does not count. -/
def ofBytes? (bs : Bytes) : Option Unpacked := do
  let inflated := inflate (← afterHeader? bs)
  let sum := (crc32 inflated.data).toNat
  let length := inflated.data.length % 4294967296
  return ⟨inflated.data, inflated.stop.isNone
    && numberAt? inflated.rest 0 4 = some sum && numberAt? inflated.rest 4 4 = some length⟩

end Unpacked

end StubRelease.Archive

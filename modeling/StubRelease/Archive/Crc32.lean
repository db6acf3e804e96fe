/-
# StubRelease.Archive.Crc32 -- the checksum of archives

The cyclic redundancy check with the reversed polynomial `EDB88320`, bits taken from the lowest up, the
register complemented before and after.
-/
import StubRelease.Bytes

namespace StubRelease.Archive

/-- The polynomial, bits reversed. -/
def crcPolynomial : UInt32 := 0xEDB88320

/-- Shifts the register by a number of bits. -/
def crcShift : Nat → UInt32 → UInt32
  | 0, c => c
  | n + 1, c => crcShift n (if c &&& 1 = 1 then crcPolynomial ^^^ (c >>> 1) else c >>> 1)

/-- Takes one byte into the register. -/
def crcByte (c : UInt32) (b : UInt8) : UInt32 := crcShift 8 (c ^^^ b.toUInt32)

/-- The checksum of a byte string. -/
def crc32 (bs : Bytes) : UInt32 := (bs.foldl crcByte 0xFFFFFFFF) ^^^ 0xFFFFFFFF

end StubRelease.Archive

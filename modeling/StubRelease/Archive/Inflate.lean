/-
# StubRelease.Archive.Inflate -- reading deflated data

Deflated data is a sequence of bits, taken from each byte from the lowest up, in blocks: a stored block
copies bytes, the others hold symbols of two prefix codes, one for literal bytes and lengths and one for
distances back into what was already read. A code is given by the length of each symbol's code word alone.
Data that breaks off is read as far as it goes.
-/
import StubRelease.Archive.Crc32

namespace StubRelease.Archive

/-- Why reading ends before the data does. -/
inductive Stop where
  /-- Nothing is left to be read. -/
  | unfinished
  /-- What comes next is no deflated data. -/
  | corrupt
deriving DecidableEq, Repr

/-- What is left to be read, and what was inflated so far. -/
structure Inflating where
  bits : List Bool
  out : Array UInt8

/-- Reads bits off the front; what was inflated is kept when reading stops. -/
abbrev BitReader := ExceptT Stop (StateM Inflating)

/-- The bits of bytes, the lowest bit of each byte first. -/
def bitsOf (bs : Bytes) : List Bool := bs.flatMap fun b => (List.range 8).map b.toNat.testBit

namespace BitReader

def bit : BitReader Bool := do
  let s ← get
  match s.bits with
  | [] => throw .unfinished
  | b :: rest =>
    set { s with bits := rest }
    return b

/-- A number of some bits, the lowest first. -/
def number : Nat → BitReader Nat
  | 0 => return 0
  | n + 1 => do
    let low ← bit
    return low.toNat + 2 * (← number n)

/-- Goes on at the next whole byte. -/
def align : BitReader Unit :=
  modify fun s => { s with bits := s.bits.drop (s.bits.length % 8) }

/-- Adds a byte to what was inflated. -/
def put (b : UInt8) : BitReader Unit := modify fun s => { s with out := s.out.push b }

/-- Copies whole bytes. -/
def copy : Nat → BitReader Unit
  | 0 => return
  | n + 1 => do
    put (← number 8).toUInt8
    copy n

end BitReader

open BitReader

/-! ## Prefix codes -/

/-- A prefix code: how many code words have each length from one up, and the symbols in the order of their
code words. -/
structure PrefixCode where
  counts : List Nat
  symbols : List Nat

namespace PrefixCode

/-- The longest code word. -/
def maxLength : Nat := 15

/-- The code in which the n-th symbol has a code word of the n-th length; a length of zero is none. -/
def ofLengths (lengths : List Nat) : PrefixCode where
  counts := (List.range maxLength).map fun n => lengths.count (n + 1)
  symbols := (List.range maxLength).flatMap fun n =>
    (lengths.zipIdx.filter fun (length, _) => length = n + 1).map (·.2)

/-- Whether the code words share all room between them, where one of each length takes half as much as one
that is shorter by a bit. A code of one symbol or none need not. -/
def isFull (c : PrefixCode) : Bool :=
  c.symbols.length ≤ 1
    || c.counts.zipIdx.foldl (fun room (count, n) => room + count * Nat.pow 2 (maxLength - 1 - n)) 0
      = Nat.pow 2 maxLength

/-- Reads one symbol: the code words of a length follow each other, beginning after those that are
shorter. -/
def readFrom : List Nat → List Nat → Nat → Nat → BitReader Nat
  | [], _, _, _ => throw .corrupt
  | count :: counts, symbols, code, first => do
    let code := 2 * code + (← bit).toNat
    if code < first + count then
      match symbols[code - first]? with
      | some symbol => return symbol
      | none => throw .corrupt
    else readFrom counts (symbols.drop count) code (2 * (first + count))

/-- Reads one symbol. -/
def read (c : PrefixCode) : BitReader Nat := readFrom c.counts c.symbols 0 0

end PrefixCode

/-! ## Blocks -/

/-- The code of literals and lengths in blocks that do not give their own. -/
def standardLiterals : PrefixCode :=
  .ofLengths (List.replicate 144 8 ++ List.replicate 112 9 ++ List.replicate 24 7
    ++ List.replicate 8 8)

/-- The code of distances in blocks that do not give their own; its last two symbols are no distances. -/
def standardDistances : PrefixCode := .ofLengths (List.replicate 32 5)

/-- The least length a symbol stands for, and how many bits are added to it. -/
def lengthOf? (symbol : Nat) : Option (Nat × Nat) :=
  if symbol < 265 then some (symbol - 254, 0)
  else if symbol < 285 then
    let bits := (symbol - 261) / 4
    some (Nat.pow 2 bits * (4 + (symbol - 261) % 4) + 3, bits)
  else if symbol = 285 then some (258, 0)
  else none

/-- The least distance a symbol stands for, and how many bits are added to it. -/
def distanceOf? (symbol : Nat) : Option (Nat × Nat) :=
  if symbol < 4 then some (symbol + 1, 0)
  else if symbol < 30 then
    let bits := (symbol - 2) / 2
    some (Nat.pow 2 bits * (2 + symbol % 2) + 1, bits)
  else none

/-- Copies bytes from a distance back; before the beginning there are zeros. -/
def copyBack (distance : Nat) : Nat → BitReader Unit
  | 0 => return
  | n + 1 => do
    let out := (← get).out
    put (if distance ≤ out.size then (out[out.size - distance]?).getD 0 else 0)
    copyBack distance n

/-- Reads the symbols of a block up to its end; the number bounds how many. -/
def symbols (literals distances : PrefixCode) : Nat → BitReader Unit
  | 0 => throw .corrupt
  | n + 1 => do
    let symbol ← literals.read
    if symbol < 256 then
      put symbol.toUInt8
      symbols literals distances n
    else if symbol = 256 then return
    else
      match lengthOf? symbol with
      | none => throw .corrupt
      | some (length, extra) =>
        let length := length + (← number extra)
        match distanceOf? (← distances.read) with
        | none => throw .corrupt
        | some (distance, extra) =>
          copyBack (distance + (← number extra)) length
          symbols literals distances n

/-- The order in which the lengths for the code of lengths are written. -/
def lengthOrder : List Nat := [16, 17, 18, 0, 8, 7, 9, 6, 10, 5, 11, 4, 12, 3, 13, 2, 14, 1, 15]

/-- Reads code lengths, runs of them written short; the first number bounds how many symbols are read. -/
def codeLengths (code : PrefixCode) (wanted : Nat) : Nat → List Nat → BitReader (List Nat)
  | 0, _ => throw .corrupt
  | n + 1, known => do
    if wanted ≤ known.length then
      if known.length = wanted then return known.reverse else throw .corrupt
    else
      match ← code.read with
      | 16 =>
        match known with
        | [] => throw .corrupt
        | last :: _ => codeLengths code wanted n (List.replicate (3 + (← number 2)) last ++ known)
      | 17 => codeLengths code wanted n (List.replicate (3 + (← number 3)) 0 ++ known)
      | 18 => codeLengths code wanted n (List.replicate (11 + (← number 7)) 0 ++ known)
      | length => codeLengths code wanted n (length :: known)

/-- A code of some lengths, which must be full. -/
def fullCode (lengths : List Nat) : BitReader PrefixCode :=
  let code := PrefixCode.ofLengths lengths
  if code.isFull then return code else throw .corrupt

/-- The codes a block gives itself. -/
def ownCodes : BitReader (PrefixCode × PrefixCode) := do
  let literals := 257 + (← number 5)
  let distances := 1 + (← number 5)
  let given := 4 + (← number 4)
  let lengths ← (lengthOrder.take given).mapM fun symbol => return (symbol, ← number 3)
  if 286 < literals || 30 < distances then throw .corrupt
  let code ← fullCode ((List.range 19).map fun n => (lengths.lookup n).getD 0)
  let all ← codeLengths code (literals + distances) (literals + distances + 1) []
  let literalCode ← fullCode (all.take literals)
  return (literalCode, ← fullCode (all.drop literals))

/-- Reads blocks up to the last one; the number bounds how many blocks and symbols are read. -/
def blocks : Nat → BitReader Unit
  | 0 => throw .corrupt
  | n + 1 => do
    let last ← bit
    match ← number 2 with
    | 0 =>
      align
      let size ← number 16
      let check ← number 16
      if size + check ≠ 65535 then throw .corrupt
      copy size
    | 1 => symbols standardLiterals standardDistances n
    | 2 =>
      let (literals, distances) ← ownCodes
      symbols literals distances n
    | _ => throw .corrupt
    if last then return else blocks n

/-! ## Inflated data -/

/-- What deflated data holds. -/
structure Inflated where
  data : Bytes
  /-- Why there is no more, unless the data has an end. -/
  stop : Option Stop
  /-- What comes after the deflated data. -/
  rest : Bytes

/-- How much is inflated at a time. -/
def windowSize : Nat := 32768

/-- Inflates data, a window at a time: of one that turns out to be corrupt nothing is given. -/
def inflate (packed : Bytes) : Inflated :=
  let bits := bitsOf packed
  let (end_, s) := ((blocks (bits.length + 1)).run.run ⟨bits, #[]⟩)
  let all := s.out.toList
  match end_ with
  | .ok () => ⟨all, none, packed.drop (packed.length - s.bits.length / 8)⟩
  | .error .unfinished => ⟨all, some .unfinished, []⟩
  | .error .corrupt => ⟨all.take (all.length / windowSize * windowSize), some .corrupt, []⟩

end StubRelease.Archive

/-
# StubRelease.CommandLine.Word -- the words of a command line

A word that begins with a dash and is not a lone dash is an option: one long name, with or without an
attached value, or a cluster of single characters. `--` ends the options. Every other word is a value.
-/
import StubRelease.Path

namespace StubRelease.CommandLine

/-- What kind of word a byte string is. -/
inductive Word where
  /-- `--`, after which everything is a value. -/
  | endOfOptions
  /-- `--name` or `--name=value`. -/
  | long (name : Bytes) (attached : Option Bytes)
  /-- `-abc`. -/
  | cluster (flags : Bytes)
  /-- Anything else, a lone dash included. -/
  | value (bytes : Bytes)
deriving DecidableEq, Repr

namespace Word

def dash : UInt8 := Bytes.ofChar '-'

def equals : UInt8 := Bytes.ofChar '='

/-- A long option cut at its first equals sign. -/
def ofLong (bs : Bytes) : Word :=
  match bs.dropWhile (· ≠ equals) with
  | _ :: attached => .long (bs.takeWhile (· ≠ equals)) (some attached)
  | [] => .long bs none

/-- The kind of a word. -/
def ofBytes (bs : Bytes) : Word :=
  match bs with
  | b :: c :: rest =>
    if b = dash then
      if c = dash then if rest.isEmpty then .endOfOptions else ofLong rest
      else .cluster (c :: rest)
    else .value bs
  | _ => .value bs

end Word

end StubRelease.CommandLine

namespace StubRelease.Bytes

/-- The length of the longest beginning that is well-formed text. -/
def textLength (bs : Bytes) : Nat :=
  ((List.range (bs.length + 1)).reverse.find? fun n => (toString? (bs.take n)).isSome).getD 0

/-- The longest beginning that is well-formed text, and the rest. -/
def splitText (bs : Bytes) : String × Bytes :=
  ((toString? (bs.take bs.textLength)).getD "", bs.drop bs.textLength)

end StubRelease.Bytes

/-
# StubRelease.Shell.Utility.Dump -- bytes in numbers

A command that prints bytes as numbers or characters, sixteen to a line, each line after its offset. Several
forms may be printed one below the other; their columns are spread so that the same bytes stand below each
other.
-/
import StubRelease.Shell.Utility.Filters

namespace StubRelease.Shell.Utility

open Act

/-- A form bytes are printed in. -/
inductive DumpForm where
  /-- Names of characters. -/
  | names
  /-- Characters and their escapes. -/
  | characters
  /-- Numbers of some bytes in a base, which may have signs. -/
  | numbers (base size : Nat) (signed : Bool)
deriving DecidableEq, Repr

namespace DumpForm

/-- How many bytes are printed together. -/
def size : DumpForm → Nat
  | numbers _ size _ => size
  | _ => 1

/-- The width of what is printed. -/
def width : DumpForm → Nat
  | numbers base size signed =>
    (Nat.toDigits base (Nat.pow 2 (8 * size) - 1)).length - (if signed && size = 8 then 1 else 0) + (if signed then 1 else 0)
  | _ => 3

/-- The names of the characters that do not show. -/
def controlNames : List String :=
  ["nul", "soh", "stx", "etx", "eot", "enq", "ack", "bel", "bs", "ht", "nl", "vt", "ff", "cr", "so", "si", "dle",
    "dc1", "dc2", "dc3", "dc4", "nak", "syn", "etb", "can", "em", "sub", "esc", "fs", "gs", "rs", "us", "sp"]

/-- Some bytes in a form. -/
def show' (form : DumpForm) (bytes : Bytes) : Text :=
  let n := bytes.reverse.foldl (fun n b => 256 * n + b.toNat) 0
  match form with
  | names =>
    let code := n % 128
    if code = 127 then "del".toList
    else ((controlNames[code]?).map String.toList).getD [Char.ofNat code]
  | characters =>
    match "\x00\x07\x08\t\n\x0b\x0c\r".toList.zip "0abtnvfr".toList |>.lookup (Char.ofNat n) with
    | some letter => ['\\', letter]
    | none => if 32 ≤ n && n < 127 then [Char.ofNat n] else padded 8 3 n
  | numbers base size signed =>
    let top := Nat.pow 2 (8 * size)
    if signed then Text.ofInt (if 2 * n < top then (n : Int) else (n : Int) - top)
    else if base = 10 then Text.ofNat n
    else padded base (Nat.toDigits base (top - 1)).length n
where
  padded (base width n : Nat) : Text :=
    let digits := Nat.toDigits base n
    List.replicate (width - digits.length) '0' ++ digits

/-- The size a letter or a number stands for. -/
def sizeOf? (t : Text) : Option (Nat × Text) :=
  match t with
  | 'C' :: rest => some (1, rest)
  | 'S' :: rest => some (2, rest)
  | 'I' :: rest => some (4, rest)
  | 'L' :: rest => some (8, rest)
  | _ =>
    let digits := t.takeWhile Char.isDigit
    let n := Text.number digits
    if digits.isEmpty then some (4, t)
    else if [1, 2, 4, 8].contains n then some (n, t.drop digits.length)
    else none

/-- The forms that a text asks for, and whether each is followed by the characters. The number bounds how many. -/
def ofText? : Nat → Text → Option (List (DumpForm × Bool))
  | 0, _ => none
  | _, [] => some []
  | n + 1, letter :: rest => do
    let (form, rest) ← match letter with
      | 'a' => some (names, rest)
      | 'c' => some (characters, rest)
      | _ => (do
        let base ← [('d', 10), ('u', 10), ('o', 8), ('x', 16)].lookup letter
        let (size, rest) ← sizeOf? rest
        return (numbers base size (letter = 'd'), rest))
    let all ← ofText? n (if rest.head? = some 'z' then rest.drop 1 else rest)
    return (form, rest.head? = some 'z') :: all

/-- A line of bytes in a form, its columns spread over a width for the whole line of so many bytes. -/
def line (form : DumpForm) (perLine total : Nat) (bytes : Bytes) : Text :=
  let fields := perLine / form.size
  let pad := total - fields * (form.width + 1)
  let count := (bytes.length + form.size - 1) / form.size
  (List.range count).flatMap fun i =>
    let shown := form.show' ((bytes.drop (i * form.size)).take form.size)
    let before := pad * (fields - i) / fields
    let after := pad * (fields - i - 1) / fields
    List.replicate (1 + (before - after) + (form.width - shown.length)) ' ' ++ shown

end DumpForm

/-- What a line of bytes reads, its columns having a width in all. -/
def DumpForm.reading (form : DumpForm) (total : Nat) (perLine : Nat) (bytes : Bytes) : Text :=
  let count := (bytes.length + form.size - 1) / form.size
  let shown := count * (form.width + 1)
  let pad := total - perLine / form.size * (form.width + 1)
  let fields := perLine / form.size
  let left := (fields - count) * (form.width + 1) + pad * (fields - count) / fields
  List.replicate (if shown = 0 then 0 else left) ' ' ++ "  >".toList
    ++ bytes.map (fun b => if 32 ≤ b.toNat && b.toNat < 127 then Char.ofNat b.toNat else '.') ++ ['<']

/-- Bytes in groups of a size; the last one may be shorter. The number bounds the groups. -/
def byteGroups (size : Nat) : Nat → Bytes → List Bytes
  | 0, _ => []
  | _, [] => []
  | n + 1, bytes => bytes.take size :: byteGroups size n (bytes.drop size)

/-- A number of bytes, which may be written in another base or in units. -/
def byteCount? (t : Text) : Option Nat :=
  let (n, rest) := match t with
    | '0' :: 'x' :: rest | '0' :: 'X' :: rest => Text.takeDigits 16 0 rest
    | '0' :: rest => Text.takeDigits 8 0 rest
    | _ => Text.takeDigits 10 0 t
  match rest with
  | [] => if t.isEmpty then none else some n
  | ['b'] => some (512 * n)
  | ['k'] | ['K'] => some (1024 * n)
  | ['m'] | ['M'] => some (1048576 * n)
  | _ => none

/-- The lines of a dump: offsets and bytes, a star in place of lines like the one before them. -/
def dumpLines (address : Nat → Text) (forms : List (DumpForm × Bool)) (perLine : Nat) (all : Bool) (start : Nat)
    (bytes : Bytes) : List Text :=
  let total := (forms.map fun f => (perLine / f.1.size) * (f.1.width + 1)).foldl max 0
  let lines := byteGroups perLine (bytes.length + 1) bytes
  let shown := (lines.zipIdx.foldl (fun (state : List Text × Option Bytes × Bool) (group, i) =>
    let (done, before, starred) := state
    let repeats := !all && before = some group && group.length = perLine
    if repeats then (if starred then done else ['*'] :: done, before, true)
    else
      let lead := address (start + i * perLine)
      let rows := forms.zipIdx.map fun ((form, reads), k) =>
        (if k = 0 then lead else List.replicate lead.length ' ') ++ form.line perLine total group
          ++ (if reads then form.reading total perLine group else [])
      (rows.reverse ++ done, some group, false)) ([], none, false)).1
  let last := address (start + bytes.length)
  shown.reverse ++ (if last.isEmpty then [] else [last])

def od : Command :=
  .withFlags [.valued "A" ["address-radix"], .valued "t" ["format"], .valued "N" ["read-bytes"],
    .valued "j" ["skip-bytes"], .plain "v" ["output-duplicates"], ⟨"w", ["width"], .attached⟩, .plain "a" [],
    .plain "b" [], .plain "c" [], .plain "d" [], .plain "i" [], .plain "l" [], .plain "o" [], .plain "s" [],
    .plain "x" []] 1 fun name a => do
    let letters : List (String × String) :=
      [("a", "a"), ("b", "o1"), ("c", "c"), ("d", "u2"), ("i", "dI"), ("l", "dL"), ("o", "o2"), ("s", "d2"),
        ("x", "x2")]
    let asked := a.options.filterMap fun (key, value) =>
      if key = "t" then some value else (letters.lookup key).map String.toList
    match asked.mapM fun (t : Text) => DumpForm.ofText? (t.length + 1) t with
    | none => failAs name 1 "invalid type string".toList
    | some forms =>
      let forms := if forms.flatten.isEmpty then [(.numbers 8 2 false, false)] else forms.flatten
      let radix := (a.last? "A").getD ['o']
      let unit := (forms.map (·.1.size)).foldl Nat.lcm 1
      let perLine := match a.last? "w" with
        | some [] => 32
        | some t => (byteCount? t).getD 16
        | none => 16
      let (files, status) ← inputs name 1 named (orGiven a.operands)
      let read : Text := files.flatMap (·.2)
      let start := ((a.last? "j").bind byteCount?).getD 0
      let bytes := read.bytes.drop start
      let bytes := match (a.last? "N").bind byteCount? with
        | some n => bytes.take n
        | none => bytes
      let address (n : Nat) : Text := match radix with
        | ['n'] => []
        | ['d'] => DumpForm.show'.padded 10 7 n
        | ['x'] => DumpForm.show'.padded 16 6 n
        | _ => DumpForm.show'.padded 8 7 n
      if files.isEmpty then return status
      else if start > read.length then failAs name 1 "cannot skip past end of combined input".toList
      else if perLine = 0 || perLine % unit ≠ 0 then failAs name 1 "invalid width".toList
      else
        print (Text.unlines (dumpLines address forms perLine (a.has "v") start bytes))
        return status

end StubRelease.Shell.Utility

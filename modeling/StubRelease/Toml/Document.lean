/-
# StubRelease.Toml.Document -- reading a document

A document is a sequence of lines: header lines, key lines, blank lines and comments. Reading it gives the
entries of its top-level table in the order they were written, or nothing when it is not TOML. The reader
of values is bounded by the number of characters, arrays and inline tables nest at most eighty deep, and a
dotted key has at most eighty parts.
-/
import StubRelease.Toml.Scalar
import StubRelease.Toml.Table

namespace StubRelease.Toml

/-- How deep arrays and inline tables may nest, and how many parts a dotted key may have. -/
def nestingLimit : Nat := 80

/-! ## Keys -/

/-- One part of a key: bare or quoted on one line. -/
def keyPart : Reader String := fun cs =>
  match cs with
  | '"' :: _ | '\'' :: _ => (shortText cs).map fun (text, rest) => (String.ofList text, rest)
  | _ =>
    let bare := cs.takeWhile isKeyChar
    if bare.isEmpty then none else some (String.ofList bare, cs.dropWhile isKeyChar)

/-- The parts of a dotted key, the first one already read. -/
def keyPartsFrom : Nat → String → Reader (List String × String)
  | 0, _ => failure
  | n + 1, key => do
    skipBlanks
    match ← get with
    | '.' :: rest =>
      set rest
      skipBlanks
      let next ← keyPart
      let (path, last) ← keyPartsFrom n next
      pure (key :: path, last)
    | _ => pure ([], key)

/-- A key: the path to a table, and the name in it. Blanks around its dots and after it are skipped. -/
def dottedKey : Reader (List String × String) := do
  let first ← keyPart
  let (path, last) ← keyPartsFrom ((← get).length + 1) first
  if path.length < nestingLimit then pure (path, last) else failure

/-- Takes one given character off the front. -/
def expect (c : Char) : Reader Unit := fun cs =>
  match cs with
  | d :: rest => if d = c then some ((), rest) else none
  | [] => none

/-! ## Values -/

/-- A quoted text as a value. -/
def textValue : Reader Value := fun cs =>
  (quotedText cs).map fun (text, rest) => (.string (String.ofList text), rest)

mutual

/-- A value. The first bound counts steps, the second how deep it may still nest. -/
def value : Nat → Nat → Reader Value
  | 0, _ => failure
  | steps + 1, depth => do
    match ← get with
    | '"' :: _ | '\'' :: _ => textValue
    | '[' :: rest =>
      match depth with
      | 0 => failure
      | depth + 1 =>
        set rest
        skipTrivia
        .array <$> items steps depth []
    | '{' :: rest =>
      match depth with
      | 0 => failure
      | depth + 1 =>
        set rest
        skipTrivia
        .table .inlined <$> pairs steps depth .empty
    | _ => Scalar.read

/-- The items of an array up to its closing bracket; a comma may follow the last one. -/
def items : Nat → Nat → List Value → Reader (List Value)
  | 0, _, _ => failure
  | steps + 1, depth, read => do
    match ← get with
    | ']' :: rest =>
      set rest
      pure read
    | _ =>
      let v ← value steps depth
      skipTrivia
      match ← get with
      | ',' :: rest =>
        set rest
        skipTrivia
        items steps depth (read ++ [v])
      | ']' :: rest =>
        set rest
        pure (read ++ [v])
      | _ => failure

/-- The entries of an inline table up to its closing brace; a comma may follow the last one. Line ends and
comments may stand anywhere but within a key. -/
def pairs : Nat → Nat → Open → Reader Entries
  | 0, _, _ => failure
  | steps + 1, depth, table => do
    match ← get with
    | '}' :: rest =>
      set rest
      pure table.entries
    | _ =>
      let (path, key) ← dottedKey
      skipTrivia
      expect '='
      skipTrivia
      let v ← value steps depth
      let table ← StateT.lift (table.insert path key v)
      skipTrivia
      match ← get with
      | ',' :: rest =>
        set rest
        skipTrivia
        pairs steps depth table
      | '}' :: rest =>
        set rest
        pure table.entries
      | _ => failure

end

/-! ## Lines -/

/-- A document being read: the top-level table, and the path of the table that key lines add to. -/
structure Draft where
  top : Open
  current : List String

namespace Draft

/-- A key line. -/
def keyLine (d : Draft) : Reader Draft := do
  let (path, key) ← dottedKey
  expect '='
  skipBlanks
  let v ← value (2 * (← get).length + 2) nestingLimit
  let top ← StateT.lift (d.top.within false (Open.insert path key v) d.current)
  pure { d with top }

/-- A header line of one table. -/
def tableHeader (d : Draft) : Reader Draft := do
  expect '['
  skipBlanks
  let (path, key) ← dottedKey
  expect ']'
  let top ← StateT.lift (d.top.within false (Open.openTable key) path)
  pure ⟨top, path ++ [key]⟩

/-- A header line of a list of tables. -/
def itemHeader (d : Draft) : Reader Draft := do
  expect '['
  expect '['
  skipBlanks
  let (path, key) ← dottedKey
  expect ']'
  expect ']'
  let top ← StateT.lift (d.top.within false (Open.openItem key) path)
  pure ⟨top, path ++ [key]⟩

/-- One line, whatever it holds. -/
def line (d : Draft) : Reader Draft := do
  skipBlanks
  let d ← match ← get with
    | [] | '\n' :: _ | '\r' :: _ | '#' :: _ => pure d
    | '[' :: '[' :: _ => d.itemHeader
    | '[' :: _ => d.tableHeader
    | _ => d.keyLine
  endLine
  pure d

/-- All lines that are left. -/
def lines : Nat → Draft → List Char → Option Draft
  | _, d, [] => some d
  | 0, _, _ => none
  | n + 1, d, cs =>
    match d.line cs with
    | none => none
    | some (d, rest) => lines n d rest

end Draft

/-- A byte order mark in front of a document is no part of it. -/
def dropMark : List Char → List Char
  | '\uFEFF' :: rest => rest
  | cs => cs

/-- The entries of a document's top-level table. -/
def parse (text : String) : Option Entries :=
  let cs := dropMark text.toList
  (Draft.lines (cs.length + 1) ⟨.empty, []⟩ cs).map fun d => d.top.entries

end StubRelease.Toml

/-
# StubRelease.Toml.Text -- blanks, comments and quoted text

The parts of a TOML document below its values. Every reader takes the characters that are left and gives
what it read with the characters left after it, or nothing when they do not fit.
-/

namespace StubRelease.Toml

/-- Reads from the characters that are left. -/
abbrev Reader := StateT (List Char) Option

/-- A blank within a line. -/
def isBlank (c : Char) : Bool := c == ' ' || c == '\t'

/-- A character that may stand in a comment or a quoted text. -/
def isPlain (c : Char) : Bool := c == '\t' || (c.toNat ≥ 32 && c.toNat ≠ 127)

/-- A character of a key that is not quoted. -/
def isKeyChar (c : Char) : Bool := c.isAlphanum || c == '_' || c == '-'

/-- Skips the blanks within a line. -/
def skipBlanks : Reader Unit := modify (·.dropWhile isBlank)

/-- Skips blanks, line ends and comments; `inComment` says whether a comment is open. -/
def triviaFrom (inComment : Bool) : List Char → Option (List Char)
  | [] => some []
  | '\n' :: rest => triviaFrom false rest
  | '\r' :: '\n' :: rest => triviaFrom false rest
  | c :: rest =>
    if inComment then if isPlain c then triviaFrom true rest else none
    else if isBlank c then triviaFrom false rest
    else if c = '#' then triviaFrom true rest
    else some (c :: rest)

/-- Skips blanks, line ends and comments. -/
def skipTrivia : Reader Unit := fun cs => (triviaFrom false cs).map fun rest => ((), rest)

/-- Skips a comment up to its line end. -/
def commentFrom : List Char → Option (List Char)
  | [] => some []
  | '\n' :: rest => some ('\n' :: rest)
  | '\r' :: '\n' :: rest => some ('\r' :: '\n' :: rest)
  | c :: rest => if isPlain c then commentFrom rest else none

/-- Skips what may follow a line's content: blanks, a comment, and the line end. -/
def endLine : Reader Unit := fun cs =>
  let cs := cs.dropWhile isBlank
  let cs := match cs with
    | '#' :: rest => commentFrom rest
    | _ => some cs
  match cs with
  | some [] => some ((), [])
  | some ('\n' :: rest) => some ((), rest)
  | some ('\r' :: '\n' :: rest) => some ((), rest)
  | _ => none

/-! ## Escapes -/

/-- The value of a hexadecimal digit. -/
def hexDigit? (c : Char) : Option Nat :=
  if c.isDigit then some (c.toNat - '0'.toNat)
  else if 'a' ≤ c ∧ c ≤ 'f' then some (c.toNat - 'a'.toNat + 10)
  else if 'A' ≤ c ∧ c ≤ 'F' then some (c.toNat - 'A'.toNat + 10)
  else none

/-- The character with a hexadecimal number, if there is one. -/
def scalar? (digits : List Char) : Option Char := do
  let values ← digits.mapM hexDigit?
  let n := values.foldl (fun n d => n * 16 + d) 0
  if n.isValidChar then some (Char.ofNat n) else none

/-- The character a single-letter escape stands for. -/
def escape? : Char → Option Char
  | 'b' => some '\x08'
  | 't' => some '\t'
  | 'n' => some '\n'
  | 'f' => some '\x0c'
  | 'r' => some '\r'
  | 'e' => some '\x1b'
  | '"' => some '"'
  | '\\' => some '\\'
  | _ => none

/-! ## Quoted text -/

/-- Puts a character in front of what a reader gives. -/
def consRead (c : Char) (read : Option (List Char × List Char)) : Option (List Char × List Char) :=
  read.map fun (cs, rest) => (c :: cs, rest)

/-- The rest of a text between double quotes on one line. -/
def basicFrom : List Char → Option (List Char × List Char)
  | [] => none
  | '"' :: rest => some ([], rest)
  | '\\' :: 'x' :: a :: b :: rest =>
    (scalar? [a, b]).bind fun c => consRead c (basicFrom rest)
  | '\\' :: 'u' :: a :: b :: c :: d :: rest =>
    (scalar? [a, b, c, d]).bind fun c => consRead c (basicFrom rest)
  | '\\' :: 'U' :: a :: b :: c :: d :: e :: f :: g :: h :: rest =>
    (scalar? [a, b, c, d, e, f, g, h]).bind fun c => consRead c (basicFrom rest)
  | '\\' :: c :: rest => (escape? c).bind fun c => consRead c (basicFrom rest)
  | c :: rest => if isPlain c && c != '\\' then consRead c (basicFrom rest) else none

/-- The rest of a text between single quotes on one line. -/
def literalFrom : List Char → Option (List Char × List Char)
  | [] => none
  | '\'' :: rest => some ([], rest)
  | c :: rest => if isPlain c then consRead c (literalFrom rest) else none

/-- Where a reader of a text over several lines stands after a backslash at a line's end. -/
inductive Fold where
  /-- Not after one. -/
  | no
  /-- Before the end of the line. -/
  | seeking
  /-- Past it, skipping blanks and line ends. -/
  | skipping
deriving DecidableEq

/-- The rest of a text between triple double quotes. Up to two quotes may stand right before the closing
ones. -/
def longBasicFrom : Fold → List Char → Option (List Char × List Char)
  | _, [] => none
  | .seeking, '\n' :: rest => longBasicFrom .skipping rest
  | .seeking, '\r' :: '\n' :: rest => longBasicFrom .skipping rest
  | .seeking, c :: rest => if isBlank c then longBasicFrom .seeking rest else none
  | .skipping, '\n' :: rest => longBasicFrom .skipping rest
  | .skipping, '\r' :: '\n' :: rest => longBasicFrom .skipping rest
  | .skipping, ' ' :: rest => longBasicFrom .skipping rest
  | .skipping, '\t' :: rest => longBasicFrom .skipping rest
  | _, '"' :: '"' :: '"' :: '"' :: '"' :: rest => some (['"', '"'], rest)
  | _, '"' :: '"' :: '"' :: '"' :: rest => some (['"'], rest)
  | _, '"' :: '"' :: '"' :: rest => some ([], rest)
  | _, '\n' :: rest => consRead '\n' (longBasicFrom .no rest)
  | _, '\r' :: '\n' :: rest => consRead '\r' (consRead '\n' (longBasicFrom .no rest))
  | _, '\\' :: 'x' :: a :: b :: rest =>
    (scalar? [a, b]).bind fun c => consRead c (longBasicFrom .no rest)
  | _, '\\' :: 'u' :: a :: b :: c :: d :: rest =>
    (scalar? [a, b, c, d]).bind fun c => consRead c (longBasicFrom .no rest)
  | _, '\\' :: 'U' :: a :: b :: c :: d :: e :: f :: g :: h :: rest =>
    (scalar? [a, b, c, d, e, f, g, h]).bind fun c => consRead c (longBasicFrom .no rest)
  | _, '\\' :: '\n' :: rest => longBasicFrom .skipping rest
  | _, '\\' :: '\r' :: '\n' :: rest => longBasicFrom .skipping rest
  | _, '\\' :: ' ' :: rest => longBasicFrom .seeking rest
  | _, '\\' :: '\t' :: rest => longBasicFrom .seeking rest
  | _, '\\' :: c :: rest => (escape? c).bind fun c => consRead c (longBasicFrom .no rest)
  | _, c :: rest => if isPlain c && c != '\\' then consRead c (longBasicFrom .no rest) else none

/-- The rest of a text between triple single quotes. -/
def longLiteralFrom : List Char → Option (List Char × List Char)
  | [] => none
  | '\'' :: '\'' :: '\'' :: '\'' :: '\'' :: rest => some (['\'', '\''], rest)
  | '\'' :: '\'' :: '\'' :: '\'' :: rest => some (['\''], rest)
  | '\'' :: '\'' :: '\'' :: rest => some ([], rest)
  | '\n' :: rest => consRead '\n' (longLiteralFrom rest)
  | '\r' :: '\n' :: rest => consRead '\r' (consRead '\n' (longLiteralFrom rest))
  | c :: rest => if isPlain c then consRead c (longLiteralFrom rest) else none

/-- A line end right after the opening quotes of a long text does not belong to it. -/
def dropLineEnd : List Char → List Char
  | '\n' :: rest => rest
  | '\r' :: '\n' :: rest => rest
  | cs => cs

/-- A quoted text on one line. -/
def shortText : List Char → Option (List Char × List Char)
  | '"' :: rest => basicFrom rest
  | '\'' :: rest => literalFrom rest
  | _ => none

/-- A quoted text, on one line or on several. -/
def quotedText : List Char → Option (List Char × List Char)
  | '"' :: '"' :: '"' :: rest => longBasicFrom .no (dropLineEnd rest)
  | '\'' :: '\'' :: '\'' :: rest => longLiteralFrom (dropLineEnd rest)
  | cs => shortText cs

end StubRelease.Toml

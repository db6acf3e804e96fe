/-
# StubRelease.Shell.Text -- the text of scripts

Scripts and what they work on are byte strings. They are read as texts in which each character stands for
one byte, so every byte string is a text and bytes can be written as characters. Main statement: a byte
string is what its text stands for.
-/
import StubRelease.Bytes
import StubRelease.Decimal

namespace StubRelease.Shell

/-- A text of a script; each character stands for one byte. -/
abbrev Text := List Char

namespace Text

def ofBytes (bs : Bytes) : Text := bs.map fun b => Char.ofNat b.toNat

def bytes (t : Text) : Bytes := t.map fun c => c.toNat.toUInt8

/-- The bytes of a string, as a text. -/
def ofString (s : String) : Text := ofBytes (Bytes.ofString s)

/-- A byte string is what its text stands for. -/
theorem bytes_ofBytes (bs : Bytes) : bytes (ofBytes bs) = bs := by
  have byte (b : UInt8) : (Char.ofNat b.toNat).toNat.toUInt8 = b := by
    have hb : b.toNat < 256 := b.toNat_lt
    have hv : b.toNat.isValidChar := Or.inl (by omega)
    have hnat : (Char.ofNat b.toNat).toNat = b.toNat := by
      rw [Char.ofNat, dif_pos hv]
      rfl
    rw [hnat]
    simp
  induction bs with
  | nil => rfl
  | cons b rest ih => simp only [ofBytes, bytes, List.map_cons, byte] at *; rw [ih]

/-- Whether a text is not after another one in the order of their characters, in which names are listed. -/
def notAfter (a b : Text) : Bool := !decide (b < a)

/-- A number in decimal digits. -/
def ofNat (n : Nat) : Text := Decimal.digits n

/-- A number in decimal digits with its sign. -/
def ofInt (n : Int) : Text := if n < 0 then '-' :: ofNat n.natAbs else ofNat n.natAbs

/-- Texts with another between each two of them. -/
def join (between : Text) (texts : List Text) : Text := between.intercalate texts

/-- Texts with blanks in between. -/
def unwords (texts : List Text) : Text := join [' '] texts

/-- The pieces between the places where a character stands. -/
def splitAt (c : Char) : Text → List Text
  | [] => [[]]
  | d :: rest =>
    match splitAt c rest with
    | [] => [[d]]
    | piece :: pieces => if d = c then [] :: piece :: pieces else (d :: piece) :: pieces

/-- The lines of a text; what follows the last line end is one only if it is not empty. -/
def lines (t : Text) : List Text :=
  let pieces := splitAt '\n' t
  if pieces.getLast? = some [] then pieces.dropLast else pieces

/-- Lines with a line end each. -/
def unlines (ls : List Text) : Text := ls.flatMap (· ++ ['\n'])

/-- Whether a text stands somewhere in another one. -/
def hasPart (part : Text) : Text → Bool
  | [] => part.isEmpty
  | c :: rest => part.isPrefixOf (c :: rest) || hasPart part rest

/-- Drops characters of a kind at the end. -/
def dropEndWhile (p : Char → Bool) (t : Text) : Text := (t.reverse.dropWhile p).reverse

/-- Drops the line ends at the end. -/
def dropLineEnds (t : Text) : Text := dropEndWhile (· = '\n') t

def isBlank (c : Char) : Bool := c = ' ' || c = '\t'

/-- A blank, a line end or another control character that moves on. -/
def isSpace (c : Char) : Bool := c = ' ' || ('\t' ≤ c && c ≤ '\r')

/-- The number that decimal digits stand for. -/
def number (digits : Text) : Nat := digits.foldl (fun n d => 10 * n + (d.toNat - '0'.toNat)) 0

/-- A number written in decimal digits alone. -/
def toNat? (t : Text) : Option Nat := if t.isEmpty || !t.all Char.isDigit then none else some (number t)

/-- A number in decimal digits with an optional sign. -/
def toInt? : Text → Option Int
  | '-' :: digits => (toNat? digits).map fun n => -(n : Int)
  | '+' :: digits => (toNat? digits).map Int.ofNat
  | digits => (toNat? digits).map Int.ofNat

/-- The value of a digit up to fifteen. -/
def hexValue? (c : Char) : Option Nat :=
  if c.isDigit then some (c.toNat - 48)
  else if 'a' ≤ c && c ≤ 'f' then some (c.toNat - 87)
  else if 'A' ≤ c && c ≤ 'F' then some (c.toNat - 55)
  else none

/-- The number that digits of a base stand for, up to the first character that is none, and what follows
them. -/
def takeDigits (base : Nat) : Nat → Text → Nat × Text
  | n, c :: rest =>
    match hexValue? c with
    | some d => if d < base then takeDigits base (n * base + d) rest else (n, c :: rest)
    | none => (n, c :: rest)
  | n, [] => (n, [])

def isNameChar (c : Char) : Bool := c.isAlphanum || c = '_'

/-- A name a variable may have. -/
def isName : Text → Bool
  | [] => false
  | c :: rest => isNameChar c && !c.isDigit && rest.all isNameChar

end Text

end StubRelease.Shell

/-
# StubRelease.Terminal -- text without terminal controls

A terminal reads an escape character as the beginning of a control sequence. What a message shows of a
foreign text is that text without such sequences and without control characters other than white space. A
sequence ends with its last byte, is given up at a cancel character, and starts anew at an escape; white
space within a short sequence gives it up as well and is shown. Sequences are counted in bytes: characters
beyond ASCII belong to the sequence they stand in, and the byte that ends a string for the terminal can be
one of theirs, of which the bytes that follow are then not shown.
-/
import StubRelease.Bytes

namespace StubRelease.Terminal

/-- What the next byte belongs to. -/
inductive State where
  /-- Text. -/
  | ground
  /-- Text of which nothing was shown since a string ended. -/
  | ended
  /-- A sequence of which only the escape character was read. -/
  | escape
  /-- A sequence of two or more characters that is no longer one. -/
  | intermediate
  /-- A control sequence with parameters. -/
  | control
  /-- A string for the terminal of which only the beginning was read. -/
  | opened
  /-- The parameters of a string for the terminal. -/
  | parameters
  /-- What stands between the parameters of a string for the terminal and its text. -/
  | between
  /-- The text of a string for the terminal. -/
  | string
  /-- A title, which a bell ends too. -/
  | title
deriving DecidableEq, Repr

def escapeByte : UInt8 := 0x1B

def isCancel (b : UInt8) : Bool := b == 0x18 || b == 0x1A

/-- A byte within a character of several bytes. -/
def isContinuation (b : UInt8) : Bool := 0x80 ≤ b && b ≤ 0xBF

def isSpace (b : UInt8) : Bool := b == 0x20 || b == 0x09 || b == 0x0A || b == 0x0C || b == 0x0D

/-- A control character within a short sequence: white space gives the sequence up and is shown. -/
def executed (s : State) (b : UInt8) : State × Bool := if isSpace b then (.ground, true) else (s, false)

/-- The byte that ends the text of a string for the terminal. -/
def terminator : UInt8 := 0x9C

/-- A digit of a parameter, or what separates two. -/
def isParameter (b : UInt8) : Bool := 0x30 ≤ b && b ≤ 0x3B && b != 0x3A

/-- What a byte that is neither an escape nor a cancel does. -/
def State.step : State → UInt8 → State × Bool
  | .ground, b => (.ground, if b < 0x20 then isSpace b else b != 0x7F)
  | .ended, b =>
    let shown := if b < 0x20 then isSpace b else b != 0x7F && !isContinuation b
    (if shown then .ground else .ended, shown)
  | .escape, b =>
    if b < 0x20 then executed .escape b
    else if b < 0x30 then (.intermediate, false)
    else if b == Bytes.ofChar '[' then (.control, false)
    else if b == Bytes.ofChar ']' then (.title, false)
    else if b == Bytes.ofChar 'P' then (.opened, false)
    else if ['X', '^', '_'].any (Bytes.ofChar · == b) then (.string, false)
    else if b < 0x7F then (.ground, false)
    else (.escape, false)
  | .intermediate, b =>
    if b < 0x20 then executed .intermediate b
    else if 0x30 ≤ b && b < 0x7F then (.ground, false)
    else (.intermediate, false)
  | .control, b =>
    if b < 0x20 then executed .control b
    else if 0x40 ≤ b && b < 0x7F then (.ground, false)
    else (.control, false)
  | .opened, b =>
    if b < 0x20 || 0x7F ≤ b then (.opened, false)
    else if b < 0x30 then (.between, false)
    else if b < 0x40 && b != 0x3A then (.parameters, false)
    else (.string, false)
  | .parameters, b =>
    if b < 0x20 || 0x7F ≤ b || isParameter b then (.parameters, false)
    else if b < 0x30 then (.between, false)
    else (.string, false)
  | .between, b => (if b < 0x30 || 0x7F ≤ b then .between else .string, false)
  | .string, b => (if b == terminator then .ended else .string, false)
  | .title, b => (if b == 0x07 then .ground else .title, false)

/-- The bytes that are shown. -/
def shownFrom : State → Bytes → Bytes
  | _, [] => []
  | s, b :: rest =>
    if b == escapeByte then shownFrom .escape rest
    else if isCancel b then shownFrom .ground rest
    else
      let (next, shown) := s.step b
      if shown then b :: shownFrom next rest else shownFrom next rest

/-- A text as it is shown. -/
def shown (text : String) : String := (shownFrom .ground (Bytes.ofString text)).lossy

end StubRelease.Terminal

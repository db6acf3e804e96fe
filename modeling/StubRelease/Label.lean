/-
# StubRelease.Label -- the label in an archive's name

A label is a non-empty text of ASCII letters, digits, `-`, `.` and `_`; that it is one belongs to its
type. It comes from an override when there is a non-empty one, and from the date otherwise. Main
statements: reading accepts exactly the accepted texts (`parse_eq_ok_iff`), and a date's label is accepted
unchanged (`parse_ofInstant`).
-/
import StubRelease.Calendar
import StubRelease.Decimal
import StubRelease.Failure

namespace StubRelease

/-- A character that may stand in a label. -/
def isLabelChar (c : Char) : Bool := c.isAlphanum || c == '-' || c == '.' || c == '_'

/-- A text that may become part of an archive's name. -/
structure Label where
  text : String
  nonempty : text ≠ ""
  accepted : text.toList.all isLabelChar = true
deriving DecidableEq

namespace Label

theorem text_injective {k l : Label} (h : k.text = l.text) : k = l := by
  cases k
  cases l
  cases h
  rfl

/-- The reason an empty label is refused. -/
def emptyReason : String := "label must not be empty"

/-- The reason a label is refused for one of its characters. -/
def characterReason (c : Char) : String := "invalid character '" ++ c.toString ++ "'"

/-- Reads a label; the first character that may not stand in one is named. -/
def parse (value : String) : Except Failure Label :=
  if hne : value = "" then .error (.invalidLabel value emptyReason)
  else if hall : value.toList.all isLabelChar = true then .ok ⟨value, hne, hall⟩
  else
    match value.toList.find? (fun c => !isLabelChar c) with
    | some c => .error (.invalidLabel value (characterReason c))
    | none => .error (.invalidLabel value emptyReason)

theorem parse_text (l : Label) : parse l.text = .ok l := by
  simp [parse, l.nonempty, l.accepted]

theorem parse_eq_ok_iff {value : String} {l : Label} : parse value = .ok l ↔ value = l.text := by
  constructor
  · intro h
    unfold parse at h
    split at h
    · simp at h
    · split at h
      · rw [← Except.ok.inj h]
      · split at h <;> simp at h
  · rintro rfl
    exact parse_text l

/-- Year, month and day, with at least four, two and two digits. -/
def dateDigits (d : CivilDate) : List Char :=
  Decimal.padded 4 d.year ++ Decimal.padded 2 d.month ++ Decimal.padded 2 d.day

theorem isLabelChar_of_isDigit {c : Char} (h : c.isDigit = true) : isLabelChar c = true := by
  simp [isLabelChar, Char.isAlphanum, h]

theorem isDigit_of_mem_dateDigits {d : CivilDate} {c : Char} (h : c ∈ dateDigits d) :
    c.isDigit = true := by
  simp only [dateDigits, List.mem_append] at h
  rcases h with (h | h) | h <;> exact Decimal.isDigit_of_mem_padded h

/-- The label of a date. -/
def ofDate (d : CivilDate) : Label where
  text := String.ofList (dateDigits d)
  nonempty := by
    intro h
    have : dateDigits d = [] := by simpa using congrArg String.toList h
    simp [dateDigits, Decimal.padded_ne_nil] at this
  accepted := by
    rw [String.toList_ofList, List.all_eq_true]
    exact fun c hc => isLabelChar_of_isDigit (isDigit_of_mem_dateDigits hc)

/-- The label of an instant: its UTC date. -/
def ofInstant (t : Instant) : Label := ofDate t.date

theorem parse_ofInstant (t : Instant) : parse (ofInstant t).text = .ok (ofInstant t) :=
  parse_text _

/-- The label of an override if there is a non-empty one, of the date of `now` otherwise. -/
def resolve (override : Option String) (now : Instant) : Except Failure Label :=
  match override with
  | some value => if value = "" then .ok (ofInstant now) else parse value
  | none => .ok (ofInstant now)

/-- The variable of the environment that overrides the date. -/
def overrideVariable : String := "RELEASE_VERSION"

/-- The label a process starts with. A value of the override variable that is not UTF-8 counts as
unset. -/
def ofEnvironment (value : Option Bytes) (now : Instant) : Except Failure Label :=
  resolve (value.bind Bytes.toString?) now

end Label

end StubRelease

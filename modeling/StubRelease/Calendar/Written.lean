/-
# StubRelease.Calendar.Written -- moments as formats write them

A moment is a second in UTC, split into its date, its time of day and its place in the week and the year. A
format writes it: a letter after a percent sign stands for a part of it, perhaps with signs in between that
change how the part is filled up.
-/
import StubRelease.Calendar
import StubRelease.Decimal

namespace StubRelease

/-- A second in UTC. -/
structure Moment where
  /-- Seconds since the beginning of 1970. -/
  second : Int
  year : Int
  month : Nat
  day : Nat
  /-- Days of the year before the day. -/
  dayOfYear : Nat
  /-- Days of the week before the day, from Sunday on. -/
  weekday : Nat
  /-- Seconds of the day before the moment. -/
  secondOfDay : Nat
deriving Repr

namespace Moment

/-- How many eras the reckoning is moved, so that moments long before 1970 have a number. -/
def erasBefore : Nat := 20

def isLeap (year : Int) : Bool := year % 4 = 0 && (year % 100 ≠ 0 || year % 400 = 0)

/-- Days of a year before a month. -/
def daysBefore (year : Int) (month : Nat) : Nat :=
  let days := [0, 31, 59, 90, 120, 151, 181, 212, 243, 273, 304, 334].getD (month - 1) 0
  if isLeap year && 2 < month then days + 1 else days

/-- The moment of a second. -/
def ofSecond (second : Int) : Moment :=
  let moved := (second + erasBefore * Calendar.eraDays * Calendar.daySeconds).toNat
  let r := Calendar.reckon moved
  let year : Int := r.year - 400 * erasBefore
  let day : Int := second / Calendar.daySeconds
  { second, year, month := r.month, day := r.day, dayOfYear := daysBefore year r.month + r.day - 1
    weekday := ((day + 4) % 7).toNat, secondOfDay := (second % Calendar.daySeconds).toNat }

/-! ## Weeks -/

/-- The week of the year, the first one beginning with the first day of a kind. -/
def weekFrom (first : Nat) (m : Moment) : Nat := (m.dayOfYear + 7 - (m.weekday + 7 - first) % 7) / 7

/-- The year and the number of the week that a moment is in, if each week belongs to the year of its
Thursday. -/
def isoWeek (m : Moment) : Int × Nat :=
  let fromMonday := (m.weekday + 6) % 7
  let week : Int := ((m.dayOfYear : Int) - fromMonday + 10) / 7
  let length (year : Int) : Nat := if isLeap year then 366 else 365
  let weeks (year : Int) (firstDay : Int) : Nat :=
    if firstDay % 7 = 3 || (isLeap year && firstDay % 7 = 2) then 53 else 52
  let firstDay : Int := fromMonday - m.dayOfYear
  if week < 1 then (m.year - 1, weeks (m.year - 1) (firstDay - length (m.year - 1)))
  else if week > weeks m.year firstDay then (m.year + 1, 1)
  else (m.year, week.toNat)

/-! ## Formats -/

def weekdayNames : List String :=
  ["Sunday", "Monday", "Tuesday", "Wednesday", "Thursday", "Friday", "Saturday"]

def monthNames : List String :=
  ["January", "February", "March", "April", "May", "June", "July", "August", "September", "October", "November",
    "December"]

/-- A part of a moment before it is filled up. -/
inductive Item where
  | number (n : Int) (fill : Char) (width : Nat)
  | text (t : List Char)
  | several (format : String)

/-- The part that a letter stands for. -/
def item? (m : Moment) (letter : Char) : Option Item :=
  let hour := m.secondOfDay / 3600
  let twelve := if hour % 12 = 0 then 12 else hour % 12
  let named (names : List String) (i : Nat) : List Char := (names.getD i "").toList
  let two (n : Nat) : Option Item := some (.number n '0' 2)
  let half := if hour < 12 then "am" else "pm"
  match letter with
  | 'a' => some (.text ((named weekdayNames m.weekday).take 3))
  | 'A' => some (.text (named weekdayNames m.weekday))
  | 'b' | 'h' => some (.text ((named monthNames (m.month - 1)).take 3))
  | 'B' => some (.text (named monthNames (m.month - 1)))
  | 'c' => some (.several "%a %b %e %H:%M:%S %Y")
  | 'C' => some (.number (m.year / 100) '0' 2)
  | 'd' => two m.day
  | 'D' | 'x' => some (.several "%m/%d/%y")
  | 'e' => some (.number m.day ' ' 2)
  | 'F' => some (.several "%Y-%m-%d")
  | 'g' => two (m.isoWeek.1 % 100).toNat
  | 'G' => some (.number m.isoWeek.1 '0' 4)
  | 'H' => two hour
  | 'I' => two twelve
  | 'j' => some (.number (m.dayOfYear + 1) '0' 3)
  | 'k' => some (.number hour ' ' 2)
  | 'l' => some (.number twelve ' ' 2)
  | 'm' => two m.month
  | 'M' => two (m.secondOfDay / 60 % 60)
  | 'n' => some (.text ['\n'])
  | 'p' => some (.text (half.toList.map Char.toUpper))
  | 'P' => some (.text half.toList)
  | 'r' => some (.several "%I:%M:%S %p")
  | 'R' => some (.several "%H:%M")
  | 's' => some (.number m.second '0' 1)
  | 'S' => two (m.secondOfDay % 60)
  | 't' => some (.text ['\t'])
  | 'T' | 'X' => some (.several "%H:%M:%S")
  | 'u' => some (.number (if m.weekday = 0 then 7 else m.weekday) '0' 1)
  | 'U' => two (m.weekFrom 0)
  | 'V' => two m.isoWeek.2
  | 'w' => some (.number m.weekday '0' 1)
  | 'W' => two (m.weekFrom 1)
  | 'y' => two (m.year % 100).toNat
  | 'Y' => some (.number m.year '0' 1)
  | 'z' => some (.text "+0000".toList)
  | 'Z' => some (.text "UTC".toList)
  | '%' => some (.text ['%'])
  | _ => none

/-- Signs that stand between a percent sign and its letter. -/
structure Filling where
  /-- What is filled up with, or nothing. -/
  fill : Option (Option Char)
  capitals : Bool
  swapped : Bool
  width : Option Nat

/-- A part filled up. -/
def Filling.apply (f : Filling) (letter : Char) (t : List Char) (negative : Bool) (fill : Char) (width : Nat) :
    List Char :=
  let t := if f.swapped then (if letter = 'p' || letter = 'Z' then t.map Char.toLower else t.map Char.toUpper)
    else if f.capitals then t.map Char.toUpper else t
  let sign := if negative then ['-'] else []
  match f.fill with
  | some none => sign ++ t
  | other =>
    let fill := (other.join).getD fill
    let missing := List.replicate (f.width.getD width - (sign.length + t.length)) fill
    if fill = '0' then sign ++ missing ++ t else missing ++ sign ++ t

/-- A format with the parts of a moment in it. The number bounds the steps; formats within formats are not
deep. -/
def written (m : Moment) : Nat → List Char → List Char
  | 0, _ => []
  | _, [] => []
  | n + 1, '%' :: rest =>
    let signs := rest.takeWhile "_-0^#".toList.contains
    let after := rest.drop signs.length
    let digits := after.takeWhile Char.isDigit
    let after := after.drop digits.length
    let after := match after with
      | 'E' :: c :: more | 'O' :: c :: more => c :: more
      | _ => after
    let fill := (signs.filter "_-0".toList.contains).getLast?.map fun c =>
      if c = '-' then none else some (if c = '_' then ' ' else c)
    let filling : Filling := ⟨fill, signs.contains '^', signs.contains '#',
      if digits.isEmpty then none else some (digits.foldl (fun n d => 10 * n + (d.toNat - 48)) 0)⟩
    match after with
    | [] => '%' :: rest
    | letter :: more =>
      let shown := match item? m letter with
        | some (.number k fill width) =>
          filling.apply letter (Decimal.digits k.natAbs) (k < 0) fill width
        | some (.text t) => filling.apply letter t false ' ' 0
        | some (.several format) => filling.apply letter (written m n format.toList) false ' ' 0
        | none => '%' :: rest.take (rest.length - more.length)
      shown ++ written m n more
  | n + 1, c :: rest => c :: written m n rest

/-- A moment in a format. -/
def write (m : Moment) (format : List Char) : List Char := written m (format.length + 40) format

end Moment

end StubRelease

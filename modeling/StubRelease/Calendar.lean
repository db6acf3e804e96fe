/-
# StubRelease.Calendar -- instants and their civil date in UTC

An instant is a whole number of nanoseconds since the beginning of 1970. Its civil date is computed by
counting days in eras of 400 years, each year taken to begin in March, so that a leap day is the last day
of its year. The intermediate quantities are a structure of their own, `Reckoning`, so that their ranges
can be stated. The year of a date is a 32-bit word.
-/

namespace StubRelease

/-- A point of time, in nanoseconds since the beginning of 1970. -/
structure Instant where
  nanoseconds : Int
deriving DecidableEq, Repr

/-- Whole seconds since the beginning of 1970; every earlier instant counts as that beginning. -/
def Instant.elapsedSeconds (t : Instant) : Nat := (t.nanoseconds / 1000000000).toNat

/-- A date of the civil calendar. -/
structure CivilDate where
  year : Nat
  month : Nat
  day : Nat
deriving DecidableEq, Repr

namespace Calendar

/-- Seconds of a day. -/
def daySeconds : Nat := 86400

/-- Days of an era of 400 years. -/
def eraDays : Nat := 146097

/-- Days from the first of March of the year 0 to the beginning of 1970. -/
def epochOffset : Nat := 719468

/-- The quantities that lead from a day count to a date. -/
structure Reckoning where
  /-- Days since the first of March of the year 0. -/
  dayCount : Nat
  /-- Whole eras before the day. -/
  era : Nat
  /-- Days of its era before the day. -/
  dayOfEra : Nat
  /-- Years of its era, each from March to February, before the day. -/
  yearOfEra : Nat
  /-- Days of its March-based year before the day. -/
  dayOfYear : Nat
  /-- Months since March. -/
  marchMonth : Nat
deriving Repr

/-- Whole years among the first `day` days of an era: four-year cycles lose a day, centuries win one
back, and the era's last day belongs to its last year. -/
def yearOfEra (day : Nat) : Nat := (day - day / 1460 + day / 36524 - day / 146096) / 365

/-- Days of an era before its year `y` begins. -/
def daysBeforeYear (y : Nat) : Nat := 365 * y + y / 4 - y / 100

/-- Months since March that begin within the first `day` days of a March-based year. -/
def marchMonth (day : Nat) : Nat := (5 * day + 2) / 153

/-- Days of a March-based year before its month `m` begins. -/
def daysBeforeMonth (m : Nat) : Nat := (153 * m + 2) / 5

/-- The reckoning of the day that holds a second since the beginning of 1970. -/
def reckon (seconds : Nat) : Reckoning :=
  let dayCount := seconds / daySeconds + epochOffset
  let dayOfEra := dayCount % eraDays
  let year := yearOfEra dayOfEra
  let dayOfYear := dayOfEra - daysBeforeYear year
  { dayCount, era := dayCount / eraDays, dayOfEra, yearOfEra := year, dayOfYear,
    marchMonth := marchMonth dayOfYear }

namespace Reckoning

/-- The month, January being 1. -/
def month (r : Reckoning) : Nat := if r.marchMonth < 10 then r.marchMonth + 3 else r.marchMonth - 9

/-- The day of the month, from 1. -/
def day (r : Reckoning) : Nat := r.dayOfYear - daysBeforeMonth r.marchMonth + 1

/-- The year; January and February belong to the year after their March. -/
def year (r : Reckoning) : Nat := r.yearOfEra + 400 * r.era + (if r.month ≤ 2 then 1 else 0)

end Reckoning

/-- Years are kept in words of 32 bits. -/
def yearModulus : Nat := 4294967296

/-- The UTC date of a second since the beginning of 1970. -/
def civilDate (seconds : Nat) : CivilDate :=
  let r := reckon seconds
  ⟨r.year % yearModulus, r.month, r.day⟩

end Calendar

/-- The UTC date of an instant. -/
def Instant.date (t : Instant) : CivilDate := Calendar.civilDate t.elapsedSeconds

end StubRelease

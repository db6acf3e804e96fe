/-
# StubRelease.Proofs.Calendar -- the reckoning in eras against the plain calendar

The plain calendar is told by the lengths of its years and months: a date's number is the sum of the
lengths of the years and months before it, and of the days of its month before it. Different dates have
different numbers, and the date reckoned in eras of March-based years is the one with the right number. Main
statement: that date is the only one so many days after the first of January 1970, and an instant's label is
its label (`ofInstant_follows_epoch`).
-/
import Mathlib.Algebra.Order.BigOperators.Group.Finset
import Mathlib.Tactic.IntervalCases
import Mathlib.Tactic.Linarith
import StubRelease.Label

namespace StubRelease

open Finset

/-! ## The plain calendar -/

namespace Calendar

/-- A year with a leap day: every fourth one, but of the full centuries only every fourth. -/
def IsLeapYear (year : Nat) : Prop := 4 ∣ year ∧ (100 ∣ year → 400 ∣ year)

instance (year : Nat) : Decidable (IsLeapYear year) := inferInstanceAs (Decidable (_ ∧ _))

/-- Days of a year. -/
def yearLength (year : Nat) : Nat := if IsLeapYear year then 366 else 365

/-- Days of a month of a year, January being 1. -/
def monthLength (year month : Nat) : Nat :=
  if month = 2 then if IsLeapYear year then 29 else 28
  else if month = 4 ∨ month = 6 ∨ month = 9 ∨ month = 11 then 30
  else 31

end Calendar

open Calendar

namespace CivilDate

/-- The calendar has this date. -/
structure IsValid (d : CivilDate) : Prop where
  one_le_month : 1 ≤ d.month
  month_le : d.month ≤ 12
  one_le_day : 1 ≤ d.day
  day_le : d.day ≤ monthLength d.year d.month

/-- Days of its year before a date. -/
def dayOfYear (d : CivilDate) : Nat :=
  ∑ month ∈ range (d.month - 1), monthLength d.year (month + 1) + (d.day - 1)

/-- Days before a date, from the first of January of the year 0. -/
def dayNumber (d : CivilDate) : Nat := ∑ year ∈ range d.year, yearLength year + d.dayOfYear

/-- The first of January 1970. -/
def epoch : CivilDate := ⟨1970, 1, 1⟩

/-- The calendar has this date, and it lies so many days after the first of January 1970. -/
structure FollowsEpoch (days : Nat) (d : CivilDate) : Prop where
  valid : d.IsValid
  dayNumber_eq : d.dayNumber = epoch.dayNumber + days

end CivilDate

/-! ## Dates and their numbers -/

namespace Calendar

/-- One year more passes a multiple of a number if the year itself is one. -/
theorem multiples_succ {k : Nat} (hk : 0 < k) (year : Nat) :
    (year + 1 + (k - 1)) / k = (year + (k - 1)) / k + if k ∣ year then 1 else 0 := by
  have hlast : year + (k - 1) + 1 = year + k := by omega
  have hnext : (year + (k - 1) + 1) / k = (year + (k - 1)) / k + if k ∣ year + (k - 1) + 1 then 1 else 0 :=
    Nat.succ_div
  have hmultiple : k ∣ year + k ↔ k ∣ year := Nat.dvd_add_left (Nat.dvd_refl k)
  rw [Nat.add_right_comm, hnext]
  simp only [hlast, hmultiple]

/-- A year has a day more for each of the rules that make it a leap year, and one less for the exception. -/
theorem yearLength_eq (year : Nat) : yearLength year + (if 100 ∣ year then 1 else 0) =
    365 + (if 4 ∣ year then 1 else 0) + if 400 ∣ year then 1 else 0 := by
  have hcentury : 400 ∣ year → 100 ∣ year := Nat.dvd_trans (by decide)
  have hfour : 100 ∣ year → 4 ∣ year := Nat.dvd_trans (by decide)
  unfold yearLength IsLeapYear
  by_cases hera : 400 ∣ year
  · simp [hera, hcentury hera, hfour (hcentury hera)]
  · by_cases hcent : 100 ∣ year
    · simp [hera, hcent, hfour hcent]
    · by_cases hfours : 4 ∣ year <;> simp [hera, hcent, hfours]

/-- The years before a year: 365 days each, and a day more for each leap year among them. -/
theorem sum_yearLength (year : Nat) :
    ∑ y ∈ range year, yearLength y + (year + 99) / 100 =
      365 * year + (year + 3) / 4 + (year + 399) / 400 := by
  induction year with
  | zero => rfl
  | succ year ih =>
    have hfours : (year + 1 + 3) / 4 = (year + 3) / 4 + if 4 ∣ year then 1 else 0 :=
      multiples_succ (by decide : 0 < 4) year
    have hcenturies : (year + 1 + 99) / 100 = (year + 99) / 100 + if 100 ∣ year then 1 else 0 :=
      multiples_succ (by decide : 0 < 100) year
    have heras : (year + 1 + 399) / 400 = (year + 399) / 400 + if 400 ∣ year then 1 else 0 :=
      multiples_succ (by decide : 0 < 400) year
    have hlength := yearLength_eq year
    -- with the quotients of the year before, what is left is linear
    rw [sum_range_succ, hfours, hcenturies, heras]
    linarith

/-- The months of a year make the year. -/
theorem sum_monthLength (year : Nat) :
    ∑ m ∈ range 12, monthLength year (m + 1) = yearLength year := by
  by_cases hleap : IsLeapYear year <;> simp [sum_range_succ, monthLength, yearLength, hleap]

/-- A piece of time has ended where a later one begins. -/
theorem sum_range_add_lt {length : Nat → Nat} {a b r : Nat} (s : Nat) (hr : r < length a) (hlt : a < b) :
    ∑ i ∈ range a, length i + r < ∑ i ∈ range b, length i + s := by
  have hends : ∑ i ∈ range a, length i + length a ≤ ∑ i ∈ range b, length i := by
    rw [← sum_range_succ]
    exact sum_le_sum_of_subset (range_subset_range.2 hlt)
  omega

/-- A day is told by the piece of time it lies in and its place within that piece. -/
theorem sum_range_add_inj {length : Nat → Nat} {a b r s : Nat} (hr : r < length a) (hs : s < length b)
    (h : ∑ i ∈ range a, length i + r = ∑ i ∈ range b, length i + s) : a = b ∧ r = s := by
  obtain hlt | rfl | hlt := Nat.lt_trichotomy a b
  · exact absurd h (sum_range_add_lt s hr hlt).ne
  · exact ⟨rfl, by omega⟩
  · exact absurd h (sum_range_add_lt r hs hlt).ne'

end Calendar

namespace CivilDate

theorem IsValid.dayOfYear_lt {d : CivilDate} (h : d.IsValid) : d.dayOfYear < yearLength d.year := by
  obtain ⟨hm, hm', _, hd⟩ := h
  have hmonths : ∑ m ∈ range (d.month - 1 + 1), monthLength d.year (m + 1) ≤ yearLength d.year := by
    rw [← sum_monthLength]
    exact sum_le_sum_of_subset (range_subset_range.2 (by omega))
  rw [sum_range_succ, Nat.sub_add_cancel hm] at hmonths
  unfold dayOfYear
  omega

/-- Different dates have different numbers. -/
theorem IsValid.dayNumber_inj {d d' : CivilDate} (h : d.IsValid) (h' : d'.IsValid)
    (heq : d.dayNumber = d'.dayNumber) : d = d' := by
  obtain ⟨hyear, hday⟩ := sum_range_add_inj h.dayOfYear_lt h'.dayOfYear_lt heq
  obtain ⟨year, month, day⟩ := d
  obtain ⟨year', month', day'⟩ := d'
  obtain rfl : year = year' := hyear
  obtain ⟨hm, -, hd, hle⟩ := h
  obtain ⟨hm', -, hd', hle'⟩ := h'
  simp only at hm hm' hd hd' hle hle'
  have hlt : day - 1 < monthLength year (month - 1 + 1) := by rw [Nat.sub_add_cancel hm]; omega
  have hlt' : day' - 1 < monthLength year (month' - 1 + 1) := by rw [Nat.sub_add_cancel hm']; omega
  obtain ⟨hmonth, hday⟩ :=
    @sum_range_add_inj (fun m => monthLength year (m + 1)) _ _ _ _ hlt hlt' hday
  congr 1 <;> omega

/-- At most one date lies so many days after the beginning of 1970. -/
theorem FollowsEpoch.unique {days : Nat} {d d' : CivilDate} (h : FollowsEpoch days d)
    (h' : FollowsEpoch days d') : d = d' :=
  h.valid.dayNumber_inj h'.valid (h.dayNumber_eq.trans h'.dayNumber_eq.symm)

theorem dayNumber_epoch : epoch.dayNumber = epochOffset + 60 := by
  have hyears := sum_yearLength 1970
  have hday : epoch.dayOfYear = 0 := rfl
  unfold dayNumber epochOffset
  rw [hday]
  show ∑ year ∈ range 1970, yearLength year + 0 = _
  omega

end CivilDate

/-! ## The year of an era -/

namespace Calendar

/-- A day of an era, told by the centuries, the four-year cycles, the years and the days before it. The
last day of a cycle, and the last one of the era, is a fourth year's leap day. -/
structure InEra (day century cycle year rest : Nat) : Prop where
  day_eq : day = 36524 * century + 1461 * cycle + 365 * year + rest
  century_le : century ≤ 3
  cycle_le : cycle ≤ 24
  year_le : year ≤ 3
  rest_le : rest ≤ 365
  rest_eq : rest = 365 → year = 3 ∧ (cycle = 24 → century = 3)

theorem inEra_of_lt {day : Nat} (h : day < eraDays) : ∃ century cycle year rest,
    InEra day century cycle year rest := by
  unfold eraDays at h
  -- the last days of the era and of a cycle are set apart: the quotient would put them in a fifth part
  by_cases hlast : day = 146096
  · exact ⟨3, 24, 3, 365, by constructor <;> omega⟩
  by_cases hleap : day % 36524 % 1461 = 1460
  · exact ⟨day / 36524, day % 36524 / 1461, 3, 365, by constructor <;> omega⟩
  · exact ⟨day / 36524, day % 36524 / 1461, day % 36524 % 1461 / 365, day % 36524 % 1461 % 365,
      by constructor <;> omega⟩

namespace InEra

variable {day century cycle year rest : Nat}

theorem yearOfEra_eq (h : InEra day century cycle year rest) :
    yearOfEra day = 100 * century + 4 * cycle + year := by
  obtain ⟨hday, hc, hq, hy, hr, heq⟩ := h
  unfold yearOfEra
  by_cases hlast : day = 146096
  · obtain ⟨rfl, rfl, rfl⟩ : century = 3 ∧ cycle = 24 ∧ year = 3 := by omega
    rw [hlast]
  -- a cycle that is under way has lost its day only once the leap day, at most, is left of it
  obtain ⟨lost, hlost⟩ : ∃ lost, (24 * century + cycle + 365 * year + rest) / 1460 = lost := ⟨_, rfl⟩
  have hcycles : day / 1460 = 25 * century + cycle + lost := by omega
  have hcenturies : day / 36524 = century := by omega
  have hera : day / 146096 = 0 := by omega
  rw [hcycles, hcenturies, hera]
  have hrest : lost ≤ rest ∧ rest < 365 + lost := by omega
  omega

theorem daysBeforeYear_eq (h : InEra day century cycle year rest) :
    daysBeforeYear (100 * century + 4 * cycle + year) = 36524 * century + 1461 * cycle + 365 * year := by
  obtain ⟨-, hc, hq, hy, -, -⟩ := h
  unfold daysBeforeYear
  omega

theorem rest_lt (h : InEra day century cycle year rest) :
    rest < yearLength (100 * century + 4 * cycle + year + 1) := by
  obtain ⟨-, hc, hq, hy, hr, heq⟩ := h
  unfold yearLength
  split
  · omega
  · unfold IsLeapYear at *
    omega

end InEra

theorem yearOfEra_lt {day : Nat} (h : day < eraDays) : yearOfEra day < 400 := by
  obtain ⟨century, cycle, year, rest, hin⟩ := inEra_of_lt h
  rw [hin.yearOfEra_eq]
  obtain ⟨-, hc, hq, hy, -, -⟩ := hin
  omega

/-- A day lies in its year of the era: the year has begun, and its length reaches beyond the day. A
March-based year is as long as the year it ends in. -/
theorem yearOfEra_spec {day : Nat} (h : day < eraDays) :
    daysBeforeYear (yearOfEra day) ≤ day ∧
      day - daysBeforeYear (yearOfEra day) < yearLength (yearOfEra day + 1) := by
  obtain ⟨century, cycle, year, rest, hin⟩ := inEra_of_lt h
  have hrest := hin.rest_lt
  rw [hin.yearOfEra_eq, hin.daysBeforeYear_eq]
  obtain ⟨hday, -⟩ := hin
  omega

/-! ## The reckoning -/

namespace Reckoning

/-- The date a reckoning leads to, its year not cut to a word. -/
def date (r : Reckoning) : CivilDate := ⟨r.year, r.month, r.day⟩

/-- The year in whose March the year of a reckoning begins. -/
def marchYear (r : Reckoning) : Nat := r.yearOfEra + 400 * r.era

/-- A reckoning whose parts make up its day count, each in its range. -/
structure IsSound (r : Reckoning) : Prop where
  dayCount_eq : r.dayCount = eraDays * r.era + r.dayOfEra
  dayOfEra_lt : r.dayOfEra < eraDays
  dayOfEra_eq : r.dayOfEra = daysBeforeYear r.yearOfEra + r.dayOfYear
  yearOfEra_lt : r.yearOfEra < 400
  dayOfYear_lt : r.dayOfYear < yearLength (r.marchYear + 1)
  marchMonth_eq : r.marchMonth = Calendar.marchMonth r.dayOfYear

end Reckoning

/-- Whole eras leave the leap years where they are. -/
theorem yearLength_add_eras (year era : Nat) : yearLength (year + 400 * era) = yearLength year := by
  have h : IsLeapYear (year + 400 * era) ↔ IsLeapYear year := by
    unfold IsLeapYear
    omega
  simp only [yearLength, h]

theorem reckon_sound (seconds : Nat) : (reckon seconds).IsSound := by
  have hlt : (seconds / daySeconds + epochOffset) % eraDays < eraDays := Nat.mod_lt _ (by decide)
  obtain ⟨hle, hrest⟩ := yearOfEra_spec hlt
  refine ⟨(Nat.div_add_mod _ _).symm, hlt, (Nat.add_sub_of_le hle).symm, yearOfEra_lt hlt, ?_, rfl⟩
  rw [Reckoning.marchYear, Nat.add_right_comm, yearLength_add_eras]
  exact hrest

/-- The months of a March-based year follow one another; the last one, February, is not among them. -/
theorem daysBeforeMonth_succ (year : Nat) {month : Nat} (h : month < 11) :
    daysBeforeMonth (month + 1) = daysBeforeMonth month +
      monthLength (if month < 10 then year else year + 1) (if month < 10 then month + 3 else month - 9) := by
  interval_cases month <;> rfl

/-- February ends the March-based year. -/
theorem daysBeforeMonth_february (year : Nat) :
    daysBeforeMonth 11 + monthLength year 2 = yearLength year := by
  unfold yearLength
  split <;> simp [daysBeforeMonth, monthLength, *]

/-- The years and months before a month of a March-based year, counted from January and from March: the
March-based year begins 306 days before the next January. -/
theorem sum_until_month (year : Nat) {month : Nat} (h : month ≤ 11) :
    ∑ y ∈ range (if month < 10 then year else year + 1), yearLength y +
        ∑ m ∈ range ((if month < 10 then month + 3 else month - 9) - 1),
          monthLength (if month < 10 then year else year + 1) (m + 1) + 306 =
      ∑ y ∈ range (year + 1), yearLength y + daysBeforeMonth month := by
  rw [sum_range_succ]
  by_cases hleap : IsLeapYear year <;> interval_cases month <;>
    simp [sum_range_succ, monthLength, yearLength, daysBeforeMonth, hleap]

namespace Reckoning.IsSound

variable {r : Reckoning}

theorem dayOfYear_le (h : r.IsSound) : r.dayOfYear ≤ 365 := by
  have hlt := h.dayOfYear_lt
  unfold yearLength at hlt
  split at hlt <;> omega

/-- The month a day lies in begins on it or before it and ends after it. -/
theorem marchMonth_spec (h : r.IsSound) :
    r.marchMonth ≤ 11 ∧ daysBeforeMonth r.marchMonth ≤ r.dayOfYear ∧
      r.dayOfYear < daysBeforeMonth (r.marchMonth + 1) := by
  have hle := h.dayOfYear_le
  rw [h.marchMonth_eq]
  unfold Calendar.marchMonth daysBeforeMonth
  omega

theorem year_eq (h : r.IsSound) : r.year = if r.marchMonth < 10 then r.marchYear else r.marchYear + 1 := by
  obtain ⟨hm, -⟩ := h.marchMonth_spec
  unfold year month marchYear
  split <;> split <;> omega

/-- A day lies in its month, the last one of the March-based year included. -/
theorem dayOfYear_lt_month_end (h : r.IsSound) :
    r.dayOfYear < daysBeforeMonth r.marchMonth + monthLength r.year r.month := by
  obtain ⟨hm, -, hlt⟩ := h.marchMonth_spec
  rw [h.year_eq]
  unfold month
  obtain hm | hm : r.marchMonth < 11 ∨ r.marchMonth = 11 := by omega
  · rwa [← daysBeforeMonth_succ _ hm]
  · -- February ends with its year, which the sum of the months does not know of
    rw [hm]
    exact lt_of_lt_of_eq h.dayOfYear_lt (daysBeforeMonth_february _).symm

/-- The date a sound reckoning leads to is one of the calendar. -/
theorem date_valid (h : r.IsSound) : r.date.IsValid := by
  obtain ⟨hm, hle, -⟩ := h.marchMonth_spec
  have hlast := h.dayOfYear_lt_month_end
  constructor
  · show 1 ≤ r.month
    unfold month
    split <;> omega
  · show r.month ≤ 12
    unfold month
    split <;> omega
  · exact Nat.le_add_left _ _
  · show r.dayOfYear - daysBeforeMonth r.marchMonth + 1 ≤ monthLength r.year r.month
    omega

/-- The year that follows a reckoning's March begins 306 days after that March does. -/
theorem sum_until_marchYear (h : r.IsSound) :
    ∑ y ∈ range (r.marchYear + 1), yearLength y =
      eraDays * r.era + daysBeforeYear r.yearOfEra + 366 := by
  have hera := h.yearOfEra_lt
  have hyears := sum_yearLength (r.marchYear + 1)
  unfold marchYear at *
  unfold daysBeforeYear eraDays
  omega

/-- The number of the date is the day count of the reckoning, which leaves out the January and the
February of the year 0. -/
theorem dayNumber_date (h : r.IsSound) : r.date.dayNumber = r.dayCount + 60 := by
  obtain ⟨hm, hle, -⟩ := h.marchMonth_spec
  have hmonths := sum_until_month r.marchYear hm
  rw [← h.year_eq, h.sum_until_marchYear] at hmonths
  have hdate : r.date.dayNumber = ∑ y ∈ range r.year, yearLength y +
      (∑ m ∈ range (r.month - 1), monthLength r.year (m + 1) +
        (r.dayOfYear - daysBeforeMonth r.marchMonth)) := rfl
  rw [hdate, h.dayCount_eq, h.dayOfEra_eq]
  unfold month
  omega

end Reckoning.IsSound

/-- The date reckoned for a second is the only one that lies as many days after the beginning of 1970 as
the second does, but for the year, which is cut to a word. -/
theorem civilDate_follows_epoch (seconds : Nat) :
    ∃ d, (∀ d' : CivilDate, d'.FollowsEpoch (seconds / daySeconds) ↔ d' = d) ∧
      civilDate seconds = { d with year := d.year % yearModulus } := by
  have hsound := reckon_sound seconds
  have hcount : (reckon seconds).dayCount = seconds / daySeconds + epochOffset := rfl
  have hfollows : (reckon seconds).date.FollowsEpoch (seconds / daySeconds) := by
    refine ⟨hsound.date_valid, ?_⟩
    rw [hsound.dayNumber_date, CivilDate.dayNumber_epoch, hcount]
    omega
  refine ⟨(reckon seconds).date, fun d' => ⟨fun h => h.unique hfollows, ?_⟩, rfl⟩
  rintro rfl
  exact hfollows

end Calendar

/-! ## Labels -/

theorem Calendar.civilDate_zero : civilDate 0 = CivilDate.epoch := rfl

/-- Main statement: for every count of seconds, the date reckoned is the only one of the calendar that lies
that many whole days after the first of January 1970, its year cut to a word; an instant's label is the one
of the date of its whole seconds, and before 1970 the one of the first of January 1970. -/
theorem Label.ofInstant_follows_epoch :
    (∀ seconds : Nat, ∃ d : CivilDate,
      (∀ d' : CivilDate, d'.FollowsEpoch (seconds / 86400) ↔ d' = d) ∧
      civilDate seconds = { d with year := d.year % 2 ^ 32 } ∧
      ∀ t : Instant, 0 ≤ t.nanoseconds → t.nanoseconds / 10 ^ 9 = seconds →
        Label.ofInstant t = Label.ofDate { d with year := d.year % 2 ^ 32 }) ∧
    ∀ t : Instant, t.nanoseconds < 0 → Label.ofInstant t = Label.ofDate ⟨1970, 1, 1⟩ := by
  constructor
  · intro seconds
    obtain ⟨d, honly, (hdate : civilDate seconds = { d with year := d.year % 2 ^ 32 })⟩ :=
      civilDate_follows_epoch seconds
    refine ⟨d, honly, hdate, fun t _ ht => ?_⟩
    have hseconds : t.elapsedSeconds = seconds := by
      rw [Instant.elapsedSeconds, show (1000000000 : Int) = 10 ^ 9 from rfl, ht, Int.toNat_natCast]
    rw [Label.ofInstant, Instant.date, hseconds, hdate]
  · intro t ht
    have hseconds : t.elapsedSeconds = 0 := by
      unfold Instant.elapsedSeconds
      omega
    rw [Label.ofInstant, Instant.date, hseconds, civilDate_zero, CivilDate.epoch]

example : (Label.ofInstant ⟨1583020799999999999⟩).text = "20200229" := by decide +kernel

end StubRelease

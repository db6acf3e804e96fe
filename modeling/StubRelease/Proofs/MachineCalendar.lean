/-
# StubRelease.Proofs.MachineCalendar -- the reckoning in machine integers

A process counts seconds in a word of 64 bits and reckons the date in machine integers: the day count, the eras
and the years are signed, the quantities within an era are not, and the date is cut to words of 32 bits. Here
every operation is checked: it is refused if its type does not have the exact result, be it too great or below
the least number. Main statement: no operation of the reckoning is ever refused, so that it gives the quantities
of the reckoning in natural numbers, each in its range, and of the date only a year past 32 bits is cut
(`date_arithmetic_is_safe`).
-/
import StubRelease.Proofs.DateLabels

namespace StubRelease

/-! ## Machine integers -/

/-- A type of machine integers: it has the numbers from a least one to a greatest one, each of them once. -/
class MachineInt (α : Type) where
  least : Int
  greatest : Int
  /-- The number that an integer of the type stands for. -/
  number : α → Int
  ofNumber : Int → α
  least_nonpos : least ≤ 0
  least_le_number : ∀ a, least ≤ number a
  number_le_greatest : ∀ a, number a ≤ greatest
  ofNumber_number : ∀ a, ofNumber (number a) = a
  number_ofNumber : ∀ {n}, least ≤ n → n ≤ greatest → number (ofNumber n) = n

instance : MachineInt UInt64 where
  least := 0
  greatest := 2 ^ 64 - 1
  number a := a.toNat
  ofNumber n := UInt64.ofNat n.toNat
  least_nonpos := Int.le_refl 0
  least_le_number a := Int.natCast_nonneg a.toNat
  number_le_greatest a := by
    have := a.toNat_lt
    omega
  ofNumber_number a := by rw [Int.toNat_natCast, UInt64.ofNat_toNat]
  number_ofNumber {n} hleast hgreatest := by
    rw [UInt64.toNat_ofNat_of_lt' (by unfold UInt64.size; omega)]
    omega

instance : MachineInt Int64 where
  least := -2 ^ 63
  greatest := 2 ^ 63 - 1
  number := Int64.toInt
  ofNumber := Int64.ofInt
  least_nonpos := by decide
  least_le_number := Int64.le_toInt
  number_le_greatest a := Int.le_sub_one_of_lt a.toInt_lt
  ofNumber_number := Int64.ofInt_toInt
  number_ofNumber hleast hgreatest := Int64.toInt_ofInt_of_le hleast (Int.lt_of_le_sub_one hgreatest)

namespace MachineInt

variable {α β : Type} [MachineInt α] [MachineInt β] {a b : α} {m n : Nat}

/-! ## Checked operations -/

/-- The integer of a type that stands for a number, if there is one. -/
def fit? (n : Int) : Option α := if least α ≤ n ∧ n ≤ greatest α then some (ofNumber n) else none

/-- A number is refused exactly if no integer of the type stands for it. -/
theorem fit?_eq_some_iff {n : Int} : fit? n = some a ↔ number a = n := by
  unfold fit?
  split
  case isTrue h =>
    constructor
    · rintro ⟨⟩
      exact number_ofNumber h.1 h.2
    · rintro rfl
      rw [ofNumber_number]
  case isFalse h =>
    constructor
    · rintro ⟨⟩
    · rintro rfl
      exact absurd ⟨least_le_number a, number_le_greatest a⟩ h

def add? (a b : α) : Option α := fit? (number a + number b)

def sub? (a b : α) : Option α := fit? (number a - number b)

def mul? (a b : α) : Option α := fit? (number a * number b)

/-- The quotient, rounded so that the remainder is not negative. -/
def div? (a b : α) : Option α := if number b = 0 then none else fit? (number a / number b)

/-- The remainder, which is not negative. -/
def mod? (a b : α) : Option α := if number b = 0 then none else fit? (number a % number b)

/-- The integer of another type that stands for the same number. -/
def cast? (a : α) : Option β := fit? (number a)

/-- A computation that is not refused and gives a natural number. -/
def Gives (x : Option α) (n : Nat) : Prop := ∃ a, x = some a ∧ number a = n

/-- The natural numbers that a type has. -/
def Fits (α : Type) [MachineInt α] (n : Nat) : Prop := n ≤ greatest α

theorem fits_uint64 : Fits UInt64 n ↔ n < 2 ^ 64 := by
  show (n : Int) ≤ 2 ^ 64 - 1 ↔ _
  omega

theorem fits_int64 : Fits Int64 n ↔ n < 2 ^ 63 := by
  show (n : Int) ≤ 2 ^ 63 - 1 ↔ _
  omega

theorem Fits.of_number (ha : number a = m) (h : n ≤ m) : Fits α n := by
  have := number_le_greatest a
  unfold Fits
  omega

theorem Gives.bind {x : Option α} {f : α → Option β} (hx : Gives x m) (hf : ∀ a, number a = m → Gives (f a) n) :
    Gives (x >>= f) n := by
  obtain ⟨a, rfl, ha⟩ := hx
  exact hf a ha

theorem fit?_gives (h : Fits α n) : Gives (fit? n : Option α) n := by
  have hleast : least α ≤ n := Int.le_trans least_nonpos (Int.natCast_nonneg n)
  have hnumber : number (ofNumber n : α) = n := number_ofNumber hleast h
  exact ⟨ofNumber n, fit?_eq_some_iff.2 hnumber, hnumber⟩

theorem add?_gives (ha : number a = m) (hb : number b = n) (h : Fits α (m + n)) : Gives (add? a b) (m + n) := by
  rw [add?, ha, hb, ← Int.natCast_add]
  exact fit?_gives h

/-- A difference does not go below zero. -/
theorem sub?_gives (ha : number a = m) (hb : number b = n) (h : n ≤ m) : Gives (sub? a b) (m - n) := by
  rw [sub?, ha, hb, ← Int.natCast_sub h]
  exact fit?_gives (.of_number ha (Nat.sub_le m n))

theorem mul?_gives (ha : number a = m) (hb : number b = n) (h : Fits α (m * n)) : Gives (mul? a b) (m * n) := by
  rw [mul?, ha, hb, ← Int.natCast_mul]
  exact fit?_gives h

theorem div?_gives (ha : number a = m) (hb : number b = n) (h : n ≠ 0) : Gives (div? a b) (m / n) := by
  rw [div?, ha, hb, if_neg (Int.natCast_ne_zero.2 h), ← Int.natCast_ediv]
  exact fit?_gives (.of_number ha (Nat.div_le_self m n))

theorem mod?_gives (ha : number a = m) (hb : number b = n) (h : n ≠ 0) : Gives (mod? a b) (m % n) := by
  rw [mod?, ha, hb, if_neg (Int.natCast_ne_zero.2 h), ← Int.natCast_emod]
  exact fit?_gives (.of_number ha (Nat.mod_le m n))

theorem cast?_gives (ha : number a = m) (h : Fits β m) : Gives (cast? a : Option β) m := by
  rw [cast?, ha]
  exact fit?_gives h

end MachineInt

open MachineInt

/-! ## The reckoning -/

namespace Calendar

/-- The quantities that lead from a day count to a date, in machine integers. -/
structure MachineReckoning where
  dayCount : Int64
  era : Int64
  dayOfEra : UInt64
  yearOfEra : UInt64
  /-- The year in whose March the year of the reckoning begins. -/
  marchYear : Int64
  dayOfYear : UInt64
  marchMonth : UInt64
  day : UInt64
  month : UInt64
  year : Int64

namespace MachineReckoning

/-- The year, cut to a word of 32 bits. -/
def yearWord (r : MachineReckoning) : UInt32 := r.year.toUInt64.toUInt32

/-- The date, each part of it cut to a word of 32 bits. -/
def date (r : MachineReckoning) : CivilDate := ⟨r.yearWord.toNat, r.month.toUInt32.toNat, r.day.toUInt32.toNat⟩

/-- The quantities are those of a reckoning in natural numbers. -/
structure Agrees (m : MachineReckoning) (r : Reckoning) : Prop where
  dayCount : m.dayCount.toInt = r.dayCount
  era : m.era.toInt = r.era
  dayOfEra : m.dayOfEra.toNat = r.dayOfEra
  yearOfEra : m.yearOfEra.toNat = r.yearOfEra
  marchYear : m.marchYear.toInt = r.marchYear
  dayOfYear : m.dayOfYear.toNat = r.dayOfYear
  marchMonth : m.marchMonth.toNat = r.marchMonth
  day : m.day.toNat = r.day
  month : m.month.toNat = r.month
  year : m.year.toInt = r.year

end MachineReckoning

def dayCount? (seconds : UInt64) : Option Int64 := do
  add? (← cast? (← div? seconds 86400)) 719468

def dayOfEra? (dayCount : Int64) : Option UInt64 := do
  cast? (← mod? dayCount 146097)

def yearOfEra? (day : UInt64) : Option UInt64 := do
  let kept ← sub? day (← div? day 1460)
  let regained ← add? kept (← div? day 36524)
  div? (← sub? regained (← div? day 146096)) 365

def marchYear? (era : Int64) (year : UInt64) : Option Int64 := do
  add? (← cast? year) (← mul? era 400)

def dayOfYear? (day year : UInt64) : Option UInt64 := do
  let leaping ← add? (← mul? 365 year) (← div? year 4)
  sub? day (← sub? leaping (← div? year 100))

def marchMonth? (day : UInt64) : Option UInt64 := do
  div? (← add? (← mul? 5 day) 2) 153

def day? (dayOfYear month : UInt64) : Option UInt64 := do
  let before ← div? (← add? (← mul? 153 month) 2) 5
  add? (← sub? dayOfYear before) 1

def month? (marchMonth : UInt64) : Option UInt64 :=
  if marchMonth < 10 then add? marchMonth 3 else sub? marchMonth 9

def year? (marchYear : Int64) (month : UInt64) : Option Int64 :=
  if month ≤ 2 then add? marchYear 1 else some marchYear

/-- The reckoning of the day that holds a second since the beginning of 1970, every operation checked. -/
def reckon? (seconds : UInt64) : Option MachineReckoning := do
  let dayCount ← dayCount? seconds
  let era ← div? dayCount 146097
  let dayOfEra ← dayOfEra? dayCount
  let yearOfEra ← yearOfEra? dayOfEra
  let marchYear ← marchYear? era yearOfEra
  let dayOfYear ← dayOfYear? dayOfEra yearOfEra
  let marchMonth ← marchMonth? dayOfYear
  let day ← day? dayOfYear marchMonth
  let month ← month? marchMonth
  let year ← year? marchYear month
  return { dayCount, era, dayOfEra, yearOfEra, marchYear, dayOfYear, marchMonth, day, month, year }

/-! ## No operation is refused -/

section Steps

variable {n k : Nat}

theorem dayCount?_gives (seconds : UInt64) :
    Gives (dayCount? seconds) (seconds.toNat / daySeconds + epochOffset) := by
  have hlt := seconds.toNat_lt
  have hdays : Gives (div? seconds 86400) (seconds.toNat / 86400) := div?_gives rfl rfl (by decide)
  refine hdays.bind fun days hdays => ?_
  refine (cast?_gives hdays (fits_int64.2 (by omega))).bind fun days hdays => ?_
  exact add?_gives hdays rfl (fits_int64.2 (by unfold daySeconds epochOffset; omega))

theorem dayOfEra?_gives {count : Int64} (hcount : number count = n) : Gives (dayOfEra? count) (n % eraDays) := by
  have hday : Gives (mod? count 146097) (n % 146097) := mod?_gives hcount rfl (by decide)
  exact hday.bind fun day hday => cast?_gives hday (fits_uint64.2 (by unfold eraDays; omega))

theorem yearOfEra?_gives {day : UInt64} (hday : number day = n) : Gives (yearOfEra? day) (yearOfEra n) := by
  have hcycles : Gives (div? day 1460) (n / 1460) := div?_gives hday rfl (by decide)
  have hcenturies : Gives (div? day 36524) (n / 36524) := div?_gives hday rfl (by decide)
  have hera : Gives (div? day 146096) (n / 146096) := div?_gives hday rfl (by decide)
  refine hcycles.bind fun cycles hcycles => (sub?_gives hday hcycles (by omega)).bind fun kept hkept => ?_
  refine hcenturies.bind fun centuries hcenturies => ?_
  refine (add?_gives hkept hcenturies (.of_number hday (by omega))).bind fun regained hregained => ?_
  refine hera.bind fun era hera => (sub?_gives hregained hera (by omega)).bind fun years hyears => ?_
  exact div?_gives hyears rfl (by decide)

theorem marchYear?_gives {era : Int64} {year : UInt64} (hera : number era = n) (hyear : number year = k)
    (hbound : n < 2 ^ 48) (hlt : k < 400) : Gives (marchYear? era year) (k + 400 * n) := by
  have hbase : Gives (mul? era 400) (n * 400) := mul?_gives hera rfl (fits_int64.2 (by omega))
  rw [Nat.mul_comm]
  refine (cast?_gives hyear (fits_int64.2 (by omega))).bind fun year hyear => ?_
  exact hbase.bind fun base hbase => add?_gives hyear hbase (fits_int64.2 (by omega))

/-- The days before a year are not more than the days before a day on which the year has begun. -/
theorem dayOfYear?_gives {day year : UInt64} (hday : number day = n) (hyear : number year = k) (hlt : k < 400)
    (hbegun : daysBeforeYear k ≤ n) : Gives (dayOfYear? day year) (n - daysBeforeYear k) := by
  have hplain : Gives (mul? 365 year) (365 * k) := mul?_gives rfl hyear (fits_uint64.2 (by omega))
  have hfours : Gives (div? year 4) (k / 4) := div?_gives hyear rfl (by decide)
  have hcenturies : Gives (div? year 100) (k / 100) := div?_gives hyear rfl (by decide)
  refine hplain.bind fun plain hplain => hfours.bind fun fours hfours => ?_
  refine (add?_gives hplain hfours (fits_uint64.2 (by omega))).bind fun leaping hleaping => ?_
  refine hcenturies.bind fun centuries hcenturies => ?_
  refine (sub?_gives hleaping hcenturies (by omega)).bind fun before hbefore => ?_
  exact sub?_gives hday hbefore hbegun

theorem marchMonth?_gives {day : UInt64} (hday : number day = n) (hle : n ≤ 365) :
    Gives (marchMonth? day) (marchMonth n) := by
  have hfifths : Gives (mul? 5 day) (5 * n) := mul?_gives rfl hday (fits_uint64.2 (by omega))
  refine hfifths.bind fun fifths hfifths => ?_
  refine (add?_gives (n := 2) hfifths rfl (fits_uint64.2 (by omega))).bind fun moved hmoved => ?_
  exact div?_gives hmoved rfl (by decide)

theorem day?_gives {dayOfYear month : UInt64} (hday : number dayOfYear = n) (hmonth : number month = k)
    (hle : n ≤ 365) (hlast : k ≤ 11) (hbegun : daysBeforeMonth k ≤ n) :
    Gives (day? dayOfYear month) (n - daysBeforeMonth k + 1) := by
  have hdays : Gives (mul? 153 month) (153 * k) := mul?_gives rfl hmonth (fits_uint64.2 (by omega))
  refine hdays.bind fun days hdays => ?_
  refine (add?_gives (n := 2) hdays rfl (fits_uint64.2 (by omega))).bind fun moved hmoved => ?_
  have hbefore : Gives (div? moved 5) (daysBeforeMonth k) := div?_gives hmoved rfl (by decide)
  refine hbefore.bind fun before hbefore => (sub?_gives hday hbefore hbegun).bind fun rest hrest => ?_
  exact add?_gives hrest rfl (fits_uint64.2 (by omega))

theorem month?_gives {marchMonth : UInt64} (hmonth : number marchMonth = n) (hlast : n ≤ 11) :
    Gives (month? marchMonth) (if n < 10 then n + 3 else n - 9) := by
  have hlt : marchMonth < 10 ↔ n < 10 := by
    rw [UInt64.lt_iff_toNat_lt, Int.ofNat.inj hmonth]
    rfl
  simp only [month?, hlt]
  split
  · exact add?_gives hmonth rfl (fits_uint64.2 (by omega))
  · exact sub?_gives hmonth rfl (by omega)

theorem year?_gives {marchYear : Int64} {month : UInt64} (hyear : number marchYear = n) (hmonth : number month = k)
    (hbound : n < 2 ^ 60) : Gives (year? marchYear month) (n + if k ≤ 2 then 1 else 0) := by
  have hle : month ≤ 2 ↔ k ≤ 2 := by
    rw [UInt64.le_iff_toNat_le, Int.ofNat.inj hmonth]
    rfl
  simp only [year?, hle]
  split
  · exact add?_gives hyear rfl (fits_int64.2 (by omega))
  · exact ⟨marchYear, rfl, hyear⟩

end Steps

theorem Reckoning.IsSound.year_begun {r : Reckoning} (h : r.IsSound) : daysBeforeYear r.yearOfEra ≤ r.dayOfEra := by
  rw [h.dayOfEra_eq]
  exact Nat.le_add_right _ _

/-- The eras before a second that a word counts. -/
theorem era_lt (seconds : UInt64) : (reckon seconds.toNat).era < 2 ^ 48 := by
  have hlt := seconds.toNat_lt
  show (seconds.toNat / daySeconds + epochOffset) / eraDays < 2 ^ 48
  unfold daySeconds epochOffset eraDays
  omega

/-- No operation is refused, and the quantities are those of the reckoning in natural numbers. -/
theorem reckon?_agrees (seconds : UInt64) :
    ∃ m, reckon? seconds = some m ∧ m.Agrees (reckon seconds.toNat) := by
  have hsound := reckon_sound seconds.toNat
  have heraLt := era_lt seconds
  have hyearLt := hsound.yearOfEra_lt
  have hdayLe := hsound.dayOfYear_le
  obtain ⟨hmonthLe, hmonthBegun, -⟩ := hsound.marchMonth_spec
  have hyearBound : (reckon seconds.toNat).yearOfEra + 400 * (reckon seconds.toNat).era < 2 ^ 60 := by omega
  obtain ⟨dayCount, hdayCount, hdayCountEq⟩ := dayCount?_gives seconds
  have hera : Gives (div? dayCount 146097) (reckon seconds.toNat).era := div?_gives hdayCountEq rfl (by decide)
  obtain ⟨era, hera, heraEq⟩ := hera
  obtain ⟨dayOfEra, hdayOfEra, hdayOfEraEq⟩ := dayOfEra?_gives hdayCountEq
  obtain ⟨yearOfEra, hyearOfEra, hyearOfEraEq⟩ := yearOfEra?_gives hdayOfEraEq
  obtain ⟨marchYear, hmarchYear, hmarchYearEq⟩ := marchYear?_gives heraEq hyearOfEraEq heraLt hyearLt
  obtain ⟨dayOfYear, hdayOfYear, hdayOfYearEq⟩ := dayOfYear?_gives hdayOfEraEq hyearOfEraEq hyearLt
    hsound.year_begun
  obtain ⟨marchMonth, hmarchMonth, hmarchMonthEq⟩ := marchMonth?_gives hdayOfYearEq hdayLe
  obtain ⟨day, hday, hdayEq⟩ := day?_gives hdayOfYearEq hmarchMonthEq hdayLe hmonthLe hmonthBegun
  obtain ⟨month, hmonth, hmonthEq⟩ := month?_gives hmarchMonthEq hmonthLe
  obtain ⟨year, hyear, hyearEq⟩ := year?_gives hmarchYearEq hmonthEq hyearBound
  refine ⟨⟨dayCount, era, dayOfEra, yearOfEra, marchYear, dayOfYear, marchMonth, day, month, year⟩, ?_, ?_⟩
  · simp only [reckon?, Option.bind_eq_bind, hdayCount, hera, hdayOfEra, hyearOfEra, hmarchYear, hdayOfYear,
      hmarchMonth, hday, hmonth, hyear, Option.bind_some]
    rfl
  · exact ⟨hdayCountEq, heraEq, Int.ofNat.inj hdayOfEraEq, Int.ofNat.inj hyearOfEraEq, hmarchYearEq,
      Int.ofNat.inj hdayOfYearEq, Int.ofNat.inj hmarchMonthEq, Int.ofNat.inj hdayEq, Int.ofNat.inj hmonthEq,
      hyearEq⟩

/-! ## The date in words of 32 bits -/

/-- A small quantity is not changed when it is cut. -/
theorem toNat_toUInt32_of_lt {a : UInt64} (h : a.toNat < 2 ^ 32) : a.toUInt32.toNat = a.toNat := by
  rw [UInt64.toNat_toUInt32, Nat.mod_eq_of_lt h]

namespace MachineReckoning

/-- Of a year the lowest 32 bits are kept. -/
theorem toNat_yearWord {m : MachineReckoning} {year : Nat} (h : m.year.toInt = year) :
    m.yearWord.toNat = year % yearModulus := by
  have hle : 0 ≤ m.year := Int64.le_iff_toInt_le.2 (by rw [h]; exact Int.natCast_nonneg year)
  rw [yearWord, UInt64.toNat_toUInt32, Int64.toNat_toUInt64_of_le hle, Int64.toNatClampNeg, h, Int.toNat_natCast]
  rfl

namespace Agrees

variable {m : MachineReckoning} {r : Reckoning}

theorem month_word (h : m.Agrees r) (hr : r.IsSound) : m.month.toUInt32.toNat = m.month.toNat := by
  have hmonth : r.month ≤ 12 := hr.date_valid.month_le
  exact toNat_toUInt32_of_lt (by rw [h.month]; omega)

theorem day_word (h : m.Agrees r) (hr : r.IsSound) : m.day.toUInt32.toNat = m.day.toNat := by
  have hday : r.day ≤ 31 := hr.date_valid.day_le_31
  exact toNat_toUInt32_of_lt (by rw [h.day]; omega)

/-- A year is changed by being cut if and only if it is no word. -/
theorem year_word (h : m.Agrees r) : m.yearWord.toNat ≠ m.year.toInt ↔ 2 ^ 32 ≤ m.year.toInt := by
  rw [toNat_yearWord h.year, h.year]
  unfold yearModulus
  omega

theorem date_eq (h : m.Agrees r) (hr : r.IsSound) : m.date = ⟨r.year % yearModulus, r.month, r.day⟩ := by
  rw [date, toNat_yearWord h.year, h.month_word hr, h.day_word hr, h.month, h.day]

end Agrees

end MachineReckoning

/-- Main statement: for every count of seconds in a word of 64 bits no operation of the reckoning is refused, and it
gives the quantities of the reckoning in natural numbers, each in its range. Month and day are not changed by being
cut to words of 32 bits, the year is if and only if it needs more bits, and the date is the one reckoned for the
seconds. -/
theorem date_arithmetic_is_safe (seconds : UInt64) :
    ∃ m, reckon? seconds = some m ∧ m.Agrees (reckon seconds.toNat) ∧
      m.dayOfEra.toNat ≤ 146096 ∧ m.yearOfEra.toNat ≤ 399 ∧ m.dayOfYear.toNat ≤ 365 ∧ m.marchMonth.toNat ≤ 11 ∧
      m.month.toUInt32.toNat = m.month.toNat ∧ m.day.toUInt32.toNat = m.day.toNat ∧
      (m.yearWord.toNat ≠ m.year.toInt ↔ 2 ^ 32 ≤ m.year.toInt) ∧
      m.date = civilDate seconds.toNat := by
  obtain ⟨m, hrun, hagrees⟩ := reckon?_agrees seconds
  have hsound := reckon_sound seconds.toNat
  refine ⟨m, hrun, hagrees, ?_, ?_, ?_, ?_, hagrees.month_word hsound, hagrees.day_word hsound, hagrees.year_word,
    hagrees.date_eq hsound⟩
  · rw [hagrees.dayOfEra]
    exact Nat.le_of_lt_succ hsound.dayOfEra_lt
  · rw [hagrees.yearOfEra]
    exact Nat.le_of_lt_succ hsound.yearOfEra_lt
  · rw [hagrees.dayOfYear]
    exact hsound.dayOfYear_le
  · rw [hagrees.marchMonth]
    exact hsound.marchMonth_spec.1

/-- The last day of an era of 400 years is the leap day of the year 2000. -/
example : (reckon? 951782400).map (fun m => (m.dayOfEra, m.dayOfYear, m.date)) =
    some (146096, 365, ⟨2000, 2, 29⟩) := by decide +kernel

/-- The first second whose year is cut, to the year 0. -/
example : (reckon? 135536014634284800).map (·.date) = some ⟨0, 1, 1⟩ := by decide +kernel

end Calendar

end StubRelease

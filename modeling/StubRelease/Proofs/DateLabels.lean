/-
# StubRelease.Proofs.DateLabels -- the labels of days, as texts

A date's label is the number `10000 * year + 100 * month + day` in decimal digits, and dates are ordered as
these numbers are. Digits of the same length are ordered as texts as the numbers they write are, and up to the
year 9999 all labels have eight digits. Main statement: up to then labels sort as their days do, and no two days
have one label until the year no longer fits its word (`ofInstant_orders_days`).
-/
import StubRelease.Proofs.Calendar

namespace StubRelease

open Calendar

/-! ## Digits and the numbers they write -/

namespace Decimal

theorem ofDigitChars_padded (width n init : Nat) :
    Nat.ofDigitChars 10 (padded width n) init = 10 ^ (padded width n).length * init + n := by
  have hzeros : Nat.ofDigitChars 10 (padded width n) 0 = n := by
    rw [padded, Nat.ofDigitChars_append, Nat.ofDigitChars_replicate_zero, Nat.mul_zero, digits,
      Nat.ofDigitChars_toDigits (by omega) (by omega)]
  rw [Nat.ofDigitChars_eq_ofDigitChars_zero, hzeros]

/-- A number that fits the width is padded to the width. -/
theorem length_padded {width n : Nat} (hwidth : 0 < width) (h : n < 10 ^ width) :
    (padded width n).length = width := by
  have hle : (digits n).length ≤ width := (Nat.length_toDigits_le_iff (by omega) hwidth).2 h
  rw [padded, List.length_append, List.length_replicate]
  omega

theorem toNat_of_isDigit {c : Char} (h : c.isDigit = true) : '0'.toNat ≤ c.toNat ∧ c.toNat ≤ '0'.toNat + 9 := by
  simp only [Char.isDigit, Bool.and_eq_true, decide_eq_true_eq] at h
  exact ⟨UInt32.le_iff_toNat_le.1 h.1, UInt32.le_iff_toNat_le.1 h.2⟩

theorem ofDigitChars_cons (c : Char) (cs : List Char) : Nat.ofDigitChars 10 (c :: cs) 0 =
    10 ^ cs.length * (c.toNat - '0'.toNat) + Nat.ofDigitChars 10 cs 0 := by
  rw [Nat.ofDigitChars_cons, Nat.ofDigitChars_eq_ofDigitChars_zero, Nat.mul_zero, Nat.zero_add]

theorem ofDigitChars_lt {cs : List Char} (h : ∀ c ∈ cs, c.isDigit = true) :
    Nat.ofDigitChars 10 cs 0 < 10 ^ cs.length := by
  induction cs with
  | nil => simp
  | cons c cs ih =>
    have hcs := ih fun d hd => h d (List.mem_cons_of_mem _ hd)
    have hdigit : c.toNat - '0'.toNat ≤ 9 := by
      have := toNat_of_isDigit (h c List.mem_cons_self)
      omega
    have := Nat.mul_le_mul_left (10 ^ cs.length) hdigit
    rw [ofDigitChars_cons, List.length_cons, pow_succ]
    omega

/-- The number before the last places decides, and the places themselves if it is the same. -/
theorem mul_add_lt_iff {p x y v w : Nat} (hv : v < p) (hw : w < p) :
    p * x + v < p * y + w ↔ x < y ∨ x = y ∧ v < w := by
  obtain hlt | rfl | hlt := Nat.lt_trichotomy x y
  · have := Nat.mul_le_mul_left p hlt
    rw [Nat.mul_succ] at this
    omega
  · omega
  · have := Nat.mul_le_mul_left p hlt
    rw [Nat.mul_succ] at this
    omega

/-- Digits of the same length are ordered as the numbers they write. -/
theorem lt_iff_ofDigitChars_lt {as bs : List Char} (ha : ∀ c ∈ as, c.isDigit = true)
    (hb : ∀ c ∈ bs, c.isDigit = true) (hlength : as.length = bs.length) :
    as < bs ↔ Nat.ofDigitChars 10 as 0 < Nat.ofDigitChars 10 bs 0 := by
  induction as generalizing bs with
  | nil =>
    obtain rfl := List.length_eq_zero_iff.1 hlength.symm
    simp
  | cons a as ih =>
    cases bs with
    | nil => cases hlength
    | cons b bs =>
      have hlength : as.length = bs.length := Nat.succ.inj hlength
      have has := fun c hc => ha c (List.mem_cons_of_mem a hc)
      have hbs := fun c hc => hb c (List.mem_cons_of_mem b hc)
      have halt := ofDigitChars_lt has
      have hblt := ofDigitChars_lt hbs
      have hadigit := toNat_of_isDigit (ha a List.mem_cons_self)
      have hbdigit := toNat_of_isDigit (hb b List.mem_cons_self)
      have hlt : a < b ↔ a.toNat - '0'.toNat < b.toNat - '0'.toNat := by
        show a.toNat < b.toNat ↔ _
        omega
      have heq : a = b ↔ a.toNat - '0'.toNat = b.toNat - '0'.toNat := by
        rw [← Char.toNat_inj]
        omega
      -- the first digit weighs more than all behind it, which are as many in both
      rw [hlength] at halt
      rw [List.cons_lt_cons_iff, ih has hbs hlength, hlt, heq, ofDigitChars_cons, ofDigitChars_cons, hlength,
        mul_add_lt_iff halt hblt]

end Decimal

/-! ## Dates and the numbers of their labels -/

namespace CivilDate

/-- The number that a date's label writes. -/
def number (d : CivilDate) : Nat := 10000 * d.year + 100 * d.month + d.day

variable {d d' : CivilDate}

theorem IsValid.day_le_31 (h : d.IsValid) : d.day ≤ 31 := by
  have hday := h.day_le
  unfold monthLength at hday
  split at hday <;> split at hday <;> omega

theorem IsValid.number_inj (h : d.IsValid) (h' : d'.IsValid) (heq : d.number = d'.number) : d = d' := by
  have hday := h.day_le_31
  have hday' := h'.day_le_31
  have hmonth := h.month_le
  have hmonth' := h'.month_le
  obtain ⟨year, month, day⟩ := d
  obtain ⟨year', month', day'⟩ := d'
  simp only [number] at *
  congr 1 <;> omega

/-- Dates that do not come later have no greater number. -/
theorem IsValid.number_le (h : d.IsValid) (h' : d'.IsValid) (hle : d.dayNumber ≤ d'.dayNumber) :
    d.number ≤ d'.number := by
  have hday := h.day_le_31
  have hmonth := h.month_le
  obtain hlt | heq | hlt := Nat.lt_trichotomy d.year d'.year
  · unfold number
    omega
  · -- in one year the months and the days decide, as the years do in all of time
    have hdays : d.dayOfYear ≤ d'.dayOfYear := by
      unfold dayNumber at hle
      rw [heq] at hle
      omega
    unfold dayOfYear at hdays
    rw [heq] at hdays
    obtain hlt | hsame | hlt := Nat.lt_trichotomy d.month d'.month
    · unfold number
      omega
    · rw [hsame] at hdays
      have := h'.one_le_day
      unfold number
      omega
    · have hwithin : d'.day - 1 < monthLength d'.year (d'.month - 1 + 1) := by
        rw [Nat.sub_add_cancel h'.one_le_month]
        have := h'.one_le_day
        have := h'.day_le
        omega
      have hmonths : d'.month - 1 < d.month - 1 := by
        have := h'.one_le_month
        omega
      have hlater : ∑ m ∈ Finset.range (d'.month - 1), monthLength d'.year (m + 1) + (d'.day - 1) <
          ∑ m ∈ Finset.range (d.month - 1), monthLength d'.year (m + 1) + (d.day - 1) :=
        sum_range_add_lt _ hwithin hmonths
      omega
  · have := sum_range_add_lt d.dayOfYear h'.dayOfYear_lt hlt
    unfold dayNumber at hle
    omega

end CivilDate

namespace Label

variable {d d' : CivilDate}

/-- A date's label writes the date's number. -/
theorem ofDigitChars_dateDigits (h : d.IsValid) : Nat.ofDigitChars 10 (dateDigits d) 0 = d.number := by
  have hday := h.day_le_31
  have hmonth := h.month_le
  have hmonthLength : (Decimal.padded 2 d.month).length = 2 := Decimal.length_padded (by omega) (by omega)
  have hdayLength : (Decimal.padded 2 d.day).length = 2 := Decimal.length_padded (by omega) (by omega)
  rw [dateDigits, Nat.ofDigitChars_append, Nat.ofDigitChars_append, Decimal.ofDigitChars_padded,
    Decimal.ofDigitChars_padded, Decimal.ofDigitChars_padded, hmonthLength, hdayLength, CivilDate.number]
  omega

/-- Labels up to the year 9999 have eight digits. -/
theorem length_dateDigits (h : d.IsValid) (hyear : d.year ≤ 9999) : (dateDigits d).length = 8 := by
  have hday := h.day_le_31
  have hmonth := h.month_le
  rw [dateDigits, List.length_append, List.length_append, Decimal.length_padded (by omega) (by omega),
    Decimal.length_padded (by omega) (by omega), Decimal.length_padded (by omega) (by omega)]

theorem toList_ofDate (d : CivilDate) : (ofDate d).text.toList = dateDigits d := String.toList_ofList

theorem isDigit_of_mem_ofDate {c : Char} (h : c ∈ (ofDate d).text.toList) : c.isDigit = true :=
  isDigit_of_mem_dateDigits (toList_ofDate d ▸ h)

/-- Different dates have different labels. -/
theorem ofDate_inj (h : d.IsValid) (h' : d'.IsValid) : (ofDate d).text = (ofDate d').text ↔ d = d' := by
  constructor
  · intro heq
    have hdigits : dateDigits d = dateDigits d' := by rw [← toList_ofDate, ← toList_ofDate, heq]
    apply h.number_inj h'
    rw [← ofDigitChars_dateDigits h, ← ofDigitChars_dateDigits h', hdigits]
  · rintro rfl
    rfl

/-- Up to the year 9999 the labels of dates sort as the dates do. -/
theorem ofDate_le (h : d.IsValid) (h' : d'.IsValid) (hyear' : d'.year ≤ 9999) (hle : d.dayNumber ≤ d'.dayNumber) :
    d.year ≤ 9999 ∧ (ofDate d).text ≤ (ofDate d').text := by
  have hnumber := h.number_le h' hle
  have hyear : d.year ≤ 9999 := by
    have hday' := h'.day_le_31
    have hmonth' := h'.month_le
    unfold CivilDate.number at hnumber
    omega
  refine ⟨hyear, ?_⟩
  have hlength : (dateDigits d').length = (dateDigits d).length := by
    rw [length_dateDigits h' hyear', length_dateDigits h hyear]
  rw [← String.not_lt]
  show ¬ (ofDate d').text.toList < (ofDate d).text.toList
  rw [toList_ofDate, toList_ofDate,
    Decimal.lt_iff_ofDigitChars_lt (fun _ => isDigit_of_mem_dateDigits) (fun _ => isDigit_of_mem_dateDigits) hlength,
    ofDigitChars_dateDigits h, ofDigitChars_dateDigits h']
  exact Nat.not_lt.2 hnumber

end Label

/-! ## Instants -/

/-- The day of an instant, counted from the first of January 1970; every earlier instant counts as that day. -/
def Instant.day (t : Instant) : Nat := (t.nanoseconds / (86400 * 10 ^ 9)).toNat

theorem Instant.day_eq (t : Instant) : t.day = t.elapsedSeconds / daySeconds := by
  unfold day elapsedSeconds daySeconds
  omega

theorem Instant.day_le {t₁ t₂ : Instant} (h : t₁.nanoseconds ≤ t₂.nanoseconds) : t₁.day ≤ t₂.day := by
  unfold day
  omega

/-- Eight ASCII digits. -/
structure Label.IsEightDigits (text : String) : Prop where
  length_eq : text.toList.length = 8
  digits : ∀ c ∈ text.toList, '0' ≤ c ∧ c ≤ '9'

theorem Label.isEightDigits_ofDate {d : CivilDate} (h : d.IsValid) (hyear : d.year ≤ 9999) :
    IsEightDigits (ofDate d).text where
  length_eq := by rw [toList_ofDate, length_dateDigits h hyear]
  digits c hc := by
    have hdigit := isDigit_of_mem_ofDate hc
    simp only [Char.isDigit, Bool.and_eq_true, decide_eq_true_eq] at hdigit
    exact hdigit

/-- The label of an instant whose year fits its word. -/
theorem Label.ofInstant_eq {t : Instant} {d : CivilDate} (h : d.FollowsEpoch t.day) (hyear : d.year < 2 ^ 32) :
    ofInstant t = ofDate d := by
  obtain ⟨only, honly, hdate⟩ := civilDate_follows_epoch t.elapsedSeconds
  rw [Instant.day_eq, honly] at h
  subst h
  have hword : d.year % yearModulus = d.year := Nat.mod_eq_of_lt hyear
  rw [ofInstant, Instant.date, hdate, hword]

/-- Main statement: the days of two instants have one date each in the calendar. If the second instant is not
earlier and its year is at most 9999, both labels have eight digits, are sorted as the instants are, and are the
same exactly on the same day; as long as the years fit a word, different days have different labels; and every
label of an instant is accepted unchanged. -/
theorem Label.ofInstant_orders_days (t₁ t₂ : Instant) :
    ∃ d₁ d₂ : CivilDate, (∀ d, d.FollowsEpoch t₁.day ↔ d = d₁) ∧ (∀ d, d.FollowsEpoch t₂.day ↔ d = d₂) ∧
      (t₁.nanoseconds ≤ t₂.nanoseconds → d₂.year ≤ 9999 →
        IsEightDigits (ofInstant t₁).text ∧ IsEightDigits (ofInstant t₂).text ∧
          (ofInstant t₁).text ≤ (ofInstant t₂).text ∧
          ((ofInstant t₁).text = (ofInstant t₂).text ↔ t₁.day = t₂.day)) ∧
      (d₁.year < 2 ^ 32 → d₂.year < 2 ^ 32 → t₁.day ≠ t₂.day → (ofInstant t₁).text ≠ (ofInstant t₂).text) ∧
      parse (ofInstant t₁).text = .ok (ofInstant t₁) := by
  obtain ⟨d₁, honly₁, -⟩ := civilDate_follows_epoch t₁.elapsedSeconds
  obtain ⟨d₂, honly₂, -⟩ := civilDate_follows_epoch t₂.elapsedSeconds
  rw [← Instant.day_eq] at honly₁ honly₂
  have h₁ : d₁.FollowsEpoch t₁.day := (honly₁ d₁).2 rfl
  have h₂ : d₂.FollowsEpoch t₂.day := (honly₂ d₂).2 rfl
  have hsame : d₁ = d₂ ↔ t₁.day = t₂.day := by
    constructor
    · intro heq
      have hdays := h₁.dayNumber_eq
      rw [heq, h₂.dayNumber_eq] at hdays
      omega
    · intro hday
      rw [hday] at h₁
      exact h₁.unique h₂
  have hlabels (hy₁ : d₁.year < 2 ^ 32) (hy₂ : d₂.year < 2 ^ 32) :
      (ofInstant t₁).text = (ofInstant t₂).text ↔ t₁.day = t₂.day := by
    rw [ofInstant_eq h₁ hy₁, ofInstant_eq h₂ hy₂, ofDate_inj h₁.valid h₂.valid, hsame]
  refine ⟨d₁, d₂, honly₁, honly₂, fun hle hyear₂ => ?_, fun hy₁ hy₂ hne heq => hne ((hlabels hy₁ hy₂).1 heq),
    parse_ofInstant t₁⟩
  have hdays : d₁.dayNumber ≤ d₂.dayNumber := by
    rw [h₁.dayNumber_eq, h₂.dayNumber_eq]
    exact Nat.add_le_add_left (Instant.day_le hle) _
  obtain ⟨hyear₁, hordered⟩ := ofDate_le h₁.valid h₂.valid hyear₂ hdays
  have hword₁ : d₁.year < 2 ^ 32 := by omega
  have hword₂ : d₂.year < 2 ^ 32 := by omega
  refine ⟨?_, ?_, ?_, hlabels hword₁ hword₂⟩
  · rw [ofInstant_eq h₁ hword₁]
    exact isEightDigits_ofDate h₁.valid hyear₁
  · rw [ofInstant_eq h₂ hword₂]
    exact isEightDigits_ofDate h₂.valid hyear₂
  · rwa [ofInstant_eq h₁ hword₁, ofInstant_eq h₂ hword₂]

end StubRelease

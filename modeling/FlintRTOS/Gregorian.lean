import Mathlib.Tactic.IntervalCases

/-!
# The Gregorian calendar

The proleptic calendar from the year 0 on, by its rules: which years are leap years, how
long the months are, and with them the number of a day, counted year by year and month
by month.

Conversions from a day number work with years that begin in March, so that the leap day
is the last of its year, and with eras of 400 years.  `exists_date` says that this finds
a date, and the one with the given number.
-/

namespace Gregorian

/-! ### The rules -/

def IsLeap (year : Nat) : Prop := 4 ∣ year ∧ (100 ∣ year → 400 ∣ year)

instance (year : Nat) : Decidable (IsLeap year) := inferInstanceAs (Decidable (_ ∧ _))

def yearLength (year : Nat) : Nat := if IsLeap year then 366 else 365

/-- Months are numbered from 1. -/
def monthLength (year : Nat) : Nat → Nat
  | 2 => if IsLeap year then 29 else 28
  | 4 | 6 | 9 | 11 => 30
  | _ => 31

structure Date where
  year : Nat
  month : Nat
  day : Nat
  month_mem : 1 ≤ month ∧ month ≤ 12
  day_mem : 1 ≤ day ∧ day ≤ monthLength year month

theorem Date.day_le (d : Date) : d.day ≤ 31 := by
  refine d.day_mem.2.trans ?_
  unfold monthLength
  split
  · split <;> decide
  all_goals decide

def daysBeforeYear : Nat → Nat
  | 0 => 0
  | year + 1 => daysBeforeYear year + yearLength year

/-- Within the year. -/
def daysBeforeMonth (year : Nat) : Nat → Nat
  | 0 => 0
  | 1 => 0
  | month + 2 => daysBeforeMonth year (month + 1) + monthLength year (month + 1)

/-- The first of January of the year 0 has number 0. -/
def Date.dayNumber (d : Date) : Nat :=
  daysBeforeYear d.year + daysBeforeMonth d.year d.month + (d.day - 1)

theorem isLeap_cases (year : Nat) :
    (¬ IsLeap year ∧ ¬ 4 ∣ year) ∨ (IsLeap year ∧ 4 ∣ year ∧ ¬ 100 ∣ year) ∨
      (¬ IsLeap year ∧ 100 ∣ year ∧ ¬ 400 ∣ year) ∨ (IsLeap year ∧ 400 ∣ year) := by
  unfold IsLeap
  omega

theorem daysBeforeYear_eq (year : Nat) :
    daysBeforeYear year + (year + 99) / 100 = 365 * year + (year + 3) / 4 + (year + 399) / 400 := by
  induction year with
  | zero => rfl
  | succ year ih =>
    rw [daysBeforeYear, yearLength]
    rcases isLeap_cases year with ⟨hleap, hyear⟩ | ⟨hleap, hyear⟩ | ⟨hleap, hyear⟩ | ⟨hleap, hyear⟩
    · rw [if_neg hleap]
      omega
    · rw [if_pos hleap]
      omega
    · rw [if_neg hleap]
      omega
    · rw [if_pos hleap]
      omega

/-! ### Years from March on -/

/-- The days of an era before its year `yoe`. -/
def yearStart (yoe : Nat) : Nat := 365 * yoe + yoe / 4 - yoe / 100

/-- The days of a year before its month `mp`, where March is month 0. -/
def monthStart (mp : Nat) : Nat := (153 * mp + 2) / 5

def yearOfEra (doe : Nat) : Nat := (doe - doe / 1460 + doe / 36524 - doe / 146096) / 365

def monthOfYear (doy : Nat) : Nat := (5 * doy + 2) / 153

def calendarMonth (mp : Nat) : Nat := if mp < 10 then mp + 3 else mp - 9

/-- The day `doy` of the year `year`, both from March on. -/
def IsDayOfYear (year doy : Nat) : Prop := doy < 365 ∨ doy = 365 ∧ IsLeap (year + 1)

theorem daysBeforeYear_march (year : Nat) :
    daysBeforeYear year + daysBeforeMonth year 3 =
      146097 * (year / 400) + yearStart (year % 400) + 60 := by
  have hclosed := daysBeforeYear_eq year
  have hmonths : daysBeforeMonth year 3 = 31 + if IsLeap year then 29 else 28 := by
    simp only [daysBeforeMonth, monthLength]
  rw [hmonths, yearStart]
  rcases isLeap_cases year with ⟨hleap, hyear⟩ | ⟨hleap, hyear⟩ | ⟨hleap, hyear⟩ | ⟨hleap, hyear⟩
  · rw [if_neg hleap]
    omega
  · rw [if_pos hleap]
    omega
  · rw [if_neg hleap]
    omega
  · rw [if_pos hleap]
    omega

/-- Two months of the calendar's next year belong to a year from March on. -/
theorem daysBeforeYear_succ_march (year : Nat) :
    daysBeforeYear (year + 1) = daysBeforeYear year + daysBeforeMonth year 3 + 306 := by
  have hmonths : daysBeforeMonth year 3 = 31 + if IsLeap year then 29 else 28 := by
    simp only [daysBeforeMonth, monthLength]
  rw [daysBeforeYear, yearLength, hmonths]
  split <;> rfl

/-- Centuries, groups of four years, years and days: the last day of a group, of a century
    and of the era is one more than the quotients say. -/
theorem exists_split {doe : Nat} (h : doe < 146097) :
    ∃ c q t u, doe = 36524 * c + 1461 * q + 365 * t + u ∧ c ≤ 3 ∧ q ≤ 24 ∧ t ≤ 3 ∧
      (u < 365 ∨ u = 365 ∧ t = 3 ∧ (q = 24 → c = 3)) := by
  have hcentury : ∃ c r, doe = 36524 * c + r ∧ c ≤ 3 ∧ (r < 36524 ∨ r = 36524 ∧ c = 3) := by
    rcases Nat.lt_or_ge doe 146096 with hlt | hlast
    · exact ⟨doe / 36524, doe % 36524, by omega, by omega, by omega⟩
    · exact ⟨3, 36524, by omega, by omega, by omega⟩
  obtain ⟨c, r, hdoe, hc, hr⟩ := hcentury
  have hyear : ∃ t u, r % 1461 = 365 * t + u ∧ t ≤ 3 ∧ (u < 365 ∨ u = 365 ∧ t = 3) := by
    rcases Nat.lt_or_ge (r % 1461) 1460 with hlt | hlast
    · exact ⟨r % 1461 / 365, r % 1461 % 365, by omega, by omega, by omega⟩
    · exact ⟨3, 365, by omega, by omega, by omega⟩
  obtain ⟨t, u, hrem, ht, hu⟩ := hyear
  exact ⟨c, r / 1461, t, u, by omega, hc, by omega, ht, by omega⟩

/-- The quotients by 1460, 36524 and 146096 take the leap days out again. -/
theorem yearOfEra_eq {c q t u : Nat} (hc : c ≤ 3) (hq : q ≤ 24) (ht : t ≤ 3)
    (hu : u < 365 ∨ u = 365 ∧ t = 3 ∧ (q = 24 → c = 3)) :
    yearOfEra (36524 * c + 1461 * q + 365 * t + u) = 100 * c + 4 * q + t := by
  unfold yearOfEra
  by_cases hlast : 36524 * c + 1461 * q + 365 * t + u = 146096
  · rw [hlast]
    omega
  generalize hdoe : 36524 * c + 1461 * q + 365 * t + u = doe at hlast ⊢
  have hcentury : doe / 36524 = c := by omega
  have hera : doe / 146096 = 0 := by omega
  rw [hcentury, hera]
  -- the days of the leap years so far amount to one more group at the end of the last
  by_cases hgroup : 24 * c + q + 365 * t + u < 1460
  · have hdays : doe / 1460 = 25 * c + q := by omega
    rw [hdays]
    omega
  · have hdays : doe / 1460 = 25 * c + q + 1 := by omega
    rw [hdays]
    omega

theorem yearOfEra_spec {doe : Nat} (h : doe < 146097) :
    yearOfEra doe < 400 ∧ yearStart (yearOfEra doe) ≤ doe ∧
      IsDayOfYear (yearOfEra doe) (doe - yearStart (yearOfEra doe)) := by
  obtain ⟨c, q, t, u, hdoe, hc, hq, ht, hu⟩ := exists_split h
  have hyear : yearOfEra doe = 100 * c + 4 * q + t := by
    rw [hdoe]
    exact yearOfEra_eq hc hq ht hu
  have hstart : yearStart (100 * c + 4 * q + t) = 36524 * c + 1461 * q + 365 * t := by
    have hgroups : (100 * c + 4 * q + t) / 4 = 25 * c + q := by omega
    have hcenturies : (100 * c + 4 * q + t) / 100 = c := by omega
    rw [yearStart, hgroups, hcenturies]
    omega
  rw [hyear, hstart, IsDayOfYear, IsLeap]
  refine ⟨by omega, by omega, ?_⟩
  omega

/-- The calendar's year of a month of the year `year` from March on. -/
def calendarYear (year mp : Nat) : Nat := if calendarMonth mp ≤ 2 then year + 1 else year

/-- All months but February are as long as the next one starts later. -/
theorem monthLength_march {mp : Nat} (h : mp < 11) (year : Nat) :
    monthStart mp + monthLength year (calendarMonth mp) = monthStart (mp + 1) := by
  interval_cases mp <;> rfl

theorem daysBeforeMonth_add_three {mp : Nat} (h : mp < 10) (year : Nat) :
    daysBeforeMonth year (mp + 3) = daysBeforeMonth year 3 + monthStart mp := by
  induction mp with
  | zero => rfl
  | succ mp ih =>
    have hstep : daysBeforeMonth year (mp + 4) =
        daysBeforeMonth year (mp + 3) + monthLength year (mp + 3) := rfl
    have hlength := monthLength_march (by omega : mp < 11) year
    rw [calendarMonth, if_pos (by omega)] at hlength
    rw [hstep, ih (by omega), ← hlength, Nat.add_assoc]

theorem daysBeforeMonth_march {mp : Nat} (h : mp < 12) (year : Nat) :
    daysBeforeYear (calendarYear year mp) +
        daysBeforeMonth (calendarYear year mp) (calendarMonth mp) =
      daysBeforeYear year + daysBeforeMonth year 3 + monthStart mp := by
  by_cases hthis : mp < 10
  · rw [calendarYear, calendarMonth, if_pos hthis, if_neg (by omega),
      daysBeforeMonth_add_three hthis, Nat.add_assoc]
  · rw [calendarYear, calendarMonth, if_neg hthis, if_pos (by omega), daysBeforeYear_succ_march]
    interval_cases mp <;> rfl

theorem monthOfYear_spec {year doy : Nat} (h : IsDayOfYear year doy) :
    monthOfYear doy < 12 ∧ monthStart (monthOfYear doy) ≤ doy ∧
      doy < monthStart (monthOfYear doy) +
        monthLength (calendarYear year (monthOfYear doy)) (calendarMonth (monthOfYear doy)) := by
  have hmp : 153 * monthOfYear doy ≤ 5 * doy + 2 ∧ 5 * doy + 2 < 153 * monthOfYear doy + 153 := by
    unfold monthOfYear
    omega
  generalize monthOfYear doy = mp at hmp ⊢
  unfold IsDayOfYear at h
  have hstart : monthStart mp ≤ doy := by
    unfold monthStart
    omega
  refine ⟨by omega, hstart, ?_⟩
  by_cases hfebruary : mp < 11
  · rw [monthLength_march hfebruary, monthStart]
    omega
  · obtain rfl : mp = 11 := by omega
    change doy < 337 + if IsLeap (year + 1) then 29 else 28
    split
    · omega
    · rename_i hcommon
      rcases h with h | ⟨_, hleap⟩
      · omega
      · exact absurd hleap hcommon

/-- The date of a day, counted from the first of March of the year 0. -/
theorem exists_date {doe yoe doy mp : Nat} (era : Nat) (hdoe : doe < 146097) (hyoe : yoe = yearOfEra doe)
    (hdoy : doy = doe - yearStart yoe) (hmp : mp = monthOfYear doy) :
    ∃ date : Date, date.year = calendarYear (yoe + era * 400) mp ∧ date.month = calendarMonth mp ∧
      date.day = doy - monthStart mp + 1 ∧ date.dayNumber = era * 146097 + doe + 60 := by
  obtain ⟨hlt, hle, hday⟩ := yearOfEra_spec hdoe
  rw [← hyoe] at hlt hle hday
  rw [← hdoy] at hday
  have hday' : IsDayOfYear (yoe + era * 400) doy := by
    unfold IsDayOfYear IsLeap at hday ⊢
    omega
  obtain ⟨hmonth, hstart, hlength⟩ := monthOfYear_spec hday'
  rw [← hmp] at hmonth hstart hlength
  have hdays := daysBeforeMonth_march hmonth (yoe + era * 400)
  rw [daysBeforeYear_march] at hdays
  have hmem : 1 ≤ calendarMonth mp ∧ calendarMonth mp ≤ 12 := by
    unfold calendarMonth
    split <;> omega
  refine ⟨⟨calendarYear (yoe + era * 400) mp, calendarMonth mp, doy - monthStart mp + 1, hmem,
    by omega⟩, rfl, rfl, rfl, ?_⟩
  have hera : (yoe + era * 400) / 400 = era := by omega
  have hrest : (yoe + era * 400) % 400 = yoe := by omega
  rw [hera, hrest] at hdays
  change _ + _ + (doy - monthStart mp + 1 - 1) = _
  rw [hdays]
  omega

end Gregorian

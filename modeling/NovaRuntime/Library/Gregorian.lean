/-
# NovaRuntime.Library.Gregorian — dates as numbers of days

The Gregorian calendar, carried back before its introduction: leap years, the lengths of
the months, and the number of days from 1970-01-01 to a date (`dayNumber`). A program that
counts days starts its years in March, so that the leap day is the last one, and cuts time
into eras of 400 years (`march_year`); the other way round, `civil` finds the year inside
an era by a division that is corrected for the leap years before (`dayNumber_civil`).
-/
import Mathlib.Tactic.IntervalCases

namespace NovaRuntime.Library.Gregorian

set_option autoImplicit false

def IsLeap (year : Int) : Prop := year % 4 = 0 ∧ (year % 100 ≠ 0 ∨ year % 400 = 0)

instance (year : Int) : Decidable (IsLeap year) := inferInstanceAs (Decidable (_ ∧ _))

def daysInMonth (year month : Int) : Int :=
  if month = 2 then if IsLeap year then 29 else 28
  else if month = 4 ∨ month = 6 ∨ month = 9 ∨ month = 11 then 30
  else 31

structure Valid (year month day : Int) : Prop where
  first_month : 1 ≤ month
  last_month : month ≤ 12
  first_day : 1 ≤ day
  last_day : day ≤ daysInMonth year month

/-- The days from 1970-01-01 to the first day of a year. -/
def daysBeforeYear (year : Int) : Int :=
  365 * (year - 1) + (year - 1) / 4 - (year - 1) / 100 + (year - 1) / 400 - 719162

/-- The days of the months of a year that come before a month. -/
def daysBeforeMonth (year month : Int) : Int :=
  ((List.range (month - 1).toNat).map fun (k : Nat) => daysInMonth year (k + 1)).sum

/-- The days from 1970-01-01 to a date. -/
def dayNumber (year month day : Int) : Int :=
  daysBeforeYear year + daysBeforeMonth year month + (day - 1)

example : dayNumber 1970 1 1 = 0 := by decide
example : dayNumber 2000 3 1 = dayNumber 2000 2 29 + 1 := by decide

theorem Valid.day_le {year month day : Int} (valid : Valid year month day) : day ≤ 31 := by
  have bound := valid.last_day
  unfold daysInMonth at bound
  split at bound
  · split at bound <;> omega
  · split at bound <;> omega

/-! ## Years that start in March -/

/-- The days of an era before a day of it: the years before, their leap days, the months
before, which are 153 days for every five. -/
def dayOfEra (yearOfEra monthOfYear day : Int) : Int :=
  yearOfEra * 365 + yearOfEra / 4 - yearOfEra / 100 + (153 * monthOfYear + 2) / 5 + (day - 1)

/-- The months from March on have 153 days for every five. -/
theorem daysBeforeMonth_eq {month : Int} (year : Int) (first : 1 ≤ month) (last : month ≤ 12) :
    daysBeforeMonth year month = if month ≤ 2 then 31 * (month - 1)
      else 31 + daysInMonth year 2 + (153 * (month - 3) + 2) / 5 := by
  have january : daysInMonth year 1 = 31 := rfl
  generalize february : daysInMonth year 2 = days
  interval_cases month <;>
    simp [daysBeforeMonth, List.range_succ, january, february] <;> simp [daysInMonth] <;> omega

/-- **The number of a day, counted in eras** of years that start in March. -/
theorem march_year {year month : Int} (day : Int) (first : 1 ≤ month) (last : month ≤ 12) :
    dayNumber year month day =
      let y := if month ≤ 2 then year - 1 else year
      let m := if month ≤ 2 then month + 9 else month - 3
      y / 400 * 146097 + dayOfEra (y - y / 400 * 400) m day - 719468 := by
  rw [dayNumber, daysBeforeMonth_eq year first last]
  unfold daysBeforeYear dayOfEra
  by_cases early : month ≤ 2
  · simp only [if_pos early]
    omega
  · simp only [if_neg early, daysInMonth, if_true]
    by_cases leap : IsLeap year
    · rw [if_pos leap]
      unfold IsLeap at leap
      omega
    · rw [if_neg leap]
      unfold IsLeap at leap
      omega

/-! ## The date of a number of days -/

/-- The year of an era that a day of it lies in. -/
def yearOfEra (doe : Int) : Int := (doe - doe / 1460 + doe / 36524 - doe / 146096) / 365

/-- The date of a number of days. -/
def civil (days : Int) : Int × Int × Int :=
  let z := days + 719468
  let doe := z - z / 146097 * 146097
  let yoe := yearOfEra doe
  let y := yoe + z / 146097 * 400
  let doy := doe - (365 * yoe + yoe / 4 - yoe / 100)
  let mp := (5 * doy + 2) / 153
  let m := if mp < 10 then mp + 3 else mp - 9
  (if m ≤ 2 then y + 1 else y, m, doy - (153 * mp + 2) / 5 + 1)

theorem yearOfEra_bounds {doe : Int} (first : 0 ≤ doe) (last : doe < 146097) :
    0 ≤ yearOfEra doe ∧ yearOfEra doe ≤ 399 := by
  unfold yearOfEra
  constructor <;> omega

/-- The correction is exact: what is left is a day of that year. -/
theorem dayOfYear_bounds {doe : Int} (first : 0 ≤ doe) (last : doe < 146097) :
    0 ≤ doe - (365 * yearOfEra doe + yearOfEra doe / 4 - yearOfEra doe / 100) ∧
      doe - (365 * yearOfEra doe + yearOfEra doe / 4 - yearOfEra doe / 100) ≤ 365 := by
  obtain ⟨low, high⟩ := yearOfEra_bounds first last
  obtain ⟨year, isYear⟩ : ∃ year, year = yearOfEra doe := ⟨_, rfl⟩
  rw [← isYear] at low high ⊢
  unfold yearOfEra at isYear
  -- the century is a case; the rest is linear
  obtain ⟨century, isCentury⟩ : ∃ c, year / 100 = c := ⟨_, rfl⟩
  obtain ⟨century_low, century_high⟩ : 0 ≤ century ∧ century ≤ 3 := by omega
  rw [isCentury]
  interval_cases century <;> omega

/-- What the date is made of: an era, a year of it, a month from March on and a day. -/
theorem civil_parts (days : Int) : ∃ era year month day : Int,
    (0 ≤ year ∧ year ≤ 399) ∧ (0 ≤ month ∧ month ≤ 11) ∧ (1 ≤ day ∧ day ≤ 31) ∧
      days = era * 146097 + dayOfEra year month day - 719468 ∧
      civil days = (if month < 10 then year + era * 400 else year + era * 400 + 1,
        if month < 10 then month + 3 else month - 9, day) := by
  have first : 0 ≤ days + 719468 - (days + 719468) / 146097 * 146097 := by omega
  have last : days + 719468 - (days + 719468) / 146097 * 146097 < 146097 := by omega
  have years := yearOfEra_bounds first last
  have inYear := dayOfYear_bounds first last
  refine ⟨(days + 719468) / 146097, yearOfEra (days + 719468 - (days + 719468) / 146097 * 146097), ?_⟩
  dsimp only [civil, dayOfEra]
  generalize left : days + 719468 - (days + 719468) / 146097 * 146097 = doe at *
  generalize yearOfEra doe = yoe at *
  generalize doyEq : doe - (365 * yoe + yoe / 4 - yoe / 100) = doy at *
  refine ⟨(5 * doy + 2) / 153, doy - (153 * ((5 * doy + 2) / 153) + 2) / 5 + 1, years, ?_, ?_, ?_, ?_⟩
  · omega
  · omega
  · omega
  · generalize months : (5 * doy + 2) / 153 = mp
    by_cases spring : mp < 10
    · simp only [if_pos spring]
      rw [if_neg (by omega)]
    · simp only [if_neg spring]
      rw [if_pos (by omega)]

theorem civil_month (days : Int) : 1 ≤ (civil days).2.1 ∧ (civil days).2.1 ≤ 12 := by
  obtain ⟨era, year, month, day, _, months, _, _, date⟩ := civil_parts days
  rw [date]
  dsimp only
  split <;> omega

theorem civil_day (days : Int) : 1 ≤ (civil days).2.2 ∧ (civil days).2.2 ≤ 31 := by
  obtain ⟨era, year, month, day, _, _, bounds, _, date⟩ := civil_parts days
  rw [date]
  exact bounds

/-- The year of a day from 1970 on: no year is shorter than 365 days. -/
theorem civil_year {days : Int} (first : 0 ≤ days) :
    1 ≤ (civil days).1 ∧ (civil days).1 ≤ days / 365 + 2000 := by
  obtain ⟨era, year, month, day, years, months, _, number, date⟩ := civil_parts days
  rw [date]
  unfold dayOfEra at number
  dsimp only
  split <;> omega

/-- **The date of a number of days has that number.** -/
theorem dayNumber_civil (days : Int) :
    dayNumber (civil days).1 (civil days).2.1 (civil days).2.2 = days := by
  obtain ⟨first, last⟩ := civil_month days
  rw [march_year _ first last]
  obtain ⟨era, year, month, day, years, months, _, number, date⟩ := civil_parts days
  have march : (year + era * 400) / 400 = era := by omega
  rw [date]
  dsimp only
  by_cases spring : month < 10
  · rw [if_pos spring, if_pos spring, if_neg (show ¬ month + 3 ≤ 2 by omega),
      if_neg (show ¬ month + 3 ≤ 2 by omega), march, Int.add_sub_cancel, Int.add_sub_cancel]
    exact number.symm
  · rw [if_neg spring, if_neg spring, if_pos (show month - 9 ≤ 2 by omega),
      if_pos (show month - 9 ≤ 2 by omega), Int.add_sub_cancel, march, Int.add_sub_cancel,
      Int.sub_add_cancel]
    exact number.symm

end NovaRuntime.Library.Gregorian

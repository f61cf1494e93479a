import Statechart.Timestamp
/-!
The calendar. An era of 400 years is a whole number of days, so a day is found by its era and its
place there. Dividing the place by 365 would give too late a year, by the leap days before it; what
is taken off first is a leap day every four years, given back every hundred. Numbering the days and
dating them undo each other, and the days between the first and the last that are kept have dates in
the years between.
-/

namespace Statechart.Date

/-- Days of an era before a year of it. -/
def yearStart (year : Int) : Int := 365 * year + year / 4 - year / 100

/-- The year of an era that a day falls in, as `ofDays` finds it. -/
def yearOfEra (day : Int) : Int := (day - day / 1460 + day / 36524 - day / 146096) / 365

/-- The century of a day of an era, and its cycle of four years. With the days that centuries lack
put back every cycle has 1461 days; on its last days it is counted one day early. -/
structure Cycle (day century cycle early : Int) : Prop where
  centuries : 0 ≤ century ∧ century ≤ 3
  cycles : 25 * century ≤ cycle ∧ cycle ≤ 25 * century + 24
  within : 1461 * cycle ≤ day + century ∧ day + century < 1461 * cycle + 1461
  counted : early = 0 ∧ day < 1460 * cycle + 1460 ∨ early = 1 ∧ 1460 * cycle + 1460 ≤ day
  year : yearOfEra day = (day + century - cycle - early) / 365

theorem cycle_of_day {day : Int} (least : 0 ≤ day) (most : day < 146097) :
    ∃ century cycle early, Cycle day century cycle early := by
  obtain ⟨century, given⟩ : ∃ century, day / 36524 - day / 146096 = century := ⟨_, rfl⟩
  have bounds : 0 ≤ century ∧ century ≤ 3 ∧
      36524 * century ≤ day ∧ day ≤ 36524 * century + 36524 := by omega
  obtain ⟨cycle, cycleIs⟩ : ∃ cycle, (day + century) / 1461 = cycle := ⟨_, rfl⟩
  obtain ⟨early, earlyIs⟩ : ∃ early, day / 1460 - cycle = early := ⟨_, rfl⟩
  have year : yearOfEra day = (day + century - cycle - early) / 365 := by
    rw [yearOfEra, ← earlyIs, ← given]
    congr 1
    omega
  clear given
  have within : 1461 * cycle ≤ day + century ∧ day + century < 1461 * cycle + 1461 := by omega
  clear cycleIs
  refine ⟨century, cycle, early, ⟨bounds.1, bounds.2.1⟩, by omega, within, by omega, year⟩

theorem year_of_era_spec {day : Int} (least : 0 ≤ day) (most : day < eraDays) :
    (0 ≤ yearOfEra day ∧ yearOfEra day ≤ 399) ∧
      yearStart (yearOfEra day) ≤ day ∧ day ≤ yearStart (yearOfEra day) + 365 := by
  obtain ⟨century, cycle, early, found⟩ := cycle_of_day least most
  obtain ⟨centuries, cycles, within, earlyIs, yearIs⟩ := found
  generalize yearOfEra day = year at yearIs ⊢
  have quarters : 4 * cycle ≤ year ∧ year ≤ 4 * cycle + 3 := by omega
  have fourth : year / 4 = cycle := by omega
  have hundredth : year / 100 = century := by omega
  rw [yearStart, fourth, hundredth]
  omega

/-- A day as it is found: by its era, its year there, its place in the year and its month, where
years begin in March. -/
structure Found (n era year day month : Int) : Prop where
  whole : n + epochOffset = era * eraDays + (yearStart year + day)
  years : 0 ≤ year ∧ year ≤ 399
  days : 0 ≤ day ∧ day ≤ 365
  months : month = (5 * day + 2) / 153
  date : ofDays n =
    if month < 10 then
      ⟨era * 400 + year, (month + 3).toNat, (day - (153 * month + 2) / 5 + 1).toNat⟩
    else ⟨era * 400 + year + 1, (month - 9).toNat, (day - (153 * month + 2) / 5 + 1).toNat⟩

theorem found (n : Int) : ∃ era year day month, Found n era year day month := by
  have parts := Int.mul_ediv_add_emod (n + epochOffset) eraDays
  have least := Int.emod_nonneg (n + epochOffset) (b := eraDays) (by decide)
  have most := Int.emod_lt_of_pos (n + epochOffset) (b := eraDays) (by decide)
  obtain ⟨years, lower, upper⟩ := year_of_era_spec least most
  exact ⟨(n + epochOffset) / eraDays, yearOfEra ((n + epochOffset) % eraDays), _, _, {
    whole := by
      rw [Int.mul_comm] at parts
      omega
    years
    days := ⟨Int.sub_nonneg.mpr lower, by omega⟩
    months := rfl
    date := rfl }⟩

namespace Found
variable {n era year day month : Int} (found : Found n era year day month)
include found

theorem month_within : 0 ≤ month ∧ month ≤ 11 := by
  have days := found.days
  have months := found.months
  omega

theorem day_within :
    1 ≤ day - (153 * month + 2) / 5 + 1 ∧ day - (153 * month + 2) / 5 + 1 ≤ 31 := by
  have days := found.days
  have months := found.months
  omega

theorem to_days : toDays (ofDays n) = n := by
  have whole := found.whole
  have years := found.years
  have months := found.month_within
  have days := found.day_within
  have eraBack : (era * 400 + year) / 400 = era := by omega
  have yearBack : (era * 400 + year) % 400 = year := by omega
  rw [found.date]
  split
  · have later : ¬ (month + 3).toNat ≤ 2 := by omega
    simp only [toDays, later, if_false, eraBack, yearBack]
    rw [yearStart] at whole
    omega
  · have early : (month - 9).toNat ≤ 2 := by omega
    have back : era * 400 + year + 1 - 1 = era * 400 + year := by omega
    simp only [toDays, early, if_true, back, eraBack, yearBack]
    rw [yearStart] at whole
    omega

end Found

/-- Dating a day and numbering the date gives the day again. -/
theorem to_days_of_days (n : Int) : toDays (ofDays n) = n := by
  obtain ⟨_, _, _, _, found⟩ := found n
  exact found.to_days

theorem month_of_days (n : Int) : 1 ≤ (ofDays n).month ∧ (ofDays n).month ≤ 12 := by
  obtain ⟨_, _, _, _, found⟩ := found n
  have months := found.month_within
  rw [found.date]
  split <;> simp only <;> omega

theorem day_of_days (n : Int) : 1 ≤ (ofDays n).day ∧ (ofDays n).day ≤ 31 := by
  obtain ⟨_, _, _, _, found⟩ := found n
  have days := found.day_within
  rw [found.date]
  split <;> simp only <;> omega

/-- From the first to the last day that is kept, the years are those that are kept. -/
theorem year_of_days {n : Int} (least : toDays ⟨firstYear, 1, 1⟩ ≤ n)
    (most : n ≤ toDays ⟨lastYear, 12, 31⟩) :
    firstYear ≤ (ofDays n).year ∧ (ofDays n).year ≤ lastYear := by
  obtain ⟨era, year, day, month, found⟩ := found n
  have whole := found.whole
  have years := found.years
  have days := found.days
  have months := found.months
  have first : toDays ⟨firstYear, 1, 1⟩ = -96465292 := by decide +kernel
  have last : toDays ⟨lastYear, 12, 31⟩ = 95026236 := by decide +kernel
  rw [first] at least
  rw [last] at most
  rw [yearStart, eraDays, epochOffset] at whole
  rw [found.date]
  have eras : -656 ≤ era ∧ era ≤ 655 := by omega
  have early : era = -656 → 256 ≤ year ∧ (year = 256 → 306 ≤ day) := by omega
  have late : era = 655 → year ≤ 142 ∧ (year = 142 → day ≤ 305) := by omega
  clear whole least most
  split <;> simp only [firstYear, lastYear] <;> omega

/-- The date of a day between the first and the last that are kept is a date of the calendar. -/
theorem is_real_of_days {n : Int} (least : toDays ⟨firstYear, 1, 1⟩ ≤ n)
    (most : n ≤ toDays ⟨lastYear, 12, 31⟩) : (ofDays n).isReal = true := by
  obtain ⟨first, last⟩ := year_of_days least most
  simp [isReal, first, last, to_days_of_days]

end Statechart.Date

import Mathlib.Tactic

/-!
# The Gregorian calendar

Days are counted from 1 January 1970. `dayNumber` counts years from March, so that the leap day is
the last one of a year and the months before it follow one pattern; its arguments may lie outside of
their ranges. `dateOf` takes a number of days apart, by cycles of 400, 100, 4 and 1 years, and is its
inverse (`dayNumber_dateOf`). A `Date` is a day that exists.
-/

namespace Unalix.Calendar

/-- A year with a 29 February. -/
def IsLeap (year : ℤ) : Prop := year % 4 = 0 ∧ (year % 100 ≠ 0 ∨ year % 400 = 0)

instance (year : ℤ) : Decidable (IsLeap year) := by
  unfold IsLeap
  infer_instance

def daysInMonth (year month : ℤ) : ℤ :=
  if month = 2 then if IsLeap year then 29 else 28
  else if month = 4 ∨ month = 6 ∨ month = 9 ∨ month = 11 then 30 else 31

/-- A day of the calendar. -/
structure Date where
  year : ℤ
  month : ℤ
  day : ℤ
  month_pos : 1 ≤ month
  month_le : month ≤ 12
  day_pos : 1 ≤ day
  day_le : day ≤ daysInMonth year month

/-- The days from 1 January 1970 to a day. -/
def dayNumber (year month day : ℤ) : ℤ :=
  let y := if month ≤ 2 then year - 1 else year
  let m := if month ≤ 2 then month + 9 else month - 3
  365 * y + y / 4 - y / 100 + y / 400 + (153 * m + 2) / 5 + day - 1 - 719468

example : dayNumber 1970 1 1 = 0 ∧ dayNumber 2000 2 29 + 1 = dayNumber 2000 3 1 ∧
    dayNumber 1900 2 28 + 1 = dayNumber 1900 3 1 ∧ dayNumber 1994 11 6 = 9075 := by decide

/-! ## Taking a number of days apart -/

/-- A number of days in cycles of 400, 100, 4 and 1 years that begin in March. The leap day ends the
last year of four, unless it is the last one of a hundred but not of four hundred. -/
structure Cycles (z : ℤ) where
  c400 : ℤ
  c100 : ℤ
  c4 : ℤ
  c1 : ℤ
  day : ℤ
  eq : z = 146097 * c400 + 36524 * c100 + 1461 * c4 + 365 * c1 + day
  c100_mem : 0 ≤ c100 ∧ c100 ≤ 3
  c4_mem : 0 ≤ c4 ∧ c4 ≤ 24
  c1_mem : 0 ≤ c1 ∧ c1 ≤ 3
  day_nonneg : 0 ≤ day
  day_le : day ≤ if c1 = 3 ∧ (c4 < 24 ∨ c100 = 3) then 365 else 364

/-- The last cycle of 100 years and the last year of four may have one day more than the others, so
their numbers are cut off. -/
def cycles (z : ℤ) : Cycles z :=
  let c100 := min (z % 146097 / 36524) 3
  let rest := z % 146097 - 36524 * c100
  let c1 := min (rest % 1461 / 365) 3
  { c400 := z / 146097
    c100 := c100
    c4 := rest / 1461
    c1 := c1
    day := rest % 1461 - 365 * c1
    eq := by omega
    c100_mem := by omega
    c4_mem := by omega
    c1_mem := by omega
    day_nonneg := by omega
    day_le := by split_ifs <;> omega }

namespace Cycles

variable {z : ℤ} (c : Cycles z)

/-- The year in whose March the cycles end. -/
def year : ℤ := 400 * c.c400 + 100 * c.c100 + 4 * c.c4 + c.c1

theorem year_div : c.year / 4 = 100 * c.c400 + 25 * c.c100 + c.c4 ∧
    c.year / 100 = 4 * c.c400 + c.c100 ∧ c.year / 400 = c.c400 := by
  have h₁ := c.c1_mem
  have h₄ := c.c4_mem
  have h₁₀₀ := c.c100_mem
  rw [year]
  refine ⟨?_, ?_, ?_⟩ <;> omega

/-- The leap day is the one of the year after it. -/
theorem day_le_of_isLeap : c.day ≤ if IsLeap (c.year + 1) then 365 else 364 := by
  have h₁ := c.c1_mem
  have h₄ := c.c4_mem
  have h₁₀₀ := c.c100_mem
  have hday := c.day_le
  by_cases hlast : c.c1 = 3 ∧ (c.c4 < 24 ∨ c.c100 = 3)
  · have hleap : IsLeap (c.year + 1) := by
      rw [IsLeap, year]
      omega
    rw [if_pos hlast] at hday
    rwa [if_pos hleap]
  · rw [if_neg hlast] at hday
    split_ifs <;> omega

theorem eq_year : z = 365 * c.year + c.year / 4 - c.year / 100 + c.year / 400 + c.day := by
  obtain ⟨h4, h100, h400⟩ := c.year_div
  have heq := c.eq
  rw [h4, h100, h400, year]
  omega

end Cycles

/-- The months since March of a day of such a year. -/
def monthOfDay (day : ℤ) : ℤ := (5 * day + 2) / 153

/-- The days of a month that begins where the one before ends: 31 or 30, but for the last one. -/
theorem day_of_monthOfDay {day last : ℤ} (hday : 0 ≤ day) (hle : day ≤ last) (hlast : last ≤ 365) :
    0 ≤ monthOfDay day ∧ monthOfDay day ≤ 11 ∧ 1 ≤ day - (153 * monthOfDay day + 2) / 5 + 1 ∧
      day - (153 * monthOfDay day + 2) / 5 + 1 ≤
        if monthOfDay day = 11 then last - 336
        else if monthOfDay day = 1 ∨ monthOfDay day = 3 ∨ monthOfDay day = 6 ∨ monthOfDay day = 8
          then 30 else 31 := by
  have hpos : 0 ≤ monthOfDay day := by
    unfold monthOfDay
    omega
  have hmax : monthOfDay day ≤ 11 := by
    unfold monthOfDay
    omega
  have hdiv : 153 * monthOfDay day ≤ 5 * day + 2 ∧ 5 * day + 2 < 153 * monthOfDay day + 153 := by
    unfold monthOfDay
    omega
  generalize monthOfDay day = m at hpos hmax hdiv ⊢
  refine ⟨hpos, hmax, by omega, ?_⟩
  interval_cases m <;> norm_num <;> omega

/-- The days of a month, by the months since March. -/
theorem daysInMonth_eq (year : ℤ) {m : ℤ} (hpos : 0 ≤ m) (hle : m ≤ 11) :
    daysInMonth (if m < 10 then year else year + 1) (if m < 10 then m + 3 else m - 9) =
      if m = 11 then (if IsLeap (year + 1) then 365 else 364) - 336
      else if m = 1 ∨ m = 3 ∨ m = 6 ∨ m = 8 then 30 else 31 := by
  interval_cases m <;> norm_num [daysInMonth]
  split_ifs <;> rfl

theorem day_of_cycles {z : ℤ} (c : Cycles z) :
    0 ≤ monthOfDay c.day ∧ monthOfDay c.day ≤ 11 ∧
      1 ≤ c.day - (153 * monthOfDay c.day + 2) / 5 + 1 ∧
      c.day - (153 * monthOfDay c.day + 2) / 5 + 1 ≤
        daysInMonth (if monthOfDay c.day < 10 then c.year else c.year + 1)
          (if monthOfDay c.day < 10 then monthOfDay c.day + 3 else monthOfDay c.day - 9) := by
  have hlast : (if IsLeap (c.year + 1) then 365 else 364 : ℤ) ≤ 365 := by split_ifs <;> omega
  obtain ⟨hpos, hle, hday, hdays⟩ := day_of_monthOfDay c.day_nonneg c.day_le_of_isLeap hlast
  rw [daysInMonth_eq c.year hpos hle]
  exact ⟨hpos, hle, hday, hdays⟩

theorem dayNumber_of_cycles {z : ℤ} (c : Cycles z) :
    dayNumber (if monthOfDay c.day < 10 then c.year else c.year + 1)
        (if monthOfDay c.day < 10 then monthOfDay c.day + 3 else monthOfDay c.day - 9)
        (c.day - (153 * monthOfDay c.day + 2) / 5 + 1) = z - 719468 := by
  obtain ⟨hpos, hle, -⟩ := day_of_cycles c
  have heq := c.eq_year
  rw [dayNumber]
  by_cases hm : monthOfDay c.day < 10
  · have hmonth : ¬ monthOfDay c.day + 3 ≤ 2 := by omega
    simp only [if_pos hm, if_neg hmonth, add_sub_cancel_right]
    omega
  · have hmonth : monthOfDay c.day - 9 ≤ 2 := by omega
    simp only [if_neg hm, if_pos hmonth, add_sub_cancel_right, sub_add_cancel]
    omega

/-- The date of a number of days. -/
def dateOf (z : ℤ) : Date :=
  let c := cycles (z + 719468)
  let m := monthOfDay c.day
  { year := if m < 10 then c.year else c.year + 1
    month := if m < 10 then m + 3 else m - 9
    day := c.day - (153 * m + 2) / 5 + 1
    month_pos := by
      obtain ⟨hpos, hle, -⟩ := day_of_cycles c
      split_ifs <;> omega
    month_le := by
      obtain ⟨hpos, hle, -⟩ := day_of_cycles c
      split_ifs <;> omega
    day_pos := (day_of_cycles c).2.2.1
    day_le := (day_of_cycles c).2.2.2 }

/-- **The date of a number of days** is the date of that number. -/
theorem dayNumber_dateOf (z : ℤ) :
    dayNumber (dateOf z).year (dateOf z).month (dateOf z).day = z := by
  have hnumber := dayNumber_of_cycles (cycles (z + 719468))
  rw [add_sub_cancel_right] at hnumber
  exact hnumber

theorem Date.day_le_31 (date : Date) : date.day ≤ 31 := by
  have hle := date.day_le
  rw [daysInMonth] at hle
  split_ifs at hle <;> omega

end Unalix.Calendar

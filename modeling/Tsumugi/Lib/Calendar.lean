import Mathlib.Algebra.Order.BigOperators.Group.Finset
import Mathlib.Data.Int.ConditionallyCompleteOrder
import Mathlib.Data.Int.SuccPred
import Mathlib.Order.SuccPred.LinearLocallyFinite
import Mathlib.Tactic.Linarith
import Mathlib.Tactic.Ring

/-!
# The proleptic Gregorian calendar

Dates and times of day, numbered by the days and seconds from 1970-01-01. The calendar is
carried on before its introduction, to the year 0 and below. What lies before a year or a month
is the total of the lengths in between.

Results:
1. `total_unique`: a number lies within one of a row of lengths.
2. `daysBeforeYear_closed`, `daysBeforeYear_cycle`: the days before a year in closed form.
3. `DateTime.unixSeconds_injective`: a date and a time of day are determined by their number.
-/

namespace Calendar

/-! ## Totals of a row of lengths -/

section Totals

variable (length : Int → Int) (origin : Int)

/-- The lengths from the origin up to a place, negative before the origin. -/
def total (place : Int) : Int :=
  ∑ i ∈ Finset.range (place - origin).toNat, length (origin + i) -
    ∑ i ∈ Finset.range (origin - place).toNat, length (place + i)

theorem total_origin : total length origin origin = 0 := by simp [total]

theorem total_succ (place : Int) :
    total length origin (place + 1) = total length origin place + length place := by
  unfold total
  rcases le_or_gt origin place with h | h
  · obtain ⟨n, rfl⟩ := Int.le.dest h
    have hstep : (origin + n + 1 - origin).toNat = n + 1 := by omega
    have hup : (origin + n - origin).toNat = n := by omega
    have hdown : (origin - (origin + n + 1)).toNat = 0 := by omega
    have hdown' : (origin - (origin + n)).toNat = 0 := by omega
    rw [hstep, hup, hdown, hdown', Finset.sum_range_succ]
    simp only [Finset.range_zero, Finset.sum_empty, sub_zero]
  · obtain ⟨n, rfl⟩ := Int.le.dest h
    have hstep : (place + 1 + n - place).toNat = n + 1 := by omega
    have hdown : (place + 1 + n - (place + 1)).toNat = n := by omega
    have hup : (place - (place + 1 + n)).toNat = 0 := by omega
    have hup' : (place + 1 - (place + 1 + n)).toNat = 0 := by omega
    rw [hstep, hup, hdown, hup', Finset.sum_range_succ']
    simp only [Finset.range_zero, Finset.sum_empty, zero_sub, Nat.cast_add, Nat.cast_one,
      Nat.cast_zero, add_zero, add_comm, add_left_comm]
    ring

variable {length}

theorem total_mono (hpos : ∀ place, 0 ≤ length place) : Monotone (total length origin) :=
  monotone_int_of_le_succ fun place ↦ by
    rw [total_succ]
    have := hpos place
    omega

/-- A number lies within at most one of the lengths. -/
theorem total_unique (hpos : ∀ place, 0 ≤ length place) {number a b : Int}
    (ha : total length origin a ≤ number) (ha' : number < total length origin a + length a)
    (hb : total length origin b ≤ number) (hb' : number < total length origin b + length b) :
    a = b := by
  rw [← total_succ] at ha' hb'
  have hab : a < b + 1 := (total_mono origin hpos).reflect_lt (ha.trans_lt hb')
  have hba : b < a + 1 := (total_mono origin hpos).reflect_lt (hb.trans_lt ha')
  omega

end Totals

/-! ## Years -/

/-- A year with a day more. -/
def IsLeap (year : Int) : Prop := (4 ∣ year ∧ ¬ 100 ∣ year) ∨ 400 ∣ year

instance (year : Int) : Decidable (IsLeap year) :=
  inferInstanceAs (Decidable ((4 ∣ year ∧ ¬ 100 ∣ year) ∨ 400 ∣ year))

def yearLength (year : Int) : Int := if IsLeap year then 366 else 365

theorem yearLength_pos (year : Int) : 0 < yearLength year := by
  unfold yearLength
  split <;> decide

theorem yearLength_le (year : Int) : yearLength year ≤ 366 := by
  unfold yearLength
  split <;> decide

/-- The days from 1970-01-01 to the beginning of a year. -/
def daysBeforeYear (year : Int) : Int := total yearLength 1970 year

theorem daysBeforeYear_succ (year : Int) :
    daysBeforeYear (year + 1) = daysBeforeYear year + yearLength year :=
  total_succ yearLength 1970 year

theorem daysBeforeYear_mono : Monotone daysBeforeYear :=
  total_mono 1970 fun year ↦ (yearLength_pos year).le

/-- The leap years before a year, counted from the year 1. -/
def leapsBefore (year : Int) : Int := (year - 1) / 4 - (year - 1) / 100 + (year - 1) / 400

theorem leapsBefore_succ (year : Int) :
    leapsBefore (year + 1) = leapsBefore year + (yearLength year - 365) := by
  unfold leapsBefore yearLength
  by_cases h : IsLeap year
  · rw [if_pos h]
    unfold IsLeap at h
    omega
  · rw [if_neg h]
    unfold IsLeap at h
    omega

theorem daysBeforeYear_closed (year : Int) :
    daysBeforeYear year = 365 * (year - 1970) + (leapsBefore year - leapsBefore 1970) := by
  induction year using Int.inductionOn' (b := 1970) with
  | zero => simp [daysBeforeYear, total_origin]
  | succ year _ ih =>
    rw [daysBeforeYear_succ, ih, leapsBefore_succ]
    ring
  | pred year _ ih =>
    have hdays := daysBeforeYear_succ (year - 1)
    have hleaps := leapsBefore_succ (year - 1)
    rw [sub_add_cancel] at hdays hleaps
    rw [hdays, hleaps] at ih
    linarith

/-- The calendar repeats itself after 400 years, which have 146097 days. -/
theorem daysBeforeYear_cycle (cycles : Int) :
    daysBeforeYear (1970 + cycles * 400) = cycles * 146097 := by
  rw [daysBeforeYear_closed]
  unfold leapsBefore
  omega

/-! ## Months and days -/

/-- The length of a month, counted from 1. -/
def monthLength (year month : Int) : Int :=
  if month = 2 then (if IsLeap year then 29 else 28)
  else if month = 4 ∨ month = 6 ∨ month = 9 ∨ month = 11 then 30
  else 31

theorem monthLength_pos (year month : Int) : 0 < monthLength year month := by
  unfold monthLength
  split_ifs <;> decide

/-- The days of a year before a month. -/
def daysBeforeMonth (year month : Int) : Int := total (monthLength year) 1 month

theorem daysBeforeMonth_first (year : Int) : daysBeforeMonth year 1 = 0 :=
  total_origin (monthLength year) 1

theorem daysBeforeMonth_succ (year month : Int) :
    daysBeforeMonth year (month + 1) = daysBeforeMonth year month + monthLength year month :=
  total_succ (monthLength year) 1 month

/-- The twelve months make up the year. -/
theorem daysBeforeMonth_end (year : Int) : daysBeforeMonth year 13 = yearLength year := by
  have hmonths : ((13 : Int) - 1).toNat = 12 := by decide
  have hnone : ((1 : Int) - 13).toNat = 0 := by decide
  rw [daysBeforeMonth, total, hmonths, hnone]
  unfold yearLength
  by_cases h : IsLeap year <;> simp [monthLength, h, Finset.sum_range_succ]

theorem daysBeforeMonth_mono (year : Int) : Monotone (daysBeforeMonth year) :=
  total_mono 1 fun month ↦ (monthLength_pos year month).le

/-- A date of the calendar. -/
@[ext] structure Date where
  year : Int
  month : Int
  day : Int
  month_first : 1 ≤ month
  month_last : month ≤ 12
  day_first : 1 ≤ day
  day_last : day ≤ monthLength year month

namespace Date

/-- The day of the year, from 0. -/
def dayOfYear (date : Date) : Int := daysBeforeMonth date.year date.month + (date.day - 1)

theorem dayOfYear_ge (date : Date) : daysBeforeMonth date.year date.month ≤ date.dayOfYear := by
  have := date.day_first
  unfold dayOfYear
  omega

theorem dayOfYear_lt_month (date : Date) :
    date.dayOfYear < daysBeforeMonth date.year date.month + monthLength date.year date.month := by
  have := date.day_last
  unfold dayOfYear
  omega

theorem dayOfYear_nonneg (date : Date) : 0 ≤ date.dayOfYear := by
  have hmonths := daysBeforeMonth_mono date.year date.month_first
  rw [daysBeforeMonth_first] at hmonths
  exact hmonths.trans date.dayOfYear_ge

theorem dayOfYear_lt (date : Date) : date.dayOfYear < yearLength date.year := by
  have hlast : date.month + 1 ≤ 13 := by
    have := date.month_last
    omega
  have hmonths := daysBeforeMonth_mono date.year hlast
  rw [daysBeforeMonth_succ, daysBeforeMonth_end] at hmonths
  exact date.dayOfYear_lt_month.trans_le hmonths

/-- The days from 1970-01-01. -/
def dayNumber (date : Date) : Int := daysBeforeYear date.year + date.dayOfYear

theorem dayNumber_injective : Function.Injective dayNumber := by
  intro a b h
  have hyear : a.year = b.year := by
    apply total_unique 1970 (fun year ↦ (yearLength_pos year).le)
    · exact le_add_of_nonneg_right a.dayOfYear_nonneg
    · exact add_lt_add_right a.dayOfYear_lt _
    · exact (le_add_of_nonneg_right b.dayOfYear_nonneg).trans_eq h.symm
    · exact h.trans_lt (add_lt_add_right b.dayOfYear_lt _)
  have hofYear : a.dayOfYear = b.dayOfYear := by
    unfold dayNumber at h
    rw [hyear] at h
    exact add_left_cancel h
  have hmonth : a.month = b.month := by
    apply total_unique 1 (fun month ↦ (monthLength_pos a.year month).le)
    · exact a.dayOfYear_ge
    · exact a.dayOfYear_lt_month
    · rw [hofYear, hyear]
      exact b.dayOfYear_ge
    · rw [hofYear, hyear]
      exact b.dayOfYear_lt_month
  unfold dayOfYear at hofYear
  rw [hyear, hmonth] at hofYear
  exact Date.ext hyear hmonth (by omega)

end Date

/-! ## Times of day -/

/-- A date and a time of day, of a clock without leap seconds. -/
@[ext] structure DateTime extends Date where
  hour : Int
  minute : Int
  second : Int
  hour_nonneg : 0 ≤ hour
  hour_lt : hour < 24
  minute_nonneg : 0 ≤ minute
  minute_lt : minute < 60
  second_nonneg : 0 ≤ second
  second_lt : second < 60

namespace DateTime

/-- The second of the day, from 0. -/
def secondOfDay (time : DateTime) : Int := time.hour * 3600 + time.minute * 60 + time.second

/-- The seconds from the beginning of 1970-01-01. -/
def unixSeconds (time : DateTime) : Int := time.dayNumber * 86400 + time.secondOfDay

theorem unixSeconds_injective : Function.Injective unixSeconds := by
  intro a b h
  unfold unixSeconds secondOfDay at h
  have ha := a.hour_nonneg
  have ha1 := a.hour_lt
  have ha2 := a.minute_nonneg
  have ha3 := a.minute_lt
  have ha4 := a.second_nonneg
  have ha5 := a.second_lt
  have hb := b.hour_nonneg
  have hb1 := b.hour_lt
  have hb2 := b.minute_nonneg
  have hb3 := b.minute_lt
  have hb4 := b.second_nonneg
  have hb5 := b.second_lt
  have hdate : a.toDate = b.toDate := Date.dayNumber_injective (by omega)
  rw [hdate] at h
  apply DateTime.ext
  · rw [hdate]
  · rw [hdate]
  · rw [hdate]
  · omega
  · omega
  · omega

end DateTime

end Calendar

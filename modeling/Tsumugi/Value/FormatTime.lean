import Tsumugi.Capability.Dispatch
import Tsumugi.Lib.Calendar
import Tsumugi.Lib.Substitution

/-!
# Formatted times (`builtin_core.rs`)

`format_time` breaks a Unix time down to a date and a time of day and puts them into a format.
An `i64` is an integer; an operation that leaves the range of its type has no result, and
neither has a loop whose passes do not suffice.

Results:
1. `yearLoop_spec`, `monthLoop_spec`: the loops find the year and the month.
2. `timeFields_spec`: the fields are those of the date and time of the calendar.
3. `format_time_calendar`: the result is the format with the percent codes substituted.
-/

namespace Tsumugi.FormatTime

open Calendar (DateTime daysBeforeYear daysBeforeMonth yearLength monthLength)
open Substitution (replace replaceAll substitute lookup)

/-! ## The function -/

/-- An `i64` result, unless it overflows. -/
def checkedI64 (n : Int) : Option Int := if -2 ^ 63 ≤ n ∧ n < 2 ^ 63 then some n else none

/-- A `u32` result, unless it overflows. -/
def checkedU32 (n : Int) : Option Int := if 0 ≤ n ∧ n < 2 ^ 32 then some n else none

/-- `is_leap_year`. -/
def isLeapYear (year : Int) : Bool :=
  (year.tmod 4 == 0 && year.tmod 100 != 0) || year.tmod 400 == 0

/-- The loop over the years, with at most `fuel` passes. -/
def yearLoop : (fuel : Nat) → (days year : Int) → Option (Int × Int)
  | 0, _, _ => none
  | fuel + 1, days, year =>
    let daysInYear := if isLeapYear year then 366 else 365
    if days < daysInYear then some (days, year)
    else do
      let days ← checkedI64 (days - daysInYear)
      let year ← checkedI64 (year + 1)
      yearLoop fuel days year

/-- `month_days`. -/
def monthDays (year : Int) : List Int :=
  if isLeapYear year then [31, 29, 31, 30, 31, 30, 31, 31, 30, 31, 30, 31]
  else [31, 28, 31, 30, 31, 30, 31, 31, 30, 31, 30, 31]

/-- The loop over `month_days`. -/
def monthLoop : List Int → (days month : Int) → Option (Int × Int)
  | [], days, month => some (days, month)
  | md :: rest, days, month =>
    if days < md then some (days, month)
    else do
      let days ← checkedI64 (days - md)
      let month ← checkedU32 (month + 1)
      monthLoop rest days month

/-- What a format can show. -/
structure TimeFields where
  year : Int
  month : Int
  day : Int
  hours : Int
  minutes : Int
  seconds : Int

/-- The fields that `format_unix_timestamp` computes. -/
def timeFields (fuel : Nat) (timestamp : Int) : Option TimeFields := do
  let days := timestamp / 86400
  let daySecs := (timestamp % 86400) % 2 ^ 32
  let hours := daySecs / 3600
  let minutes := (daySecs % 3600) / 60
  let seconds := daySecs % 60
  -- whole cycles of 400 years are taken away before the search
  let cycles := days / 146097
  let days := days % 146097
  let shift ← checkedI64 (cycles * 400)
  let year ← checkedI64 (1970 + shift)
  let (days, year) ← yearLoop fuel days year
  let (days, month) ← monthLoop (monthDays year) days 1
  let day ← checkedI64 (days + 1)
  some { year, month, day, hours, minutes, seconds }

/-- The format `{:0width}`; the sign counts for the width. -/
def zeroPadded (width : Nat) (n : Int) : List Char :=
  let digits := Nat.toDigits 10 n.natAbs
  if n < 0 then '-' :: (List.replicate (width - 1 - digits.length) '0' ++ digits)
  else List.replicate (width - digits.length) '0' ++ digits

/-- `str::replace`. -/
def strReplace (s pattern text : String) : String :=
  String.ofList (replace pattern.toList text.toList s.toList)

/-- `format_unix_timestamp`. -/
def formatUnixTimestamp (fuel : Nat) (timestamp : Int) (format : String) : Option String := do
  let fields ← timeFields fuel timestamp
  let format := strReplace format "%Y" (String.ofList (zeroPadded 4 fields.year))
  let format := strReplace format "%m" (String.ofList (zeroPadded 2 fields.month))
  let format := strReplace format "%d" (String.ofList (zeroPadded 2 fields.day))
  let format := strReplace format "%H" (String.ofList (zeroPadded 2 fields.hours))
  let format := strReplace format "%M" (String.ofList (zeroPadded 2 fields.minutes))
  let format := strReplace format "%S" (String.ofList (zeroPadded 2 fields.seconds))
  let format := strReplace format "%z" "+0000"
  some (strReplace format "%Z" "UTC")

/-- `builtin_format_time`. -/
def builtinFormatTime (fuel : Nat) (args : List Value) (line : Nat) :
    Option (Except TsumugiError Value) :=
  match Capability.checkArity "format_time" args 2 line with
  | .error e => some (.error e)
  | .ok () =>
    match args.getD 0 .null with
    | .int ts =>
      match Capability.requireStr args 1 "format_time" line with
      | .error e => some (.error e)
      | .ok fmt => (formatUnixTimestamp fuel ts fmt).map fun s ↦ .ok (.strConstant s)
    | other => some (.error (.builtinArgType line "format_time" 1 "Int" other))

/-! ## The loops -/

theorem isLeapYear_iff (year : Int) : isLeapYear year = true ↔ Calendar.IsLeap year := by
  simp only [isLeapYear, Calendar.IsLeap, Int.dvd_iff_tmod_eq_zero, Bool.or_eq_true,
    Bool.and_eq_true, beq_iff_eq, bne_iff_ne]

theorem daysInYear_eq (year : Int) :
    (if isLeapYear year then 366 else 365) = yearLength year := by
  unfold yearLength
  simp only [isLeapYear_iff]

theorem checkedI64_of {n : Int} (hmin : -2 ^ 63 ≤ n) (hmax : n < 2 ^ 63) :
    checkedI64 n = some n := if_pos ⟨hmin, hmax⟩

theorem checkedU32_of {n : Int} (hmin : 0 ≤ n) (hmax : n < 2 ^ 32) :
    checkedU32 n = some n := if_pos ⟨hmin, hmax⟩

/-- The loop finds the year of a day that lies before a last year, if it can get there. -/
theorem yearLoop_spec (last : Int) (hlast : last ≤ 2 ^ 62) (fuel : Nat) (days year : Int)
    (hdays : 0 ≤ days) (hsmall : days < 2 ^ 62) (hyear : -2 ^ 62 ≤ year)
    (hbefore : daysBeforeYear year + days < daysBeforeYear last) (hfuel : last ≤ year + fuel) :
    ∃ days' year', yearLoop fuel days year = some (days', year') ∧ 0 ≤ days' ∧
      days' < yearLength year' ∧
      daysBeforeYear year' + days' = daysBeforeYear year + days := by
  have hlt : year < last := by
    by_contra hle
    have := Calendar.daysBeforeYear_mono (not_lt.mp hle)
    omega
  induction fuel generalizing days year with
  | zero => omega
  | succ fuel ih =>
    have hpos := Calendar.yearLength_pos year
    have hnext := Calendar.daysBeforeYear_succ year
    unfold yearLoop
    rw [daysInYear_eq]
    by_cases hin : days < yearLength year
    · rw [if_pos hin]
      exact ⟨days, year, rfl, hdays, hin, rfl⟩
    · have hlt' : year + 1 < last := by
        by_contra hle
        have := Calendar.daysBeforeYear_mono (not_lt.mp hle)
        omega
      obtain ⟨days', year', hrun, hnonneg, hlength, hsum⟩ :=
        ih (days - yearLength year) (year + 1) (by omega) (by omega) (by omega) (by omega)
          (by omega) hlt'
      rw [if_neg hin, checkedI64_of (by omega) (by omega), checkedI64_of (by omega) (by omega)]
      exact ⟨days', year', hrun, hnonneg, hlength, by omega⟩

/-- The lengths of some months of a year. -/
def monthsFrom (year : Int) : (count : Nat) → (month : Int) → List Int
  | 0, _ => []
  | count + 1, month => monthLength year month :: monthsFrom year count (month + 1)

theorem monthDays_eq (year : Int) : monthDays year = monthsFrom year 12 1 := by
  unfold monthDays
  by_cases h : Calendar.IsLeap year <;> simp [isLeapYear_iff, monthsFrom, monthLength, h]

theorem monthLength_le (year month : Int) : monthLength year month ≤ 31 := by
  unfold monthLength
  split_ifs <;> decide

/-- The loop finds the month of a day that lies before the end of the year. -/
theorem monthLoop_spec (year : Int) (count : Nat) (days month : Int) (hfirst : 1 ≤ month)
    (hcount : month + count = 13) (hdays : 0 ≤ days) (hsmall : days < 2 ^ 62)
    (hbefore : daysBeforeMonth year month + days < daysBeforeMonth year 13) :
    ∃ days' month', monthLoop (monthsFrom year count month) days month = some (days', month') ∧
      1 ≤ month' ∧ month' ≤ 12 ∧ 0 ≤ days' ∧ days' < monthLength year month' ∧
      daysBeforeMonth year month' + days' = daysBeforeMonth year month + days := by
  induction count generalizing days month with
  | zero =>
    obtain rfl : month = 13 := by omega
    omega
  | succ count ih =>
    have hpos := Calendar.monthLength_pos year month
    have hnext := Calendar.daysBeforeMonth_succ year month
    unfold monthsFrom monthLoop
    by_cases hin : days < monthLength year month
    · rw [if_pos hin]
      exact ⟨days, month, rfl, hfirst, by omega, hdays, hin, rfl⟩
    · obtain ⟨days', month', hrun, hone, htwelve, hnonneg, hlength, hsum⟩ :=
        ih (days - monthLength year month) (month + 1) (by omega) (by omega) (by omega)
          (by omega) (by omega)
      rw [if_neg hin, checkedI64_of (by omega) (by omega), checkedU32_of (by omega) (by omega)]
      exact ⟨days', month', hrun, hone, htwelve, hnonneg, hlength, by omega⟩

/-! ## The fields -/

/-- The fields of a date and time of the calendar. -/
def TimeFields.of (time : DateTime) : TimeFields :=
  { year := time.year, month := time.month, day := time.day, hours := time.hour,
    minutes := time.minute, seconds := time.second }

theorem timeFields_spec (timestamp : Int64) (extra : Nat) :
    ∃ time : DateTime, time.unixSeconds = timestamp.toInt ∧
      timeFields (400 + extra) timestamp.toInt = some (TimeFields.of time) := by
  have hmax := Int64.toInt_lt timestamp
  have hmin := Int64.le_toInt timestamp
  generalize timestamp.toInt = t at hmax hmin
  have hcycle := Calendar.daysBeforeYear_cycle (t / 86400 / 146097)
  have hcycle' := Calendar.daysBeforeYear_cycle (t / 86400 / 146097 + 1)
  obtain ⟨days, year, hyears, hdays, hlength, hyear⟩ :=
    yearLoop_spec (1970 + (t / 86400 / 146097 + 1) * 400) (by omega) (400 + extra)
      (t / 86400 % 146097) (1970 + t / 86400 / 146097 * 400) (by omega) (by omega) (by omega)
      (by omega) (by push_cast; omega)
  have hyearEnd := Calendar.daysBeforeMonth_end year
  have hyearFirst := Calendar.daysBeforeMonth_first year
  have hle := Calendar.yearLength_le year
  obtain ⟨dayOfMonth, month, hmonths, hone, htwelve, hnonneg, hday, hmonth⟩ :=
    monthLoop_spec year 12 days 1 (by omega) (by omega) hdays (by omega) (by omega)
  have hmonthLe := monthLength_le year month
  refine ⟨{ year := year, month := month, day := dayOfMonth + 1, month_first := hone,
            month_last := htwelve, day_first := by omega, day_last := by omega,
            hour := t % 86400 / 3600, minute := t % 86400 % 3600 / 60,
            second := t % 86400 % 60, hour_nonneg := by omega, hour_lt := by omega,
            minute_nonneg := by omega, minute_lt := by omega, second_nonneg := by omega,
            second_lt := by omega }, ?_, ?_⟩
  · simp only [DateTime.unixSeconds, DateTime.secondOfDay, Calendar.Date.dayNumber,
      Calendar.Date.dayOfYear]
    omega
  · have hshift : checkedI64 (t / 86400 / 146097 * 400) = some (t / 86400 / 146097 * 400) :=
      checkedI64_of (by omega) (by omega)
    have hstart : checkedI64 (1970 + t / 86400 / 146097 * 400)
        = some (1970 + t / 86400 / 146097 * 400) := checkedI64_of (by omega) (by omega)
    have hlast : checkedI64 (dayOfMonth + 1) = some (dayOfMonth + 1) :=
      checkedI64_of (by omega) (by omega)
    have hsecs : t % 86400 % 2 ^ 32 = t % 86400 := by omega
    simp only [timeFields, Option.bind_eq_bind, hshift, hstart, hyears, monthDays_eq, hmonths,
      hlast, hsecs, Option.bind_some]
    rfl

/-! ## The format -/

/-- The percent codes and what they stand for. -/
def directive (time : DateTime) : Char → Option (List Char)
  | 'Y' => some (zeroPadded 4 time.year)
  | 'm' => some (zeroPadded 2 time.month)
  | 'd' => some (zeroPadded 2 time.day)
  | 'H' => some (zeroPadded 2 time.hour)
  | 'M' => some (zeroPadded 2 time.minute)
  | 'S' => some (zeroPadded 2 time.second)
  | 'z' => some "+0000".toList
  | 'Z' => some "UTC".toList
  | _ => none

/-- The codes in the order of the replacements. -/
def directives (time : DateTime) : List (Char × List Char) :=
  [('Y', zeroPadded 4 time.year), ('m', zeroPadded 2 time.month), ('d', zeroPadded 2 time.day),
    ('H', zeroPadded 2 time.hour), ('M', zeroPadded 2 time.minute),
    ('S', zeroPadded 2 time.second), ('z', "+0000".toList), ('Z', "UTC".toList)]

theorem lookup_directives (time : DateTime) : lookup (directives time) = directive time := by
  funext c
  unfold directive
  split
  iterate 8 rfl
  simp_all [lookup, directives]

theorem zeroPadded_ne_nil (width : Nat) (n : Int) : zeroPadded width n ≠ [] := by
  have hdigits : Nat.toDigits 10 n.natAbs ≠ [] := Nat.toDigits_ne_nil
  unfold zeroPadded
  split <;> simp [hdigits]

/-- A padded number consists of digits and a sign. -/
theorem mem_zeroPadded {width : Nat} {n : Int} {c : Char} (h : c ∈ zeroPadded width n) :
    c = '-' ∨ c.isDigit := by
  have hzero (count : Nat) (hc : c ∈ List.replicate count '0') : c.isDigit := by
    rw [List.eq_of_mem_replicate hc]
    decide
  have hdigit (hc : c ∈ Nat.toDigits 10 n.natAbs) : c.isDigit :=
    Nat.isDigit_of_mem_toDigits (by decide) (by decide) hc
  unfold zeroPadded at h
  split at h
  · rcases List.mem_cons.mp h with h | h
    · exact .inl h
    · exact .inr ((List.mem_append.mp h).elim (hzero _) hdigit)
  · exact .inr ((List.mem_append.mp h).elim (hzero _) hdigit)

theorem directives_inert (time : DateTime) : Substitution.Inert '%' (directives time) := by
  have hnot {width : Nat} {n : Int} {c : Char} (hc : ¬ (c = '-' ∨ c.isDigit)) :
      c ∉ zeroPadded width n := fun h ↦ hc (mem_zeroPadded h)
  have hhead {width : Nat} {n : Int} {c : Char} (hc : ¬ (c = '-' ∨ c.isDigit)) :
      (zeroPadded width n).head? ≠ some c := fun h ↦ hnot hc (List.mem_of_mem_head? h)
  constructor
  · simp [directives]
  · simp only [directives, List.forall_mem_cons]
    refine ⟨?_, ?_, ?_, ?_, ?_, ?_, by decide, by decide, by simp⟩
    all_goals exact hnot (by decide)
  · simp only [directives, List.forall_mem_cons]
    refine ⟨?_, ?_, ?_, ?_, ?_, ?_, by decide, by decide, by simp⟩
    all_goals exact zeroPadded_ne_nil _ _
  · simp only [directives, List.forall_mem_cons]
    refine ⟨?_, ?_, ?_, ?_, ?_, ?_, by decide, by decide, by simp⟩
    all_goals
      refine ⟨?_, ?_, ?_, ?_, ?_, ?_, ?_, ?_, by simp⟩
      all_goals exact hhead (by decide)

theorem formatUnixTimestamp_of {fuel : Nat} {timestamp : Int} {time : DateTime}
    (h : timeFields fuel timestamp = some (TimeFields.of time)) (format : String) :
    formatUnixTimestamp fuel timestamp format
      = some (String.ofList (substitute '%' (directive time) format.toList)) := by
  have hchain : formatUnixTimestamp fuel timestamp format
      = some (String.ofList (replaceAll '%' (directives time) format.toList)) := by
    have hcodes : "%Y".toList = ['%', 'Y'] ∧ "%m".toList = ['%', 'm'] ∧
        "%d".toList = ['%', 'd'] ∧ "%H".toList = ['%', 'H'] ∧ "%M".toList = ['%', 'M'] ∧
        "%S".toList = ['%', 'S'] ∧ "%z".toList = ['%', 'z'] ∧ "%Z".toList = ['%', 'Z'] := by
      decide
    simp only [formatUnixTimestamp, h, Option.bind_eq_bind, Option.bind_some, strReplace,
      String.toList_ofList, hcodes, TimeFields.of, replaceAll, directives, List.foldl_cons,
      List.foldl_nil]
  rw [hchain, Substitution.replaceAll_eq_substitute (directives_inert time),
    lookup_directives]

/-! ## The calendar -/

/-- For every timestamp there is one date and time of the calendar with that number of
seconds. The fields are its fields, and the result is the format with its percent codes
substituted: no operation overflows, and 400 passes are enough for the loop over the years. -/
theorem format_time_calendar (timestamp : Int64) (format : String) (id line extra : Nat) :
    ∃ time : DateTime,
      (∀ other : DateTime, other.unixSeconds = timestamp.toInt ↔ other = time) ∧
      timeFields (400 + extra) timestamp.toInt = some (TimeFields.of time) ∧
      formatUnixTimestamp (400 + extra) timestamp.toInt format
        = some (String.ofList (substitute '%' (directive time) format.toList)) ∧
      builtinFormatTime (400 + extra) [.int timestamp.toInt, .str id format] line
        = some (.ok (.strConstant
            (String.ofList (substitute '%' (directive time) format.toList)))) := by
  obtain ⟨time, hseconds, hfields⟩ := timeFields_spec timestamp extra
  have hformat := formatUnixTimestamp_of hfields format
  refine ⟨time, fun other ↦ ⟨fun h ↦ ?_, fun h ↦ h ▸ hseconds⟩, hfields, hformat, ?_⟩
  · exact DateTime.unixSeconds_injective (h.trans hseconds.symm)
  · have hargs : builtinFormatTime (400 + extra) [.int timestamp.toInt, .str id format] line
        = (formatUnixTimestamp (400 + extra) timestamp.toInt format).map
            fun s ↦ .ok (.strConstant s) := rfl
    rw [hargs, hformat]
    rfl

example : formatUnixTimestamp 400 (-9223372036854775808) "%Y-%m-%d %%H"
    = some "-292277022657-01-27 %08" := by
  decide +kernel

end Tsumugi.FormatTime

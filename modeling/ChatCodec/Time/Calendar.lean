/-!
# The calendar

Days are numbered from 1970-01-01 in the Gregorian calendar, extended to all
years.  A year is counted from March, so that a leap day is the last day of its
year; four hundred such years have 146097 days.

`Date.dayNumber` counts the days of a date and `Date.ofDayNumber` finds the date of
a day.  The latter takes the day's place in its four hundred years apart into
centuries, spans of four years, and years, each of which has its standard length
except that the last of its kind may be one day longer.
-/

namespace ChatCodec

set_option autoImplicit false

/-- A day of the calendar. -/
structure Date where
  year : Int
  month : Nat
  day : Nat
  deriving DecidableEq, Repr

namespace Date

/-- Leap years have a 29th of February. -/
def isLeap (year : Int) : Bool :=
  year % 4 == 0 && (year % 100 != 0 || year % 400 == 0)

/-- The number of days of a month. -/
def daysIn (year : Int) (month : Nat) : Nat :=
  if month = 2 then (if isLeap year then 29 else 28)
  else if month = 4 ∨ month = 6 ∨ month = 9 ∨ month = 11 then 30
  else 31

/-- Whether the calendar has such a day. -/
def Exists (date : Date) : Prop :=
  1 ≤ date.month ∧ date.month ≤ 12 ∧ 1 ≤ date.day ∧ date.day ≤ daysIn date.year date.month

instance (date : Date) : Decidable date.Exists := by
  unfold Exists; infer_instance

/-- The number of days from the first of March of year 0 to 1970-01-01. -/
abbrev epochDay : Int := 719468

/-- The number of days before a year that begins in March, counted from year 0. -/
def daysBefore (marchYear : Int) : Int :=
  365 * marchYear + marchYear / 4 - marchYear / 100 + marchYear / 400

/-- The number of days of a year that lie before a month, both counted from March. -/
def monthStart (marchMonth : Nat) : Nat := (153 * marchMonth + 2) / 5

/-- The number of a day. -/
def dayNumber (date : Date) : Int :=
  let (marchYear, marchMonth) :=
    if 3 ≤ date.month then (date.year, date.month - 3) else (date.year - 1, date.month + 9)
  daysBefore marchYear + monthStart marchMonth + (date.day - 1 : Nat) - epochDay

/-- The date of a day. -/
def ofDayNumber (number : Int) : Date :=
  let day := number + epochDay
  let era := day / 146097
  let inEra := (day % 146097).toNat
  let century := min (inEra / 36524) 3
  let inCentury := inEra - 36524 * century
  let span := inCentury / 1461
  let inSpan := inCentury - 1461 * span
  let single := min (inSpan / 365) 3
  let inYear := inSpan - 365 * single
  let marchYear := 400 * era + (100 * century + 4 * span + single : Nat)
  let marchMonth := (5 * inYear + 2) / 153
  let dayOfMonth := inYear - monthStart marchMonth + 1
  if marchMonth < 10 then ⟨marchYear, marchMonth + 3, dayOfMonth⟩
  else ⟨marchYear + 1, marchMonth - 9, dayOfMonth⟩

end Date

/-- A time of day, to the second. -/
structure TimeOfDay where
  hour : Nat
  minute : Nat
  second : Nat
  deriving DecidableEq, Repr

namespace TimeOfDay

/-- The number of seconds of a day. -/
abbrev secondsPerDay : Int := 86400

/-- The number of seconds since midnight. -/
def seconds (time : TimeOfDay) : Nat := time.hour * 3600 + time.minute * 60 + time.second

/-- The time of day that lies so many seconds behind midnight. -/
def ofSeconds (seconds : Nat) : TimeOfDay :=
  ⟨seconds / 3600, seconds / 60 % 60, seconds % 60⟩

end TimeOfDay

end ChatCodec

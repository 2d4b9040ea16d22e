import ChatCodec.Decimal
import ChatCodec.Time.Rfc3339

/-!
# Timestamps

A timestamp is an instant of the years 0000 to 9999 in whole microseconds.  It is
read from RFC 3339 text of any offset (`Timestamp.parse`), rounded down to a
microsecond, and printed in UTC, with its microseconds only when there are some
(`Timestamp.print`).

A leap second stays one.  It prints as second 60, and its microseconds, counted
from the second before it, then have seven digits.
-/

namespace ChatCodec

set_option autoImplicit false

/-- An instant of the years 0000 to 9999 in whole microseconds. -/
structure Timestamp where
  /-- Seconds since 1970-01-01 in UTC. -/
  seconds : Int
  /-- Microseconds, a million or more in a leap second. -/
  micros : Nat
  seconds_inRange : -62167219200 ≤ seconds ∧ seconds < 253402300800
  micros_inRange : micros < 1000000 ∨ (micros < 2000000 ∧ seconds % 60 = 59)
  deriving DecidableEq, Repr

namespace Timestamp

/-- The beginning of 1970. -/
def epoch : Timestamp := ⟨0, 0, by decide, by decide⟩

instance : Inhabited Timestamp := ⟨epoch⟩

/-- Why there is no such timestamp. -/
inductive Error where
  /-- The text is shorter than the shortest date and time with an offset. -/
  | tooShort
  /-- The text is no date and time. -/
  | notADatetime (fault : Rfc3339.Fault)
  /-- The instant lies outside the years 0000 to 9999. -/
  | outOfYears
  deriving DecidableEq, Repr

def Error.message : Error → String
  | tooShort => "value is too short to be a datetime"
  | notADatetime fault => "value is not an RFC 3339 datetime: " ++ fault.message
  | outOfYears => "datetime is outside the years 0000 to 9999"

/-! ## Making a timestamp -/

/-- The timestamp of an instant, rounded down to a microsecond. -/
def ofInstant (instant : Instant) : Except Error Timestamp :=
  if seconds_inRange : -62167219200 ≤ instant.seconds ∧ instant.seconds < 253402300800 then
    let micros := instant.nanos / 1000
    if micros_inRange : micros < 1000000 ∨ (micros < 2000000 ∧ instant.seconds % 60 = 59) then
      .ok ⟨instant.seconds, micros, seconds_inRange, micros_inRange⟩
    else .error .outOfYears
  else .error .outOfYears

/-- The least length of a date and time with an offset, in bytes. -/
abbrev leastLength : Nat := 25

/-- Reads a timestamp from RFC 3339 text. -/
def parse (text : Bytes) : Except Error Timestamp :=
  if text.length < leastLength then .error .tooShort
  else
    match Rfc3339.read text with
    | .error fault => .error (.notADatetime fault)
    | .ok instant => ofInstant instant

/-- The timestamp of whole seconds since 1970. -/
def ofSeconds (seconds : Int) : Except Error Timestamp := ofInstant ⟨seconds, 0⟩

/-- The timestamp of microseconds since 1970. -/
def ofMicros (micros : Int) : Except Error Timestamp :=
  ofInstant ⟨micros / 1000000, (micros % 1000000).toNat * 1000⟩

/-- Whether an instant is one: its nanoseconds fill at most one second, or two at the
end of a minute, and it lies in the years from -262143 to 262142. -/
def IsInstant (instant : Instant) : Prop :=
  (instant.nanos < nanosPerSecond ∨
      (instant.nanos < 2 * nanosPerSecond ∧ instant.seconds % 60 = 59)) ∧
    Date.dayNumber ⟨-262143, 1, 1⟩ ≤ instant.seconds / TimeOfDay.secondsPerDay ∧
    instant.seconds / TimeOfDay.secondsPerDay ≤ Date.dayNumber ⟨262142, 12, 31⟩

instance (instant : Instant) : Decidable (IsInstant instant) := by
  unfold IsInstant; infer_instance

/-! ## Looking at a timestamp -/

/-- Microseconds since 1970.  Those of a leap second count past the minute's end. -/
def toMicros (timestamp : Timestamp) : Int := timestamp.seconds * 1000000 + timestamp.micros

/-- Nanoseconds within the second. -/
def nanos (timestamp : Timestamp) : Nat := timestamp.micros * 1000

/-- Earlier timestamps come first. -/
def compare (first second : Timestamp) : Ordering :=
  (Ord.compare first.seconds second.seconds).then (Ord.compare first.micros second.micros)

/-! ## Printing -/

/-- Exactly `width` digits of a number, zeros in front included. -/
def padded : Nat → Nat → Bytes
  | 0, _ => []
  | width + 1, number => padded width (number / 10) ++ [Decimal.digit (number % 10)]

/-- A date and a time of day, separated by the letter `T`. -/
def printClock (date : Date) (time : TimeOfDay) : Bytes :=
  padded 4 date.year.toNat ++ Ascii.minus :: padded 2 date.month ++ Ascii.minus ::
    padded 2 date.day ++ 0x54 :: padded 2 time.hour ++ Ascii.colon :: padded 2 time.minute ++
    Ascii.colon :: padded 2 time.second

/-- The time of day of a second since 1970. -/
def timeOfDay (seconds : Int) : TimeOfDay :=
  TimeOfDay.ofSeconds (seconds % TimeOfDay.secondsPerDay).toNat

/-- The date of a second since 1970. -/
def date (seconds : Int) : Date := Date.ofDayNumber (seconds / TimeOfDay.secondsPerDay)

/-- The form without microseconds and without an offset. -/
def clock (timestamp : Timestamp) : Bytes :=
  let time := timeOfDay timestamp.seconds
  let leap := if timestamp.micros < 1000000 then 0 else 1
  printClock (date timestamp.seconds) { time with second := time.second + leap }

/-- The fraction, if there are microseconds. -/
def fraction (micros : Nat) : Bytes :=
  if micros = 0 then []
  else Ascii.dot :: padded (if micros < 1000000 then 6 else 7) micros

/-- The offset of UTC. -/
def utc : Bytes := bytesOf "+00:00"

/-- The form of a timestamp, with its microseconds if there are some. -/
def print (timestamp : Timestamp) : Bytes :=
  timestamp.clock ++ fraction timestamp.micros ++ utc

/-- The form of a timestamp without its microseconds. -/
def printWhole (timestamp : Timestamp) : Bytes := timestamp.clock ++ utc

end Timestamp

/-- The form of an instant that is no leap second, in UTC with its milliseconds. -/
def Instant.printMillis (instant : Instant) : Bytes :=
  Timestamp.printClock (Timestamp.date instant.seconds) (Timestamp.timeOfDay instant.seconds) ++
    Ascii.dot :: Timestamp.padded 3 (instant.nanos / 1000000) ++ [0x5A]

end ChatCodec

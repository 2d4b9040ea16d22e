import ChatCodec.Text.Ascii
import ChatCodec.Time.Calendar

/-!
# RFC 3339 date and time

Reads a date, a time and an offset, and yields the instant they denote.

The parts are read from left to right, and the first that is not in order decides
the fault.  Two of the checks come late: the time of day is held to its limits
after its fraction has been read, and the offset after nothing has been found to
follow it.  A second of 60 is a leap second in any minute; it is kept as second 59
with a whole second added to the nanoseconds.  Of a fraction, nine digits count.
-/

namespace ChatCodec

set_option autoImplicit false

/-- A point in time: seconds since 1970-01-01 in UTC, and nanoseconds.  A leap second
is the second before it with a billion nanoseconds or more. -/
structure Instant where
  seconds : Int
  nanos : Nat
  deriving DecidableEq, Repr

/-- Nanoseconds in a second. -/
abbrev nanosPerSecond : Nat := 1000000000

/-- The instant that many milliseconds after the beginning of 1970. -/
def Instant.ofMillis (millis : Nat) : Instant :=
  ⟨(millis / 1000 : Nat), millis % 1000 * 1000000⟩

namespace Rfc3339

/-- Why a text is not a date and time. -/
inductive Fault where
  | invalid
  | outOfRange
  | tooShort
  | tooLong
  deriving DecidableEq, Repr

def Fault.message : Fault → String
  | invalid => "input contains invalid characters"
  | outOfRange => "input is out of range"
  | tooShort => "premature end of input"
  | tooLong => "trailing input"

/-! ## Parts -/

/-- The value of a decimal digit. -/
def digit? (byte : UInt8) : Option Nat :=
  if Ascii.isDigit byte then some (byte.toNat - 0x30) else none

/-- The number of exactly `count` digits at the front, behind `number`. -/
def digits (count : Nat) (number : Nat) (bytes : Bytes) : Except Fault (Nat × Bytes) :=
  match count, bytes with
  | 0, bytes => .ok (number, bytes)
  | _ + 1, [] => .error .tooShort
  | count + 1, byte :: rest =>
      match digit? byte with
      | some value => digits count (number * 10 + value) rest
      | none => .error .invalid

/-- What follows one of the given bytes. -/
def skip (wanted : List UInt8) : Bytes → Except Fault Bytes
  | [] => .error .tooShort
  | byte :: rest => if byte ∈ wanted then .ok rest else .error .invalid

/-- A date that exists. -/
def date (bytes : Bytes) : Except Fault (Date × Bytes) := do
  let (year, rest) ← digits 4 0 bytes
  let rest ← skip [Ascii.minus] rest
  let (month, rest) ← digits 2 0 rest
  let rest ← skip [Ascii.minus] rest
  let (day, rest) ← digits 2 0 rest
  let date : Date := ⟨year, month, day⟩
  if date.Exists then .ok (date, rest) else .error .outOfRange

/-- A time of day, without regard to its limits. -/
def time (bytes : Bytes) : Except Fault (TimeOfDay × Bytes) := do
  let (hour, rest) ← digits 2 0 bytes
  let rest ← skip [Ascii.colon] rest
  let (minute, rest) ← digits 2 0 rest
  let rest ← skip [Ascii.colon] rest
  let (second, rest) ← digits 2 0 rest
  return (⟨hour, minute, second⟩, rest)

/-- The nanoseconds of a fraction of which `places` more digits count. -/
def nanosFrom (places number : Nat) : Bytes → Nat × Bytes
  | [] => (number * Nat.pow 10 places, [])
  | byte :: rest =>
      match digit? byte with
      | none => (number * Nat.pow 10 places, byte :: rest)
      | some value =>
          match places with
          | 0 => nanosFrom 0 number rest
          | places + 1 => nanosFrom places (number * 10 + value) rest

/-- The nanoseconds of an optional fraction. -/
def fraction (bytes : Bytes) : Except Fault (Nat × Bytes) :=
  match bytes with
  | [] => .ok (0, [])
  | byte :: rest =>
      if byte = Ascii.dot then
        match rest with
        | [] => .error .tooShort
        | first :: rest =>
            if Ascii.isDigit first then .ok (nanosFrom 9 0 (first :: rest)) else .error .invalid
      else .ok (0, byte :: rest)

/-- A time of day within its limits, with the nanoseconds of its last second. -/
def limit (time : TimeOfDay) (nanos : Nat) : Except Fault (TimeOfDay × Nat) :=
  let (time, nanos) :=
    if time.second = 60 then (⟨time.hour, time.minute, 59⟩, nanos + nanosPerSecond) else (time, nanos)
  if time.hour ≤ 23 ∧ time.minute ≤ 59 ∧ time.second ≤ 59 then .ok (time, nanos)
  else .error .outOfRange

/-- The sign of an offset: whether it is a minus, of which the typographic form
counts too. -/
def sign : Bytes → Except Fault (Bool × Bytes)
  | [] => .error .tooShort
  | byte :: rest =>
      if byte = Ascii.plus then .ok (false, rest)
      else if byte = Ascii.minus then .ok (true, rest)
      else if [byte] ++ rest.take 2 = [0xE2, 0x88, 0x92] then .ok (true, rest.drop 2)
      else .error .invalid

/-- The minutes of an offset, of which sixty and more are out of range. -/
def offsetMinutes (bytes : Bytes) : Except Fault (Nat × Bytes) :=
  match bytes with
  | tens :: ones :: rest =>
      match digit? tens, digit? ones with
      | some tens, some ones =>
          if tens < 6 then .ok (tens * 10 + ones, rest) else .error .outOfRange
      | _, _ => .error .invalid
  | _ => .error .tooShort

/-- The hours of an offset. -/
def offsetHours (bytes : Bytes) : Except Fault (Nat × Bytes) :=
  match bytes with
  | tens :: ones :: rest =>
      match digit? tens, digit? ones with
      | some tens, some ones => .ok (tens * 10 + ones, rest)
      | _, _ => .error .invalid
  | _ => .error .tooShort

/-- An offset, in minutes. -/
def offset (bytes : Bytes) : Except Fault (Int × Bytes) :=
  match skip [0x5A, 0x7A] bytes with
  | .ok rest => .ok (0, rest)
  | .error _ => do
      let (negative, rest) ← sign bytes
      let (hours, rest) ← offsetHours rest
      let rest ← skip [Ascii.colon] rest
      let (minutes, rest) ← offsetMinutes rest
      let total : Int := hours * 60 + minutes
      return (if negative then -total else total, rest)

/-! ## The whole -/

/-- The largest offset in either direction, in minutes. -/
abbrev offsetLimit : Int := 24 * 60

/-- The instant that a date, a time and an offset denote. -/
def read (bytes : Bytes) : Except Fault Instant := do
  let (date, rest) ← date bytes
  let rest ← skip [0x54, 0x74, Ascii.space] rest
  let (time, rest) ← time rest
  let (nanos, rest) ← fraction rest
  let (time, nanos) ← limit time nanos
  let (offset, rest) ← offset rest
  if rest ≠ [] then .error .tooLong
  else if offsetLimit ≤ offset ∨ offset ≤ -offsetLimit then .error .outOfRange
  else
    return {
      seconds := date.dayNumber * TimeOfDay.secondsPerDay + time.seconds - offset * 60
      nanos }

end Rfc3339

end ChatCodec

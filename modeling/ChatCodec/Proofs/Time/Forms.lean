import Mathlib.Data.Rat.Floor
import Mathlib.Tactic.FieldSimp
import Mathlib.Tactic.Linarith
import Mathlib.Tactic.Ring
import ChatCodec.Proofs.Time.Timestamp

/-!
# Dates and times as RFC 3339 writes them

A `Rfc3339.DateTime` is a date of the calendar in the years 0000 to 9999, a time of day within its
limits, any number of digits of a fraction, and an offset of less than a day in either direction.
It is written as a text, and it denotes an instant: its local time, with the whole of the fraction,
less its offset.

Reading the text gives this instant to the nanosecond (`Rfc3339.read_dateTime`).  The whole seconds
come out exactly, and of the fraction the first nine digits count, which is to round it down to a
nanosecond (`Rfc3339.nanosFrom_digits`).
-/

namespace ChatCodec

set_option autoImplicit false

namespace Rfc3339

/-! ## Forms -/

/-- The digits of a fraction as a part of a second. -/
def fractionValue : List (Fin 10) → ℚ
  | [] => 0
  | first :: rest => (first.val + fractionValue rest) / 10

/-- The digits of a fraction behind a point, if there are some. -/
def fractionText (digits : List (Fin 10)) : Bytes :=
  if digits = [] then [] else Ascii.dot :: digits.map fun digit => Decimal.digit digit.val

/-- The sign of an offset. -/
inductive Sign where
  | plus
  | minus
  /-- The typographic minus. -/
  | longMinus
  deriving DecidableEq, Repr

/-- The bytes of a sign. -/
def Sign.toBytes : Sign → Bytes
  | plus => [Ascii.plus]
  | minus => [Ascii.minus]
  | longMinus => [0xE2, 0x88, 0x92]

/-- Whether the local time is behind UTC. -/
def Sign.isNegative : Sign → Bool
  | plus => false
  | minus | longMinus => true

/-- An offset from UTC. -/
inductive Offset where
  /-- The letter `Z`, of either case. -/
  | zulu (letter : UInt8) (isLetter : letter ∈ [0x5A, 0x7A])
  | signed (sign : Sign) (hours minutes : Nat) (hours_le : hours ≤ 23) (minutes_le : minutes ≤ 59)
  deriving DecidableEq, Repr

namespace Offset

/-- The offset in minutes. -/
def total : Offset → Int
  | zulu _ _ => 0
  | signed sign hours minutes _ _ =>
      if sign.isNegative then -(hours * 60 + minutes) else hours * 60 + minutes

/-- The bytes of an offset. -/
def toBytes : Offset → Bytes
  | zulu letter _ => [letter]
  | signed sign hours minutes _ _ =>
      sign.toBytes ++ (Timestamp.padded 2 hours ++ Ascii.colon :: Timestamp.padded 2 minutes)

end Offset

/-- A date, a time of day and an offset, as RFC 3339 writes them.  There is no leap second. -/
structure DateTime where
  date : Date
  /-- What stands between the date and the time. -/
  separator : UInt8
  time : TimeOfDay
  /-- The digits of the fraction of the second. -/
  fraction : List (Fin 10)
  offset : Offset
  date_exists : date.Exists
  year_inRange : 0 ≤ date.year ∧ date.year ≤ 9999
  separator_mem : separator ∈ [0x54, 0x74, Ascii.space]
  time_inRange : time.hour ≤ 23 ∧ time.minute ≤ 59 ∧ time.second ≤ 59
  deriving DecidableEq, Repr

namespace DateTime

/-- The text of a date and time. -/
def toBytes (moment : DateTime) : Bytes :=
  Timestamp.padded 4 moment.date.year.toNat ++ Ascii.minus ::
    (Timestamp.padded 2 moment.date.month ++ Ascii.minus ::
    (Timestamp.padded 2 moment.date.day ++ moment.separator ::
    (Timestamp.padded 2 moment.time.hour ++ Ascii.colon ::
    (Timestamp.padded 2 moment.time.minute ++ Ascii.colon ::
    (Timestamp.padded 2 moment.time.second ++
    (fractionText moment.fraction ++ moment.offset.toBytes))))))

/-- The whole seconds since 1970-01-01 in UTC: those of the local time, less the offset. -/
def seconds (moment : DateTime) : Int :=
  moment.date.dayNumber * TimeOfDay.secondsPerDay + moment.time.seconds - moment.offset.total * 60

/-- The nanoseconds of the fraction, rounded down. -/
def nanos (moment : DateTime) : Nat := ⌊fractionValue moment.fraction * 10 ^ 9⌋₊

/-- **The instant** that a date and time denotes, in seconds since 1970-01-01 in UTC. -/
def instant (moment : DateTime) : ℚ := moment.seconds + fractionValue moment.fraction

end DateTime

/-! ## Fractions -/

theorem fractionValue_nonneg (digits : List (Fin 10)) : 0 ≤ fractionValue digits := by
  induction digits with
  | nil => exact le_refl 0
  | cons first rest ih =>
      rw [fractionValue]
      positivity

theorem fractionValue_lt_one (digits : List (Fin 10)) : fractionValue digits < 1 := by
  induction digits with
  | nil => exact zero_lt_one
  | cons first rest ih =>
      have digit : (first.val : ℚ) ≤ 9 := by exact_mod_cast Nat.le_of_lt_succ first.isLt
      rw [fractionValue]
      linarith

/-- A fraction adds nothing whole. -/
theorem floor_add_fractionValue (number : Nat) (digits : List (Fin 10)) :
    ⌊(number : ℚ) + fractionValue digits⌋₊ = number := by
  have part := fractionValue_nonneg digits
  have small := fractionValue_lt_one digits
  rw [Nat.floor_eq_iff (by positivity)]
  exact ⟨by linarith, by linarith⟩

/-- **The digits of a fraction are read as far as places are left**, which is to round down. -/
theorem nanosFrom_digits (digits : List (Fin 10)) {rest : Bytes}
    (stops : ∀ byte ∈ rest.head?, digit? byte = none) (places number : Nat) :
    nanosFrom places number (digits.map (fun digit => Decimal.digit digit.val) ++ rest) =
      (⌊(number + fractionValue digits) * 10 ^ places⌋₊, rest) := by
  induction digits generalizing places number with
  | nil =>
      have whole : ⌊((number : ℚ) + fractionValue []) * 10 ^ places⌋₊ = number * 10 ^ places := by
        rw [fractionValue, add_zero]
        exact_mod_cast Nat.floor_natCast (number * 10 ^ places)
      rw [whole, List.map_nil, List.nil_append]
      cases rest with
      | nil => rfl
      | cons byte rest =>
          rw [nanosFrom, stops byte rfl]
          rfl
  | cons first others ih =>
      rw [List.map_cons, List.cons_append, nanosFrom, digit?_digit first.isLt, fractionValue]
      cases places with
      | zero =>
          -- No place is left, and what remains is less than one.
          have whole := floor_add_fractionValue number (first :: others)
          rw [fractionValue] at whole
          simp only [ih, pow_zero, mul_one, whole, floor_add_fractionValue]
      | succ places =>
          simp only [ih]
          congr 2
          push_cast
          ring

/-- Exactly `width` digits of a number, zeros in front included. -/
def digitsOf : Nat → Nat → List (Fin 10)
  | 0, _ => []
  | width + 1, number =>
      ⟨number / 10 ^ width % 10, Nat.mod_lt _ (by decide)⟩ :: digitsOf width number

theorem map_digitsOf (width number : Nat) :
    (digitsOf width number).map (fun digit => Decimal.digit digit.val) =
      Timestamp.padded width number := by
  induction width with
  | zero => rfl
  | succ width ih =>
      rw [digitsOf, List.map_cons, ih, Timestamp.padded_succ]
      rfl

/-- The digits of a number as a fraction. -/
theorem fractionValue_digitsOf (width number : Nat) :
    fractionValue (digitsOf width number) * 10 ^ width = (number % 10 ^ width : Nat) := by
  induction width with
  | zero => simp only [digitsOf, fractionValue, zero_mul, pow_zero, Nat.mod_one, Nat.cast_zero]
  | succ width ih =>
      rw [digitsOf, fractionValue, Nat.mod_pow_succ]
      push_cast
      rw [← ih]
      ring

/-- An offset begins with neither a digit nor a point. -/
theorem Offset.exists_cons (offset : Offset) :
    ∃ first rest, offset.toBytes = first :: rest ∧ digit? first = none ∧ first ≠ Ascii.dot := by
  cases offset with
  | zulu letter isLetter =>
      refine ⟨letter, [], rfl, ?_⟩
      simp only [List.mem_cons, List.not_mem_nil, or_false] at isLetter
      rcases isLetter with rfl | rfl <;> decide
  | signed sign hours minutes => cases sign <;> exact ⟨_, _, rfl, by decide, by decide⟩

/-- **A fraction** of any length is read as its nanoseconds, rounded down. -/
theorem fraction_toBytes (digits : List (Fin 10)) (offset : Offset) :
    fraction (fractionText digits ++ offset.toBytes) =
      .ok (⌊fractionValue digits * 10 ^ 9⌋₊, offset.toBytes) := by
  obtain ⟨first, rest, begins, notDigit, notDot⟩ := offset.exists_cons
  have stops : ∀ byte ∈ offset.toBytes.head?, digit? byte = none := by
    rw [begins]
    rintro byte ⟨⟩
    exact notDigit
  cases digits with
  | nil =>
      rw [fractionText, if_pos rfl, List.nil_append, begins, fractionValue, zero_mul, Nat.floor_zero]
      simp only [fraction, if_neg notDot]
  | cons digit digits =>
      have read := nanosFrom_digits (digit :: digits) stops 9 0
      rw [List.map_cons, List.cons_append, Nat.cast_zero, zero_add] at read
      rw [fractionText, if_neg (List.cons_ne_nil _ _), List.map_cons, List.cons_append,
        List.cons_append, fraction_dot (Decimal.isDigit_digit digit.isLt), read]

/-! ## Offsets -/

/-- The two digits of a padded number. -/
theorem padded_two {number : Nat} (small : number < 100) :
    Timestamp.padded 2 number = [Decimal.digit (number / 10), Decimal.digit (number % 10)] := by
  rw [Timestamp.padded_succ, Timestamp.padded_succ]
  show [Decimal.digit (number / 10 % 10), Decimal.digit (number / 1 % 10)] = _
  rw [Nat.mod_eq_of_lt (by omega), Nat.div_one]

theorem sign_toBytes (form : Sign) (rest : Bytes) :
    sign (form.toBytes ++ rest) = .ok (form.isNegative, rest) := by
  cases form <;> rfl

/-- A sign is no letter of UTC. -/
theorem skip_sign (form : Sign) (rest : Bytes) :
    ∃ fault, skip [0x5A, 0x7A] (form.toBytes ++ rest) = .error fault := by
  cases form <;> exact ⟨.invalid, rfl⟩

theorem offsetHours_padded {hours : Nat} (small : hours < 100) (rest : Bytes) :
    offsetHours (Timestamp.padded 2 hours ++ rest) = .ok (hours, rest) := by
  rw [padded_two small]
  simp only [List.cons_append, List.nil_append, offsetHours]
  rw [digit?_digit (by omega), digit?_digit (by omega)]
  show Except.ok (hours / 10 * 10 + hours % 10, rest) = _
  rw [Nat.div_add_mod']

theorem offsetMinutes_padded {minutes : Nat} (small : minutes ≤ 59) (rest : Bytes) :
    offsetMinutes (Timestamp.padded 2 minutes ++ rest) = .ok (minutes, rest) := by
  rw [padded_two (by omega)]
  simp only [List.cons_append, List.nil_append, offsetMinutes]
  rw [digit?_digit (by omega), digit?_digit (by omega)]
  show (if minutes / 10 < 6 then Except.ok (minutes / 10 * 10 + minutes % 10, rest) else _) = _
  rw [if_pos (by omega), Nat.div_add_mod']

/-- **An offset is read as its minutes.** -/
theorem offset_toBytes (form : Offset) : offset form.toBytes = .ok (form.total, []) := by
  cases form with
  | zulu letter isLetter =>
      rw [offset, Offset.toBytes, skip_cons isLetter]
      rfl
  | signed form hours minutes hours_le minutes_le =>
      obtain ⟨fault, noLetter⟩ := skip_sign form
        (Timestamp.padded 2 hours ++ Ascii.colon :: Timestamp.padded 2 minutes)
      rw [offset, Offset.toBytes, noLetter]
      refine bind_eq_ok_iff.mpr ⟨_, sign_toBytes form _, ?_⟩
      refine bind_eq_ok_iff.mpr ⟨_, offsetHours_padded (by omega) _, ?_⟩
      refine bind_eq_ok_iff.mpr ⟨_, skip_cons (List.mem_singleton_self _) _, ?_⟩
      have read := offsetMinutes_padded minutes_le []
      rw [List.append_nil] at read
      exact bind_eq_ok_iff.mpr ⟨_, read, rfl⟩

/-- An offset is less than a day. -/
theorem Offset.total_inRange (form : Offset) :
    -offsetLimit < form.total ∧ form.total < offsetLimit := by
  cases form with
  | zulu =>
      have utc : -offsetLimit < 0 ∧ 0 < offsetLimit := by decide
      exact utc
  | signed form hours minutes hours_le minutes_le =>
      rw [total, offsetLimit]
      split <;> omega

/-! ## The whole -/

/-- **A date and time is read as the instant that it denotes**, rounded down to a nanosecond. -/
theorem read_dateTime (moment : DateTime) :
    read moment.toBytes = .ok ⟨moment.seconds, moment.nanos⟩ := by
  obtain ⟨hour, minute, second⟩ := moment.time_inRange
  obtain ⟨low, high⟩ := moment.year_inRange
  obtain ⟨behind, ahead⟩ := moment.offset.total_inRange
  rw [DateTime.toBytes, read]
  refine bind_eq_ok_iff.mpr ⟨_, date_padded moment.date_exists low high _, ?_⟩
  refine bind_eq_ok_iff.mpr ⟨_, skip_cons moment.separator_mem _, ?_⟩
  refine bind_eq_ok_iff.mpr ⟨_, time_padded hour minute (Nat.le_succ_of_le second) _, ?_⟩
  refine bind_eq_ok_iff.mpr ⟨_, fraction_toBytes moment.fraction moment.offset, ?_⟩
  refine bind_eq_ok_iff.mpr ⟨_, limit_of_le hour minute second _, ?_⟩
  refine bind_eq_ok_iff.mpr ⟨_, offset_toBytes moment.offset, ?_⟩
  refine (if_neg (fun more => more rfl)).trans (if_neg ?_)
  omega

/-- There are less nanoseconds than a second has. -/
theorem DateTime.nanos_lt (moment : DateTime) : moment.nanos < nanosPerSecond := by
  have part := fractionValue_nonneg moment.fraction
  have small := fractionValue_lt_one moment.fraction
  rw [nanos, Nat.floor_lt (by positivity)]
  push_cast
  linarith

end Rfc3339

end ChatCodec

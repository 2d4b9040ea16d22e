import ChatCodec.Proofs.Decimal
import ChatCodec.Proofs.Successes
import ChatCodec.Proofs.Text.Literal
import ChatCodec.Proofs.Time.Days
import ChatCodec.Time.Timestamp

/-!
# Timestamps

The printed form of a timestamp is made of digits and a few marks, and needs no escapes
(`Timestamp.isPlain_of_mem_print`).

What the printed form is read as is the timestamp itself, unless this is a leap second
(`Timestamp.parse_print`).  A leap second has seven digits of microseconds behind its point,
which are read as a fraction; so a tenth of its microseconds is kept, and the second that they
count from is added again (`Timestamp.reread`).
-/

namespace ChatCodec

set_option autoImplicit false

namespace Timestamp

theorem isDigit_of_mem_padded {width number : Nat} {byte : UInt8}
    (isIn : byte ∈ padded width number) : Ascii.isDigit byte = true := by
  induction width generalizing number with
  | zero => cases isIn
  | succ width ih =>
      rw [padded, List.mem_append, List.mem_singleton] at isIn
      rcases isIn with front | rfl
      · exact ih front
      · exact Decimal.isDigit_digit (Nat.mod_lt _ (by decide))

theorem isPlain_of_mem_padded {width number : Nat} {byte : UInt8}
    (isIn : byte ∈ padded width number) : Ascii.IsPlain byte :=
  Ascii.isPlain_of_isDigit (isDigit_of_mem_padded isIn)

theorem isPlain_of_mem_printClock {date : Date} {time : TimeOfDay} {byte : UInt8}
    (isIn : byte ∈ printClock date time) : Ascii.IsPlain byte := by
  simp only [printClock, List.append_assoc, List.cons_append, List.mem_append, List.mem_cons]
    at isIn
  rcases isIn with part | rfl | part | rfl | part | rfl | part | rfl | part | rfl | part
  all_goals first
    | exact isPlain_of_mem_padded part
    | decide

/-- A timestamp needs no escapes. -/
theorem isPlain_of_mem_print (timestamp : Timestamp) :
    ∀ byte ∈ timestamp.print, Ascii.IsPlain byte := by
  intro byte isIn
  rw [print, List.mem_append, List.mem_append] at isIn
  rcases isIn with (inClock | inFraction) | inOffset
  · exact isPlain_of_mem_printClock inClock
  · rw [fraction] at inFraction
    split at inFraction
    · cases inFraction
    · rcases List.mem_cons.mp inFraction with rfl | part
      · decide
      · exact isPlain_of_mem_padded part
  · have offset : utc.all (fun other => decide (Ascii.IsPlain other)) = true := by decide
    exact of_decide_eq_true (List.all_eq_true.mp offset byte inOffset)

/-! ## Padded numbers -/

theorem length_padded (width number : Nat) : (padded width number).length = width := by
  induction width generalizing number with
  | zero => rfl
  | succ width ih => rw [padded, List.length_append, ih, List.length_singleton]

/-- The first digit of a padded number. -/
theorem padded_succ (width number : Nat) :
    padded (width + 1) number =
      Decimal.digit (number / Nat.pow 10 width % 10) :: padded width number := by
  induction width generalizing number with
  | zero =>
      show [Decimal.digit (number % 10)] = [Decimal.digit (number / 1 % 10)]
      rw [Nat.div_one]
  | succ width ih =>
      have place : number / 10 / Nat.pow 10 width = number / Nat.pow 10 (width + 1) := by
        rw [Nat.div_div_eq_div_mul]
        exact congrArg (number / ·) (Nat.mul_comm 10 (Nat.pow 10 width))
      rw [padded, ih, place]
      rfl

end Timestamp

namespace Rfc3339

theorem digit?_digit {value : Nat} (small : value < 10) :
    digit? (Decimal.digit value) = some value := by
  rw [digit?, if_pos (Decimal.isDigit_digit small), Decimal.toNat_digit small, Nat.add_sub_cancel_left]

/-- The place of the first digit of a number, and the places behind it. -/
theorem place_digit (start number width : Nat) :
    (start * 10 + number / Nat.pow 10 width % 10) * Nat.pow 10 width + number % Nat.pow 10 width =
      start * Nat.pow 10 (width + 1) + number % Nat.pow 10 (width + 1) := by
  have split : number % Nat.pow 10 (width + 1) =
      number % Nat.pow 10 width + Nat.pow 10 width * (number / Nat.pow 10 width % 10) :=
    Nat.mod_pow_succ
  have power : Nat.pow 10 (width + 1) = Nat.pow 10 width * 10 := rfl
  rw [split, power, Nat.add_mul, Nat.mul_assoc, Nat.mul_comm 10,
    Nat.mul_comm (number / Nat.pow 10 width % 10)]
  omega

/-- **The digits of a padded number are read back.** -/
theorem digits_padded (width start number : Nat) (rest : Bytes) :
    digits width start (Timestamp.padded width number ++ rest) =
      .ok (start * Nat.pow 10 width + number % Nat.pow 10 width, rest) := by
  induction width generalizing start with
  | zero =>
      show Except.ok (start, rest) = .ok (start * 1 + number % 1, rest)
      rw [Nat.mod_one, Nat.mul_one, Nat.add_zero]
  | succ width ih =>
      rw [Timestamp.padded_succ, List.cons_append, digits, digit?_digit (Nat.mod_lt _ (by decide))]
      exact (ih _).trans (by rw [place_digit])

/-- A number of so many digits is read back. -/
theorem digits_padded_of_lt {width number : Nat} (small : number < Nat.pow 10 width)
    (rest : Bytes) : digits width 0 (Timestamp.padded width number ++ rest) = .ok (number, rest) := by
  rw [digits_padded, Nat.zero_mul, Nat.zero_add, Nat.mod_eq_of_lt small]

/-- The digits of a padded fraction count as many places as they are. -/
theorem nanosFrom_padded (width places start number : Nat) (rest : Bytes) :
    nanosFrom (places + width) start (Timestamp.padded width number ++ rest) =
      nanosFrom places (start * Nat.pow 10 width + number % Nat.pow 10 width) rest := by
  induction width generalizing start with
  | zero =>
      show nanosFrom places start rest = nanosFrom places (start * 1 + number % 1) rest
      rw [Nat.mod_one, Nat.mul_one, Nat.add_zero]
  | succ width ih =>
      rw [Timestamp.padded_succ, List.cons_append, nanosFrom, digit?_digit (Nat.mod_lt _ (by decide))]
      exact (ih _).trans (by rw [place_digit])

theorem skip_cons {wanted : List UInt8} {byte : UInt8} (isIn : byte ∈ wanted) (rest : Bytes) :
    skip wanted (byte :: rest) = .ok rest := by
  rw [skip, if_pos isIn]

/-! ## Clocks -/

/-- A date of the years 0000 to 9999 is read back. -/
theorem date_padded {day : Date} (exists_ : day.Exists) (low : 0 ≤ day.year)
    (high : day.year ≤ 9999) (rest : Bytes) :
    date (Timestamp.padded 4 day.year.toNat ++ Ascii.minus :: (Timestamp.padded 2 day.month ++
      Ascii.minus :: (Timestamp.padded 2 day.day ++ rest))) = .ok (day, rest) := by
  have inMonth : day.day ≤ 31 := by
    apply Nat.le_trans exists_.2.2.2
    rw [Date.daysIn]
    split
    · split <;> decide
    · split <;> decide
  have month : day.month < Nat.pow 10 2 := Nat.lt_of_le_of_lt exists_.2.1 (by decide)
  have dayOfMonth : day.day < Nat.pow 10 2 := Nat.lt_of_le_of_lt inMonth (by decide)
  have year : day.year.toNat < Nat.pow 10 4 := by
    show day.year.toNat < 10000
    omega
  have same : (⟨(day.year.toNat : Nat), day.month, day.day⟩ : Date) = day := by
    rw [Int.toNat_of_nonneg low]
  rw [date]
  refine bind_eq_ok_iff.mpr ⟨_, digits_padded_of_lt year _, ?_⟩
  refine bind_eq_ok_iff.mpr ⟨_, skip_cons (List.mem_singleton_self _) _, ?_⟩
  refine bind_eq_ok_iff.mpr ⟨_, digits_padded_of_lt month _, ?_⟩
  refine bind_eq_ok_iff.mpr ⟨_, skip_cons (List.mem_singleton_self _) _, ?_⟩
  refine bind_eq_ok_iff.mpr ⟨_, digits_padded_of_lt dayOfMonth _, ?_⟩
  simp only [same]
  exact if_pos exists_

/-- A time of day is read back, also with a second 60. -/
theorem time_padded {clock : TimeOfDay} (hour : clock.hour ≤ 23) (minute : clock.minute ≤ 59)
    (second : clock.second ≤ 60) (rest : Bytes) :
    time (Timestamp.padded 2 clock.hour ++ Ascii.colon :: (Timestamp.padded 2 clock.minute ++
      Ascii.colon :: (Timestamp.padded 2 clock.second ++ rest))) = .ok (clock, rest) := by
  have hourFits : clock.hour < Nat.pow 10 2 := Nat.lt_of_le_of_lt hour (by decide)
  have minuteFits : clock.minute < Nat.pow 10 2 := Nat.lt_of_le_of_lt minute (by decide)
  have secondFits : clock.second < Nat.pow 10 2 := Nat.lt_of_le_of_lt second (by decide)
  rw [time]
  refine bind_eq_ok_iff.mpr ⟨_, digits_padded_of_lt hourFits _, ?_⟩
  refine bind_eq_ok_iff.mpr ⟨_, skip_cons (List.mem_singleton_self _) _, ?_⟩
  refine bind_eq_ok_iff.mpr ⟨_, digits_padded_of_lt minuteFits _, ?_⟩
  refine bind_eq_ok_iff.mpr ⟨_, skip_cons (List.mem_singleton_self _) _, ?_⟩
  exact bind_eq_ok_iff.mpr ⟨_, digits_padded_of_lt secondFits _, rfl⟩

theorem fraction_dot {first : UInt8} (digit : Ascii.isDigit first = true) (rest : Bytes) :
    fraction (Ascii.dot :: first :: rest) = .ok (nanosFrom 9 0 (first :: rest)) := by
  simp only [fraction, if_pos digit, ↓reduceIte]

/-- The digits of a fraction are read as a part of a second, in nanoseconds. -/
theorem fraction_padded {width places number : Nat} (nine : places + (width + 1) = 9)
    (small : number < Nat.pow 10 (width + 1)) :
    fraction (Ascii.dot :: Timestamp.padded (width + 1) number ++ Timestamp.utc) =
      .ok (number * Nat.pow 10 places, Timestamp.utc) := by
  have read : nanosFrom 9 0 (Timestamp.padded (width + 1) number ++ Timestamp.utc) =
      (number * Nat.pow 10 places, Timestamp.utc) := by
    rw [← nine, nanosFrom_padded, Nat.zero_mul, Nat.zero_add, Nat.mod_eq_of_lt small]
    rfl
  have digit : Ascii.isDigit (Decimal.digit (number / Nat.pow 10 width % 10)) = true :=
    Decimal.isDigit_digit (Nat.mod_lt _ (by decide))
  rw [Timestamp.padded_succ] at read ⊢
  exact (fraction_dot digit _).trans (congrArg Except.ok read)

/-- The nanoseconds that a printed fraction is read as.  Of the microseconds of a leap second,
which have seven digits, the last counts a tenth of a microsecond. -/
def printedNanos (micros : Nat) : Nat := micros * if micros < 1000000 then 1000 else 100

/-- **A printed fraction** is read as a part of a second. -/
theorem fraction_utc {micros : Nat} (small : micros < 2000000) :
    fraction (Timestamp.fraction micros ++ Timestamp.utc) =
      .ok (printedNanos micros, Timestamp.utc) := by
  rw [Timestamp.fraction, printedNanos]
  by_cases none : micros = 0
  · subst none
    rfl
  · rw [if_neg none]
    by_cases whole : micros < 1000000
    · rw [if_pos whole, if_pos whole]
      exact @fraction_padded 5 3 micros rfl whole
    · rw [if_neg whole, if_neg whole]
      exact @fraction_padded 6 2 micros rfl (Nat.lt_trans small (by decide))

/-- A time of day keeps to its limits. -/
theorem limit_of_le {clock : TimeOfDay} (hour : clock.hour ≤ 23) (minute : clock.minute ≤ 59)
    (second : clock.second ≤ 59) (nanos : Nat) : limit clock nanos = .ok (clock, nanos) := by
  rw [limit, if_neg (by omega)]
  exact if_pos ⟨hour, minute, second⟩

/-- A second 60 is kept as the second before it, with a whole second more. -/
theorem limit_leap {clock : TimeOfDay} (hour : clock.hour ≤ 23) (minute : clock.minute ≤ 59)
    (last : clock.second = 59) (nanos : Nat) :
    limit { clock with second := clock.second + 1 } nanos =
      .ok (clock, nanos + nanosPerSecond) := by
  obtain ⟨_, _, second⟩ := clock
  subst last
  exact if_pos ⟨hour, minute, Nat.le_refl 59⟩

theorem offset_utc : offset Timestamp.utc = .ok (0, []) := rfl

end Rfc3339

namespace Timestamp

/-! ## Reading back -/

/-- The time of day of a second keeps to its limits. -/
theorem timeOfDay_le (seconds : Int) :
    (timeOfDay seconds).hour ≤ 23 ∧ (timeOfDay seconds).minute ≤ 59 ∧
      (timeOfDay seconds).second ≤ 59 := by
  rw [timeOfDay, TimeOfDay.ofSeconds]
  refine ⟨?_, ?_, ?_⟩
  · show (seconds % 86400).toNat / 3600 ≤ 23
    omega
  · show (seconds % 86400).toNat / 60 % 60 ≤ 59
    omega
  · show (seconds % 86400).toNat % 60 ≤ 59
    omega

/-- A second of the calendar is the second of its date and its time of day. -/
theorem seconds_eq (seconds : Int) :
    (date seconds).dayNumber * TimeOfDay.secondsPerDay + (timeOfDay seconds).seconds - 0 * 60 =
      seconds := by
  rw [date, Date.dayNumber_ofDayNumber, timeOfDay, TimeOfDay.ofSeconds, TimeOfDay.seconds]
  show seconds / 86400 * 86400 +
    (((seconds % 86400).toNat / 3600 * 3600 + (seconds % 86400).toNat / 60 % 60 * 60 +
      (seconds % 86400).toNat % 60 : Nat) : Int) - 0 * 60 = seconds
  omega

/-- **The seconds of the years 0000 to 9999.** -/
theorem seconds_inRange_iff (seconds : Int) :
    (-62167219200 ≤ seconds ∧ seconds < 253402300800) ↔
      0 ≤ (date seconds).year ∧ (date seconds).year ≤ 9999 := by
  have first : Date.newYear 0 = -719528 := rfl
  have last : Date.newYear 10000 = 2932897 := rfl
  have day : seconds / TimeOfDay.secondsPerDay = seconds / 86400 := rfl
  have low := @Date.le_year_iff 0 (seconds / TimeOfDay.secondsPerDay)
  have high := @Date.le_year_iff 10000 (seconds / TimeOfDay.secondsPerDay)
  rw [date]
  omega

/-- The nanoseconds that the printed form of a timestamp is read with. -/
def rereadNanos (micros : Nat) : Nat :=
  Rfc3339.printedNanos micros + if micros < 1000000 then 0 else nanosPerSecond

/-- The time of day that is printed. -/
def shownTime (timestamp : Timestamp) : TimeOfDay :=
  { timeOfDay timestamp.seconds with
    second := (timeOfDay timestamp.seconds).second + if timestamp.micros < 1000000 then 0 else 1 }

/-- The time of day that is printed is held to its limits when it is read. -/
theorem limit_shownTime (timestamp : Timestamp) :
    Rfc3339.limit timestamp.shownTime (Rfc3339.printedNanos timestamp.micros) =
      .ok (timeOfDay timestamp.seconds, rereadNanos timestamp.micros) := by
  obtain ⟨hour, minute, second⟩ := timeOfDay_le timestamp.seconds
  rw [rereadNanos, shownTime]
  by_cases whole : timestamp.micros < 1000000
  · rw [if_pos whole, if_pos whole]
    exact Rfc3339.limit_of_le hour minute second _
  · rw [if_neg whole, if_neg whole]
    have last : timestamp.seconds % 60 = 59 :=
      (timestamp.micros_inRange.resolve_left whole).2
    refine Rfc3339.limit_leap hour minute ?_ _
    show (timestamp.seconds % 86400).toNat % 60 = 59
    omega

/-- The instant that the printed form of a timestamp denotes. -/
theorem read_print (timestamp : Timestamp) :
    Rfc3339.read timestamp.print = .ok ⟨timestamp.seconds, rereadNanos timestamp.micros⟩ := by
  obtain ⟨hour, minute, second⟩ := timeOfDay_le timestamp.seconds
  have shown : timestamp.shownTime.second ≤ 60 := by
    rw [shownTime]
    dsimp only
    split <;> omega
  have small : timestamp.micros < 2000000 := by
    rcases timestamp.micros_inRange with whole | leap
    · exact Nat.lt_trans whole (by decide)
    · exact leap.1
  obtain ⟨low, high⟩ := (seconds_inRange_iff timestamp.seconds).mp timestamp.seconds_inRange
  rw [print, clock, printClock]
  simp only [List.append_assoc, List.cons_append]
  rw [Rfc3339.read]
  refine bind_eq_ok_iff.mpr
    ⟨_, Rfc3339.date_padded (Date.exists_ofDayNumber _) low high _, ?_⟩
  refine bind_eq_ok_iff.mpr ⟨_, Rfc3339.skip_cons (by decide) _, ?_⟩
  refine bind_eq_ok_iff.mpr ⟨_, @Rfc3339.time_padded timestamp.shownTime hour minute shown _, ?_⟩
  refine bind_eq_ok_iff.mpr ⟨_, Rfc3339.fraction_utc small, ?_⟩
  refine bind_eq_ok_iff.mpr ⟨_, limit_shownTime timestamp, ?_⟩
  refine bind_eq_ok_iff.mpr ⟨_, Rfc3339.offset_utc, ?_⟩
  show Except.ok (⟨(date timestamp.seconds).dayNumber * TimeOfDay.secondsPerDay +
    (timeOfDay timestamp.seconds).seconds - 0 * 60, rereadNanos timestamp.micros⟩ : Instant) = _
  rw [seconds_eq]

theorem leastLength_le_length_print (timestamp : Timestamp) :
    leastLength ≤ timestamp.print.length := by
  simp only [print, clock, printClock, List.length_append, List.length_cons, length_padded]
  have offset : utc.length = 6 := rfl
  have least : leastLength = 25 := rfl
  omega

/-- The timestamp that the printed form of a timestamp is read as. -/
def reread (timestamp : Timestamp) : Timestamp where
  seconds := timestamp.seconds
  micros := if timestamp.micros < 1000000 then timestamp.micros else 1000000 + timestamp.micros / 10
  seconds_inRange := timestamp.seconds_inRange
  micros_inRange := by
    have inRange := timestamp.micros_inRange
    split <;> omega

theorem reread_of_whole {timestamp : Timestamp} (whole : timestamp.micros < 1000000) :
    timestamp.reread = timestamp := by
  simp only [reread, if_pos whole]

theorem rereadNanos_div (micros : Nat) :
    rereadNanos micros / 1000 = if micros < 1000000 then micros else 1000000 + micros / 10 := by
  have second : nanosPerSecond = 1000000000 := rfl
  rw [rereadNanos, Rfc3339.printedNanos]
  split <;> omega

/-- **What the printed form of a timestamp is read as.** -/
theorem parse_print (timestamp : Timestamp) : parse timestamp.print = .ok timestamp.reread := by
  rw [parse, if_neg (Nat.not_lt.mpr (leastLength_le_length_print timestamp)), read_print]
  show ofInstant _ = _
  rw [ofInstant, dif_pos timestamp.seconds_inRange]
  simp only [rereadNanos_div]
  exact dif_pos timestamp.reread.micros_inRange

end Timestamp

end ChatCodec

import Mathlib.Algebra.Order.Floor.Semifield
import ChatCodec.Proofs.Time.Forms

/-!
# Timestamps denote instants in UTC

What is read from a date and time is the microsecond that its instant lies in
(`Timestamp.parse_dateTime`).  The seconds of an instant are whole, and its fraction counts forward
from the second in front of it; so to round the fraction down is to round the instant down, before
1970 as well (`Rfc3339.DateTime.micros_eq`).

Which instants there is a timestamp for is decided by their second in UTC, when the offset has been
taken off.  These seconds are those of the years 0000 to 9999 (`Timestamp.seconds_inRange_iff`).
-/

namespace ChatCodec

set_option autoImplicit false

open Rfc3339

/-! ## Instants -/

namespace Rfc3339.DateTime

variable (moment : DateTime)

/-- The microsecond that the instant lies in. -/
def micros : Int := ⌊moment.instant * 1000000⌋

/-- The date of the instant in UTC. -/
def utcDate : Date := Timestamp.date ⌊moment.instant⌋

theorem floor_instant : ⌊moment.instant⌋ = moment.seconds := by
  have part := fractionValue_nonneg moment.fraction
  have small := fractionValue_lt_one moment.fraction
  rw [instant, Int.floor_intCast_add, Int.floor_eq_zero_iff.mpr ⟨part, small⟩, add_zero]

/-- To round down to a nanosecond first makes no difference. -/
theorem nanos_div : moment.nanos / 1000 = ⌊fractionValue moment.fraction * 1000000⌋₊ := by
  rw [nanos, ← Nat.floor_div_natCast]
  congr 1
  push_cast
  ring

theorem nanos_div_lt : moment.nanos / 1000 < 1000000 := by
  have small := moment.nanos_lt
  have second : nanosPerSecond = 1000000000 := rfl
  omega

/-- **The microsecond of an instant**, also of one before 1970: its fraction counts forward from
the second in front of it. -/
theorem micros_eq : moment.micros = moment.seconds * 1000000 + (moment.nanos / 1000 : Nat) := by
  have part := fractionValue_nonneg moment.fraction
  have whole : moment.instant * 1000000 =
      ((moment.seconds * 1000000 : Int) : ℚ) + fractionValue moment.fraction * 1000000 := by
    rw [instant]
    push_cast
    ring
  rw [micros, whole, Int.floor_intCast_add, nanos_div,
    Int.natCast_floor_eq_floor (by positivity)]

end Rfc3339.DateTime

namespace Timestamp

/-! ## The years that timestamps have -/

/-- An instant that is no leap second and lies in these years is rounded down to a timestamp. -/
theorem ofInstant_of_year {seconds : Int} {nanos : Nat} (small : nanos / 1000 < 1000000)
    (years : 0 ≤ (date seconds).year ∧ (date seconds).year ≤ 9999) :
    ∃ timestamp, ofInstant ⟨seconds, nanos⟩ = .ok timestamp ∧
      timestamp.seconds = seconds ∧ timestamp.micros = nanos / 1000 := by
  have inRange := (seconds_inRange_iff seconds).mpr years
  refine ⟨⟨seconds, nanos / 1000, inRange, .inl small⟩, ?_, rfl, rfl⟩
  rw [ofInstant, dif_pos inRange]
  exact dif_pos (.inl small)

/-- Outside of these years there is no timestamp. -/
theorem ofInstant_of_not_year {seconds : Int} (nanos : Nat)
    (outside : ¬ (0 ≤ (date seconds).year ∧ (date seconds).year ≤ 9999)) :
    ofInstant ⟨seconds, nanos⟩ = .error .outOfYears := by
  rw [ofInstant, dif_neg (mt (seconds_inRange_iff seconds).mp outside)]

/-! ## What is printed -/

/-- The date and time that is printed for a timestamp that is no leap second. -/
def shown (timestamp : Timestamp) : DateTime where
  date := date timestamp.seconds
  separator := 0x54
  time := timeOfDay timestamp.seconds
  fraction := if timestamp.micros = 0 then [] else digitsOf 6 timestamp.micros
  offset := .signed .plus 0 0 (by decide) (by decide)
  date_exists := Date.exists_ofDayNumber _
  year_inRange := (seconds_inRange_iff timestamp.seconds).mp timestamp.seconds_inRange
  separator_mem := by decide
  time_inRange := timeOfDay_le timestamp.seconds

variable {timestamp : Timestamp}

theorem toBytes_shown (whole : timestamp.micros < 1000000) :
    timestamp.shown.toBytes = timestamp.print := by
  have digits : fractionText timestamp.shown.fraction = fraction timestamp.micros := by
    rw [fractionText, fraction, shown]
    by_cases none : timestamp.micros = 0
    · simp only [none, ↓reduceIte]
    · have some : digitsOf 6 timestamp.micros ≠ [] := List.cons_ne_nil _ _
      simp only [none, some, whole, ↓reduceIte, map_digitsOf]
  have offset : timestamp.shown.offset.toBytes = utc := rfl
  rw [DateTime.toBytes, digits, offset, print, clock, printClock, if_pos whole]
  simp only [List.append_assoc, List.cons_append]
  rfl

/-- **What is printed denotes the timestamp.** -/
theorem instant_shown (whole : timestamp.micros < 1000000) :
    timestamp.shown.instant * 1000000 = timestamp.toMicros := by
  have fraction : fractionValue timestamp.shown.fraction * 1000000 = timestamp.micros := by
    rw [shown]
    by_cases none : timestamp.micros = 0
    · simp only [none, ↓reduceIte, fractionValue, zero_mul, Nat.cast_zero]
    · have value := fractionValue_digitsOf 6 timestamp.micros
      rw [Nat.mod_eq_of_lt (show timestamp.micros < 10 ^ 6 from whole)] at value
      simp only [none, ↓reduceIte]
      rw [← value]
      norm_num
  have seconds : timestamp.shown.seconds = timestamp.seconds := seconds_eq timestamp.seconds
  rw [DateTime.instant, seconds, add_mul, fraction, toMicros]
  push_cast
  rfl

/-! ## Reading -/

variable (moment : DateTime)

/-- The instant of a long enough text is taken for a timestamp. -/
theorem parse_eq (long : leastLength ≤ moment.toBytes.length) :
    parse moment.toBytes = ofInstant ⟨moment.seconds, moment.nanos⟩ := by
  rw [parse, if_neg (Nat.not_lt.mpr long), read_dateTime]

/-- **A timestamp is read if the instant has a year of four digits in UTC.** -/
theorem parse_of_year (long : leastLength ≤ moment.toBytes.length)
    (years : 0 ≤ moment.utcDate.year ∧ moment.utcDate.year ≤ 9999) :
    ∃ timestamp, parse moment.toBytes = .ok timestamp ∧ timestamp.toMicros = moment.micros ∧
      timestamp.micros < 1000000 := by
  rw [DateTime.utcDate, moment.floor_instant] at years
  obtain ⟨timestamp, read, seconds, micros⟩ := ofInstant_of_year moment.nanos_div_lt years
  refine ⟨timestamp, (parse_eq moment long).trans read, ?_, ?_⟩
  · rw [toMicros, seconds, micros, moment.micros_eq]
  · rw [micros]
    exact moment.nanos_div_lt

/-- **Other instants are out of range.** -/
theorem parse_of_not_year (long : leastLength ≤ moment.toBytes.length)
    (outside : ¬ (0 ≤ moment.utcDate.year ∧ moment.utcDate.year ≤ 9999)) :
    parse moment.toBytes = .error .outOfYears := by
  rw [DateTime.utcDate, moment.floor_instant] at outside
  rw [parse_eq moment long, ofInstant_of_not_year _ outside]

/-- So what is read has a year of four digits. -/
theorem year_of_parse (long : leastLength ≤ moment.toBytes.length)
    (read : parse moment.toBytes = .ok timestamp) :
    0 ≤ moment.utcDate.year ∧ moment.utcDate.year ≤ 9999 := by
  apply by_contra
  intro outside
  rw [parse_of_not_year moment long outside] at read
  cases read

/-- Only the microsecond of an instant counts. -/
theorem parse_congr {moment other : DateTime} (long : leastLength ≤ moment.toBytes.length)
    (otherLong : leastLength ≤ other.toBytes.length) (same : other.micros = moment.micros) :
    parse other.toBytes = parse moment.toBytes := by
  have small := moment.nanos_div_lt
  have otherSmall := other.nanos_div_lt
  rw [other.micros_eq, moment.micros_eq] at same
  have seconds : other.seconds = moment.seconds := by omega
  have micros : other.nanos / 1000 = moment.nanos / 1000 := by omega
  rw [parse_eq moment long, parse_eq other otherLong, seconds]
  simp only [ofInstant, micros]

/-- **Timestamps denote UTC instants rounded down.**  A date and time is read as a timestamp
exactly if its instant has a year from 0000 to 9999 in UTC, and is out of range otherwise.  The
timestamp is the microsecond that the instant lies in, and it is printed as a date and time in UTC
that denotes the beginning of this microsecond.  Texts whose instants lie in one microsecond are
read alike, and what is read of them prints alike. -/
theorem parse_dateTime (moment : DateTime) (long : leastLength ≤ moment.toBytes.length) :
    ((∃ timestamp, parse moment.toBytes = .ok timestamp) ↔
        0 ≤ moment.utcDate.year ∧ moment.utcDate.year ≤ 9999) ∧
      (¬ (0 ≤ moment.utcDate.year ∧ moment.utcDate.year ≤ 9999) →
        parse moment.toBytes = .error .outOfYears) ∧
      (∀ timestamp, parse moment.toBytes = .ok timestamp →
        timestamp.toMicros = ⌊moment.instant * 1000000⌋ ∧ timestamp.micros < 1000000 ∧
          ∃ shown : DateTime, shown.toBytes = timestamp.print ∧ shown.offset.toBytes = utc ∧
            shown.instant * 1000000 = ⌊moment.instant * 1000000⌋) ∧
      (∀ other : DateTime, leastLength ≤ other.toBytes.length →
        ⌊other.instant * 1000000⌋ = ⌊moment.instant * 1000000⌋ →
          parse other.toBytes = parse moment.toBytes ∧
            (parse other.toBytes).map print = (parse moment.toBytes).map print) := by
  refine ⟨⟨?_, fun years => ?_⟩, parse_of_not_year moment long, ?_, ?_⟩
  · rintro ⟨timestamp, read⟩
    exact year_of_parse moment long read
  · obtain ⟨timestamp, read, -⟩ := parse_of_year moment long years
    exact ⟨timestamp, read⟩
  · intro timestamp read
    have years := year_of_parse moment long read
    obtain ⟨same, readSame, micros, whole⟩ := parse_of_year moment long years
    rw [read, Except.ok.injEq] at readSame
    subst readSame
    refine ⟨micros, whole, timestamp.shown, toBytes_shown whole, rfl, ?_⟩
    rw [instant_shown whole, micros]
    rfl
  · intro other otherLong same
    have alike := parse_congr long otherLong same
    exact ⟨alike, congrArg (Except.map print) alike⟩

/-- A tenth of a microsecond before the last second of 1969 in UTC, by a clock that is an hour
behind. -/
def beforeEpoch : DateTime where
  date := ⟨1969, 12, 31⟩
  separator := 0x54
  time := ⟨22, 59, 58⟩
  fraction := [9, 9, 9, 9, 9, 9, 9]
  offset := .signed .minus 1 0 (by decide) (by decide)
  date_exists := by decide
  year_inRange := by decide
  separator_mem := by decide
  time_inRange := by decide

/-- Before 1970, too, an instant is rounded down and not towards the beginning of 1970. -/
theorem parse_dateTime_beforeEpoch :
    beforeEpoch.toBytes = bytesOf "1969-12-31T22:59:58.9999999-01:00" ∧
      leastLength ≤ beforeEpoch.toBytes.length ∧
      ∃ timestamp, parse beforeEpoch.toBytes = .ok timestamp ∧ timestamp.toMicros = -1000001 ∧
        timestamp.print = bytesOf "1969-12-31T23:59:58.999999+00:00" := by
  have long : leastLength ≤ beforeEpoch.toBytes.length := by decide +kernel
  have micros : ⌊beforeEpoch.instant * 1000000⌋ = -1000001 := by decide +kernel
  obtain ⟨isRead, -, denotes, -⟩ := parse_dateTime beforeEpoch long
  obtain ⟨timestamp, read⟩ := isRead.mpr (by decide +kernel)
  have toMicros := (denotes timestamp read).1.trans micros
  have printed : (parse beforeEpoch.toBytes).map print =
      .ok (bytesOf "1969-12-31T23:59:58.999999+00:00") := by
    decide +kernel
  rw [read] at printed
  exact ⟨by decide +kernel, long, timestamp, read, toMicros, Except.ok.inj printed⟩

end Timestamp

end ChatCodec

import ChatCodec.Proofs.Time.Forms

/-!
# Texts that are read as dates and times

Every date and time of RFC 3339 is read (`Rfc3339.read_dateTime`).  Here is the converse: a text
that is read as an instant, and not as a leap second, is the text of a date and time
(`Rfc3339.exists_dateTime`).  So the dates and times are all that is read (`Rfc3339.isRead_iff`).

The reader takes the text apart from left to right, and so does the proof.  For each of the parts
there is a lemma that says which bytes it takes up when it is read, and what it leaves.
-/

namespace ChatCodec

set_option autoImplicit false

namespace Rfc3339

variable {bytes rest : Bytes}

/-! ## Digits -/

theorem digit?_eq_some_iff {byte : UInt8} {value : Nat} :
    digit? byte = some value ↔ value < 10 ∧ byte = Decimal.digit value := by
  constructor
  · intro read
    rw [digit?] at read
    split at read
    · next isDigit =>
        simp only [Ascii.isDigit, Ascii.zero, Ascii.nine, Bool.and_eq_true, decide_eq_true_eq,
          UInt8.le_iff_toNat_le, UInt8.reduceToNat] at isDigit
        cases read
        have small : byte.toNat - 48 < 10 := by omega
        refine ⟨small, UInt8.toNat_inj.mp ?_⟩
        rw [Decimal.toNat_digit small]
        omega
    · cases read
  · rintro ⟨small, rfl⟩
    exact digit?_digit small

/-- Digits in front of those that are written do not count. -/
theorem padded_add (width front number : Nat) :
    Timestamp.padded width (front * 10 ^ width + number) = Timestamp.padded width number := by
  induction width generalizing front number with
  | zero => rfl
  | succ width ih =>
      have tens : (front * 10 ^ (width + 1) + number) / 10 = front * 10 ^ width + number / 10 := by
        rw [Nat.pow_succ, ← Nat.mul_assoc]
        omega
      have ones : (front * 10 ^ (width + 1) + number) % 10 = number % 10 := by
        rw [Nat.pow_succ, ← Nat.mul_assoc]
        omega
      rw [Timestamp.padded, Timestamp.padded, tens, ones, ih]

/-- **What is read as so many digits** is a padded number. -/
theorem digits_eq_ok {count start value : Nat} (read : digits count start bytes = .ok (value, rest)) :
    ∃ number < 10 ^ count,
      value = start * 10 ^ count + number ∧ bytes = Timestamp.padded count number ++ rest := by
  induction count generalizing start bytes with
  | zero =>
      cases read
      exact ⟨0, Nat.one_pos, by omega, rfl⟩
  | succ count ih =>
      cases bytes with
      | nil => cases read
      | cons byte bytes =>
          rw [digits] at read
          split at read
          · next digit isDigit =>
              obtain ⟨small, rfl⟩ := digit?_eq_some_iff.mp isDigit
              obtain ⟨number, fits, isValue, rfl⟩ := ih read
              refine ⟨digit * 10 ^ count + number, ?_, ?_, ?_⟩
              · have := Nat.mul_le_mul_right (10 ^ count) (Nat.le_of_lt_succ small)
                rw [Nat.pow_succ]
                omega
              · rw [isValue, Nat.pow_succ]
                ring
              · have first : (digit * 10 ^ count + number) / Nat.pow 10 count % 10 = digit := by
                  show (digit * 10 ^ count + number) / 10 ^ count % 10 = digit
                  rw [Nat.add_comm, Nat.add_mul_div_right _ _ (Nat.pow_pos (by decide)),
                    Nat.div_eq_of_lt fits, Nat.zero_add, Nat.mod_eq_of_lt small]
                rw [Timestamp.padded_succ, first, padded_add, List.cons_append]
          · cases read

/-- Digits with nothing in front of them. -/
theorem exists_padded {count value : Nat} (read : digits count 0 bytes = .ok (value, rest)) :
    value < 10 ^ count ∧ bytes = Timestamp.padded count value ++ rest := by
  obtain ⟨number, fits, isValue, whole⟩ := digits_eq_ok read
  rw [Nat.zero_mul, Nat.zero_add] at isValue
  subst isValue
  exact ⟨fits, whole⟩

theorem skip_eq_ok {wanted : List UInt8} (skipped : skip wanted bytes = .ok rest) :
    ∃ byte ∈ wanted, bytes = byte :: rest := by
  cases bytes with
  | nil => cases skipped
  | cons byte bytes =>
      obtain ⟨isIn, same⟩ := ite_error_eq_ok_iff.mp skipped
      cases same
      exact ⟨byte, isIn, rfl⟩

/-- A mark that is the only one wanted. -/
theorem skip_singleton_eq_ok {mark : UInt8} (skipped : skip [mark] bytes = .ok rest) :
    bytes = mark :: rest := by
  obtain ⟨byte, isIn, whole⟩ := skip_eq_ok skipped
  rw [whole, List.mem_singleton.mp isIn]

/-! ## Dates and times of day -/

/-- What is read as a date. -/
theorem date_eq_ok {day : Date} (read : date bytes = .ok (day, rest)) :
    day.Exists ∧ (0 ≤ day.year ∧ day.year ≤ 9999) ∧
      bytes = Timestamp.padded 4 day.year.toNat ++ Ascii.minus :: (Timestamp.padded 2 day.month ++
        Ascii.minus :: (Timestamp.padded 2 day.day ++ rest)) := by
  rw [date] at read
  obtain ⟨⟨year, behindYear⟩, readYear, read⟩ := bind_eq_ok_iff.mp read
  obtain ⟨_, skipFirst, read⟩ := bind_eq_ok_iff.mp read
  obtain ⟨⟨month, behindMonth⟩, readMonth, read⟩ := bind_eq_ok_iff.mp read
  obtain ⟨_, skipSecond, read⟩ := bind_eq_ok_iff.mp read
  obtain ⟨⟨dayOfMonth, behindDay⟩, readDay, read⟩ := bind_eq_ok_iff.mp read
  obtain ⟨exists_, same⟩ := ite_error_eq_ok_iff.mp read
  cases same
  obtain ⟨small, isYear⟩ := exists_padded readYear
  obtain ⟨-, isMonth⟩ := exists_padded readMonth
  obtain ⟨-, isDay⟩ := exists_padded readDay
  refine ⟨exists_, ⟨Int.natCast_nonneg year, by dsimp only; omega⟩, ?_⟩
  rw [isYear, skip_singleton_eq_ok skipFirst, isMonth, skip_singleton_eq_ok skipSecond, isDay]
  rfl

/-- What is read as a time of day, whether or not it is within the limits. -/
theorem time_eq_ok {clock : TimeOfDay} (read : time bytes = .ok (clock, rest)) :
    bytes = Timestamp.padded 2 clock.hour ++ Ascii.colon :: (Timestamp.padded 2 clock.minute ++
      Ascii.colon :: (Timestamp.padded 2 clock.second ++ rest)) := by
  rw [time] at read
  obtain ⟨⟨hour, behindHour⟩, readHour, read⟩ := bind_eq_ok_iff.mp read
  obtain ⟨_, skipFirst, read⟩ := bind_eq_ok_iff.mp read
  obtain ⟨⟨minute, behindMinute⟩, readMinute, read⟩ := bind_eq_ok_iff.mp read
  obtain ⟨_, skipSecond, read⟩ := bind_eq_ok_iff.mp read
  obtain ⟨⟨second, behindSecond⟩, readSecond, read⟩ := bind_eq_ok_iff.mp read
  cases read
  obtain ⟨-, isHour⟩ := exists_padded readHour
  obtain ⟨-, isMinute⟩ := exists_padded readMinute
  obtain ⟨-, isSecond⟩ := exists_padded readSecond
  rw [isHour, skip_singleton_eq_ok skipFirst, isMinute, skip_singleton_eq_ok skipSecond, isSecond]

/-- A time of day that is no leap second is kept, and is within the limits. -/
theorem limit_eq_ok {clock kept : TimeOfDay} {nanos left : Nat}
    (held : limit clock nanos = .ok (kept, left)) (noLeap : left < nanosPerSecond) :
    kept = clock ∧ left = nanos ∧ kept.hour ≤ 23 ∧ kept.minute ≤ 59 ∧ kept.second ≤ 59 := by
  rw [limit] at held
  by_cases leap : clock.second = 60
  · rw [if_pos leap] at held
    obtain ⟨-, same⟩ := ite_error_eq_ok_iff.mp held
    cases same
    omega
  · rw [if_neg leap] at held
    obtain ⟨within, same⟩ := ite_error_eq_ok_iff.mp held
    cases same
    exact ⟨rfl, rfl, within⟩

/-! ## Fractions -/

/-- Digits of a fraction are taken up to the first byte that is none. -/
theorem exists_digits (places number : Nat) (bytes : Bytes) :
    ∃ digits : List (Fin 10), bytes =
      digits.map (fun digit => Decimal.digit digit.val) ++ (nanosFrom places number bytes).2 := by
  induction bytes generalizing places number with
  | nil => exact ⟨[], rfl⟩
  | cons byte bytes ih =>
      rw [nanosFrom]
      cases isDigit : digit? byte with
      | none => exact ⟨[], rfl⟩
      | some value =>
          obtain ⟨small, rfl⟩ := digit?_eq_some_iff.mp isDigit
          cases places with
          | zero =>
              obtain ⟨digits, whole⟩ := ih 0 number
              exact ⟨⟨value, small⟩ :: digits, congrArg (Decimal.digit value :: ·) whole⟩
          | succ places =>
              obtain ⟨digits, whole⟩ := ih places (number * 10 + value)
              exact ⟨⟨value, small⟩ :: digits, congrArg (Decimal.digit value :: ·) whole⟩

/-- What is read as a fraction. -/
theorem fraction_eq_ok {nanos : Nat} (read : fraction bytes = .ok (nanos, rest)) :
    ∃ digits, bytes = fractionText digits ++ rest := by
  cases bytes with
  | nil =>
      cases read
      exact ⟨[], rfl⟩
  | cons byte bytes =>
      by_cases isDot : byte = Ascii.dot
      · subst isDot
        cases bytes with
        | nil => cases read
        | cons first bytes =>
            obtain ⟨isDigit, same⟩ := ite_error_eq_ok_iff.mp read
            have known : digit? first = some (first.toNat - 0x30) := by rw [digit?, if_pos isDigit]
            obtain ⟨small, isFirst⟩ := digit?_eq_some_iff.mp known
            obtain ⟨digits, whole⟩ := exists_digits 8 (0 * 10 + (first.toNat - 0x30)) bytes
            rw [nanosFrom, known] at same
            simp only [Except.ok.injEq] at same
            rw [same] at whole
            refine ⟨⟨_, small⟩ :: digits, ?_⟩
            rw [fractionText, if_neg (List.cons_ne_nil _ _), List.map_cons, ← isFirst, whole]
            rfl
      · simp only [fraction, isDot, ↓reduceIte, Except.ok.injEq, Prod.mk.injEq] at read
        obtain ⟨-, rfl⟩ := read
        exact ⟨[], rfl⟩

/-! ## Offsets -/

/-- What is read as a sign. -/
theorem sign_eq_ok {negative : Bool} (read : sign bytes = .ok (negative, rest)) :
    ∃ form : Sign, form.isNegative = negative ∧ bytes = form.toBytes ++ rest := by
  cases bytes with
  | nil => cases read
  | cons byte bytes =>
      rw [sign] at read
      split at read
      · next isPlus =>
          cases read
          exact ⟨.plus, rfl, by rw [isPlus]; rfl⟩
      · split at read
        · next isMinus =>
            cases read
            exact ⟨.minus, rfl, by rw [isMinus]; rfl⟩
        · obtain ⟨long, same⟩ := ite_error_eq_ok_iff.mp read
          cases same
          refine ⟨.longMinus, rfl, ?_⟩
          rw [Sign.toBytes, ← long, List.append_assoc, List.take_append_drop]
          rfl

/-- Two digits are a padded number. -/
theorem padded_digits {tens ones : Nat} (tensSmall : tens < 10) (onesSmall : ones < 10) :
    Timestamp.padded 2 (tens * 10 + ones) = [Decimal.digit tens, Decimal.digit ones] := by
  have front : (tens * 10 + ones) / 10 = tens := by omega
  have last : (tens * 10 + ones) % 10 = ones := by omega
  rw [padded_two (by omega), front, last]

/-- What is read as the hours of an offset. -/
theorem offsetHours_eq_ok {hours : Nat} (read : offsetHours bytes = .ok (hours, rest)) :
    bytes = Timestamp.padded 2 hours ++ rest := by
  rw [offsetHours.eq_def] at read
  split at read
  · split at read
    · next tens ones isTens isOnes =>
        cases read
        obtain ⟨tensSmall, rfl⟩ := digit?_eq_some_iff.mp isTens
        obtain ⟨onesSmall, rfl⟩ := digit?_eq_some_iff.mp isOnes
        rw [padded_digits tensSmall onesSmall]
        rfl
    · cases read
  · cases read

/-- What is read as the minutes of an offset. -/
theorem offsetMinutes_eq_ok {minutes : Nat} (read : offsetMinutes bytes = .ok (minutes, rest)) :
    minutes ≤ 59 ∧ bytes = Timestamp.padded 2 minutes ++ rest := by
  rw [offsetMinutes.eq_def] at read
  split at read
  · split at read
    · next tens ones isTens isOnes =>
        obtain ⟨few, same⟩ := ite_error_eq_ok_iff.mp read
        cases same
        obtain ⟨tensSmall, rfl⟩ := digit?_eq_some_iff.mp isTens
        obtain ⟨onesSmall, rfl⟩ := digit?_eq_some_iff.mp isOnes
        rw [padded_digits tensSmall onesSmall]
        exact ⟨by omega, rfl⟩
    · cases read
  · cases read

/-- **What is read as an offset** of less than a day. -/
theorem offset_eq_ok {minutes : Int} (read : offset bytes = .ok (minutes, rest))
    (inRange : -offsetLimit < minutes ∧ minutes < offsetLimit) :
    ∃ form : Offset, form.total = minutes ∧ bytes = form.toBytes ++ rest := by
  rw [offset] at read
  split at read
  · next behind letter =>
      cases read
      obtain ⟨byte, isLetter, whole⟩ := skip_eq_ok letter
      exact ⟨.zulu byte isLetter, rfl, whole⟩
  · obtain ⟨⟨negative, _⟩, readSign, read⟩ := bind_eq_ok_iff.mp read
    obtain ⟨⟨hours, _⟩, readHours, read⟩ := bind_eq_ok_iff.mp read
    obtain ⟨_, skipped, read⟩ := bind_eq_ok_iff.mp read
    obtain ⟨⟨minutes, _⟩, readMinutes, read⟩ := bind_eq_ok_iff.mp read
    cases read
    obtain ⟨form, rfl, isSign⟩ := sign_eq_ok readSign
    obtain ⟨few, isMinutes⟩ := offsetMinutes_eq_ok readMinutes
    have hours_le : hours ≤ 23 := by
      have limit : offsetLimit = 1440 := rfl
      rw [limit] at inRange
      split at inRange <;> omega
    refine ⟨.signed form hours minutes hours_le few, rfl, ?_⟩
    rw [isSign, offsetHours_eq_ok readHours, skip_singleton_eq_ok skipped, isMinutes]
    simp only [Offset.toBytes, List.append_assoc, List.cons_append]

/-! ## The whole -/

/-- **A text that is read is the text of a date and time**, if it is not read as a leap second. -/
theorem exists_dateTime {text : Bytes} {instant : Instant} (isRead : read text = .ok instant)
    (noLeap : instant.nanos < nanosPerSecond) : ∃ moment : DateTime, moment.toBytes = text := by
  rw [read] at isRead
  obtain ⟨⟨day, _⟩, readDate, isRead⟩ := bind_eq_ok_iff.mp isRead
  obtain ⟨_, skipped, isRead⟩ := bind_eq_ok_iff.mp isRead
  obtain ⟨⟨clock, _⟩, readTime, isRead⟩ := bind_eq_ok_iff.mp isRead
  obtain ⟨⟨nanos, _⟩, readFraction, isRead⟩ := bind_eq_ok_iff.mp isRead
  obtain ⟨⟨kept, left⟩, held, isRead⟩ := bind_eq_ok_iff.mp isRead
  obtain ⟨⟨minutes, last⟩, readOffset, isRead⟩ := bind_eq_ok_iff.mp isRead
  obtain ⟨nothing, isRead⟩ := error_ite_eq_ok_iff.mp isRead
  obtain ⟨inRange, same⟩ := error_ite_eq_ok_iff.mp isRead
  cases same
  rw [not_not] at nothing
  subst nothing
  obtain ⟨exists_, years, isDate⟩ := date_eq_ok readDate
  obtain ⟨separator, separator_mem, isSeparator⟩ := skip_eq_ok skipped
  obtain ⟨digits, isFraction⟩ := fraction_eq_ok readFraction
  obtain ⟨rfl, -, within⟩ := limit_eq_ok held noLeap
  obtain ⟨form, -, isOffset⟩ := offset_eq_ok readOffset (by omega)
  rw [List.append_nil] at isOffset
  refine ⟨⟨day, separator, kept, digits, form, exists_, years, separator_mem, within⟩, ?_⟩
  rw [isDate, isSeparator, time_eq_ok readTime, isFraction, isOffset]
  rfl

/-- **The dates and times are all that is read**, apart from leap seconds. -/
theorem isRead_iff (text : Bytes) :
    (∃ instant, read text = .ok instant ∧ instant.nanos < nanosPerSecond) ↔
      ∃ moment : DateTime, moment.toBytes = text := by
  constructor
  · rintro ⟨instant, isRead, noLeap⟩
    exact exists_dateTime isRead noLeap
  · rintro ⟨moment, rfl⟩
    exact ⟨_, read_dateTime moment, moment.nanos_lt⟩

end Rfc3339

end ChatCodec

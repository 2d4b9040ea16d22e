import ChatCodec.Time.Calendar

/-!
# The calendar finds the dates of days

Finding the date of a day and counting its days again gives the day
(`Date.dayNumber_ofDayNumber`), and the date is one of the calendar
(`Date.exists_ofDayNumber`).

A day's place in its four hundred years is a sum of whole centuries, spans of four years,
years and days (`Date.place_eq`).  Only the last year of a span has a 366th day, and in the
last span of a century only if the century is the last one; these are the years that end
with a 29th of February (`Date.isLeap_of_last`).
-/

namespace ChatCodec

set_option autoImplicit false

namespace Date

/-! ## Years -/

section

variable {place century inCentury span inSpan single inYear : Nat}

/-- **A day's place in four hundred years**, taken apart. -/
theorem place_eq (within : place < 146097) (isCentury : century = min (place / 36524) 3)
    (isInCentury : inCentury = place - 36524 * century) (isSpan : span = inCentury / 1461)
    (isInSpan : inSpan = inCentury - 1461 * span) (isSingle : single = min (inSpan / 365) 3)
    (isInYear : inYear = inSpan - 365 * single) :
    place = 36524 * century + 1461 * span + 365 * single + inYear ∧
      (century ≤ 3 ∧ span ≤ 24 ∧ single ≤ 3 ∧ inYear ≤ 365) ∧
      (inYear = 365 → single = 3 ∧ (span = 24 → century = 3)) := by
  have centuries : century ≤ 3 ∧ place = 36524 * century + inCentury ∧ inCentury ≤ 36524 ∧
      (inCentury = 36524 → century = 3) := by omega
  have spans : span ≤ 24 ∧ inCentury = 1461 * span + inSpan ∧ inSpan ≤ 1460 ∧
      (inSpan = 1460 → span = 24 → inCentury = 36524) := by omega
  have singles : single ≤ 3 ∧ inSpan = 365 * single + inYear ∧ inYear ≤ 365 ∧
      (inYear = 365 → single = 3 ∧ inSpan = 1460) := by omega
  omega

/-- The days before a year, by the place of the year in its four hundred years. -/
theorem daysBefore_eq (era : Int) (bounds : century ≤ 3 ∧ span ≤ 24 ∧ single ≤ 3) :
    daysBefore (400 * era + (100 * century + 4 * span + single : Nat)) =
      146097 * era + (36524 * century + 1461 * span + 365 * single : Nat) := by
  rw [daysBefore]
  omega

/-- A year with a 366th day ends with a 29th of February. -/
theorem isLeap_of_last (era : Int) (lastOfSpan : single = 3) (lastOfCentury : span = 24 → century = 3)
    (bounds : century ≤ 3 ∧ span ≤ 24) :
    isLeap (400 * era + (100 * century + 4 * span + single : Nat) + 1) = true := by
  rw [isLeap, Bool.and_eq_true, Bool.or_eq_true, beq_iff_eq, bne_iff_ne, beq_iff_eq]
  omega

end

/-! ## Months -/

/-- The month of a day of the year, counted from March. -/
theorem month_of_day {inYear month : Nat} (within : inYear ≤ 365)
    (isMonth : month = (5 * inYear + 2) / 153) :
    month ≤ 11 ∧ monthStart month ≤ inYear ∧ inYear < monthStart (month + 1) := by
  rw [monthStart, monthStart]
  omega

/-- The months from March to January have their standard lengths. -/
theorem monthLength {month : Nat} (within : month < 11) (year : Int) :
    monthStart (month + 1) - monthStart month =
      daysIn year (if month < 10 then month + 3 else month - 9) := by
  match month with
  | 0 | 1 | 2 | 3 | 4 | 5 | 6 | 7 | 8 | 9 | 10 => rfl

/-! ## Dates -/

/-- **The parts of a day**: its four hundred years, its year in them, and its day in the
year, from which its date is made. -/
theorem exists_parts (number : Int) :
    ∃ (era : Int) (century span single inYear : Nat),
      number + epochDay =
        146097 * era + (36524 * century + 1461 * span + 365 * single + inYear : Nat) ∧
      (century ≤ 3 ∧ span ≤ 24 ∧ single ≤ 3 ∧ inYear ≤ 365) ∧
      (inYear = 365 → single = 3 ∧ (span = 24 → century = 3)) ∧
      ofDayNumber number =
        if (5 * inYear + 2) / 153 < 10 then
          ⟨400 * era + (100 * century + 4 * span + single : Nat), (5 * inYear + 2) / 153 + 3,
            inYear - monthStart ((5 * inYear + 2) / 153) + 1⟩
        else
          ⟨400 * era + (100 * century + 4 * span + single : Nat) + 1, (5 * inYear + 2) / 153 - 9,
            inYear - monthStart ((5 * inYear + 2) / 153) + 1⟩ := by
  have within : ((number + epochDay) % 146097).toNat < 146097 := by omega
  obtain ⟨sum, bounds, last⟩ := place_eq within rfl rfl rfl rfl rfl rfl
  refine ⟨(number + epochDay) / 146097, _, _, _, _, ?_, bounds, last, rfl⟩
  rw [← sum]
  omega

theorem exists_mk {year : Int} {month day : Nat} :
    (⟨year, month, day⟩ : Date).Exists ↔
      1 ≤ month ∧ month ≤ 12 ∧ 1 ≤ day ∧ day ≤ daysIn year month := Iff.rfl

/-- **The calendar has the date of every day.** -/
theorem exists_ofDayNumber (number : Int) : (ofDayNumber number).Exists := by
  obtain ⟨era, century, span, single, inYear, -, bounds, last, same⟩ := exists_parts number
  obtain ⟨atMost, from_, before⟩ := month_of_day bounds.2.2.2 rfl
  rw [same]
  revert atMost from_ before
  generalize (5 * inYear + 2) / 153 = month
  intro atMost from_ before
  by_cases february : month = 11
  · subst february
    have start : monthStart 11 = 337 := rfl
    rw [if_neg (by decide), start]
    refine exists_mk.mpr ⟨by omega, by omega, by omega, ?_⟩
    rw [daysIn, if_pos rfl]
    by_cases leapDay : inYear = 365
    · obtain ⟨lastOfSpan, lastOfCentury⟩ := last leapDay
      rw [isLeap_of_last era lastOfSpan lastOfCentury ⟨bounds.1, bounds.2.1⟩, if_pos rfl]
      omega
    · split <;> omega
  · have length := monthLength (show month < 11 by omega)
    by_cases early : month < 10
    · simp only [if_pos early] at length ⊢
      refine exists_mk.mpr ⟨by omega, by omega, by omega, ?_⟩
      rw [← length]
      omega
    · simp only [if_neg early] at length ⊢
      refine exists_mk.mpr ⟨by omega, by omega, by omega, ?_⟩
      rw [← length]
      omega

/-- **Counting the days of the date of a day gives the day.** -/
theorem dayNumber_ofDayNumber (number : Int) : dayNumber (ofDayNumber number) = number := by
  obtain ⟨era, century, span, single, inYear, sum, bounds, -, same⟩ := exists_parts number
  obtain ⟨atMost, from_, before⟩ := month_of_day bounds.2.2.2 rfl
  have years := daysBefore_eq era ⟨bounds.1, bounds.2.1, bounds.2.2.1⟩
  rw [same]
  revert atMost from_ before
  generalize (5 * inYear + 2) / 153 = month
  intro atMost from_ before
  by_cases late : month < 10
  · rw [if_pos late, dayNumber, if_pos (by show 3 ≤ month + 3; omega)]
    show daysBefore _ + (monthStart (month + 3 - 3) : Int) +
      ((inYear - monthStart month + 1 - 1 : Nat) : Int) - epochDay = number
    rw [years, Nat.add_sub_cancel]
    omega
  · rw [if_neg late, dayNumber, if_neg (by show ¬ 3 ≤ month - 9; omega)]
    show daysBefore (_ + 1 - 1) + (monthStart (month - 9 + 9) : Int) +
      ((inYear - monthStart month + 1 - 1 : Nat) : Int) - epochDay = number
    rw [Int.add_sub_cancel, years, Nat.sub_add_cancel (by omega)]
    omega

end Date

end ChatCodec

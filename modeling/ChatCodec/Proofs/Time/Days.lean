import ChatCodec.Proofs.Time.Calendar

/-!
# Days follow one another

Numbering the days is right if the first of every month has the number behind the last day of the
month before it (`Date.dayNumber_month`, `Date.dayNumber_year`); for then each day has the number
behind the day before it (`Date.dayNumber_next`), and 1970-01-01 has the number 0.

It follows that a year has the numbers from its first of January up to the next one
(`Date.newYear_le`, `Date.lt_newYear`), so that the year of a day can be told from its number alone
(`Date.le_year_iff`), and that no two dates have one number (`Date.ofDayNumber_dayNumber`).
-/

namespace ChatCodec

set_option autoImplicit false

namespace Date

/-! ## Months and years -/

section

variable {year : Int} {month day : Nat}

/-- From March on, the days are those of the year that begins in this March. -/
theorem dayNumber_of_le (late : 3 ≤ month) :
    dayNumber ⟨year, month, day⟩ =
      daysBefore year + monthStart (month - 3) + (day - 1 : Nat) - epochDay := by
  simp only [dayNumber, late, ↓reduceIte]

/-- January and February belong to the year that has begun in the March before. -/
theorem dayNumber_of_lt (early : month < 3) :
    dayNumber ⟨year, month, day⟩ =
      daysBefore (year - 1) + monthStart (month + 9) + (day - 1 : Nat) - epochDay := by
  simp only [dayNumber, Nat.not_le.mpr early, ↓reduceIte]

/-- The days of a month are numbered one after another. -/
theorem dayNumber_mk (year : Int) (month day : Nat) :
    dayNumber ⟨year, month, day⟩ = dayNumber ⟨year, month, 1⟩ + (day - 1 : Nat) := by
  simp only [dayNumber]
  omega

/-- A year that begins in March is as long as the February at its end makes it. -/
theorem daysBefore_eq_add (year : Int) :
    daysBefore year = daysBefore (year - 1) + 337 + daysIn year 2 := by
  simp only [daysBefore, daysIn, isLeap, Bool.and_eq_true, Bool.or_eq_true, beq_iff_eq, bne_iff_ne,
    ↓reduceIte]
  split <;> omega

/-- **A month begins behind the last day of the month before it.** -/
theorem dayNumber_month (from_ : 1 ≤ month) (before : month < 12) :
    dayNumber ⟨year, month + 1, 1⟩ = dayNumber ⟨year, month, 1⟩ + daysIn year month := by
  by_cases late : 3 ≤ month
  · have length := monthLength (show month - 3 < 11 by omega) year
    rw [if_pos (by omega), Nat.sub_add_cancel late, ← Nat.sub_add_comm late] at length
    have grows : monthStart (month - 3) ≤ monthStart (month + 1 - 3) := by
      simp only [monthStart]
      omega
    rw [dayNumber_of_le (by omega), dayNumber_of_le late]
    omega
  · by_cases february : month = 2
    · subst february
      have length := daysBefore_eq_add year
      have start : monthStart 11 = 337 := rfl
      have march : monthStart 0 = 0 := rfl
      rw [dayNumber_of_le (by omega), dayNumber_of_lt (by omega)]
      simp only [start, march, Nat.reduceAdd, Nat.reduceSub]
      omega
    · have january : month = 1 := by omega
      subst january
      have length : daysIn year 1 = 31 := rfl
      have starts : monthStart 11 = monthStart 10 + 31 := rfl
      rw [dayNumber_of_lt (by omega), dayNumber_of_lt (by omega), length]
      simp only [starts, Nat.reduceAdd]
      omega

/-- **A year begins behind the last day of the year before it.** -/
theorem dayNumber_year (year : Int) :
    dayNumber ⟨year + 1, 1, 1⟩ = dayNumber ⟨year, 12, 1⟩ + daysIn year 12 := by
  have length : daysIn year 12 = 31 := rfl
  have starts : monthStart 10 = monthStart 9 + 31 := rfl
  rw [dayNumber_of_lt (by omega), dayNumber_of_le (by omega), length, Int.add_sub_cancel]
  simp only [starts, Nat.reduceAdd, Nat.reduceSub]
  omega

end

/-! ## The next day -/

/-- The date of the next day. -/
def next (date : Date) : Date :=
  if date.day < daysIn date.year date.month then ⟨date.year, date.month, date.day + 1⟩
  else if date.month < 12 then ⟨date.year, date.month + 1, 1⟩
  else ⟨date.year + 1, 1, 1⟩

theorem one_le_daysIn (year : Int) (month : Nat) : 1 ≤ daysIn year month := by
  rw [daysIn]
  split
  · split <;> decide
  · split <;> decide

/-- The calendar goes on. -/
theorem exists_next {date : Date} (exists_ : date.Exists) : date.next.Exists := by
  obtain ⟨from_, upTo, first, last⟩ := exists_
  rw [next]
  split
  · exact exists_mk.mpr ⟨from_, upTo, by omega, by omega⟩
  · split
    · exact exists_mk.mpr ⟨by omega, by omega, Nat.le_refl 1, one_le_daysIn _ _⟩
    · exact exists_mk.mpr ⟨by omega, by omega, Nat.le_refl 1, one_le_daysIn _ _⟩

/-- **The next day has the next number.** -/
theorem dayNumber_next {date : Date} (exists_ : date.Exists) :
    date.next.dayNumber = date.dayNumber + 1 := by
  obtain ⟨year, month, day⟩ := date
  obtain ⟨from_, upTo, first, last⟩ := exists_mk.mp exists_
  rw [next, dayNumber_mk year month day]
  dsimp only
  split
  · rw [dayNumber_mk year month (day + 1)]
    omega
  · split
    · rw [dayNumber_month from_ (by omega)]
      omega
    · have december : month = 12 := by omega
      subst december
      rw [dayNumber_year]
      omega

example : dayNumber ⟨1970, 1, 1⟩ = 0 := rfl

/-! ## Years -/

/-- The number of the first of January. -/
def newYear (year : Int) : Int := dayNumber ⟨year, 1, 1⟩

theorem newYear_mono {year other : Int} (upTo : year ≤ other) : newYear year ≤ newYear other := by
  simp only [newYear, dayNumber_of_lt (show 1 < 3 by decide), daysBefore]
  omega

/-- Months of a year that lie before another one have their days before it. -/
theorem month_add_le (year : Int) {month other : Nat} (from_ : 1 ≤ month)
    (before : month < other) (upTo : other ≤ 12) :
    dayNumber ⟨year, month, 1⟩ + daysIn year month ≤ dayNumber ⟨year, other, 1⟩ := by
  induction other with
  | zero => omega
  | succ other ih =>
      rw [dayNumber_month (by omega) (by omega)]
      rcases Nat.lt_succ_iff_lt_or_eq.mp before with further | rfl
      · have := ih further (by omega)
        omega
      · exact Int.le_refl _

variable {date other : Date}

/-- The number of a day, by the first day of its month. -/
theorem dayNumber_eq_add (exists_ : date.Exists) :
    date.dayNumber = dayNumber ⟨date.year, date.month, 1⟩ + date.day - 1 := by
  have first := exists_.2.2.1
  have day := dayNumber_mk date.year date.month date.day
  show dayNumber ⟨date.year, date.month, date.day⟩ = _
  omega

/-- **A year begins with its first of January.** -/
theorem newYear_le (exists_ : date.Exists) : newYear date.year ≤ date.dayNumber := by
  rw [dayNumber_eq_add exists_, newYear]
  obtain ⟨from_, upTo, first, -⟩ := exists_
  rcases Nat.eq_or_lt_of_le from_ with january | later
  · rw [← january]
    omega
  · have := month_add_le date.year (Nat.le_refl 1) later upTo
    omega

/-- **A year ends before the next first of January.** -/
theorem lt_newYear (exists_ : date.Exists) : date.dayNumber < newYear (date.year + 1) := by
  rw [dayNumber_eq_add exists_, newYear, dayNumber_year]
  obtain ⟨from_, upTo, -, last⟩ := exists_
  rcases Nat.eq_or_lt_of_le upTo with december | earlier
  · rw [december] at last ⊢
    omega
  · have := month_add_le date.year from_ earlier (Nat.le_refl 12)
    omega

/-- Days of earlier years have smaller numbers. -/
theorem year_le (exists_ : date.Exists) (otherExists : other.Exists)
    (upTo : date.dayNumber ≤ other.dayNumber) : date.year ≤ other.year := by
  apply Int.not_lt.mp
  intro later
  have years := newYear_mono (show other.year + 1 ≤ date.year by omega)
  have begins := newYear_le exists_
  have ends := lt_newYear otherExists
  omega

/-- **The year of a day is told from its number.** -/
theorem le_year_iff {year number : Int} :
    year ≤ (ofDayNumber number).year ↔ newYear year ≤ number := by
  have exists_ := exists_ofDayNumber number
  have begins := newYear_le exists_
  have ends := lt_newYear exists_
  rw [dayNumber_ofDayNumber] at begins ends
  constructor
  · intro upTo
    exact Int.le_trans (newYear_mono upTo) begins
  · intro upTo
    apply Int.not_lt.mp
    intro later
    have years := newYear_mono (show (ofDayNumber number).year + 1 ≤ year by omega)
    omega

/-! ## Dates -/

/-- Days of earlier months have smaller numbers. -/
theorem month_le (exists_ : date.Exists) (otherExists : other.Exists)
    (sameYear : date.year = other.year) (upTo : date.dayNumber ≤ other.dayNumber) :
    date.month ≤ other.month := by
  apply Nat.not_lt.mp
  intro later
  have last := otherExists.2.2.2
  have first := exists_.2.2.1
  have months := month_add_le other.year otherExists.1 later exists_.2.1
  rw [dayNumber_eq_add exists_, dayNumber_eq_add otherExists, sameYear] at upTo
  omega

/-- **No two dates have one number.** -/
theorem dayNumber_injective (exists_ : date.Exists) (otherExists : other.Exists)
    (same : date.dayNumber = other.dayNumber) : date = other := by
  have year : date.year = other.year :=
    Int.le_antisymm (year_le exists_ otherExists (Int.le_of_eq same))
      (year_le otherExists exists_ (Int.le_of_eq same.symm))
  have month : date.month = other.month :=
    Nat.le_antisymm (month_le exists_ otherExists year (Int.le_of_eq same))
      (month_le otherExists exists_ year.symm (Int.le_of_eq same.symm))
  rw [dayNumber_eq_add exists_, dayNumber_eq_add otherExists, year, month] at same
  have day : date.day = other.day := by omega
  cases date
  cases other
  simp_all only

/-- **Finding the date of the day of a date gives the date.** -/
theorem ofDayNumber_dayNumber (exists_ : date.Exists) : ofDayNumber date.dayNumber = date :=
  dayNumber_injective (exists_ofDayNumber _) exists_ (dayNumber_ofDayNumber _)

end Date

end ChatCodec

import Mathlib.Data.Prod.Lex
import Mathlib.Tactic.IntervalCases
import Http11.Date
import Http11.Lib.Calendar

/-! Dates are ordered as the instants that they denote. -/

namespace Http11

/-- A month has as many days as in the calendar. -/
theorem toNat_maxDayInMonth {month : UInt8} (valid : 1 ≤ month ∧ month ≤ 12) (year : UInt16) :
    (maxDayInMonth month year).toNat = Calendar.monthLength year.toNat month.toNat := by
  have leap : (year % 4 = 0 ∧ (year % 100 ≠ 0 ∨ year % 400 = 0)) ↔ Calendar.IsLeap year.toNat := by
    simp only [Calendar.IsLeap, ← UInt16.toNat_inj, ne_eq, UInt16.toNat_mod, UInt16.toNat_zero,
      UInt16.reduceToNat]
  -- Every month is one of twelve.
  obtain ⟨low, high⟩ := valid
  rw [UInt8.le_iff_toNat_le] at low high
  have one : (1 : UInt8).toNat = 1 := rfl
  have twelve : (12 : UInt8).toNat = 12 := rfl
  rw [one] at low
  rw [twelve] at high
  have named : month = UInt8.ofNat month.toNat := UInt8.ofNat_toNat.symm
  generalize month.toNat = number at low high named
  subst named
  unfold maxDayInMonth Calendar.monthLength
  simp only [leap]
  interval_cases number <;> simp
  split <;> rfl

namespace HttpDate

/-- The numbers of a date are a day of the calendar. -/
theorem isDate (date : HttpDate) :
    Calendar.IsDate date.year.toNat date.month.toNat date.day.toNat where
  monthOfYear := date.valid.monthOfYear
  dayOfMonth := by
    obtain ⟨least, most⟩ := date.valid.dayOfMonth
    rw [UInt8.le_iff_toNat_le, toNat_maxDayInMonth date.valid.monthOfYear] at most
    exact ⟨least, most⟩

/-- The number of minutes between the beginning of the calendar and that of the minute of a date. -/
def minuteNumber (date : HttpDate) : ℕ :=
  (Calendar.dayNumber date.year.toNat date.month.toNat date.day.toNat * 24 + date.hour.toNat) * 60 +
    date.minute.toNat

/-- The instant that a date denotes, a leap second being the last one of its minute. -/
def instant (date : HttpDate) : ℕ ×ₗ ℕ := toLex (date.minuteNumber, date.second.toNat)

/-- Two dates with the same numbers, which may differ in the day of the week. -/
def SameTime (date other : HttpDate) : Prop :=
  date.year = other.year ∧ date.month = other.month ∧ date.day = other.day ∧
    date.hour = other.hour ∧ date.minute = other.minute ∧ date.second = other.second

/-- A date is the same if its numbers and its day of the week are. -/
theorem eq_iff (date other : HttpDate) :
    date = other ↔ date.SameTime other ∧ date.dayOfWeek = other.dayOfWeek := by
  constructor
  · -- All fields together are the date.
    rintro rfl
    exact ⟨⟨rfl, rfl, rfl, rfl, rfl, rfl⟩, rfl⟩
  · obtain ⟨_, _, _, _, _, _, _, _⟩ := date
    obtain ⟨_, _, _, _, _, _, _, _⟩ := other
    rintro ⟨⟨rfl, rfl, rfl, rfl, rfl, rfl⟩, rfl⟩
    rfl

section Instants

variable (date other : HttpDate)

/-- Days are numbered in the order of their numbers, and hours and minutes are too few to reach into
the next day or hour. -/
theorem minuteNumber_lt : date.minuteNumber < other.minuteNumber ↔
    date.year.toNat < other.year.toNat ∨ date.year.toNat = other.year.toNat ∧
      (date.month.toNat < other.month.toNat ∨ date.month.toNat = other.month.toNat ∧
        (date.day.toNat < other.day.toNat ∨ date.day.toNat = other.day.toNat ∧
          (date.hour.toNat < other.hour.toNat ∨ date.hour.toNat = other.hour.toNat ∧
            date.minute.toNat < other.minute.toNat))) := by
  -- Hours and minutes are below their bounds, so the digits do not carry.
  have days := date.isDate.dayNumber_lt_iff other.isDate
  have reversed := other.isDate.dayNumber_lt_iff date.isDate
  have hour : date.hour.toNat ≤ 23 := UInt8.le_iff_toNat_le.mp date.valid.hourOfDay
  have otherHour : other.hour.toNat ≤ 23 := UInt8.le_iff_toNat_le.mp other.valid.hourOfDay
  have minute : date.minute.toNat ≤ 59 := UInt8.le_iff_toNat_le.mp date.valid.minuteOfHour
  have otherMinute : other.minute.toNat ≤ 59 := UInt8.le_iff_toNat_le.mp other.valid.minuteOfHour
  unfold minuteNumber
  generalize Calendar.dayNumber _ _ _ = first at *
  generalize Calendar.dayNumber _ _ _ = second at *
  omega

/-- A date is less than another exactly when it denotes an earlier instant. -/
theorem cmp_eq_lt : date.cmp other = .lt ↔ date.instant < other.instant := by
  have before := minuteNumber_lt date other
  have behind := minuteNumber_lt other date
  rw [instant, instant, Prod.Lex.toLex_lt_toLex]
  simp only [cmp, Ordering.then_eq_lt, Std.compare_eq_lt, Std.compare_eq_iff_eq,
    UInt8.lt_iff_toNat_lt, UInt16.lt_iff_toNat_lt, ← UInt8.toNat_inj, ← UInt16.toNat_inj]
  omega

/-- Two dates denote the same instant exactly when their numbers are the same. -/
theorem instant_eq : date.instant = other.instant ↔ date.SameTime other := by
  constructor
  · intro same
    have both := congrArg ofLex same
    simp only [instant, ofLex_toLex, Prod.mk.injEq] at both
    -- Neither minute is before the other one.
    have before := minuteNumber_lt date other
    have behind := minuteNumber_lt other date
    simp only [SameTime, ← UInt8.toNat_inj, ← UInt16.toNat_inj]
    omega
  · intro ⟨year, month, day, hour, minute, second⟩
    rw [instant, instant, minuteNumber, minuteNumber, year, month, day, hour, minute, second]

/-- Two dates are compared as equal exactly when their numbers are the same. -/
theorem cmp_eq_eq : date.cmp other = .eq ↔ date.SameTime other := by
  simp only [cmp, Ordering.then_eq_eq, Std.compare_eq_iff_eq, SameTime]

/-- Dates are compared as the instants that they denote. -/
theorem cmp_eq : date.cmp other = compare date.instant other.instant := by
  cases result : compare date.instant other.instant with
  | lt => exact (cmp_eq_lt date other).mpr (compare_lt_iff_lt.mp result)
  | eq =>
    rw [cmp_eq_eq, ← instant_eq]
    exact compare_eq_iff_eq.mp result
  | gt =>
    -- Nothing else is left.
    have less := not_lt.mpr (compare_gt_iff_gt.mp result).le
    have different := (compare_gt_iff_gt.mp result).ne'
    rw [← cmp_eq_lt] at less
    rw [ne_eq, instant_eq, ← cmp_eq_eq] at different
    cases found : date.cmp other with
    | lt => exact absurd found less
    | eq => exact absurd found different
    | gt => rfl

end Instants

/-- What is asked of an order of dates, of any three of them. -/
structure IsLawful (first second third : HttpDate) : Prop where
  /-- Comparing the other way round reverses the result. -/
  antisymmetric : second.cmp first = (first.cmp second).swap
  /-- A result that two comparisons share is that of the outer dates. -/
  transitive : ∀ result, first.cmp second = result → second.cmp third = result →
    first.cmp third = result
  /-- What is not behind a date is not behind one that the date is not behind. -/
  chained : (first.cmp second).isLE = true → (second.cmp third).isLE = true →
    (first.cmp third).isLE = true
  /-- Dates compare as equal exactly when they are the same. -/
  equal : first.cmp second = .eq ↔ first = second
  /-- A date is less than another exactly when it denotes an earlier instant. -/
  earlier : first.cmp second = .lt ↔ first.instant < second.instant

/-- The order of dates is lawful exactly where those with the same numbers have the same day of the
week. -/
theorem dates_ordered (first second third : HttpDate) :
    IsLawful first second third ↔
      (first.SameTime second → first.dayOfWeek = second.dayOfWeek) := by
  constructor
  · -- Equal by comparison means equal, and then the weekdays are the same.
    intro lawful same
    rw [← cmp_eq_eq, lawful.equal] at same
    rw [same]
  · -- The comparison is one of numbers, and lawful but for the weekday.
    intro weekdays
    refine ⟨?_, ?_, ?_, ?_, cmp_eq_lt first second⟩
    · rw [cmp_eq, cmp_eq]
      exact Std.OrientedCmp.eq_swap
    · intro result here there
      rw [cmp_eq, compare_iff] at here there ⊢
      cases result with
      | lt => exact lt_trans here there
      | eq => exact Eq.trans here there
      | gt => exact lt_trans there here
    · rw [cmp_eq, cmp_eq, cmp_eq]
      exact Std.TransCmp.isLE_trans
    · -- Only equality needs the weekdays.
      rw [cmp_eq_eq, eq_iff]
      exact ⟨fun same => ⟨same, weekdays same⟩, And.left⟩

/-- A Sunday and a Monday with the same numbers are both made and compare as equal. -/
theorem weekday_uncompared : ∃ sunday monday : HttpDate,
    new .sunday 6 11 1994 8 49 37 = .ok sunday ∧ new .monday 6 11 1994 8 49 37 = .ok monday ∧
      sunday.cmp monday = .eq ∧ sunday ≠ monday ∧ ¬ IsLawful sunday monday monday := by
  have valid : IsDateTime 6 11 1994 8 49 37 := by decide
  -- The comparison leaves the weekday out.
  have compared : (⟨.sunday, 6, 11, 1994, 8, 49, 37, valid⟩ : HttpDate).cmp
      ⟨.monday, 6, 11, 1994, 8, 49, 37, valid⟩ = .eq := by rfl
  have different : (⟨.sunday, 6, 11, 1994, 8, 49, 37, valid⟩ : HttpDate) ≠
      ⟨.monday, 6, 11, 1994, 8, 49, 37, valid⟩ := by
    intro same
    cases congrArg dayOfWeek same
  exact ⟨_, _, rfl, rfl, compared, different, fun lawful => different (lawful.equal.mp compared)⟩

end HttpDate

end Http11

import Mathlib.Algebra.BigOperators.Group.Finset.Basic
import Mathlib.Algebra.Order.BigOperators.Group.Finset
import Mathlib.Algebra.Order.Group.Nat

/-! The proleptic Gregorian calendar: days as numbers, in the order of years, months and days. -/

namespace Calendar

/-- Where a block begins, of blocks of some sizes that lie one behind the other. -/
def offset (size : ℕ → ℕ) (block : ℕ) : ℕ := ∑ before ∈ Finset.range block, size before

/-- A block ends before later ones begin. -/
theorem offset_add_le (size : ℕ → ℕ) {first second : ℕ} (before : first < second) :
    offset size first + size first ≤ offset size second := by
  rw [offset, ← Finset.sum_range_succ]
  exact Finset.sum_le_sum_of_subset (Finset.range_mono before)

/-- Places in blocks are in the order of their blocks, and of the places within one. -/
theorem offset_lt_iff (size : ℕ → ℕ) {first second place other : ℕ} (inside : place < size first)
    (within : other < size second) : offset size first + place < offset size second + other ↔
      first < second ∨ first = second ∧ place < other := by
  -- Blocks do not overlap, so only places within one block are compared.
  rcases Nat.lt_trichotomy first second with before | same | behind
  · have ends := offset_add_le size before
    exact iff_of_true (by omega) (.inl before)
  · subst same
    omega
  · have ends := offset_add_le size behind
    exact iff_of_false (by omega) (by omega)

/-- A leap year. -/
def IsLeap (year : ℕ) : Prop := year % 4 = 0 ∧ (year % 100 ≠ 0 ∨ year % 400 = 0)

instance (year : ℕ) : Decidable (IsLeap year) :=
  inferInstanceAs (Decidable (year % 4 = 0 ∧ (year % 100 ≠ 0 ∨ year % 400 = 0)))

/-- The number of days of a month, the months being counted from one on. -/
def monthLength (year month : ℕ) : ℕ :=
  if month = 2 then if IsLeap year then 29 else 28
  else if month ∈ [4, 6, 9, 11] then 30
  else 31

/-- A day of the calendar. -/
structure IsDate (year month day : ℕ) : Prop where
  /-- There are twelve months. -/
  monthOfYear : 1 ≤ month ∧ month ≤ 12
  /-- The month has such a day. -/
  dayOfMonth : 1 ≤ day ∧ day ≤ monthLength year month

/-- The number of days of a year before a day of it. -/
def dayOfYear (year month day : ℕ) : ℕ :=
  offset (fun before => monthLength year (before + 1)) (month - 1) + (day - 1)

/-- The number of days of a year. -/
def yearLength (year : ℕ) : ℕ := offset (fun before => monthLength year (before + 1)) 12

/-- The number of days since the year zero began. -/
def dayNumber (year month day : ℕ) : ℕ := offset yearLength year + dayOfYear year month day

namespace IsDate

variable {year month day : ℕ}

/-- A day is inside of its month. -/
theorem place (date : IsDate year month day) : day - 1 < monthLength year (month - 1 + 1) := by
  obtain ⟨⟨first, _⟩, least, most⟩ := date
  rw [Nat.sub_add_cancel first]
  omega

/-- A day is inside of its year. -/
theorem dayOfYear_lt (date : IsDate year month day) : dayOfYear year month day < yearLength year := by
  have inside := date.place
  have before : month - 1 < 12 := by
    have last := date.monthOfYear.2
    omega
  have ends := offset_add_le (fun before => monthLength year (before + 1)) before
  unfold dayOfYear yearLength
  omega

/-- Days are numbered in the order of their years, of their months and of the days of these. -/
theorem dayNumber_lt_iff (date : IsDate year month day) {otherYear otherMonth otherDay : ℕ}
    (other : IsDate otherYear otherMonth otherDay) :
    dayNumber year month day < dayNumber otherYear otherMonth otherDay ↔
      year < otherYear ∨ year = otherYear ∧
        (month < otherMonth ∨ month = otherMonth ∧ day < otherDay) := by
  unfold dayNumber
  rw [offset_lt_iff yearLength date.dayOfYear_lt other.dayOfYear_lt]
  refine or_congr_right (and_congr_right fun same => ?_)
  subst same
  unfold dayOfYear
  rw [offset_lt_iff (fun before => monthLength year (before + 1)) date.place other.place]
  -- Months and days are counted from one on.
  have first := date.monthOfYear.1
  have second := other.monthOfYear.1
  have least := date.dayOfMonth.1
  have fewest := other.dayOfMonth.1
  omega

end IsDate

end Calendar

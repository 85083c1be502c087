import Http11.Proofs.Date
import Http11.Proofs.DateOrder
import Http11.ServerResponse

/-! The server writes the date of every instant, as the calendar has it. -/

namespace Http11

namespace Server

open Calendar

/-- Leap years are those of the calendar. -/
theorem isLeapYear_iff (year : Nat) : isLeapYear year = true ↔ IsLeap year := by
  simp only [isLeapYear, IsLeap, Bool.or_eq_true, Bool.and_eq_true, beq_iff_eq, bne_iff_ne]
  omega

/-- The months are as long as in the calendar. -/
theorem daysInMonths_eq (year : Nat) : daysInMonths year =
    (List.range' 0 12).map fun before => monthLength year (before + 1) := by
  simp [daysInMonths, monthLength, isLeapYear_iff, List.range']

/-- The years are as long as in the calendar. -/
theorem daysInYear_eq (year : Nat) : daysInYear year = yearLength year := by
  simp only [daysInYear, isLeapYear_iff, yearLength, offset, Finset.sum_range_succ,
    Finset.sum_range_zero, monthLength]
  by_cases leap : IsLeap year <;> simp [leap]

/-- Years that lie behind each other leave no gap. -/
theorem offset_succ (size : ℕ → ℕ) (block : ℕ) :
    offset size (block + 1) = offset size block + size block := Finset.sum_range_succ size block

/-- The loop over the years stops in the year in which the day lies. -/
theorem yearLoop_ends (year remaining : Nat) :
    offset yearLength (yearLoop.run (year, remaining)).1 + (yearLoop.run (year, remaining)).2 =
        offset yearLength year + remaining ∧
      (yearLoop.run (year, remaining)).2 < yearLength (yearLoop.run (year, remaining)).1 ∧
      year ≤ (yearLoop.run (year, remaining)).1 := by
  -- Every pass moves the days of one year from what remains to what lies behind.
  refine yearLoop.run_rule (motive := fun state result =>
    offset yearLength result.1 + result.2 = offset yearLength state.1 + state.2 ∧
      result.2 < yearLength result.1 ∧ state.1 ≤ result.1) ?_ ?_ (year, remaining)
  · rintro ⟨year, remaining⟩ result passed
    simp only [yearLoop, daysInYear_eq] at passed
    split at passed <;> cases passed
    exact ⟨rfl, by assumption, le_rfl⟩
  · rintro ⟨year, remaining⟩ next result passed ⟨place, inside, later⟩
    simp only [yearLoop, daysInYear_eq] at passed
    split at passed <;> cases passed
    dsimp only at place later ⊢
    rw [offset_succ] at place
    exact ⟨by omega, inside, by omega⟩

/-- The month is the block in which the day lies. -/
theorem monthOf_ends (size : ℕ → ℕ) (count index remaining : Nat)
    (inside : offset size index + remaining < offset size (index + count)) :
    offset size (monthOf index ((List.range' index count).map size) remaining).1 +
        (monthOf index ((List.range' index count).map size) remaining).2 =
          offset size index + remaining ∧
      (monthOf index ((List.range' index count).map size) remaining).2 <
        size (monthOf index ((List.range' index count).map size) remaining).1 ∧
      (monthOf index ((List.range' index count).map size) remaining).1 < index + count := by
  induction count generalizing index remaining with
  | zero =>
    rw [Nat.add_zero] at inside
    omega
  | succ count ih =>
    rw [List.range'_succ, List.map_cons, monthOf]
    by_cases here : remaining < size index
    · rw [if_pos here]
      exact ⟨rfl, here, by dsimp only; omega⟩
    · -- The days of this month are over.
      rw [if_neg here]
      have onward := ih (index + 1) (remaining - size index) (by
        rw [offset_succ, show index + 1 + count = index + (count + 1) by omega]
        omega)
      obtain ⟨place, within, bounded⟩ := onward
      rw [offset_succ] at place
      exact ⟨by omega, within, by omega⟩

/-- Every number of a day of the week names one. -/
theorem dayNames_named {number : Nat} (few : number < 7) :
    ∃ day : DayOfWeek, dayNames[number]?.getD [] = day.shortName := by
  interval_cases number
  · exact ⟨.sunday, rfl⟩
  · exact ⟨.monday, rfl⟩
  · exact ⟨.tuesday, rfl⟩
  · exact ⟨.wednesday, rfl⟩
  · exact ⟨.thursday, rfl⟩
  · exact ⟨.friday, rfl⟩
  · exact ⟨.saturday, rfl⟩

/-- The names of the months are those of dates. -/
theorem monthNames_named {before : Nat} (few : before < 12) :
    monthNames[before]?.getD [] = monthName (UInt8.ofNat (before + 1)) := by
  interval_cases before <;> rfl

/-- The seconds between the beginning of the calendar and an instant after 1970 began. -/
def calendarSeconds (timestamp : Nat) : Nat := dayNumber 1970 1 1 * 86400 + timestamp

/-- The day of the week of a day: the calendar began with a Saturday. -/
def weekday (number : Nat) : Nat := (number + 6) % 7

/-- The number of the day with which 1970 began. -/
theorem dayNumber_epoch : dayNumber 1970 1 1 = 719528 := by decide +kernel

/-- The loops come to the year, the month and the day of the calendar. -/
theorem loops_place (first days : Nat) : ∃ year remaining before rest,
    yearLoop.run (first, days) = (year, remaining) ∧
    monthOf 0 (daysInMonths year) remaining = (before, rest) ∧
    first ≤ year ∧ before < 12 ∧ rest < monthLength year (before + 1) ∧
    dayNumber year (before + 1) (rest + 1) = dayNumber first 1 1 + days := by
  obtain ⟨place, inside, later⟩ := yearLoop_ends first days
  rcases stopped : yearLoop.run (first, days) with ⟨year, remaining⟩
  rw [stopped] at place inside later
  have blocks := monthOf_ends (fun before => monthLength year (before + 1)) 12 0 remaining (by
    simpa [offset, yearLength] using inside)
  rw [← daysInMonths_eq] at blocks
  rcases found : monthOf 0 (daysInMonths year) remaining with ⟨before, rest⟩
  rw [found] at blocks
  obtain ⟨blocked, within, bounded⟩ := blocks
  refine ⟨year, remaining, before, rest, rfl, found, later, by simpa using bounded, within, ?_⟩
  -- No month is before the first one.
  have nothing : ∀ size : ℕ → ℕ, offset size 0 = 0 := fun _ => rfl
  simp only [nothing, Nat.zero_add] at blocked
  simp only [dayNumber, dayOfYear, Nat.add_sub_cancel, Nat.sub_self, nothing, Nat.add_zero]
  rw [blocked]
  exact place

/-- A year begins behind the years before it. -/
theorem dayNumber_first (year : ℕ) : dayNumber year 1 1 = offset yearLength year := by
  simp [dayNumber, dayOfYear, offset]

/-- No year has fewer days than 365. -/
theorem le_offset_yearLength (year : ℕ) : year * 365 ≤ offset yearLength year := by
  have least : ∀ before ∈ Finset.range year, 365 ≤ yearLength before := by
    intro before _
    rw [← daysInYear_eq, daysInYear]
    split <;> decide
  simpa [offset] using Finset.card_nsmul_le_sum _ _ _ least

/-- Days before a year are days of earlier years. -/
theorem year_lt_of_dayNumber {year month day bound : ℕ}
    (before : dayNumber year month day < dayNumber bound 1 1) : year < bound := by
  -- A later year begins behind all days of this one, and the same year with its first day.
  by_contra late
  rw [dayNumber_first, dayNumber] at before
  rcases Nat.lt_or_eq_of_le (Nat.not_lt.mp late) with later | same
  · have ends := offset_add_le yearLength later
    omega
  · subst same
    omega

/--
The server writes the date of every instant up to the year 65535.

What it writes is a date of the protocol, which denotes that instant and names the right day of the
week.
-/
theorem formatHttpDate_reads (timestamp : Nat)
    (early : calendarSeconds timestamp < dayNumber 65536 1 1 * 86400) :
    ∃ date : HttpDate, HttpDate.parse (formatHttpDate timestamp) = .ok date ∧
      date.minuteNumber * 60 + date.second.toNat = calendarSeconds timestamp ∧
      dayNames[weekday (dayNumber date.year.toNat date.month.toNat date.day.toNat)]? =
        some date.dayOfWeek.shortName := by
  obtain ⟨year, remaining, before, rest, looped, found, later, twelve, inside, number⟩ :=
    loops_place 1970 (timestamp / 86400)
  have bounded : year < 65536 := by
    have earlier : dayNumber year (before + 1) (rest + 1) < dayNumber 65536 1 1 := by
      rw [number]
      unfold calendarSeconds at early
      -- The two numbers are not to be computed.
      generalize dayNumber 65536 1 1 = last at early ⊢
      generalize dayNumber 1970 1 1 = first at early ⊢
      omega
    exact year_lt_of_dayNumber earlier
  have longest : monthLength year (before + 1) ≤ 31 := by
    unfold monthLength
    split
    · split <;> omega
    · split <;> omega
  have few : (timestamp / 86400 + 4) % 7 < 7 := Nat.mod_lt _ (by decide)
  obtain ⟨dayOfWeek, named⟩ := dayNames_named few
  -- All numbers fit their types.
  have yearNumber : (UInt16.ofNat year).toNat = year := UInt16.toNat_ofNat_of_lt' bounded
  have monthNumber : (UInt8.ofNat (before + 1)).toNat = before + 1 :=
    UInt8.toNat_ofNat_of_lt' (by change _ < 256; omega)
  have dayOfMonth : (UInt8.ofNat (rest + 1)).toNat = rest + 1 :=
    UInt8.toNat_ofNat_of_lt' (by change _ < 256; omega)
  have hourNumber : (UInt8.ofNat (timestamp % 86400 / 3600)).toNat = timestamp % 86400 / 3600 :=
    UInt8.toNat_ofNat_of_lt' (by change _ < 256; omega)
  have minuteOfHour : (UInt8.ofNat (timestamp % 86400 % 3600 / 60)).toNat =
      timestamp % 86400 % 3600 / 60 := UInt8.toNat_ofNat_of_lt' (by change _ < 256; omega)
  have secondOfMinute : (UInt8.ofNat (timestamp % 86400 % 60)).toNat = timestamp % 86400 % 60 :=
    UInt8.toNat_ofNat_of_lt' (by change _ < 256; omega)
  have months : (1 : UInt8) ≤ UInt8.ofNat (before + 1) ∧ UInt8.ofNat (before + 1) ≤ 12 := by
    rw [UInt8.le_iff_toNat_le, UInt8.le_iff_toNat_le, monthNumber]
    change 1 ≤ _ ∧ _ ≤ 12
    omega
  have valid : IsDateTime (UInt8.ofNat (rest + 1)) (UInt8.ofNat (before + 1)) (UInt16.ofNat year)
      (UInt8.ofNat (timestamp % 86400 / 3600)) (UInt8.ofNat (timestamp % 86400 % 3600 / 60))
      (UInt8.ofNat (timestamp % 86400 % 60)) :=
    { monthOfYear := months
      dayOfMonth := by
        rw [UInt8.le_iff_toNat_le, UInt8.le_iff_toNat_le, toNat_maxDayInMonth months, dayOfMonth,
          yearNumber, monthNumber]
        change 1 ≤ _ ∧ _
        omega
      anno := by
        rw [UInt16.le_iff_toNat_le, yearNumber]
        change 1 ≤ _
        omega
      hourOfDay := by
        rw [UInt8.le_iff_toNat_le, hourNumber]
        change _ ≤ 23
        omega
      minuteOfHour := by
        rw [UInt8.le_iff_toNat_le, minuteOfHour]
        change _ ≤ 59
        omega
      secondOfMinute := by
        rw [UInt8.le_iff_toNat_le, secondOfMinute]
        change _ ≤ 60
        omega }
  have wide : Numerals.writePadded 10 4 year = Numerals.write 10 year := by
    have late : 10 ^ 3 ≤ year := by omega
    have digits := Numerals.lt_write_length (by decide) late
    rw [Numerals.writePadded, Nat.sub_eq_zero_of_le (by omega), List.replicate_zero, List.nil_append]
  have written : formatHttpDate timestamp = HttpDate.display ⟨dayOfWeek, _, _, _, _, _, _, valid⟩ := by
    simp only [formatHttpDate, HttpDate.display, looped, found, named, monthNames_named twelve,
      yearNumber, dayOfMonth, hourNumber, minuteOfHour, secondOfMinute, wide]
  refine ⟨⟨dayOfWeek, _, _, _, _, _, _, valid⟩, ?_, ?_, ?_⟩
  · rw [written]
    exact HttpDate.parse_display _
  · unfold HttpDate.minuteNumber calendarSeconds
    dsimp only
    rw [yearNumber, monthNumber, dayOfMonth, hourNumber, minuteOfHour, secondOfMinute, number]
    generalize dayNumber 1970 1 1 = first
    omega
  · dsimp only
    rw [yearNumber, monthNumber, dayOfMonth, number, dayNumber_epoch]
    -- Both count the days of the week from the same day on.
    have same : weekday (719528 + timestamp / 86400) = (timestamp / 86400 + 4) % 7 := by
      unfold weekday
      omega
    rw [same]
    rw [List.getElem?_eq_getElem (by change _ < 7; omega), Option.getD_some] at named
    rw [List.getElem?_eq_getElem (by change _ < 7; omega), named]

/-- The date of an instant in the year 1994. -/
theorem formatHttpDate_reads_sunday : calendarSeconds 784111777 < dayNumber 65536 1 1 * 86400 ∧
    ∃ date : HttpDate, HttpDate.parse (formatHttpDate 784111777) = .ok date ∧
      date.minuteNumber * 60 + date.second.toNat = calendarSeconds 784111777 ∧
      dayNames[weekday (dayNumber date.year.toNat date.month.toNat date.day.toNat)]? =
        some date.dayOfWeek.shortName := by
  have early : calendarSeconds 784111777 < dayNumber 65536 1 1 * 86400 := by
    have ends := le_offset_yearLength 65536
    rw [calendarSeconds, dayNumber_epoch, dayNumber_first]
    generalize offset yearLength 65536 = last at ends ⊢
    omega
  exact ⟨early, formatHttpDate_reads 784111777 early⟩

end Server

end Http11

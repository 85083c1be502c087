import Http11.Lib.Numerals
import Http11.Text

/-! Dates of the protocol in their three forms. -/

namespace Http11

/-- What is wrong with a date. -/
inductive DateError where
  /-- Nothing. -/
  | empty
  /-- The number of its parts. -/
  | invalidFormat
  /-- The name of the day. -/
  | invalidDayName
  /-- The day. -/
  | invalidDay
  /-- The month. -/
  | invalidMonth
  /-- The year. -/
  | invalidYear
  /-- It is of the form whose years need a reference. -/
  | rfc850Date
  /-- The hour. -/
  | invalidHour
  /-- The minute. -/
  | invalidMinute
  /-- The second. -/
  | invalidSecond
  /-- It is in another time zone. -/
  | notGmt
  deriving DecidableEq, Repr

/-- A day of the week. -/
inductive DayOfWeek where
  /-- Sunday. -/
  | sunday
  /-- Monday. -/
  | monday
  /-- Tuesday. -/
  | tuesday
  /-- Wednesday. -/
  | wednesday
  /-- Thursday. -/
  | thursday
  /-- Friday. -/
  | friday
  /-- Saturday. -/
  | saturday
  deriving DecidableEq, Repr

namespace DayOfWeek

/-- The short name of a day. -/
def shortName : DayOfWeek → Str
  | .sunday => "Sun".toList
  | .monday => "Mon".toList
  | .tuesday => "Tue".toList
  | .wednesday => "Wed".toList
  | .thursday => "Thu".toList
  | .friday => "Fri".toList
  | .saturday => "Sat".toList

/-- The day with a short or a long name. -/
def fromName (name : Str) : Option DayOfWeek :=
  if name = "Sun".toList || name = "Sunday".toList then some .sunday
  else if name = "Mon".toList || name = "Monday".toList then some .monday
  else if name = "Tue".toList || name = "Tuesday".toList then some .tuesday
  else if name = "Wed".toList || name = "Wednesday".toList then some .wednesday
  else if name = "Thu".toList || name = "Thursday".toList then some .thursday
  else if name = "Fri".toList || name = "Friday".toList then some .friday
  else if name = "Sat".toList || name = "Saturday".toList then some .saturday
  else none

end DayOfWeek

/-- The number of days of a month. -/
def maxDayInMonth (month : UInt8) (year : UInt16) : UInt8 :=
  if month ∈ [1, 3, 5, 7, 8, 10, 12] then 31
  else if month ∈ [4, 6, 9, 11] then 30
  else if month = 2 then
    if year % 4 = 0 ∧ (year % 100 ≠ 0 ∨ year % 400 = 0) then 29 else 28
  else 0

/-- Numbers that are a date and a time of the day. -/
structure IsDateTime (day month : UInt8) (year : UInt16) (hour minute second : UInt8) : Prop where
  /-- There are twelve months. -/
  monthOfYear : 1 ≤ month ∧ month ≤ 12
  /-- The month has such a day. -/
  dayOfMonth : 1 ≤ day ∧ day ≤ maxDayInMonth month year
  /-- There is no year zero. -/
  anno : 1 ≤ year
  /-- The day has such an hour. -/
  hourOfDay : hour ≤ 23
  /-- The hour has such a minute. -/
  minuteOfHour : minute ≤ 59
  /-- The minute has such a second, or a leap second. -/
  secondOfMinute : second ≤ 60

instance (day month : UInt8) (year : UInt16) (hour minute second : UInt8) :
    Decidable (IsDateTime day month year hour minute second) :=
  decidable_of_iff ((1 ≤ month ∧ month ≤ 12) ∧ (1 ≤ day ∧ day ≤ maxDayInMonth month year) ∧
      1 ≤ year ∧ hour ≤ 23 ∧ minute ≤ 59 ∧ second ≤ 60)
    ⟨fun ⟨months, days, anno, hours, minutes, seconds⟩ =>
      ⟨months, days, anno, hours, minutes, seconds⟩,
    fun ⟨months, days, anno, hours, minutes, seconds⟩ =>
      ⟨months, days, anno, hours, minutes, seconds⟩⟩

/-- A date. -/
structure HttpDate where
  /-- The day of the week, which need not be that of the date. -/
  dayOfWeek : DayOfWeek
  /-- The day of the month. -/
  day : UInt8
  /-- The month. -/
  month : UInt8
  /-- The year. -/
  year : UInt16
  /-- The hour. -/
  hour : UInt8
  /-- The minute. -/
  minute : UInt8
  /-- The second. -/
  second : UInt8
  /-- The numbers are a date and a time of the day. -/
  valid : IsDateTime day month year hour minute second
  deriving DecidableEq

/-- The words between white space. -/
def splitWhitespace (text : Str) : List Str :=
  (text.splitOnP isWhitespace).filter fun word => !word.isEmpty

/-- A decimal number of eight bits. -/
def parseU8 (text : Str) : Option UInt8 := (Numerals.read 10 255 text).map UInt8.ofNat

/-- The number of a month. -/
def parseMonth (name : Str) : Except DateError UInt8 :=
  if name = "Jan".toList then .ok 1
  else if name = "Feb".toList then .ok 2
  else if name = "Mar".toList then .ok 3
  else if name = "Apr".toList then .ok 4
  else if name = "May".toList then .ok 5
  else if name = "Jun".toList then .ok 6
  else if name = "Jul".toList then .ok 7
  else if name = "Aug".toList then .ok 8
  else if name = "Sep".toList then .ok 9
  else if name = "Oct".toList then .ok 10
  else if name = "Nov".toList then .ok 11
  else if name = "Dec".toList then .ok 12
  else .error .invalidMonth

/-- The name of a month. -/
def monthName (month : UInt8) : Str :=
  if month = 1 then "Jan".toList
  else if month = 2 then "Feb".toList
  else if month = 3 then "Mar".toList
  else if month = 4 then "Apr".toList
  else if month = 5 then "May".toList
  else if month = 6 then "Jun".toList
  else if month = 7 then "Jul".toList
  else if month = 8 then "Aug".toList
  else if month = 9 then "Sep".toList
  else if month = 10 then "Oct".toList
  else if month = 11 then "Nov".toList
  else if month = 12 then "Dec".toList
  else "???".toList

/-- The year with two last digits that is not far in the future, in the arithmetic of sixteen bits. -/
def interpretTwoDigitYear (twoDigit referenceYear : UInt16) : UInt16 :=
  let currentCentury := referenceYear / 100 * 100
  let candidate := currentCentury + twoDigit
  if candidate > referenceYear + 50 then candidate - 100 else candidate

/-- The hour, the minute and the second of a time. -/
def parseTime (text : Str) : Except DateError (UInt8 × UInt8 × UInt8) :=
  match text.splitOn ':' with
  | [hour, minute, second] =>
    match parseU8 hour with
    | none => .error .invalidHour
    | some hour => match parseU8 minute with
      | none => .error .invalidMinute
      | some minute => match parseU8 second with
        | none => .error .invalidSecond
        | some second =>
          if hour > 23 then .error .invalidHour
          else if minute > 59 then .error .invalidMinute
          -- A leap second is let through.
          else if second > 60 then .error .invalidSecond
          else .ok (hour, minute, second)
  | _ => .error .invalidFormat

namespace HttpDate

/-- The date of some numbers. -/
def new (dayOfWeek : DayOfWeek) (day month : UInt8) (year : UInt16) (hour minute second : UInt8) :
    Except DateError HttpDate :=
  if month_ok : 1 ≤ month ∧ month ≤ 12 then
    if day_ok : 1 ≤ day ∧ day ≤ maxDayInMonth month year then
      if year_ok : 1 ≤ year then
        if hour_ok : hour ≤ 23 then
          if minute_ok : minute ≤ 59 then
            if second_ok : second ≤ 60 then
              .ok {
                dayOfWeek, day, month, year, hour, minute, second
                valid := ⟨month_ok, day_ok, year_ok, hour_ok, minute_ok, second_ok⟩ }
            else .error .invalidSecond
          else .error .invalidMinute
        else .error .invalidHour
      else .error .invalidYear
    else .error .invalidDay
  else .error .invalidMonth

/-- The date in the preferred form, behind the name of the day. -/
def parseImfFixdate (dayName rest : Str) : Except DateError HttpDate :=
  match DayOfWeek.fromName dayName with
  | none => .error .invalidDayName
  | some dayOfWeek => match splitWhitespace rest with
    | [day, month, year, time, zone] =>
      match parseU8 day with
      | none => .error .invalidDay
      | some day => match parseMonth month with
        | .error error => .error error
        | .ok month => match parseU16 year with
          | none => .error .invalidYear
          | some year => match parseTime time with
            | .error error => .error error
            | .ok (hour, minute, second) =>
              if zone ≠ "GMT".toList then .error .notGmt
              else new dayOfWeek day month (UInt16.ofNat year) hour minute second
    | _ => .error .invalidFormat

/-- The date in the form with hyphens, behind the name of the day. -/
def parseRfc850Inner (dayName rest : Str) (referenceYear : UInt16) : Except DateError HttpDate :=
  match DayOfWeek.fromName dayName with
  | none => .error .invalidDayName
  | some dayOfWeek => match splitWhitespace rest with
    | [date, time, zone] => match date.splitOn '-' with
      | [day, month, rawYearStr] =>
        match parseU8 day with
        | none => .error .invalidDay
        | some day => match parseMonth month with
          | .error error => .error error
          | .ok month => match parseU16 rawYearStr with
            | none => .error .invalidYear
            | some rawYear =>
              -- Years of other lengths are taken as they are.
              let year := if byteLength rawYearStr = 2 then
                  interpretTwoDigitYear (UInt16.ofNat rawYear) referenceYear
                else UInt16.ofNat rawYear
              match parseTime time with
              | .error error => .error error
              | .ok (hour, minute, second) =>
                if zone ≠ "GMT".toList then .error .notGmt
                else new dayOfWeek day month year hour minute second
      | _ => .error .invalidFormat
    | _ => .error .invalidFormat

/-- The date in the form without a comma. -/
def parseAsctime (input : Str) : Except DateError HttpDate :=
  match splitWhitespace input with
  | [dayName, month, day, time, year] =>
    match DayOfWeek.fromName dayName with
    | none => .error .invalidDayName
    | some dayOfWeek => match parseMonth month with
      | .error error => .error error
      | .ok month => match parseU8 day with
        | none => .error .invalidDay
        | some day => match parseTime time with
          | .error error => .error error
          | .ok (hour, minute, second) => match parseU16 year with
            | none => .error .invalidYear
            | some year => new dayOfWeek day month (UInt16.ofNat year) hour minute second
  | _ => .error .invalidFormat

/-- The date in one of the two forms whose years have four digits. -/
def parse (input : Str) : Except DateError HttpDate :=
  let input := trim input
  if input.isEmpty then .error .empty
  else match splitOnce ',' input with
    | some (dayName, rest) =>
      let rest := trimStart rest
      if rest.contains '-' then .error .rfc850Date else parseImfFixdate dayName rest
    | none => parseAsctime input

/-- The date in the form with hyphens. -/
def parseRfc850 (input : Str) (referenceYear : UInt16) : Except DateError HttpDate :=
  let input := trim input
  if input.isEmpty then .error .empty
  else match splitOnce ',' input with
    | none => .error .invalidFormat
    | some (dayName, rest) =>
      let rest := trimStart rest
      if !rest.contains '-' then .error .invalidFormat
      else parseRfc850Inner dayName rest referenceYear

/-- The date in the preferred form. -/
def display (date : HttpDate) : Str :=
  date.dayOfWeek.shortName ++ ", ".toList ++ Numerals.writePadded 10 2 date.day.toNat ++ ' ' ::
    (monthName date.month ++ ' ' :: (Numerals.writePadded 10 4 date.year.toNat ++ ' ' ::
    (Numerals.writePadded 10 2 date.hour.toNat ++ ':' ::
    (Numerals.writePadded 10 2 date.minute.toNat ++ ':' ::
    (Numerals.writePadded 10 2 date.second.toNat ++ " GMT".toList)))))

/-- The order of two dates: that of the first of their numbers that differ, from the year on. -/
def cmp (date other : HttpDate) : Ordering :=
  (compare date.year other.year).then <|
    (compare date.month other.month).then <|
      (compare date.day other.day).then <|
        (compare date.hour other.hour).then <|
          (compare date.minute other.minute).then (compare date.second other.second)

end HttpDate

end Http11

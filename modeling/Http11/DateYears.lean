import Http11.NumberFields

/-! Years of two digits, and the arithmetic that finds the century. -/

namespace Http11

/-- The sum of two numbers of sixteen bits, or none where the program overflows. -/
def checkedAdd16 (left right : UInt16) : Option UInt16 :=
  if left.toNat + right.toNat ≤ u16Max then some (left + right) else none

/-- The difference of two numbers of sixteen bits, or none where the program underflows. -/
def checkedSub16 (left right : UInt16) : Option UInt16 :=
  if right ≤ left then some (left - right) else none

/-- The product of two numbers of sixteen bits, or none where the program overflows. -/
def checkedMul16 (left right : UInt16) : Option UInt16 :=
  if left.toNat * right.toNat ≤ u16Max then some (left * right) else none

/-- The year with two last digits that is not far in the future, or none where the arithmetic leaves
sixteen bits. -/
def interpretTwoDigitYearChecked (twoDigit referenceYear : UInt16) : Option UInt16 := do
  let currentCentury ← checkedMul16 (referenceYear / 100) 100
  let candidate ← checkedAdd16 currentCentury twoDigit
  let latest ← checkedAdd16 referenceYear 50
  if candidate > latest then checkedSub16 candidate 100 else some candidate

namespace HttpDate

/-- The date in the form with hyphens, behind the name of the day, or none where the arithmetic
leaves sixteen bits. -/
def parseRfc850InnerChecked (dayName rest : Str) (referenceYear : UInt16) :
    Option (Except DateError HttpDate) :=
  match DayOfWeek.fromName dayName with
  | none => some (.error .invalidDayName)
  | some dayOfWeek => match splitWhitespace rest with
    | [date, time, zone] => match date.splitOn '-' with
      | [day, month, rawYearStr] =>
        match parseU8 day with
        | none => some (.error .invalidDay)
        | some day => match parseMonth month with
          | .error error => some (.error error)
          | .ok month => match parseU16 rawYearStr with
            | none => some (.error .invalidYear)
            | some rawYear =>
              let year := if byteLength rawYearStr = 2 then
                  interpretTwoDigitYearChecked (UInt16.ofNat rawYear) referenceYear
                else some (UInt16.ofNat rawYear)
              match year with
              | none => none
              | some year => match parseTime time with
                | .error error => some (.error error)
                | .ok (hour, minute, second) =>
                  if zone ≠ "GMT".toList then some (.error .notGmt)
                  else some (new dayOfWeek day month year hour minute second)
      | _ => some (.error .invalidFormat)
    | _ => some (.error .invalidFormat)

/-- The date in the form with hyphens, or none where the arithmetic leaves sixteen bits. -/
def parseRfc850Checked (input : Str) (referenceYear : UInt16) : Option (Except DateError HttpDate) :=
  let input := trim input
  if input.isEmpty then some (.error .empty)
  else match splitOnce ',' input with
    | none => some (.error .invalidFormat)
    | some (dayName, rest) =>
      let rest := trimStart rest
      if !rest.contains '-' then some (.error .invalidFormat)
      else parseRfc850InnerChecked dayName rest referenceYear

/-- The number of a year of two bytes behind the name of a day, a number and the name of a month. -/
def twoDigitYear (input : Str) : Option UInt16 :=
  match splitOnce ',' (trim input) with
  | none => none
  | some (dayName, rest) =>
    let rest := trimStart rest
    if !rest.contains '-' then none
    else match DayOfWeek.fromName dayName with
      | none => none
      | some _ => match splitWhitespace rest with
        | [date, _, _] => match date.splitOn '-' with
          | [day, month, year] => match parseU8 day with
            | none => none
            | some _ => match parseMonth month with
              | .error _ => none
              | .ok _ => if byteLength year = 2 then (parseU16 year).map UInt16.ofNat else none
          | _ => none
        | _ => none

/-- A year of two digits is resolved without leaving sixteen bits, to the one with these last digits
that is at most fifty years after a year of reference and less than a hundred before it. -/
def IsResolved (input : Str) (referenceYear : UInt16) : Prop :=
  ∃ result, parseRfc850Checked input referenceYear = some result ∧
    result = parseRfc850 input referenceYear ∧
    ∀ date, result = .ok date → ∀ text, (.year, text) ∈ rfc850NumberTexts input →
      IsDigits text → text.length = 2 →
        date.year.toNat % 100 = Numerals.value 10 text ∧
        (referenceYear.toNat : Int) - 100 < date.year.toNat ∧
        (date.year.toNat : Int) ≤ referenceYear.toNat + 50

end HttpDate

end Http11

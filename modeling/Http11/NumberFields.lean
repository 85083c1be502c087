import Http11.Date
import Http11.Range

/-! Where the numbers of ranges and dates stand in their texts. -/

namespace Http11

/-- A field of a text that holds a number. -/
inductive NumberField where
  /-- The first position of a range. -/
  | firstPos
  /-- The last position of a range. -/
  | lastPos
  /-- A number of bytes at the end. -/
  | suffixLength
  /-- The length of the whole. -/
  | completeLength
  /-- The day of the month. -/
  | day
  /-- The year. -/
  | year
  /-- The hour. -/
  | hour
  /-- The minute. -/
  | minute
  /-- The second. -/
  | second
  deriving DecidableEq, Repr

/-- The texts of a range, around its first dash. -/
def RangeSpec.numberTexts (part : Str) : List (NumberField × Str) :=
  match splitOnce '-' part with
  | none => []
  | some (front, back) =>
    if trim front = [] then [(.suffixLength, trim back)]
    else (.firstPos, trim front) :: if trim back = [] then [] else [(.lastPos, trim back)]

/-- The numbers of a range. -/
def RangeSpec.numbers : RangeSpec → List (NumberField × Nat)
  | range start finish => [(.firstPos, start.toNat), (.lastPos, finish.toNat)]
  | fromStart start => [(.firstPos, start.toNat)]
  | suffix length => [(.suffixLength, length.toNat)]

/-- The texts of a field of ranges, behind the equals sign and between the commas. -/
def Range.numberTexts (input : Str) : List (NumberField × Str) :=
  match splitOnce '=' (trim input) with
  | none => []
  | some (_, ranges) =>
    ((((trim ranges).splitOn ',').map trim).filter fun part => !part.isEmpty).flatMap
      RangeSpec.numberTexts

/-- The numbers of ranges. -/
def Range.numbers (range : Range) : List (NumberField × Nat) :=
  range.ranges.flatMap RangeSpec.numbers

/-- The texts of a field of a held range, behind the unit and around the dash and the slash. -/
def ContentRange.numberTexts (input : Str) : List (NumberField × Str) :=
  match splitOnce ' ' (trim input) with
  | none => []
  | some (_, rest) => match splitOnce '/' (trim rest) with
    | none => []
    | some (range, length) =>
      (match splitOnce '-' (trim range) with
        | none => []
        | some (first, last) => [(.firstPos, first), (.lastPos, last)]) ++
      if trim length = ['*'] then [] else [(.completeLength, trim length)]

/-- The numbers of a held range. -/
def ContentRange.numbers (range : ContentRange) : List (NumberField × Nat) :=
  (range.start.map fun start => (.firstPos, start.toNat)).toList ++
    (range.finish.map fun finish => (.lastPos, finish.toNat)).toList ++
    (range.completeLength.map fun length => (.completeLength, length.toNat)).toList

/-- The texts of a time, between its colons. -/
def timeTexts (time : Str) : List (NumberField × Str) :=
  match time.splitOn ':' with
  | [hour, minute, second] => [(.hour, hour), (.minute, minute), (.second, second)]
  | _ => []

namespace HttpDate

/-- The texts of a date, between white space, behind the comma or without one. -/
def numberTexts (input : Str) : List (NumberField × Str) :=
  match splitOnce ',' (trim input) with
  | some (_, rest) => match splitWhitespace (trimStart rest) with
    | [day, _, year, time, _] => (.day, day) :: (.year, year) :: timeTexts time
    | _ => []
  | none => match splitWhitespace (trim input) with
    | [_, _, day, time, year] => (.day, day) :: (.year, year) :: timeTexts time
    | _ => []

/-- The texts of a date with hyphens, behind the comma. -/
def rfc850NumberTexts (input : Str) : List (NumberField × Str) :=
  match splitOnce ',' (trim input) with
  | none => []
  | some (_, rest) => match splitWhitespace (trimStart rest) with
    | [date, time, _] => match date.splitOn '-' with
      | [day, _, year] => (.day, day) :: (.year, year) :: timeTexts time
      | _ => []
    | _ => []

/-- The numbers of a date. -/
def numbers (date : HttpDate) : List (NumberField × Nat) :=
  [(.day, date.day.toNat), (.year, date.year.toNat), (.hour, date.hour.toNat),
    (.minute, date.minute.toNat), (.second, date.second.toNat)]

end HttpDate

/-- What is reported for the number of a field: mostly the number. -/
abbrev Reporting := NumberField → Str → Nat → Nat

/-- A number is reported as it is written. -/
def asWritten : Reporting := fun _ _ number => number

/-- Of a year, two digits stand for one near a year of reference. -/
def nearYear (referenceYear : UInt16) : Reporting := fun field text number =>
  if field = .year ∧ byteLength text = 2 then
    (interpretTwoDigitYear (UInt16.ofNat number) referenceYear).toNat
  else number

/-- A text of digits only, whose number is what is reported for its field. -/
def IsNumeral (reporting : Reporting) (text : NumberField × Str) (number : NumberField × Nat) : Prop :=
  text.1 = number.1 ∧ IsDigits text.2 ∧
    reporting text.1 text.2 (Numerals.value 10 text.2) = number.2

/-- Texts of digits only, whose numbers are what is reported, one for each. -/
def AreNumerals (reporting : Reporting) (texts : List (NumberField × Str))
    (numbers : List (NumberField × Nat)) : Prop :=
  List.Forall₂ (IsNumeral reporting) texts numbers

/-- No number has a plus sign in front. -/
def AreUnsigned (texts : List (NumberField × Str)) : Prop :=
  ∀ text ∈ texts, text.2.head? ≠ some '+'

instance (texts : List (NumberField × Str)) : Decidable (AreUnsigned texts) :=
  inferInstanceAs (Decidable (∀ text ∈ texts, text.2.head? ≠ some '+'))

end Http11

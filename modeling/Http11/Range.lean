import Http11.Quoting

/-! Ranges of what a message is of. -/

namespace Http11

/-- What is wrong with a field of ranges. -/
inductive RangeError where
  /-- Nothing. -/
  | empty
  /-- A delimiter or a number. -/
  | invalidFormat
  /-- The unit is no token. -/
  | invalidUnit
  /-- One of the ranges. -/
  | invalidRange
  /-- The start is behind the end. -/
  | invalidBounds
  deriving DecidableEq, Repr

/-- A range. -/
inductive RangeSpec where
  /-- From a start up to an end, both included. -/
  | range (start finish : UInt64)
  /-- From a start. -/
  | fromStart (start : UInt64)
  /-- A number of bytes at the end. -/
  | suffix (length : UInt64)
  deriving DecidableEq, Repr

/-- A number of sixty-four bits. -/
def readU64 (text : Str) : Option UInt64 := (parseU64 text).map UInt64.ofNat

namespace RangeSpec

/-- The bounds of a range in something of some length, both included. -/
def toBounds (spec : RangeSpec) (totalLength : UInt64) : Option (UInt64 × UInt64) :=
  if totalLength = 0 then none
  else match spec with
    | range start finish =>
      if start > finish ∨ start ≥ totalLength then none
      else some (start, min finish (totalLength - 1))
    | fromStart start => if start ≥ totalLength then none else some (start, totalLength - 1)
    | suffix length =>
      if length = 0 then none
      -- What is longer than the whole starts where that does.
      else some (if length > totalLength then 0 else totalLength - length, totalLength - 1)

/-- A range as it is written. -/
def display : RangeSpec → Str
  | range start finish => Numerals.write 10 start.toNat ++ '-' :: Numerals.write 10 finish.toNat
  | fromStart start => Numerals.write 10 start.toNat ++ ['-']
  | suffix length => '-' :: Numerals.write 10 length.toNat

end RangeSpec

/-- The range that is written. -/
def parseRangeSpec (text : Str) : Except RangeError RangeSpec :=
  match splitOnce '-' text with
  | none => .error .invalidRange
  | some (front, back) =>
    let startStr := trim front
    let endStr := trim back
    if startStr.isEmpty && endStr.isEmpty then .error .invalidRange
    -- Without a start the last bytes are asked for.
    else if startStr.isEmpty then match readU64 endStr with
      | none => .error .invalidRange
      | some length => .ok (.suffix length)
    else match readU64 startStr with
      | none => .error .invalidRange
      | some start =>
        -- Without an end everything from the start on is asked for.
        if endStr.isEmpty then .ok (.fromStart start)
        else match readU64 endStr with
          | none => .error .invalidRange
          | some finish =>
            if start > finish then .error .invalidBounds else .ok (.range start finish)

/-- The ranges that are asked for. -/
structure Range where
  /-- The unit. -/
  unit : Str
  /-- The ranges. -/
  ranges : List RangeSpec
  deriving DecidableEq

namespace Range

/-- The ranges of a field. -/
def parse (input : Str) : Except RangeError Range :=
  let input := trim input
  if input.isEmpty then .error .empty
  else match splitOnce '=' input with
    | none => .error .invalidFormat
    | some (front, back) =>
      let unit := trim front
      if !isToken unit then .error .invalidUnit
      else match parseElements trim parseRangeSpec ((trim back).splitOn ',') with
        | .error error => .error error
        -- A list of empty elements asks for nothing.
        | .ok ranges => if ranges.isEmpty then .error .empty else .ok { unit, ranges }

/-- The ranges as a field. -/
def display (range : Range) : Str :=
  range.unit ++ '=' :: ", ".toList.intercalate (range.ranges.map RangeSpec.display)

end Range

/-- The bounds are in order, and before the length if that is known. -/
def validateContentRangeParts (start finish : UInt64) (completeLength : Option UInt64) :
    Except RangeError Unit :=
  if start > finish then .error .invalidBounds
  else match completeLength with
    | some length => if length ≤ finish then .error .invalidBounds else .ok ()
    | none => .ok ()

/-- The range that a message holds. -/
structure ContentRange where
  /-- The unit. -/
  unit : Str
  /-- The start, if a range is there. -/
  start : Option UInt64
  /-- The end, which is included. -/
  finish : Option UInt64
  /-- The length of the whole, if it is known. -/
  completeLength : Option UInt64
  deriving DecidableEq

namespace ContentRange

/-- The range of a field. -/
def parse (input : Str) : Except RangeError ContentRange :=
  let input := trim input
  if input.isEmpty then .error .empty
  else match splitOnce ' ' input with
    | none => .error .invalidFormat
    | some (front, back) =>
      let unit := trim front
      let rest := trim back
      if !isToken unit then .error .invalidUnit
      else match splitOnce '/' rest with
        | none => .error .invalidFormat
        | some (front, back) =>
          let rangeStr := trim front
          let lengthStr := trim back
          let completeLength : Except RangeError (Option UInt64) :=
            if lengthStr = ['*'] then .ok none
            else match readU64 lengthStr with
              | none => .error .invalidFormat
              | some length => .ok (some length)
          match completeLength with
          | .error error => .error error
          | .ok completeLength =>
            if rangeStr = ['*'] then
              -- Where no range was served, the length has to be said.
              if completeLength.isNone then .error .invalidFormat
              else .ok { unit, start := none, finish := none, completeLength }
            else match splitOnce '-' rangeStr with
              | none => .error .invalidFormat
              | some (front, back) => match readU64 front with
                | none => .error .invalidFormat
                | some start => match readU64 back with
                  | none => .error .invalidFormat
                  | some finish => match validateContentRangeParts start finish completeLength with
                    | .error error => .error error
                    | .ok () => .ok { unit, start := some start, finish := some finish, completeLength }

/-- The range of bytes between bounds, or none where the program stops with a panic. -/
def newBytes (start finish : UInt64) (completeLength : Option UInt64) : Option ContentRange :=
  if !(start ≤ finish) then none
  else match completeLength with
    | some length =>
      if !(length > finish) then none
      else some { unit := "bytes".toList, start := some start, finish := some finish, completeLength }
    | none => some { unit := "bytes".toList, start := some start, finish := some finish, completeLength }

/-- The length of a range, if sixty-four bits hold it. -/
def length (range : ContentRange) : Option UInt64 :=
  match range.start, range.finish with
  | some start, some finish =>
    if start > finish then none
    else if (finish - start).toNat = u64Max then none
    else some (finish - start + 1)
  | _, _ => none

/-- The range as a field. -/
def display (range : ContentRange) : Str :=
  (match range.start, range.finish with
    | some start, some finish => range.unit ++ ' ' :: (Numerals.write 10 start.toNat ++ '-' ::
        (Numerals.write 10 finish.toNat ++ ['/']))
    | _, _ => range.unit ++ " */".toList) ++
  match range.completeLength with
    | some length => Numerals.write 10 length.toNat
    | none => ['*']

end ContentRange

end Http11

import Http11.Lib.Numerals
import Http11.Quoting

/-! The media ranges a client accepts, each with its weight. -/

namespace Http11

/-- What is wrong with a list of media ranges. -/
inductive AcceptError where
  /-- Nothing. -/
  | empty
  /-- An element without a name. -/
  | invalidFormat
  /-- A media range. -/
  | invalidMediaRange
  /-- A value that is no token. -/
  | invalidToken
  /-- A parameter, or what is inside of quotes. -/
  | invalidParameter
  /-- A quoted string without its closing quote. -/
  | unterminatedQuote
  /-- A weight. -/
  | invalidQValue
  /-- A language. -/
  | invalidLanguageTag
  deriving DecidableEq, Repr

/-- What is wrong with a list in which a quoted string is wrong. -/
def AcceptError.ofQuoted : Validate.QuotedStringError → AcceptError
  | .invalidQdtext => .invalidParameter
  | .invalidQuotedPair => .invalidParameter
  | .unterminated => .unterminatedQuote

/-- A weight in thousandths. -/
structure QValue where
  /-- The thousandths. -/
  value : Nat
  /-- No weight is above one. -/
  atMost : value ≤ 1000
  deriving DecidableEq, Repr

namespace QValue

/-- The thousandths of the digits behind the point, from the place of some index on. -/
def fraction (idx : Nat) : Str → Nat
  | [] => 0
  | char :: rest => (char.toNat - '0'.toNat) * 10 ^ (2 - idx) + fraction (idx + 1) rest

/-- Three digits stay below one. -/
theorem fraction_le {rest : Str}
    (valid : ¬ (3 < byteLength rest || !rest.all Char.isDigit) = true) : fraction 0 rest ≤ 1000 := by
  rw [Bool.or_eq_true, not_or, decide_eq_true_eq, Bool.not_eq_true', Bool.not_eq_false,
    List.all_eq_true] at valid
  obtain ⟨short, digits⟩ := valid
  have few : rest.length ≤ 3 := (length_le_byteLength rest).trans (by omega)
  have small : ∀ char ∈ rest, char.toNat - '0'.toNat ≤ 9 := by
    intro char inside
    have digit := digits char inside
    simp only [Char.isDigit, Bool.and_eq_true, decide_eq_true_eq] at digit
    have upper : char.toNat ≤ 57 := digit.2
    have zero : '0'.toNat = 48 := rfl
    omega
  -- Each digit counts ten times less than the one in front of it.
  match rest, few, small with
  | [], _, _ => exact Nat.zero_le _
  | [first], _, small =>
    have := small first (by simp)
    simp only [fraction]
    omega
  | [first, second], _, small =>
    have := small first (by simp)
    have := small second (by simp)
    simp only [fraction]
    omega
  | [first, second, third], _, small =>
    have := small first (by simp)
    have := small second (by simp)
    have := small third (by simp)
    simp only [fraction]
    omega

/-- The weight that a text stands for. -/
def parse (input : Str) : Except AcceptError QValue :=
  let input := trimOws input
  if input.isEmpty then .error .invalidQValue
  else if input = ['1'] then .ok ⟨1000, Nat.le_refl _⟩
  else match stripPrefix ['1', '.'] input with
    | some rest =>
      -- The grammar admits a point without a digit behind it.
      if rest.isEmpty then .ok ⟨1000, Nat.le_refl _⟩
      else if 3 < byteLength rest || !rest.all (· == '0') then .error .invalidQValue
      else .ok ⟨1000, Nat.le_refl _⟩
    | none =>
      if input = ['0'] then .ok ⟨0, Nat.zero_le _⟩
      else match stripPrefix ['0', '.'] input with
        | some rest =>
          if refused : (3 < byteLength rest || !rest.all Char.isDigit) = true then
            .error .invalidQValue
          -- Digits that are not there count as zeros.
          else .ok ⟨fraction 0 rest, fraction_le refused⟩
        | none => .error .invalidQValue

/-- The weight of what has no weight of its own. -/
def default : QValue := ⟨1000, Nat.le_refl _⟩

/-- The text of a weight, without zeros at its end. -/
def display (q : QValue) : Str :=
  if q.value = 1000 then ['1']
  else if q.value = 0 then ['0']
  else '0' :: '.' :: (Numerals.writePadded 10 3 q.value).rdropWhile (· == '0')

end QValue

/-- A range of media types with its parameters and its weight. -/
structure MediaRange where
  /-- The type, or a star for all types. -/
  mediaType : Str
  /-- The subtype, or a star for all subtypes. -/
  subtype : Str
  /-- The parameters. -/
  parameters : List (Str × Str)
  /-- The weight. -/
  q : QValue
  deriving DecidableEq, Repr

namespace MediaRange

/-- A parameter behind its semicolon. -/
def displayParam (param : Str × Str) : Str :=
  if needsQuoting param.2 then
    "; ".toList ++ param.1 ++ "=\"".toList ++ escapeQuotes param.2 ++ "\"".toList
  else "; ".toList ++ param.1 ++ '=' :: param.2

/-- The media range as it is written. -/
def display (item : MediaRange) : Str :=
  item.mediaType ++ '/' :: (item.subtype ++ (item.parameters.flatMap displayParam ++
    if item.q.value < 1000 then "; q=".toList ++ item.q.display else []))

end MediaRange

/-- A list of media ranges. -/
structure Accept where
  /-- The media ranges in their order. -/
  items : List MediaRange
  deriving DecidableEq, Repr

namespace Accept

/-- The value behind an equals sign. -/
def parseParamValue (input : Str) : Except AcceptError Str :=
  let input := trimOws input
  match stripPrefix ['"'] input with
  | some rest => match Validate.parseQuotedString rest with
    | .error error => .error (.ofQuoted error)
    | .ok (value, remaining) =>
      if !(trimOws remaining).isEmpty then .error .invalidParameter else .ok value
  | none => if !isValidToken input then .error .invalidToken else .ok input

/-- The type and the subtype of a media range. -/
def parseMediaRange (input : Str) : Except AcceptError (Str × Str) :=
  let input := trimOws input
  if input = "*/*".toList then .ok (['*'], ['*'])
  else match splitOnce '/' input with
    | none => .error .invalidMediaRange
    | some (front, back) =>
      let mediaType := trimOws front
      let subtype := trimOws back
      -- A star as the type admits only a star as the subtype.
      if mediaType = ['*'] then
        if subtype ≠ ['*'] then .error .invalidMediaRange else .ok (['*'], ['*'])
      else if subtype = ['*'] then
        if !isValidToken mediaType then .error .invalidMediaRange
        else .ok (toAsciiLowercase mediaType, ['*'])
      else if !isValidToken mediaType || !isValidToken subtype then .error .invalidMediaRange
      else .ok (toAsciiLowercase mediaType, toAsciiLowercase subtype)

/-- What one part says, with the parameters so far and the weight if it was seen. -/
def parseParam (state : List (Str × Str) × Option QValue) (part : Str) :
    Except AcceptError (List (Str × Str) × Option QValue) :=
  let param := trimOws part
  if param.isEmpty then .ok state
  else match splitOnce '=' param with
    | none => .error .invalidParameter
    | some (front, back) =>
      let name := toAsciiLowercase (trimOws front)
      match parseParamValue back with
      | .error error => .error error
      | .ok value =>
        if name = ['q'] then
          -- The weight may be said once only.
          if state.2.isSome then .error .invalidQValue
          else (QValue.parse value).map fun q => (state.1, some q)
        -- Behind the weight parameters are kept like those in front of it.
        else .ok (state.1 ++ [(name, value)], state.2)

/-- The media range that is an element. -/
def parseMediaRangeItem (input : Str) : Except AcceptError MediaRange :=
  let parts := splitWithQuotes input ';'
  match parseMediaRange (trim (parts.headD [])) with
  | .error error => .error error
  | .ok (mediaType, subtype) =>
    (parts.tail.foldlM parseParam ([], none)).map fun (parameters, q) =>
      { mediaType, subtype, parameters, q := q.getD .default }

/-- The media ranges of a header. -/
def parse (input : Str) : Except AcceptError Accept :=
  let input := trimOws input
  if input.isEmpty then .ok { items := [] }
  else match parseElements trimOws parseMediaRangeItem (splitWithQuotes input ',') with
    | .error error => .error error
    | .ok items => .ok { items }

/-- The header of some media ranges. -/
def display (accept : Accept) : Str := ", ".toList.intercalate (accept.items.map MediaRange.display)

end Accept

end Http11

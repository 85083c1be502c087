import Http11.Cookie

/-! What the attributes of a cookie ask for, whatever a parser makes of them. -/

namespace Http11

/-- The attributes of a header, which are its parts behind the first semicolon. -/
def attributes (input : Str) : List Str := (input.splitOn ';').tail.map trimOws

/-- The name of an attribute: what stands before its first equals sign, or all of it. -/
def attributeName (part : Str) : Str :=
  match splitOnce '=' part with
  | some (front, _) => trim front
  | none => part

/-- The value of an attribute: what stands behind its first equals sign, or nothing. -/
def attributeValue (part : Str) : Str :=
  match splitOnce '=' part with
  | some (_, back) => trim back
  | none => []

/-- An attribute has some name, in upper or lower case. -/
def IsNamed (name part : Str) : Prop := toAsciiLowercase (attributeName part) = name

instance (name part : Str) : Decidable (IsNamed name part) :=
  inferInstanceAs (Decidable (toAsciiLowercase (attributeName part) = name))

/-- Digits, with or without a minus sign in front. -/
def isAge (value : Str) : Bool :=
  match value with
  | '-' :: digits => !digits.isEmpty && digits.all Char.isDigit
  | digits => !digits.isEmpty && digits.all Char.isDigit

/-- The seconds that an age stands for: none below zero, and no more than sixty-four bits hold. -/
def secondsOf (value : Str) : Int :=
  if value.head? = some '-' then 0 else min (Numerals.value 10 value) (2 ^ 63 - 1)

/-- The ages that a header gives, in order. -/
def ages (input : Str) : List Str :=
  (((attributes input).filter fun part => IsNamed "max-age".toList part).map
    attributeValue).filter isAge

/-- A cookie is what the attributes of a header ask for. -/
structure FollowsAttributes (input : Str) (cookie : SetCookie) : Prop where
  /-- It is secure if an attribute says so, whatever its value. -/
  secure : cookie.secure = true ↔
    ∃ part ∈ attributes input, IsNamed "secure".toList part
  /-- It is hidden from scripts if an attribute says so, whatever its value. -/
  httpOnly : cookie.httpOnly = true ↔
    ∃ part ∈ attributes input, IsNamed "httponly".toList part
  /-- It lasts for the seconds of the last age. -/
  maxAge : cookie.maxAge = (ages input).getLast?.map secondsOf

/-- An attribute is among those of a header without an equals sign, if it is among them at all. -/
def IsBareIfGiven (name input : Str) : Prop :=
  (∃ part ∈ attributes input, IsNamed name part) →
    ∃ part ∈ attributes input, '=' ∉ part ∧ IsNamed name part

/-- An age that sixty-four bits hold. -/
def fitsI64 (value : Str) : Bool := (parseI64 value).isSome

/-- The attributes of a header are such that a parser follows them which passes over flags with a
value and over ages that sixty-four bits do not hold. -/
structure IsFollowed (input : Str) : Prop where
  /-- The first flag. -/
  secure : IsBareIfGiven "secure".toList input
  /-- The second flag. -/
  httpOnly : IsBareIfGiven "httponly".toList input
  /-- If sixty-four bits do not hold the last age, then the last one that they hold stands for the
  same seconds. -/
  maxAge : ∀ value, (ages input).getLast? = some value → fitsI64 value = false →
    ((ages input).filter fitsI64).getLast?.map secondsOf = some (secondsOf value)

/-- A cookie asks for nothing but a domain and a path. -/
structure IsUnset (cookie : SetCookie) : Prop where
  /-- It is not secure. -/
  secure : cookie.secure = false
  /-- It is not hidden from scripts. -/
  httpOnly : cookie.httpOnly = false
  /-- It is sent to the sites that it is sent to by default. -/
  sameSite : cookie.sameSite = none
  /-- It expires on no date. -/
  expires : cookie.expires = none
  /-- It lasts for no number of seconds. -/
  maxAge : cookie.maxAge = none

/-- A part that adds nothing to a cookie but a domain or a path. -/
structure IsHarmless (referenceYear : UInt16) (part : Str) : Prop where
  /-- It is no flag. -/
  flags : '=' ∉ part → ¬ IsNamed "secure".toList part ∧ ¬ IsNamed "httponly".toList part
  /-- It names no sites. -/
  sameSite : '=' ∈ part → ¬ IsNamed "samesite".toList part
  /-- It gives no date. -/
  expires : '=' ∈ part → IsNamed "expires".toList part →
    ∀ date, SetCookie.parseExpires (attributeValue part) referenceYear ≠ .ok date
  /-- It gives no seconds. -/
  maxAge : '=' ∈ part → IsNamed "max-age".toList part →
    SetCookie.parseMaxAge (attributeValue part) = none

/-- A header gives a name and a value and asks for nothing but a domain and a path. -/
def IsUninjected (name value input : Str) (referenceYear : UInt16) : Prop :=
  ∃ cookie, SetCookie.parse input referenceYear = .ok cookie ∧ cookie.name = name ∧
    cookie.value = value ∧ IsUnset cookie

end Http11

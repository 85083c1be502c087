import Http11.AuthGrammar
import Http11.Digest

/-! The grammar of dictionaries of digests, and what a dictionary says of a key. -/

namespace Http11

/-- A digest as it is written. -/
def IsDigestText (text : Str) (value : DigestValue) : Prop :=
  text = ':' :: (Base64.encode value.bytes ++ [':'])

/-- A weight as it is written. -/
structure IsWeightText (text : Str) (weight : UInt8) : Prop where
  /-- It is digits. -/
  digits : IsDigits text
  /-- They are the weight. -/
  same : Numerals.value 10 text = weight.toNat
  /-- It is no more than ten. -/
  small : weight ≤ 10

section Dictionaries

variable {Value : Type}

/-- A member of a dictionary as it is written, for some way to write its value. -/
def IsMember (isValue : Str → Value → Prop) (text : Str) (member : Str × Value) : Prop :=
  isToken member.1 = true ∧ ∃ shown, isValue shown member.2 ∧ text = member.1 ++ '=' :: shown

/-- Members with commas between them, and with spaces or tabs around these. -/
structure IsDictionary (isValue : Str → Value → Prop) (text : Str)
    (members : List (Str × Value)) : Prop where
  /-- There are some. -/
  present : members ≠ []
  /-- Each of them stands between two commas. -/
  written : ∃ parts, List.Forall₂ (fun part member => ∃ before shown after, IsOwsText before ∧
    IsOwsText after ∧ IsMember isValue shown member ∧ part = before ++ (shown ++ after)) parts members ∧
    text = [','].intercalate parts

/-- The value of the last member with a key, in upper or lower case. -/
def lastOf (members : List (Str × Value)) (algorithm : Str) : Option Value :=
  ((members.filter fun member => toAsciiLowercase member.1 = toAsciiLowercase algorithm).map
    (·.2)).getLast?

/-- A field is read as the dictionary of its members, and is the same when it is parsed again. -/
def ReadsDictionary {Field : Type} (parse : Str → Except DigestFieldsError Field)
    (get : Field → Str → Option Value) (display : Field → Str) (text : Str)
    (members : List (Str × Value)) : Prop :=
  ∃ field, parse text = .ok field ∧ (∀ algorithm, get field algorithm = lastOf members algorithm) ∧
    parse (display field) = .ok field

/-- The first and the last of several members with the same key have the same value. -/
def KeepsValues (members : List (Str × Value)) : Prop :=
  ∀ front first middle last back, members = front ++ first :: (middle ++ last :: back) →
    toAsciiLowercase first.1 = toAsciiLowercase last.1 →
    (∀ member ∈ front ++ back, toAsciiLowercase member.1 ≠ toAsciiLowercase first.1) →
    first.2 = last.2

end Dictionaries

end Http11

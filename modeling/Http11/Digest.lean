import Http11.Base64
import Http11.Date
import Http11.Quoting

/-! Digests of content, and which of them a peer would like to have. -/

namespace Http11

/-- What is wrong with a field of digests. -/
inductive DigestFieldsError where
  /-- Nothing. -/
  | empty
  /-- No equals sign. -/
  | invalidFormat
  /-- The algorithm is no token. -/
  | invalidAlgorithm
  /-- There are no colons around the digest. -/
  | invalidByteSequence
  /-- What stands between the colons. -/
  | invalidBase64
  /-- The weight is no number up to ten. -/
  | invalidPreference
  deriving DecidableEq, Repr

/-- The bytes of a digest. -/
structure DigestValue where
  /-- The bytes. -/
  bytes : Bytes
  deriving DecidableEq

/-- The digest of an algorithm. -/
structure DigestEntry where
  /-- The algorithm. -/
  algorithm : Str
  /-- The digest. -/
  value : DigestValue
  deriving DecidableEq

/-- How much the digest of an algorithm is wanted. -/
structure DigestPreference where
  /-- The algorithm. -/
  algorithm : Str
  /-- The weight, up to ten. -/
  weight : UInt8
  deriving DecidableEq

/-- A digest between colons. -/
def DigestValue.display (value : DigestValue) : Str := ':' :: (Base64.encode value.bytes ++ [':'])

/-- An algorithm and its digest. -/
def DigestEntry.display (entry : DigestEntry) : Str := entry.algorithm ++ '=' :: entry.value.display

/-- An algorithm and its weight. -/
def DigestPreference.display (preference : DigestPreference) : Str :=
  preference.algorithm ++ '=' :: Numerals.write 10 preference.weight.toNat

/-- The bytes between two colons. -/
def parseByteSequence (input : Str) : Except DigestFieldsError DigestValue :=
  let input := trim input
  match input with
  | ':' :: rest => match splitOnce ':' rest with
    | none => .error .invalidByteSequence
    | some (encoded, after) =>
      -- Parameters behind the closing colon are refused.
      if !(trim after).isEmpty then .error .invalidByteSequence
      else match Base64.decode encoded with
        | .error _ => .error .invalidBase64
        | .ok bytes => .ok { bytes }
  | _ => .error .invalidByteSequence

/-- A number up to ten. -/
def parsePreference (input : Str) : Except DigestFieldsError UInt8 :=
  let input := trim input
  if input.isEmpty then .error .invalidPreference
  else if !input.all Char.isDigit then .error .invalidPreference
  else match parseU8 input with
    | none => .error .invalidPreference
    | some value => if value > 10 then .error .invalidPreference else .ok value

/-- A member of a dictionary, with its key in lower case. -/
def parseMember {Value : Type} (valueParser : Str → Except DigestFieldsError Value) (part : Str) :
    Except DigestFieldsError (Str × Value) :=
  match splitOnce '=' part with
  | none => .error .invalidFormat
  | some (algorithm, value) =>
    let algorithm := trim algorithm
    if algorithm.isEmpty then .error .invalidAlgorithm
    else if !isToken algorithm then .error .invalidAlgorithm
    else match valueParser value with
      | .error error => .error error
      | .ok value => .ok (toAsciiLowercase algorithm, value)

/-- The members of a dictionary. -/
def parseDictionary {Value : Type} (input : Str)
    (valueParser : Str → Except DigestFieldsError Value) :
    Except DigestFieldsError (List (Str × Value)) :=
  let input := trim input
  if input.isEmpty then .error .empty
  else match parseElements trim (parseMember valueParser) (input.splitOn ',') with
    | .error error => .error error
    | .ok entries => if entries.isEmpty then .error .empty else .ok entries

/-- The members of a dictionary of digests. -/
def parseDigestDictionary (input : Str) : Except DigestFieldsError (List DigestEntry) :=
  (parseDictionary input parseByteSequence).map fun entries =>
    entries.map fun (algorithm, value) => { algorithm, value }

/-- The members of a dictionary of weights. -/
def parsePreferenceDictionary (input : Str) : Except DigestFieldsError (List DigestPreference) :=
  (parseDictionary input parsePreference).map fun entries =>
    entries.map fun (algorithm, weight) => { algorithm, weight }

/-- The first digest of an algorithm, in upper or lower case. -/
def getDigest (items : List DigestEntry) (algorithm : Str) : Option DigestValue :=
  let key := toAsciiLowercase algorithm
  (items.find? fun item => item.algorithm = key).map (·.value)

/-- The first weight of an algorithm, in upper or lower case. -/
def getWeight (items : List DigestPreference) (algorithm : Str) : Option UInt8 :=
  let key := toAsciiLowercase algorithm
  (items.find? fun item => item.algorithm = key).map (·.weight)

/-- Digests of the content of a message. -/
structure ContentDigest where
  /-- The digests. -/
  items : List DigestEntry
  deriving DecidableEq

namespace ContentDigest

/-- The digests of a field. -/
def parse (input : Str) : Except DigestFieldsError ContentDigest :=
  (parseDigestDictionary input).map fun items => { items }

/-- The digest of an algorithm. -/
def get (digest : ContentDigest) (algorithm : Str) : Option DigestValue :=
  getDigest digest.items algorithm

/-- The digests as a field. -/
def display (digest : ContentDigest) : Str :=
  ", ".toList.intercalate (digest.items.map DigestEntry.display)

end ContentDigest

/-- Digests of the representation that a message is of. -/
structure ReprDigest where
  /-- The digests. -/
  items : List DigestEntry
  deriving DecidableEq

namespace ReprDigest

/-- The digests of a field. -/
def parse (input : Str) : Except DigestFieldsError ReprDigest :=
  (parseDigestDictionary input).map fun items => { items }

/-- The digest of an algorithm. -/
def get (digest : ReprDigest) (algorithm : Str) : Option DigestValue :=
  getDigest digest.items algorithm

/-- The digests as a field. -/
def display (digest : ReprDigest) : Str :=
  ", ".toList.intercalate (digest.items.map DigestEntry.display)

end ReprDigest

/-- The digests of content that are wanted. -/
structure WantContentDigest where
  /-- The weights. -/
  items : List DigestPreference
  deriving DecidableEq

namespace WantContentDigest

/-- The weights of a field. -/
def parse (input : Str) : Except DigestFieldsError WantContentDigest :=
  (parsePreferenceDictionary input).map fun items => { items }

/-- The weight of an algorithm. -/
def get (want : WantContentDigest) (algorithm : Str) : Option UInt8 := getWeight want.items algorithm

/-- The weights as a field. -/
def display (want : WantContentDigest) : Str :=
  ", ".toList.intercalate (want.items.map DigestPreference.display)

end WantContentDigest

/-- The digests of representations that are wanted. -/
structure WantReprDigest where
  /-- The weights. -/
  items : List DigestPreference
  deriving DecidableEq

namespace WantReprDigest

/-- The weights of a field. -/
def parse (input : Str) : Except DigestFieldsError WantReprDigest :=
  (parsePreferenceDictionary input).map fun items => { items }

/-- The weight of an algorithm. -/
def get (want : WantReprDigest) (algorithm : Str) : Option UInt8 := getWeight want.items algorithm

/-- The weights as a field. -/
def display (want : WantReprDigest) : Str :=
  ", ".toList.intercalate (want.items.map DigestPreference.display)

end WantReprDigest

end Http11

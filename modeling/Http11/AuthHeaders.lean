import Http11.AuthParams

/-! Challenges and credentials of the Basic, Digest and Bearer schemes, and their headers. -/

namespace Http11

/-- A value that is no token and has to stand between quotes. -/
def needsQuoting (value : Str) : Bool :=
  value.isEmpty || (Utf8.encode value).any fun byte => !isTokenChar byte

/-- A parameter with its value between quotes. -/
def quotedParam (name value : Str) : Str :=
  name ++ "=\"".toList ++ escapeQuotes value ++ "\"".toList

/-- A parameter with its value as a token where that is possible. -/
def formatAuthParam (name value : Str) : Str :=
  if needsQuoting value then quotedParam name value else name ++ "=".toList ++ value

/-- The list of some parameters. -/
def formatAuthParams (params : AuthParams) : Str :=
  ", ".toList.intercalate (params.map fun (name, value) => formatAuthParam name value)

/-- Whether some parameters are all there. -/
def hasRequiredParams (params : AuthParams) (required : List String) : Bool :=
  required.all fun name =>
    params.any fun (key, _) => key == toAsciiLowercase name.toList

/-- A byte that may stand for itself in an extended value. -/
def isAttrChar (byte : UInt8) : Bool := isAsciiAlphanumeric byte || isOneOf "!#$&+-.^_`|~" byte

/-- The value of a byte that is a hexadecimal digit. -/
def toDigit16 (byte : UInt8) : Option UInt8 :=
  (Numerals.digitValue (Char.ofNat byte.toNat)).bind fun digit =>
    if digit < 16 then some (UInt8.ofNat digit) else none

/-- The bytes of an extended value. -/
def decodeExtBytes : Bytes → Option Bytes
  | [] => some []
  | byte :: rest =>
    -- An escape stands for one byte, whichever it is.
    if byte = 0x25 then
      match rest with
      | high :: low :: rest => do
        let hi ← toDigit16 high
        let lo ← toDigit16 low
        let more ← decodeExtBytes rest
        return ((hi <<< 4) ||| lo) :: more
      -- Fewer than two bytes stand behind the sign.
      | _ => none
    else if isAttrChar byte then (decodeExtBytes rest).map fun more => byte :: more
    else none

/-- The name of a user in its extended form. -/
def decodeUsernameExtValue (input : Str) : Except AuthError Str :=
  match splitOnce '\'' input with
  | none => .error .invalidUsernameExtValue
  | some (charset, rest) =>
    if !eqIgnoreAsciiCase charset "UTF-8".toList then .error .invalidUsernameExtValue
    else match splitOnce '\'' rest with
      | none => .error .invalidUsernameExtValue
      -- The language between the quotes is not looked at.
      | some (_, valueChars) => match decodeExtBytes (Utf8.encode valueChars) with
        | none => .error .invalidUsernameExtValue
        | some bytes => match Utf8.decode bytes with
          | .error _ => .error .invalidUsernameExtValue
          | .ok name => .ok name

/-- What follows the scheme of a header, which must not be empty. -/
def schemeParams (input scheme : Str) (otherScheme : AuthError) : Except AuthError Str :=
  let input := trim input
  if input.isEmpty then .error .empty
  else match stripScheme input scheme with
    | none => .error otherScheme
    | some params => if params.isEmpty then .error .invalidFormat else .ok params

/-- A header of a scheme and parameters, or none where a slice cuts a character. -/
def parseWithParams (input scheme : Str) (otherScheme : AuthError)
    (ofParams : AuthParams → Except AuthError α) : Option (Except AuthError α) :=
  match schemeParams input scheme otherScheme with
  | .error error => some (.error error)
  | .ok params => (parseAuthParams params).map fun parsed => parsed.bind ofParams

/-- A challenge of the Basic scheme. -/
structure WwwAuthenticate where
  /-- What is protected. -/
  realm : Str
  /-- The charset of the credentials. -/
  charset : Option Str
  deriving DecidableEq, Repr

namespace WwwAuthenticate

/-- A challenge for some realm. -/
def basic (realm : Str) : WwwAuthenticate := { realm, charset := none }

/-- What one parameter says about the realm and the charset. -/
def readParam : Option Str × Option Str → Str × Str →
    Except AuthError (Option Str × Option Str)
  | (realm, charset), (key, value) =>
    if key = "realm".toList then .ok (some value, charset)
    else if key = "charset".toList then
      if !eqIgnoreAsciiCase value "UTF-8".toList then .error .invalidCharset
      else .ok (realm, some value)
    else .ok (realm, charset)

/-- The challenge with some parameters, of which all but the realm and the charset are ignored. -/
def ofParams (params : AuthParams) : Except AuthError WwwAuthenticate :=
  match params.foldlM readParam (none, none) with
  | .error error => .error error
  | .ok (none, _) => .error .invalidFormat
  | .ok (some realm, charset) => .ok { realm, charset }

/-- The challenge of a header. -/
def parse (input : Str) : Option (Except AuthError WwwAuthenticate) :=
  parseWithParams input "Basic".toList .notBasicScheme ofParams

/-- The header of a challenge. -/
def toHeaderValue (auth : WwwAuthenticate) : Str :=
  "Basic realm=\"".toList ++ escapeQuotes auth.realm ++ "\"".toList ++
    match auth.charset with
    | none => []
    | some charset => ", charset=\"".toList ++ escapeQuotes charset ++ "\"".toList

end WwwAuthenticate

/-- Credentials of the Digest scheme. -/
structure DigestAuth where
  /-- The parameters. -/
  params : AuthParams
  deriving DecidableEq, Repr

namespace DigestAuth

/-- The credentials with some parameters, which name the user in one of two ways. -/
def ofParams (params : AuthParams) : Except AuthError DigestAuth :=
  let hasUsername := params.any fun (name, _) => name == "username".toList
  let hasUsernameExt := params.any fun (name, _) => name == "username*".toList
  if hasUsername && hasUsernameExt then .error .conflictingUsernameField
  else if !hasUsername && !hasUsernameExt then .error .missingParameter
  else
    let raw := ((params.find? fun (name, _) => name == "username*".toList).map Prod.snd).getD []
    -- The extended name has to be readable, though it is kept as it is written.
    match if hasUsernameExt then decodeUsernameExtValue raw else .ok [] with
    | .error error => .error error
    | .ok _ =>
      if !hasRequiredParams params ["realm", "nonce", "uri", "response"] then
        .error .missingParameter
      else .ok { params }

/-- The credentials of a header. -/
def parse (input : Str) : Option (Except AuthError DigestAuth) :=
  parseWithParams input "Digest".toList .notDigestScheme ofParams

/-- The header of some credentials. -/
def toHeaderValue (auth : DigestAuth) : Str := "Digest ".toList ++ formatAuthParams auth.params

end DigestAuth

/-- A challenge of the Digest scheme. -/
structure DigestChallenge where
  /-- The parameters. -/
  params : AuthParams
  deriving DecidableEq, Repr

namespace DigestChallenge

/-- The challenge with some parameters, which have a realm and a nonce. -/
def ofParams (params : AuthParams) : Except AuthError DigestChallenge :=
  if !hasRequiredParams params ["realm", "nonce"] then .error .missingParameter
  else .ok { params }

/-- The challenge of a header. -/
def parse (input : Str) : Option (Except AuthError DigestChallenge) :=
  parseWithParams input "Digest".toList .notDigestScheme ofParams

/-- The header of a challenge. -/
def toHeaderValue (auth : DigestChallenge) : Str := "Digest ".toList ++ formatAuthParams auth.params

end DigestChallenge

/-- Credentials of the Bearer scheme. -/
structure BearerToken where
  /-- The token. -/
  token : Str
  deriving DecidableEq, Repr

namespace BearerToken

/-- Whether a header begins with the scheme. -/
def isBearerScheme (input : Str) : Bool :=
  match splitAtByte 6 input with
  | none => false
  | some (front, _) => eqIgnoreAsciiCase front "Bearer".toList

/-- The credentials of a header. -/
def parse (input : Str) : Except AuthError BearerToken :=
  let input := trim input
  if input.isEmpty then .error .empty
  else if !isBearerScheme input then .error .notBearerScheme
  else
    let token := (stripScheme input "Bearer".toList).getD []
    if token.isEmpty then .error .invalidFormat
    else if !isToken68 token then .error .invalidToken
    else .ok { token }

/-- The header of some credentials. -/
def toHeaderValue (auth : BearerToken) : Str := "Bearer ".toList ++ auth.token

end BearerToken

/-- A challenge of the Bearer scheme. -/
structure BearerChallenge where
  /-- The parameters. -/
  params : AuthParams
  deriving DecidableEq, Repr

namespace BearerChallenge

/-- The challenge of a header. -/
def parse (input : Str) : Option (Except AuthError BearerChallenge) :=
  parseWithParams input "Bearer".toList .notBearerScheme fun params => .ok { params }

/-- The header of a challenge. -/
def toHeaderValue (auth : BearerChallenge) : Str := "Bearer ".toList ++ formatAuthParams auth.params

end BearerChallenge

/-- What tells the schemes of a header apart. -/
def parseScheme (input : Str) (basic digest bearer : Option (Except AuthError α)) :
    Option (Except AuthError α) :=
  let input := trim input
  if input.isEmpty then some (.error .empty)
  else if (stripScheme input "Basic".toList).isSome then basic
  else if (stripScheme input "Digest".toList).isSome then digest
  else if (stripScheme input "Bearer".toList).isSome then bearer
  else some (.error .invalidFormat)

/-- Credentials of any scheme. -/
inductive Authorization where
  /-- Those of the Basic scheme. -/
  | basic (auth : BasicAuth)
  /-- Those of the Digest scheme. -/
  | digest (auth : DigestAuth)
  /-- Those of the Bearer scheme. -/
  | bearer (auth : BearerToken)
  deriving DecidableEq, Repr

/-- The credentials of a header of any scheme. -/
def Authorization.parse (input : Str) : Option (Except AuthError Authorization) :=
  -- Each scheme parses the trimmed text, which it trims again.
  parseScheme input (some ((BasicAuth.parse (trim input)).map .basic))
    ((DigestAuth.parse (trim input)).map fun parsed => parsed.map .digest)
    (some ((BearerToken.parse (trim input)).map .bearer))

/-- A challenge of any scheme. -/
inductive AuthChallenge where
  /-- One of the Basic scheme. -/
  | basic (auth : WwwAuthenticate)
  /-- One of the Digest scheme. -/
  | digest (auth : DigestChallenge)
  /-- One of the Bearer scheme. -/
  | bearer (auth : BearerChallenge)
  deriving DecidableEq, Repr

/-- The challenge of a header of any scheme. -/
def AuthChallenge.parse (input : Str) : Option (Except AuthError AuthChallenge) :=
  parseScheme input ((WwwAuthenticate.parse (trim input)).map fun parsed => parsed.map .basic)
    ((DigestChallenge.parse (trim input)).map fun parsed => parsed.map .digest)
    ((BearerChallenge.parse (trim input)).map fun parsed => parsed.map .bearer)

end Http11

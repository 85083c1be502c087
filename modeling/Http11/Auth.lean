import Http11.Base64
import Http11.Validate

/-! Credentials in the Basic scheme, and what the schemes have in common. -/

namespace Http11

/-- Why an authentication header is refused. -/
inductive AuthError where
  /-- There is nothing. -/
  | empty
  /-- The header is malformed. -/
  | invalidFormat
  /-- The scheme is not Basic. -/
  | notBasicScheme
  /-- The scheme is not Digest. -/
  | notDigestScheme
  /-- The scheme is not Bearer. -/
  | notBearerScheme
  /-- The credentials are no bytes in base 64. -/
  | base64DecodeError
  /-- The credentials are no text. -/
  | utf8Error
  /-- There is no colon in the credentials. -/
  | missingColon
  /-- A parameter is malformed. -/
  | invalidParameter
  /-- A parameter is missing. -/
  | missingParameter
  /-- The token is malformed. -/
  | invalidToken
  /-- A parameter is given more than once. -/
  | duplicateParameter
  /-- There is a colon in the name of the user. -/
  | colonInUserId
  /-- There is a control character in the credentials. -/
  | controlCharacter
  /-- The charset is not UTF-8. -/
  | invalidCharset
  /-- The name of the user is given in both of its forms. -/
  | conflictingUsernameField
  /-- The extended name of the user is malformed. -/
  | invalidUsernameExtValue
  /-- There are too many parameters. -/
  | tooManyParameters
  deriving DecidableEq, Repr

/-- What follows a scheme and the white space behind it. -/
def stripScheme (input scheme : Str) : Option Str :=
  let input := trimStart input
  -- Text that is no longer than the scheme has nothing behind it.
  if byteLength input ≤ byteLength scheme then none
  else match splitAtByte (byteLength scheme) input with
    | none => none
    | some (front, rest) =>
      if !eqIgnoreAsciiCase front scheme then none
      else match rest with
        | [] => none
        -- A space or a tab has to stand behind the scheme.
        | char :: _ => if char ≠ ' ' ∧ char ≠ '\t' then none else some (trimStart rest)

/-- A byte of a token of 68 characters. -/
def isToken68Char (byte : UInt8) : Bool := isAsciiAlphanumeric byte || isOneOf "-._~+/" byte

/-- A token of 68 characters, with padding at its end. -/
def isToken68 (value : Str) : Bool :=
  if value.isEmpty then false
  else
    let trimmed := value.rdropWhile fun char => char == '='
    !trimmed.isEmpty && (Utf8.encode trimmed).all isToken68Char

/-- A text that holds a control character. -/
def hasControlChars (text : Str) : Bool :=
  (Utf8.encode text).any fun byte => byte ≤ 0x1F || byte == 0x7F

/-- The name of a user and a password. -/
structure BasicAuth where
  /-- The name of the user. -/
  username : Str
  /-- The password. -/
  password : Str
  deriving DecidableEq, Repr

namespace BasicAuth

/-- Credentials of which the name has no colon, and neither part a control character. -/
def new (username password : Str) : Except AuthError BasicAuth :=
  if username.contains ':' then .error .colonInUserId
  else if hasControlChars username || hasControlChars password then .error .controlCharacter
  else .ok { username, password }

/-- The credentials of a header. -/
def parse (input : Str) : Except AuthError BasicAuth :=
  let input := trim input
  if input.isEmpty then .error .empty
  else match stripScheme input "Basic".toList with
    | none => .error .notBasicScheme
    | some credentials =>
      if credentials.isEmpty then .error .invalidFormat
      else if !isToken68 credentials then .error .invalidToken
      else match Base64.decode credentials with
        | .error _ => .error .base64DecodeError
        | .ok decoded => match Utf8.decode decoded with
          | .error _ => .error .utf8Error
          -- The name ends at the first colon, so the password may hold others.
          | .ok decodedStr => match splitOnce ':' decodedStr with
            | none => .error .missingColon
            | some (username, password) =>
              if hasControlChars username || hasControlChars password then
                .error .controlCharacter
              else .ok { username, password }

/-- The header with some credentials. -/
def toHeaderValue (auth : BasicAuth) : Str :=
  let credentials := auth.username ++ ':' :: auth.password
  "Basic ".toList ++ Base64.encode (Utf8.encode credentials)

/-- The credentials text of a header. -/
def credentials (input : Str) : Option Str := stripScheme (trim input) "Basic".toList

end BasicAuth

end Http11

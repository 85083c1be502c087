import Http11.Text

/-! The character sets of header fields, methods, versions and request targets. -/

namespace Http11

/-- A byte allowed in a token. -/
def isTokenChar (byte : UInt8) : Bool :=
  isOneOf "!#$%&'*+-.^_`|~" byte || isAsciiAlphanumeric byte

/-- A string of at least one token byte. -/
def isToken (text : Str) : Bool := !text.isEmpty && (Utf8.encode text).all isTokenChar

/-- A well-formed header name. -/
def isValidHeaderName (name : Str) : Bool := isToken name

/-- A well-formed token. -/
def isValidToken (text : Str) : Bool := isToken text

/-- A well-formed method. -/
def isValidMethod (method : Str) : Bool := isToken method

/-- A byte allowed in a header value: no control byte but the tab. -/
def isValidFieldVchar (byte : UInt8) : Bool :=
  byte == 0x09 || (0x20 ≤ byte && byte ≤ 0x7E) || 0x80 ≤ byte

/-- A well-formed header value. -/
def isValidFieldValue (value : Str) : Bool := (Utf8.encode value).all isValidFieldVchar

/-- A well-formed protocol version: a token, a slash, digits, a dot and digits. -/
def isValidProtocolVersion (version : Str) : Bool :=
  match splitOnce '/' version with
  | none => false
  | some (name, afterSlash) =>
    !name.isEmpty && (Utf8.encode name).all isTokenChar &&
      match splitOnce '.' afterSlash with
      | none => false
      | some (major, minor) =>
        !major.isEmpty && (Utf8.encode major).all isAsciiDigit &&
          !minor.isEmpty && (Utf8.encode minor).all isAsciiDigit

/-- A status code of three digits in one of the five classes. -/
def isValidStatusCode (code : Nat) : Bool := 100 ≤ code && code ≤ 599

/-- A well-formed reason phrase that is present. -/
def isValidReasonPhrase (phrase : Str) : Bool :=
  !phrase.isEmpty && (Utf8.encode phrase).all isValidFieldVchar

/-- The printable bytes that no request target may hold. -/
def isRfc3986Excluded (byte : UInt8) : Bool := isOneOf "\"#<>\\^`\x7b|\x7d" byte

/-- The bytes of a request target, with every percent sign before two hexadecimal digits. -/
def isValidTargetBytes : Bytes → Bool
  | [] => true
  | byte :: rest =>
    if byte ≤ 0x20 || byte == 0x7F then false
    else if isRfc3986Excluded byte then false
    else if byte == 0x25 then
      match rest with
      | high :: low :: rest =>
        -- An encoded zero byte is refused as well.
        isAsciiHexdigit high && isAsciiHexdigit low && !(high == 0x30 && low == 0x30) &&
          isValidTargetBytes rest
      | _ => false
    else isValidTargetBytes rest

/-- A request target as a receiver may accept it. -/
def isValidRequestTarget (target : Str) : Bool :=
  !target.isEmpty && isValidTargetBytes (Utf8.encode target)

/-- A byte that never needs percent encoding. -/
def isUnreservedByte (byte : UInt8) : Bool := isAsciiAlphanumeric byte || isOneOf "-._~" byte

/-- A byte that delimits parts within a component. -/
def isSubDelimByte (byte : UInt8) : Bool := isOneOf "!$&'()*+,;=" byte

/-- A byte of a path segment. -/
def isPcharByte (byte : UInt8) : Bool :=
  isUnreservedByte byte || isSubDelimByte byte || byte == 0x3A || byte == 0x40

/-- A byte of a path. -/
def isPcharOrSlash (byte : UInt8) : Bool := isPcharByte byte || byte == 0x2F

/-- A byte of a query. -/
def isQueryChar (byte : UInt8) : Bool := isPcharByte byte || byte == 0x2F || byte == 0x3F

/-- A character of quoted text that needs no backslash. -/
def isQdtextChar (char : Char) : Bool :=
  char == '\t' || char == ' ' || char == '!' || (0x23 ≤ char.toNat && char.toNat ≤ 0x5B) ||
    (0x5D ≤ char.toNat && char.toNat ≤ 0x7E) || 0x80 ≤ char.toNat

/-- A character that may stand behind a backslash. -/
def isQuotedPairChar (char : Char) : Bool :=
  char == '\t' || (0x20 ≤ char.toNat && char.toNat ≤ 0x7E) || 0x80 ≤ char.toNat

/-- A text for the inside of quotes, with spaces in place of control characters. -/
def escapeQuotes : Str → Str
  | [] => []
  | char :: rest =>
    if !isQuotedPairChar char then ' ' :: escapeQuotes rest
    else if char == '"' || char == '\\' then '\\' :: char :: escapeQuotes rest
    else char :: escapeQuotes rest

end Http11

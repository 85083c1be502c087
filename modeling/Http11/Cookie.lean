import Http11.Date
import Http11.Quoting

/-! Cookies as clients send them and as servers set them. -/

namespace Http11

/-- What is wrong with a cookie. -/
inductive CookieError where
  /-- Nothing. -/
  | empty
  /-- No equals sign. -/
  | invalidFormat
  /-- The name is no token. -/
  | invalidName
  /-- The value has characters that it must not have. -/
  | invalidValue
  /-- An attribute. -/
  | invalidAttribute
  /-- The sites the cookie is sent to. -/
  | invalidSameSite
  deriving DecidableEq, Repr

/-- A byte of the value of a cookie. -/
def isCookieOctet (byte : UInt8) : Bool :=
  byte == 0x21 || (0x23 ≤ byte && byte ≤ 0x2B) || (0x2D ≤ byte && byte ≤ 0x3A) ||
    (0x3C ≤ byte && byte ≤ 0x5B) || (0x5D ≤ byte && byte ≤ 0x7E)

/-- The name of a cookie is a token. -/
def isValidCookieName (text : Str) : Bool := !text.isEmpty && (Utf8.encode text).all isTokenChar

/-- The value of a cookie may be empty. -/
def isValidCookieValue (text : Str) : Bool := (Utf8.encode text).all isCookieOctet

/-- Letters, digits, hyphens and dots. -/
def isValidDomainValue (text : Str) : Bool :=
  (Utf8.encode text).all fun byte => isAsciiAlphanumeric byte || byte == 0x2D || byte == 0x2E

/-- A cookie as it is sent: a name and a value. -/
structure Cookie where
  /-- The name. -/
  name : Str
  /-- The value. -/
  value : Str
  /-- The name is one of cookies. -/
  validName : isValidCookieName name = true
  /-- The value is one of cookies. -/
  validValue : isValidCookieValue value = true
  deriving DecidableEq, Repr

/-- A text without the quotes around it. -/
def unquoteCookieValue (value : Str) : Str :=
  if value.head? = some '"' ∧ value.getLast? = some '"' ∧ 2 ≤ byteLength value then
    value.tail.dropLast
  else value

/-- The cookie that is a pair. -/
def parseCookiePair (pair : Str) : Except CookieError Cookie :=
  match splitOnce '=' pair with
  | none => .error .invalidFormat
  | some (front, back) =>
    let name := trim front
    let value := trim back
    if name.isEmpty then .error .invalidName
    else if validName : isValidCookieName name = true then
      -- Quotes around the value are no part of it.
      let value := unquoteCookieValue value
      if validValue : isValidCookieValue value = true then .ok { name, value, validName, validValue }
      else .error .invalidValue
    else .error .invalidName

namespace Cookie

/-- The cookies of a header. -/
def parse (input : Str) : Except CookieError (List Cookie) :=
  let input := trimOws input
  if input.isEmpty then .error .empty
  else match parseElements trimOws parseCookiePair (input.splitOn ';') with
    | .error error => .error error
    | .ok cookies => if cookies.isEmpty then .error .empty else .ok cookies

/-- The cookie of a name and a value. -/
def new (name value : Str) : Except CookieError Cookie :=
  if name.isEmpty then .error .invalidName
  else if validName : isValidCookieName name = true then
    if validValue : isValidCookieValue value = true then .ok { name, value, validName, validValue }
    else .error .invalidValue
  else .error .invalidName

/-- The cookie as a pair. -/
def display (cookie : Cookie) : Str := cookie.name ++ '=' :: cookie.value

end Cookie

/-- The sites a cookie is sent to. -/
inductive SameSite where
  /-- The site that set it. -/
  | strict
  /-- Other sites as well, where they are navigated to. -/
  | lax
  /-- All sites. -/
  | none
  deriving DecidableEq, Repr

namespace SameSite

/-- The sites with some name. -/
def fromStr (text : Str) : Except CookieError SameSite :=
  let lower := toAsciiLowercase text
  if lower = "strict".toList then .ok .strict
  else if lower = "lax".toList then .ok .lax
  else if lower = "none".toList then .ok .none
  else .error .invalidSameSite

/-- The name of some sites. -/
def display : SameSite → Str
  | .strict => "Strict".toList
  | .lax => "Lax".toList
  | .none => "None".toList

end SameSite

/-- A cookie as it is set. -/
structure SetCookie extends Cookie where
  /-- When it expires. -/
  expires : Option HttpDate
  /-- The seconds after which it expires. -/
  maxAge : Option Int
  /-- The domain it is sent to. -/
  domain : Option Str
  /-- The path it is sent to. -/
  path : Option Str
  /-- Whether it is sent over secure connections only. -/
  secure : Bool
  /-- Whether scripts may not read it. -/
  httpOnly : Bool
  /-- The sites it is sent to. -/
  sameSite : Option SameSite
  deriving DecidableEq

/-- A decimal number of sixty-four bits with a sign. -/
def parseI64 (text : Str) : Option Int :=
  match text with
  | '-' :: digits =>
    if digits.isEmpty then none
    else (Numerals.readDigits 10 (2 ^ 63) digits).map fun value => -Int.ofNat value
  | _ => (Numerals.read 10 (2 ^ 63 - 1) text).map Int.ofNat

/-- A number with its sign. -/
def displayInt (value : Int) : Str :=
  if value < 0 then '-' :: Numerals.write 10 value.natAbs else Numerals.write 10 value.natAbs

namespace SetCookie

/-- A cookie without attributes. -/
def ofCookie (cookie : Cookie) : SetCookie where
  toCookie := cookie
  expires := none
  maxAge := none
  domain := none
  path := none
  secure := false
  httpOnly := false
  sameSite := none

/-- The date of an attribute, in any of the three forms. -/
def parseExpires (value : Str) (referenceYear : UInt16) : Except DateError HttpDate :=
  match HttpDate.parse value with
  | .error .rfc850Date => HttpDate.parseRfc850 value referenceYear
  | result => result

/-- The seconds of an attribute, where they are digits or a minus sign and digits. -/
def parseMaxAge (value : Str) : Option Int :=
  match value with
  | [] => none
  | first :: rest =>
    if (first.isDigit || first == '-') && rest.all Char.isDigit then
      (parseI64 value).map fun age => if age < 0 then 0 else age
    else none

/-- The domain of an attribute, without one dot in front. -/
def parseDomain (value : Str) : Option Str :=
  let domain := (stripPrefix ['.'] value).getD value
  if domain.isEmpty || domain.head? = some '.' || !isValidDomainValue domain then none
  else some (toAsciiLowercase domain)

/-- What an attribute with a value says. -/
def setAttribute (cookie : SetCookie) (attrName attrValue : Str) (referenceYear : UInt16) :
    Except CookieError SetCookie :=
  let lower := toAsciiLowercase attrName
  if lower = "expires".toList then
    match parseExpires attrValue referenceYear with
    | .ok date => .ok { cookie with expires := some date }
    -- A date that cannot be read says nothing.
    | .error _ => .ok cookie
  else if lower = "max-age".toList then
    match parseMaxAge attrValue with
    | some age => .ok { cookie with maxAge := some age }
    | none => .ok cookie
  else if lower = "domain".toList then
    match parseDomain attrValue with
    | some domain => .ok { cookie with domain := some domain }
    | none => .ok cookie
  -- Only a path that begins with a slash is kept.
  else if lower = "path".toList ∧ attrValue.head? = some '/' then
    .ok { cookie with path := some attrValue }
  else if lower = "samesite".toList then
    -- An unknown value of this attribute refuses the field.
    (SameSite.fromStr attrValue).map fun sameSite => { cookie with sameSite := some sameSite }
  else .ok cookie

/-- What an attribute without a value says. -/
def setFlag (cookie : SetCookie) (part : Str) : SetCookie :=
  let lower := toAsciiLowercase part
  if lower = "secure".toList then { cookie with secure := true }
  else if lower = "httponly".toList then { cookie with httpOnly := true }
  else cookie

/-- What one part says. -/
def parseAttribute (referenceYear : UInt16) (cookie : SetCookie) (part : Str) :
    Except CookieError SetCookie :=
  let part := trimOws part
  if part.isEmpty then .ok cookie
  else match splitOnce '=' part with
    | some (front, back) => cookie.setAttribute (trim front) (trim back) referenceYear
    | none => .ok (cookie.setFlag part)

/-- The cookie that a header sets. -/
def parse (input : Str) (referenceYear : UInt16) : Except CookieError SetCookie :=
  let input := trimOws input
  if input.isEmpty then .error .empty
  else match input.splitOn ';' with
    | [] => .error .invalidFormat
    | first :: parts => match parseCookiePair (trimOws first) with
      | .error error => .error error
      | .ok cookie => parts.foldlM (parseAttribute referenceYear) (ofCookie cookie)

/-- The cookie of a name and a value, without attributes. -/
def new (name value : Str) : Except CookieError SetCookie := (Cookie.new name value).map ofCookie

/-- A cookie with a domain. -/
def withDomain (cookie : SetCookie) (domain : Str) : SetCookie := { cookie with domain := some domain }

/-- A cookie with a path. -/
def withPath (cookie : SetCookie) (path : Str) : SetCookie := { cookie with path := some path }

/-- The header that sets a cookie. -/
def display (cookie : SetCookie) : Str :=
  cookie.toCookie.display ++
    ((cookie.expires.map fun date => "; Expires=".toList ++ date.display).getD [] ++
    ((cookie.maxAge.map fun age => "; Max-Age=".toList ++ displayInt age).getD [] ++
    ((cookie.domain.map fun domain => "; Domain=".toList ++ domain).getD [] ++
    ((cookie.path.map fun path => "; Path=".toList ++ path).getD [] ++
    ((if cookie.secure then "; Secure".toList else []) ++
    ((if cookie.httpOnly then "; HttpOnly".toList else []) ++
    (cookie.sameSite.map fun sameSite => "; SameSite=".toList ++ sameSite.display).getD []))))))

end SetCookie

end Http11

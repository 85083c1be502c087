import Http11.Error
import Http11.Host

/-! The forms of a request target, and how a decoder tells them apart and checks them. -/

namespace Http11

open Checked

/-- The form of a request target. -/
inductive RequestTargetForm where
  /-- A path with an optional query. -/
  | origin
  /-- A whole URI. -/
  | absolute
  /-- A host and a port. -/
  | authority
  /-- The asterisk. -/
  | asterisk
  deriving DecidableEq, Repr

/-- The length of the scheme a target starts with. -/
def detectScheme (target : Str) : Option Nat :=
  match target with
  | [] => none
  | first :: _ =>
    if !first.isAlpha then none
    else match splitOnce ':' target with
      | none => none
      | some (scheme, rest) =>
        if !(scheme.drop 1).all fun char => char.isAlphanum || "+-.".toList.contains char then none
        -- A scheme with nothing after its colon is refused on purpose.
        else if rest.isEmpty then none
        else some scheme.length

/-- Bytes of a component, with every percent sign before two hexadecimal digits. -/
def validateChars (incomplete invalid illegal : String) (allowed : UInt8 → Bool) :
    Bytes → Except Error Unit
  | [] => .ok ()
  | byte :: rest =>
    if byte == 0x25 then
      match rest with
      | high :: low :: rest =>
        if !isAsciiHexdigit high || !isAsciiHexdigit low then .error (.invalidData invalid)
        else validateChars incomplete invalid illegal allowed rest
      | _ => .error (.invalidData incomplete)
    else if allowed byte then validateChars incomplete invalid illegal allowed rest
    else .error (.invalidData (illegal ++ hexByte byte))

/-- The characters of a path. -/
def validatePathChars (path : Str) : Except Error Unit :=
  validateChars "invalid path: incomplete percent-encoding" "invalid path: invalid percent-encoding"
    "invalid path: illegal character 0x" isPcharOrSlash (Utf8.encode path)

/-- The characters of a query. -/
def validateQueryChars (query : Str) : Except Error Unit :=
  validateChars "invalid query: incomplete percent-encoding"
    "invalid query: invalid percent-encoding" "invalid query: illegal character 0x" isQueryChar
    (Utf8.encode query)

/-- The characters of an authority, where brackets enclose an address. -/
def validateAuthorityChars (authority : Str) : Except Error Unit :=
  validateChars "invalid authority: invalid percent-encoding"
    "invalid authority: invalid percent-encoding" "invalid authority: illegal character 0x"
    (fun byte => isUnreservedByte byte || isSubDelimByte byte || isOneOf ":@[]" byte)
    (Utf8.encode authority)

/-- A path and the query after its first question mark. -/
def splitQuery (text : Str) : Str × Option Str :=
  match splitOnce '?' text with
  | some (path, query) => (path, some query)
  | none => (text, none)

/-- A path with an optional query. -/
def validateOriginForm (target : Str) : Except Error Unit :=
  if target.head? != some '/' then
    .error (.invalidData "invalid origin-form: must start with '/'")
  else if target.contains '#' then
    .error (.invalidData "invalid request-target: fragment not allowed")
  else do
    let (path, query) := splitQuery target
    validatePathChars path
    match query with
    | some query => validateQueryChars query
    | none => .ok ()

/-- The depth of open brackets along a target, unless one closes that was not open. -/
def bracketsBalance : Nat → Str → Bool
  | _, [] => true
  | depth, '[' :: rest => bracketsBalance (depth + 1) rest
  | 0, ']' :: _ => false
  | depth + 1, ']' :: rest => bracketsBalance depth rest
  | depth, _ :: rest => bracketsBalance depth rest

/-- Brackets match. -/
def validateIpv6Brackets (target : Str) : Except Error Unit :=
  if target.count '[' != target.count ']' then
    .error (.invalidData "invalid request-target: unmatched IPv6 brackets")
  else if !bracketsBalance 0 target then
    .error (.invalidData "invalid request-target: unmatched IPv6 brackets")
  else .ok ()

/-- The part of a URI up to its path or query. -/
def authorityOf (text : Str) : Str := text.takeWhile fun char => char != '/' && char != '?'

/-- What follows the scheme of a URI. -/
def validateAbsoluteUriParts (rest : Str) : Except Error Unit := do
  let rest ← match stripPrefix "//".toList rest with
    | some afterSlashes => do
      validateAuthorityChars (authorityOf afterSlashes)
      pure (afterSlashes.drop (authorityOf afterSlashes).length)
    | none => pure rest
  let (path, query) := splitQuery rest
  -- The path may be empty behind an authority.
  onlyIf (!path.isEmpty) (validatePathChars path)
  match query with
  | some query => validateQueryChars query
  | none => .ok ()

/-- The authority that the http schemes need, with a host and without a user. -/
def validateHttpAuthority (rest : Str) : Except Error Unit :=
  match stripPrefix "//".toList rest with
  | none => .error (.invalidData "http/https URI must contain \"://\" (RFC 9110 Section 4.2)")
  | some afterSlashes => do
    let authority := authorityOf afterSlashes
    reject (authority.contains '@')
      (.invalidData "userinfo not allowed in http/https URI (RFC 9110 Section 4.2.4)")
    reject (authority.isEmpty || authority.head? == some ':')
      (.invalidData "empty host identifier in http/https URI (RFC 9110 Section 4.2)")

/-- A whole URI. -/
def validateAbsoluteForm (target : Str) : Except Error RequestTargetForm :=
  match detectScheme target with
  | none => .error (.invalidData "invalid request-target: invalid scheme")
  | some schemeLen => do
    let scheme := target.take schemeLen
    reject (!scheme.head?.any Char.isAlpha)
      (.invalidData "invalid request-target: invalid scheme")
    reject (!(scheme.drop 1).all fun char => char.isAlphanum || "+-.".toList.contains char)
      (.invalidData "invalid request-target: invalid scheme")
    reject (target.contains '#') (.invalidData "invalid request-target: fragment not allowed")
    validateIpv6Brackets target
    let rest := target.drop (schemeLen + 1)
    validateAbsoluteUriParts rest
    let scheme := toAsciiLowercase scheme
    -- Other schemes need no authority.
    onlyIf (scheme == "http".toList || scheme == "https".toList) (validateHttpAuthority rest)
    return .absolute

/-- A host and a port. -/
def validateAuthorityForm (target : Str) : Except Error Unit :=
  match rsplitOnce ':' target with
  | none => .error (.invalidData "invalid authority-form: missing port")
  | some (host, port) =>
    if host.isEmpty then .error (.invalidData "invalid authority-form: empty host")
    else if port.isEmpty then .error (.invalidData "invalid authority-form: empty port")
    -- Only digits, so that no sign reaches the parser of numbers.
    else if !port.all Char.isDigit then
      .error (.invalidData "invalid authority-form: port must be numeric")
    else if (parseU16 port).isNone then
      .error (.invalidData "invalid authority-form: port out of range")
    else match Host.parse host with
      | .ok _ => .ok ()
      | .error _ => .error (.invalidData "invalid authority-form: invalid host")

/-- The form of a request target as the decoder tells it. -/
def parseRequestTargetForm (target : Str) : Except Error RequestTargetForm :=
  if target.isEmpty then .error (.invalidData "invalid request-target: empty")
  else if target == "*".toList then .ok .asterisk
  else if target.head? == some '/' then (validateOriginForm target).map fun _ => .origin
  else if containsStr "://".toList target then validateAbsoluteForm target
  -- A host and port also read as a scheme and path, so the authority comes first.
  else if (validateAuthorityForm target).isOk then .ok .authority
  else if (detectScheme target).isSome then validateAbsoluteForm target
  else .error (.invalidData "invalid request-target: unrecognized form")

/-- The forms each method may use. -/
def validateRequestTargetForMethod (method : Str) (form : RequestTargetForm) : Except Error Unit :=
  if method = "CONNECT".toList then
    if form ≠ .authority then
      .error (.invalidData "CONNECT method requires authority-form request-target")
    else .ok ()
  -- This is the one method that may be about the server as a whole.
  else if method = "OPTIONS".toList then
    if form = .authority then
      .error (.invalidData "OPTIONS method does not allow authority-form request-target")
    else .ok ()
  else match form with
    | .origin | .absolute => .ok ()
    | .authority => .error (.invalidData
        (String.ofList method ++ " method does not allow authority-form request-target"))
    | .asterisk => .error (.invalidData
        (String.ofList method ++ " method does not allow asterisk-form request-target"))

end Http11

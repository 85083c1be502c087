import Http11.Authority

/-! URIs: their parts, as the parser finds and checks them. -/

namespace Http11

/-- Why a URI is malformed. -/
inductive UriError where
  /-- There is no URI. -/
  | empty
  /-- A percent sign stands before no two hexadecimal digits. -/
  | invalidPercentEncoding
  /-- The port is no number of sixteen bits. -/
  | invalidPort
  /-- The scheme is malformed. -/
  | invalidScheme
  /-- The host is malformed. -/
  | invalidHost
  /-- What was decoded is no text. -/
  | invalidUtf8
  /-- A byte that may not stand in a path. -/
  | invalidPathCharacter (byte : UInt8)
  /-- A byte that may not stand in a query. -/
  | invalidQueryCharacter (byte : UInt8)
  /-- A byte that may not stand in a fragment. -/
  | invalidFragmentCharacter (byte : UInt8)
  /-- A byte that may not stand in the name of a user. -/
  | invalidUserinfo
  deriving DecidableEq, Repr

/-- A URI that was parsed, with its parts. -/
structure Uri where
  /-- The URI. -/
  source : Str
  /-- The scheme. -/
  scheme : Option Str
  /-- The authority. -/
  authority : Option Str
  /-- Where the host ends in the authority. -/
  hostEnd : Nat
  /-- The port. -/
  port : Option Nat
  /-- The path. -/
  path : Str
  /-- The query. -/
  query : Option Str
  /-- The fragment. -/
  fragment : Option Str
  deriving DecidableEq, Repr

namespace Uri

/-- The host of a URI, without the user before it. -/
def host (uri : Uri) : Option Str :=
  uri.authority.map fun authority =>
    match rsplitOnce '@' (authority.take uri.hostEnd) with
    | some (_, host) => host
    | none => authority.take uri.hostEnd

/-- Every percent sign stands before two hexadecimal digits. -/
def validatePercentEncoding : Bytes → Except UriError Unit
  | [] => .ok ()
  | byte :: rest =>
    if byte == 0x25 then
      match rest with
      | high :: low :: rest =>
        if !isAsciiHexdigit high || !isAsciiHexdigit low then .error .invalidPercentEncoding
        else validatePercentEncoding rest
      | _ => .error .invalidPercentEncoding
    else validatePercentEncoding rest

/-- Bytes that are allowed, up to percent signs and the two digits behind each. -/
def validateParts (failure : UInt8 → UriError) (allowed : UInt8 → Bool) :
    Bytes → Except UriError Unit
  | [] => .ok ()
  | byte :: rest =>
    if byte == 0x25 then
      match rest with
      | _ :: _ :: rest => validateParts failure allowed rest
      -- Such an escape has been refused before.
      | _ => .ok ()
    else if allowed byte then validateParts failure allowed rest
    else .error (failure byte)

/-- A path. -/
def validatePath (path : Str) : Except UriError Unit := do
  validatePercentEncoding (Utf8.encode path)
  validateParts .invalidPathCharacter isPcharOrSlash (Utf8.encode path)

/-- A query. -/
def validateQuery (query : Str) : Except UriError Unit := do
  validatePercentEncoding (Utf8.encode query)
  validateParts .invalidQueryCharacter isQueryChar (Utf8.encode query)

/-- A fragment. -/
def validateFragment (fragment : Str) : Except UriError Unit := do
  validatePercentEncoding (Utf8.encode fragment)
  validateParts .invalidFragmentCharacter isQueryChar (Utf8.encode fragment)

/-- Where a scheme ends, which is not empty. -/
def findSchemeEnd : Nat → Str → Option Nat
  | _, [] => none
  | index, char :: rest =>
    if char = ':' then if 0 < index then some index else none
    else if !(char.isAlphanum || "+-.".toList.contains char) then none
    else findSchemeEnd (index + 1) rest

/-- Bytes that are allowed or encoded, with one error for all others. -/
def validateEncoded (failure : UriError) (allowed : UInt8 → Bool) : Bytes → Except UriError Unit
  | [] => .ok ()
  | byte :: rest =>
    if allowed byte then validateEncoded failure allowed rest
    else if byte == 0x25 then
      match rest with
      | high :: low :: rest =>
        if !isAsciiHexdigit high || !isAsciiHexdigit low then .error failure
        else validateEncoded failure allowed rest
      | _ => .error failure
    else .error failure

/-- A registered name. -/
def validateRegName (name : Str) : Except UriError Unit :=
  validateEncoded .invalidHost isNameByte (Utf8.encode name)

/-- A user. -/
def validateUserinfo (userinfo : Str) : Except UriError Unit :=
  validateEncoded .invalidUserinfo isUserByte (Utf8.encode userinfo)

/-- An address in a future format. -/
def validateIpvFuture (literal : Str) : Except UriError Unit :=
  let bytes := Utf8.encode literal
  match bytes.dropWhile (· != 0x2E) with
  | [] => .error .invalidHost
  | _ :: afterDot =>
    let front := bytes.takeWhile (· != 0x2E)
    -- A letter and at least one hexadecimal digit.
    if front.length ≤ 1 then .error .invalidHost
    else if !(front.drop 1).all isAsciiHexdigit then .error .invalidHost
    else if afterDot.isEmpty then .error .invalidHost
    else if !afterDot.all isIpvfutureChar then .error .invalidHost
    else .ok ()

/-- An address between brackets. -/
def validateIpLiteral (literal : Str) : Except UriError Unit :=
  if literal.isEmpty then .error .invalidHost
  else if literal.head? == some 'v' || literal.head? == some 'V' then validateIpvFuture literal
  else if isIpv6Addr literal then .ok ()
  else .error .invalidHost

/-- A host. -/
def validateHost (host : Str) : Except UriError Unit :=
  -- A URI may have an authority with an empty host.
  if host.isEmpty then .ok ()
  else if host.head? == some '[' then
    match splitOnce ']' host with
    | none => .error .invalidHost
    | some (front, behind) =>
      if !behind.isEmpty then .error .invalidHost
      else validateIpLiteral (front.drop 1)
  else if isIpv4Addr host then .ok ()
  else validateRegName host

/-- What stands behind the user of an authority. -/
def splitUserinfo (authority : Str) : Except UriError Str :=
  match rsplitOnce '@' authority with
  | some (userinfo, hostPart) => (validateUserinfo userinfo).map fun _ => hostPart
  | none => .ok authority

/-- Where the host of an authority ends behind its user, and the port. -/
def parseHostPart (authority hostPart : Str) : Except UriError (Nat × Option Nat) :=
  if hostPart.head? == some '[' then
    match splitOnce ']' hostPart with
    | none => .error .invalidHost
    | some (front, afterBracket) => do
      validateIpLiteral (front.drop 1)
      match afterBracket with
      | [] => .ok (authority.length, none)
      | ':' :: port =>
        match parseU16 port with
        | some number => .ok (authority.length - afterBracket.length, some number)
        | none => .error .invalidPort
      | _ => .error .invalidHost
  else
    match rsplitOnce ':' hostPart with
    | some (host, port) => do
      validateHost host
      -- With an empty port the host lasts up to the end, with its colon.
      if port.isEmpty then .ok (authority.length, none)
      else match parseU16 port with
        -- What stands in front of the host part is the user.
        | some number => .ok (authority.length - hostPart.length + host.length, some number)
        | none => .error .invalidPort
    | none => do
      validateHost hostPart
      return (authority.length, none)

/-- Where the host of an authority ends, and its port. -/
def parseAuthority (authority : Str) : Except UriError (Nat × Option Nat) :=
  if authority.isEmpty then .ok (0, none)
  else do
    let hostPart ← splitUserinfo authority
    parseHostPart authority hostPart

/-- The authority behind two slashes, and what follows it. -/
def splitAuthority (text : Str) : Option Str × Str :=
  match stripPrefix "//".toList text with
  | some afterSlashes =>
    let authority := afterSlashes.takeWhile fun char => char != '/' && char != '?' && char != '#'
    (some authority, afterSlashes.drop authority.length)
  | none => (none, text)

/-- A part that starts with a character, up to another one, and what follows it. -/
def splitPart (first : Char) (text : Str) : Option Str × Str :=
  match text with
  | char :: rest =>
    if char = first then
      let part := rest.takeWhile (· != '#')
      (some part, rest.drop part.length)
    else (none, text)
  | [] => (none, text)

/-- A URI from its text. -/
def parse (input : Str) : Except UriError Uri :=
  if input.isEmpty then .error .empty
  else do
    let schemeEnd := findSchemeEnd 0 input
    let scheme := schemeEnd.map input.take
    match scheme with
    | some scheme => do
      Checked.reject (!scheme.head?.any Char.isAlpha) .invalidScheme
      Checked.reject (!(scheme.drop 1).all fun char =>
        char.isAlphanum || "+-.".toList.contains char) .invalidScheme
    | none => .ok ()
    let rest := match schemeEnd with
      | some index => input.drop (index + 1)
      | none => input
    let (authority, rest) := splitAuthority rest
    let (hostEnd, port) ← match authority with
      | some authority => parseAuthority authority
      | none => .ok (0, none)
    let path := rest.takeWhile fun char => char != '?' && char != '#'
    let (query, rest) := splitPart '?' (rest.drop path.length)
    let fragment := match rest with
      | '#' :: fragment => some fragment
      | _ => none
    validatePath path
    match query with
    | some query => validateQuery query
    | none => .ok ()
    match fragment with
    | some fragment => validateFragment fragment
    | none => .ok ()
    return ⟨input, scheme, authority, hostEnd, port, path, query, fragment⟩

end Uri

/-- A port as numbers are read: a plus sign may stand before its digits. -/
def IsSignedPort (port : Str) : Prop :=
  ∃ digits, IsPort digits ∧ (port = digits ∨ port = '+' :: digits)

/-- The user in front of a host, with the sign behind it, or nothing. -/
def IsUser (user : Str) : Prop :=
  user = [] ∨ ∃ info, IsEncoded isUserByte (Utf8.encode info) ∧ user = info ++ ['@']

/-- A name with a port, which may be missing behind its colon, or an address with a port. -/
def IsNamedHost (text : Str) : Prop :=
  (∃ name, IsRegName (Utf8.encode name) ∧ (text = name ∨ text = name ++ [':'] ∨
    ∃ port, IsSignedPort port ∧ text = name ++ ':' :: port)) ∨
  ∃ address, IsIpLiteral address ∧ (text = address ∨
    ∃ port, IsSignedPort port ∧ text = address ++ ':' :: port)

/-- An authority: a user, if any, and a host with or without a port. -/
def IsUriAuthority (authority : Str) : Prop :=
  ∃ user named, IsUser user ∧ IsNamedHost named ∧ authority = user ++ named

/-- The authority of a target that is a whole URI. -/
def targetAuthority (target : Str) : Option Str :=
  (splitOnce ':' target).bind fun (_, rest) => (stripPrefix "//".toList rest).map authorityOf

/-- A target is a URI with a scheme and without a fragment, and an http URI has a host. -/
def ParsesWhole (target : Str) : Prop :=
  ∃ uri scheme, Uri.parse target = .ok uri ∧ uri.scheme = some scheme ∧ uri.fragment = none ∧
    ((eqIgnoreAsciiCase scheme "http".toList || eqIgnoreAsciiCase scheme "https".toList) = true →
      ∃ host, uri.host = some host ∧ host ≠ [])

end Http11

import Http11.Uri

/-! URIs as they are stored: the positions of their parts in the bytes of their text. -/

namespace Http11

/-- A URI that was parsed, with positions in the bytes of its text. -/
structure StoredUri where
  /-- The URI. -/
  source : Str
  /-- Where the scheme ends. -/
  schemeEnd : Option Nat
  /-- Where the authority starts, behind its slashes. -/
  authorityStart : Option Nat
  /-- Where the authority ends. -/
  authorityEnd : Option Nat
  /-- Where the host ends. -/
  hostEnd : Option Nat
  /-- The port. -/
  port : Option Nat
  /-- Where the path starts. -/
  pathStart : Nat
  /-- Where the path ends. -/
  pathEnd : Nat
  /-- Where the query starts, behind its question mark. -/
  queryStart : Option Nat
  /-- Where the query ends. -/
  queryEnd : Option Nat
  /-- Where the fragment starts, behind its number sign. -/
  fragmentStart : Option Nat
  deriving DecidableEq, Repr

/-- Why there is no URI: it is malformed, or, without an error, a slice would cut a character. -/
abbrev UriFailure := Option UriError

namespace StoredUri

/-- The scheme, or none where a slice cuts a character. -/
def scheme (uri : StoredUri) : Option (Option Str) :=
  match uri.schemeEnd with
  | some last => (slice uri.source 0 last).map some
  | none => some none

/-- The text between two positions that may be missing. -/
def between (source : Str) : Option Nat → Option Nat → Option (Option Str)
  | some first, some last => (slice source first last).map some
  | _, _ => some none

/-- The authority. -/
def authority (uri : StoredUri) : Option (Option Str) :=
  between uri.source uri.authorityStart uri.authorityEnd

/-- The host, without the user before it. -/
def host (uri : StoredUri) : Option (Option Str) :=
  (between uri.source uri.authorityStart uri.hostEnd).map fun auth =>
    auth.map fun auth =>
      match rsplitOnce '@' auth with
      | some (_, host) => host
      | none => auth

/-- The path. -/
def path (uri : StoredUri) : Option Str := slice uri.source uri.pathStart uri.pathEnd

/-- The query. -/
def query (uri : StoredUri) : Option (Option Str) :=
  between uri.source uri.queryStart uri.queryEnd

/-- The fragment. -/
def fragment (uri : StoredUri) : Option (Option Str) :=
  match uri.fragmentStart with
  | some first => (sliceFrom uri.source first).map some
  | none => some none

/-- A slice that must not cut a character. -/
def cut {Part : Type} : Option Part → Except UriFailure Part
  | some part => .ok part
  | none => .error none

/-- A byte of a scheme. -/
def isSchemeByte (byte : UInt8) : Bool :=
  isAsciiAlphanumeric byte || byte == 0x2B || byte == 0x2D || byte == 0x2E

/-- Where a scheme ends, which is not empty. -/
def findSchemeEnd : Nat → Bytes → Option Nat
  | _, [] => none
  | i, byte :: rest =>
    if byte = 0x3A then if 0 < i then some i else none
    else if !isSchemeByte byte then none
    else findSchemeEnd (i + 1) rest

/-- Where a scheme ends, if there is one, which must start with a letter. -/
def parseScheme (bytes : Bytes) : Except UriFailure (Option Nat) :=
  match findSchemeEnd 0 bytes with
  | some colonPos =>
    if !bytes[0]?.any isAsciiAlphabetic then .error (some .invalidScheme)
    else if !((bytes.take colonPos).drop 1).all isSchemeByte then .error (some .invalidScheme)
    else .ok (some colonPos)
  | none => .ok none

/-- Where the host ends in the bytes of an authority, and the port. -/
def parseHostPart (authority hostPart : Str) : Except UriError (Nat × Option Nat) :=
  if hostPart.head? == some '[' then
    match splitOnce ']' hostPart with
    | none => .error .invalidHost
    | some (front, afterBracket) => do
      Uri.validateIpLiteral (front.drop 1)
      match afterBracket with
      | [] => .ok (byteLength authority, none)
      | ':' :: portStr =>
        match parseU16 portStr with
        | some port => .ok (byteLength authority - byteLength afterBracket, some port)
        | none => .error .invalidPort
      | _ => .error .invalidHost
  else
    match rsplitOnce ':' hostPart with
    | some (hostStr, portStr) => do
      Uri.validateHost hostStr
      -- With an empty port the host lasts up to the end, with its colon.
      if portStr.isEmpty then .ok (byteLength authority, none)
      else match parseU16 portStr with
        | some port =>
          -- The offset counts the user in front of the host and the sign behind the user.
          match rsplitOnce '@' authority with
          | some (userinfo, _) => .ok (byteLength userinfo + 1 + byteLength hostStr, some port)
          | none => .ok (byteLength hostStr, some port)
        | none => .error .invalidPort
    | none => do
      Uri.validateHost hostPart
      return (byteLength authority, none)

/-- Where the host of an authority ends, and its port. -/
def parseAuthority (authority : Str) : Except UriError (Nat × Option Nat) :=
  if authority.isEmpty then .ok (0, none)
  else do
    let hostPart ← Uri.splitUserinfo authority
    parseHostPart authority hostPart

/-- Where an authority stands, where its host ends, its port, and the position behind it. -/
def locateAuthority (input : Str) (pos : Nat) :
    Except UriFailure (Option Nat × Option Nat × Option Nat × Option Nat × Nat) :=
  let bytes := Utf8.encode input
  if pos + 1 < bytes.length ∧ bytes[pos]? = some 0x2F ∧ bytes[pos + 1]? = some 0x2F then do
    let authStart := pos + 2
    let authEnd :=
      skipWhile (fun byte => byte != 0x2F && byte != 0x3F && byte != 0x23) bytes authStart
    let authority ← cut (slice input authStart authEnd)
    let (hEnd, port) ← (parseAuthority authority).mapError some
    return (some authStart, some authEnd, some (authStart + hEnd), port, authEnd)
  else .ok (none, none, none, none, pos)

/-- Where a query stands, and the position behind it. -/
def locateQuery (bytes : Bytes) (pos : Nat) : Option Nat × Option Nat × Nat :=
  if pos < bytes.length ∧ bytes[pos]? = some 0x3F then
    let last := skipWhile (fun byte => byte != 0x23) bytes (pos + 1)
    (some (pos + 1), some last, last)
  else (none, none, pos)

/-- A URI from its text. -/
def parse (input : Str) : Except UriFailure StoredUri :=
  if input.isEmpty then .error (some .empty)
  else do
    -- All positions count bytes.
    let bytes := Utf8.encode input
    let schemeEnd ← parseScheme bytes
    let pos := match schemeEnd with
      | some colonPos => colonPos + 1
      | none => 0
    let (authorityStart, authorityEnd, hostEnd, port, pos) ← locateAuthority input pos
    let pathStart := pos
    let pathEnd := skipWhile (fun byte => byte != 0x3F && byte != 0x23) bytes pathStart
    let (queryStart, queryEnd, pos) := locateQuery bytes pathEnd
    let fragmentStart :=
      if pos < bytes.length ∧ bytes[pos]? = some 0x23 then some (pos + 1) else none
    -- A slice that falls inside a character ends the program.
    let path ← cut (slice input pathStart pathEnd)
    (Uri.validatePath path).mapError some
    match queryStart, queryEnd with
    | some first, some last => do
      let query ← cut (slice input first last)
      (Uri.validateQuery query).mapError some
    | _, _ => .ok ()
    match fragmentStart with
    | some first => do
      let fragment ← cut (sliceFrom input first)
      (Uri.validateFragment fragment).mapError some
    | none => .ok ()
    return ⟨input, schemeEnd, authorityStart, authorityEnd, hostEnd, port, pathStart, pathEnd,
      queryStart, queryEnd, fragmentStart⟩

end StoredUri

end Http11

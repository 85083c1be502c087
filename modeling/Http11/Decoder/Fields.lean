import Http11.Error
import Http11.Validate

/-! Header lines, and the fields that decide how a body is framed. -/

namespace Http11

/-- Header fields in the order they stand in. -/
abbrev Headers := List (Str × Str)

/-- A header line as a name and a value. -/
def parseHeaderLine (line : Str) : Except Error (Str × Str) :=
  if line.head? == some ' ' || line.head? == some '\t' then
    .error (.invalidData "invalid header line: obs-fold")
  else if line.contains '\r' || line.contains '\n' then
    .error (.invalidData "invalid header line: contains CR/LF")
  else match splitOnce ':' line with
    | none => .error (.invalidData "invalid header line: missing colon")
    | some (name, value) =>
      if name.isEmpty then .error (.invalidData "invalid header line: empty name")
      -- White space in front of the colon is refused, not trimmed.
      else if name != trim name || (Utf8.encode name).any (fun byte => byte == 0x20 || byte == 0x09)
      then .error (.invalidData "invalid header line: invalid name whitespace")
      else if !isValidHeaderName name then .error (.invalidData "invalid header line: invalid name")
      else if !isValidFieldValue (trimOws value) then
        .error (.invalidData "invalid header line: invalid value (contains control characters)")
      else .ok (name, trimOws value)

/-- A field of a given name is there. -/
def hasHeader (headers : Headers) (name : Str) : Bool :=
  headers.any fun field => eqIgnoreAsciiCase field.1 name

/-- The value of the first field of a given name. -/
def getHeader (headers : Headers) (name : Str) : Option Str :=
  (headers.find? fun field => eqIgnoreAsciiCase field.1 name).map Prod.snd

/-- The values of all fields of a given name. -/
def getHeaders (headers : Headers) (name : Str) : List Str :=
  (headers.filter fun field => eqIgnoreAsciiCase field.1 name).map Prod.snd

/-- The elements of a comma-separated value that are not empty. -/
def listElements (value : Str) : List Str :=
  ((value.splitOn ',').map trimOws).filter fun element => !element.isEmpty

/-- The elements of all fields of a given name. -/
def fieldElements (headers : Headers) (name : Str) : List Str :=
  (getHeaders headers name).flatMap listElements

/-- The names a sender declared for its trailer section, in lower case. -/
def collectDeclaredTrailers (headers : Headers) : List Str :=
  (fieldElements headers "Trailer".toList).map toAsciiLowercase

/-- The names that never belong in a trailer section, whoever declared them. -/
def prohibitedTrailerFields : List String :=
  ["transfer-encoding", "content-length", "host", "if-match", "if-none-match", "if-modified-since",
    "if-unmodified-since", "if-range", "range", "expect", "te", "authorization",
    "proxy-authorization", "www-authenticate", "proxy-authenticate", "cache-control", "vary",
    "date", "expires", "age", "set-cookie", "content-encoding", "content-type", "content-range",
    "connection", "upgrade", "trailer"]

/-- A name that never belongs in a trailer section. -/
def isProhibitedTrailerField (name : Str) : Bool :=
  prohibitedTrailerFields.any fun field => eqIgnoreAsciiCase name field.toList

/-- What the transfer encodings of a message say about its framing. -/
inductive TransferEncodingResult where
  /-- There is none. -/
  | none
  /-- The last coding is chunked. -/
  | chunked
  /-- The last coding is another one. -/
  | other
  deriving DecidableEq, Repr

/-- The coding of a list element, without its parameters. -/
def baseCoding (token : Str) : Str := trimOws ((token.splitOn ';').head?.getD token)

/-- One coding of a list: whether it is chunked, which may not happen twice. -/
def checkCoding (chunkedCount : Nat) (token : Str) : Except Error Bool :=
  if !isValidToken (baseCoding token) then
    .error (.invalidData "invalid Transfer-Encoding: not a valid token")
  else if eqIgnoreAsciiCase (baseCoding token) "chunked".toList then
    if token.contains ';' then .error (.invalidData
      "invalid Transfer-Encoding: chunked does not accept parameters (RFC 9112 Section 7.1)")
    else if 1 < chunkedCount + 1 then
      .error (.invalidData "invalid Transfer-Encoding: duplicate chunked")
    else .ok true
  else .ok false

/-- The transfer encoding of a request, where every coding has to be chunked. -/
def parseTransferEncodingForRequest (headers : Headers) : Except Error Bool := do
  let chunkedCount ← (fieldElements headers "Transfer-Encoding".toList).foldlM
    (fun chunkedCount token => do
      if ← checkCoding chunkedCount token then pure (chunkedCount + 1)
      else .error (.invalidData "invalid Transfer-Encoding: unsupported coding")) 0
  return chunkedCount == 1

/-- The transfer encoding of a response, where the last coding decides. -/
def parseTransferEncodingForResponse (headers : Headers) : Except Error TransferEncodingResult := do
  let (allTokens, _) ← (fieldElements headers "Transfer-Encoding".toList).foldlM
    (fun (allTokens, chunkedCount) token => do
      let isChunked ← checkCoding chunkedCount token
      pure (allTokens ++ [toAsciiLowercase (baseCoding token)],
        if isChunked then chunkedCount + 1 else chunkedCount)) (([] : List Str), 0)
  if allTokens.isEmpty then return .none
  else if allTokens.getLast? = some "chunked".toList then return .chunked
  else return .other

/-- One length of a list, which has to agree with the ones before it. -/
def checkContentLength (result : Option Nat) (part : Str) : Except Error (Option Nat) :=
  -- Only digits, so that no sign reaches the parser of numbers.
  if !part.all Char.isDigit then .error (.invalidData "invalid Content-Length: not a number")
  else match parseU64 part with
    | none => .error (.invalidData "invalid Content-Length: overflow")
    | some value =>
      match result with
      | none => .ok (some value)
      | some prev =>
        -- The same length may be said again.
        if prev ≠ value then
          .error (.invalidData "invalid Content-Length: mismatched values in list")
        else .ok result

/-- The length in one field value. -/
def parseContentLengthValue (input : Str) : Except Error Nat := do
  match ← (listElements input).foldlM checkContentLength none with
  | some value => pure value
  | none => .error (.invalidData "invalid Content-Length: empty")

/-- The length all fields agree on. -/
def parseContentLength (headers : Headers) : Except Error (Option Nat) :=
  (getHeaders headers "Content-Length".toList).foldlM
    (fun value raw => do
      let parsed ← parseContentLengthValue raw
      match value with
      | some prev =>
        if prev ≠ parsed then .error (.invalidData "invalid Content-Length: mismatched values")
        else pure (some prev)
      | none => pure (some parsed)) none

/-- The framing of a request, of which there may be one only. -/
def resolveBodyHeadersForRequest (headers : Headers) : Except Error (Bool × Option Nat) := do
  let chunked ← parseTransferEncodingForRequest headers
  let contentLength ← parseContentLength headers
  if chunked && contentLength.isSome then
    .error (.invalidData "invalid message: both Transfer-Encoding and Content-Length")
  else pure (chunked, contentLength)

/-- The framing of a response, of which there may be one only. -/
def resolveBodyHeadersForResponse (headers : Headers) :
    Except Error (TransferEncodingResult × Option Nat) := do
  let result ← parseTransferEncodingForResponse headers
  let contentLength ← parseContentLength headers
  if result ≠ .none && contentLength.isSome then
    .error (.invalidData "invalid message: both Transfer-Encoding and Content-Length")
  else if result ≠ .none then pure (result, none)
  else pure (.none, contentLength)

end Http11

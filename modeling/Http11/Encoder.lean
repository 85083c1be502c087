import Http11.Message
import Http11.RequestTarget

/-! The encoder: checks of what a sender may produce, and the bytes of messages and chunks. -/

namespace Http11

open Checked

/-- A version that can stand in a start line. -/
def isValidVersionForEncode (version : Str) : Bool :=
  !version.isEmpty && (Utf8.encode version).all fun byte => 0x21 ≤ byte && byte ≤ 0x7E

/-- The hexadecimal digits of a length. -/
def writeHexUsize (value : Nat) : Bytes := Utf8.encode (Numerals.write 16 value)

/-- The decimal digits of a length. -/
def writeUsizeDecimal (value : Nat) : Bytes := Utf8.encode (Numerals.write 10 value)

/-- The form of a request target as the encoder tells it. -/
def detectRequestTargetForm (uri : Str) : Except EncodeError RequestTargetForm :=
  if uri = "*".toList then .ok .asterisk
  else if containsStr "://".toList uri then .ok .absolute
  else if uri.head? = some '/' then .ok .origin
  else if looksLikeAuthorityForm uri then .ok .authority
  else if (detectScheme uri).isSome then .ok .absolute
  else .error (.invalidRequestTarget uri)
where
  /-- A host and a port, without a user. -/
  looksLikeAuthorityForm (uri : Str) : Bool :=
    !uri.contains '@' &&
      match rsplitOnce ':' uri with
      | some (host, port) =>
        !port.isEmpty && (Utf8.encode port).all isAsciiDigit && (parseU16 port).isSome &&
          !host.isEmpty
      | none => false

/-- The host before the port of a target. -/
def validateEncoderAuthorityForm (uri : Str) : Except EncodeError Unit :=
  match rsplitOnce ':' uri with
  | some (host, _) => if (Host.parse host).isOk then .ok () else .error (.invalidRequestTarget uri)
  | none => .ok ()

/-- An http target has its two slashes. -/
def rejectHttpWithoutAuthorityPrefix (uri : Str) : Except EncodeError Unit :=
  match splitOnce ':' uri with
  | some (scheme, rest) =>
    if (eqIgnoreAsciiCase scheme "http".toList || eqIgnoreAsciiCase scheme "https".toList) &&
        !("//".toList).isPrefixOf rest then
      .error (.invalidRequestTarget uri)
    else .ok ()
  | none => .ok ()

/-- The forms each method may use. -/
def validateRequestTargetForm (method uri : Str) : Except EncodeError Unit := do
  let form ← detectRequestTargetForm uri
  match form with
  | .authority =>
    if method = "CONNECT".toList then validateEncoderAuthorityForm uri
    else .error (.invalidRequestTargetForm method uri)
  | .asterisk =>
    if method = "OPTIONS".toList then .ok () else .error (.invalidRequestTargetForm method uri)
  | .origin =>
    if method = "CONNECT".toList then .error (.invalidRequestTargetForm method uri)
    -- Brackets belong to an authority only.
    else if (Utf8.encode uri).any (fun byte => byte == 0x5B || byte == 0x5D) then
      .error (.invalidRequestTarget uri)
    else .ok ()
  | .absolute =>
    if method = "CONNECT".toList then .error (.invalidRequestTargetForm method uri)
    else rejectHttpWithoutAuthorityPrefix uri

/-- The names and values of all fields. -/
def validateHeaders : Headers → Except EncodeError Unit
  | [] => .ok ()
  | (name, value) :: rest => do
    let _ ← checkHeader name value
    validateHeaders rest

/-- The fields of a request. -/
def validateRequestFields (request : Request) : Except EncodeError Unit := do
  reject (!isValidMethod request.method) (.invalidMethod request.method)
  reject (!isValidRequestTarget request.uri) (.invalidRequestTarget request.uri)
  reject ((Utf8.encode request.uri).any fun byte => 0x7E < byte) (.invalidRequestTarget request.uri)
  validateRequestTargetForm request.method request.uri
  reject (!isValidVersionForEncode request.version) (.invalidVersion request.version)
  validateHeaders request.headers

/-- The fields of a response. -/
def validateResponseFields (response : Response) : Except EncodeError Unit := do
  reject (!isValidVersionForEncode response.version) (.invalidVersion response.version)
  reject (!isValidStatusCode response.statusCode) (.invalidStatusCode response.statusCode)
  -- An absent reason phrase is sent as an empty one.
  reject (!response.reasonPhrase.isEmpty && !isValidReasonPhrase response.reasonPhrase)
    (.invalidReasonPhrase response.reasonPhrase)
  validateHeaders response.headers

/-- The part of an authority after its user. -/
def withoutUserinfo (authority : Str) : Str :=
  match rsplitOnce '@' authority with
  | some (_, hostPort) => hostPort
  | none => authority

/-- The authority of a URI, without its user. -/
def extractAuthorityFromUri (uri : Str) : Option Str :=
  (splitOnceStr "://".toList uri).map fun (_, afterScheme) =>
    withoutUserinfo (authorityOf afterScheme)

/-- A target with one of the http schemes and its two slashes. -/
def isHttpUri (uri : Str) : Bool :=
  ("http://".toList).isPrefixOf (toAsciiLowercase uri) ||
    ("https://".toList).isPrefixOf (toAsciiLowercase uri)

/-- An http target names no user. -/
def rejectHttpUserinfo (uri : Str) : Except EncodeError Unit :=
  if !isHttpUri uri then .ok ()
  else match splitOnceStr "://".toList uri with
    | none => .ok ()
    | some (_, afterScheme) =>
      if (authorityOf afterScheme).contains '@' then .error (.userinfoInHttpUri uri) else .ok ()

/-- An http target names a host. -/
def rejectHttpEmptyHost (uri : Str) : Except EncodeError Unit :=
  if !isHttpUri uri then .ok ()
  else match splitOnceStr "://".toList uri with
    | none => .ok ()
    | some (_, afterScheme) =>
      let hostPort := withoutUserinfo (authorityOf afterScheme)
      if hostPort.isEmpty || hostPort.head? = some ':' then .error (.emptyHostInHttpUri uri)
      else .ok ()

/-- The host of a tunnel agrees with its target. -/
def checkConnectHost (request : Request) (hostValue : Str) : Except EncodeError Unit :=
  match rsplitOnce ':' request.uri with
  -- A target without a port is compared with nothing.
  | none => .ok ()
  | some (targetHost, targetPort) =>
    -- An empty host never agrees with the target of a tunnel.
    if hostValue.isEmpty then .error (.hostAuthorityMismatch hostValue request.uri)
    else match Host.parse hostValue with
      -- A malformed host has been refused before.
      | .error _ => .ok ()
      | .ok parsed =>
        if !eqIgnoreAsciiCase parsed.host targetHost then
          .error (.hostAuthorityMismatch hostValue request.uri)
        else match parsed.port, parseU16 targetPort with
          | some hostPort, some targetPort =>
            if hostPort ≠ targetPort then .error (.hostAuthorityMismatch hostValue request.uri)
            else .ok ()
          -- A port that stands on one side only is not compared.
          | _, _ => .ok ()

/-- The authority of a target is the host. -/
def checkAuthority (uri hostValue : Str) : Except EncodeError Unit :=
  match extractAuthorityFromUri uri with
  | some authority =>
    reject (!authority.isEmpty && !eqIgnoreAsciiCase authority hostValue)
      (.hostAuthorityMismatch hostValue authority)
  | none => .ok ()

/-- A target without authority has no host. -/
def checkNoAuthority (uri hostValue : Str) : Except EncodeError Unit :=
  match detectRequestTargetForm uri with
  | .ok .absolute =>
    reject (!containsStr "://".toList uri && !hostValue.isEmpty)
      (.nonEmptyHostWithoutAuthority hostValue uri)
  | _ => .ok ()

/-- The one host a request of version 1.1 needs, which agrees with its target. -/
def validateHostHeader (request : Request) : Except EncodeError Unit :=
  if request.version ≠ http11 then .ok ()
  else match getHeaders request.headers "Host".toList with
    | [] => .error .missingHostHeader
    | [hostValue] => do
      -- An empty host is well formed; the target decides about it.
      reject (!hostValue.isEmpty && !(Host.parse hostValue).isOk) (.invalidHostHeader hostValue)
      -- The authority is looked for wherever these three characters stand in the target.
      onlyIf (containsStr "://".toList request.uri) (checkAuthority request.uri hostValue)
      onlyIf (request.method = "CONNECT".toList) (checkConnectHost request hostValue)
      checkNoAuthority request.uri hostValue
    | _ => .error .duplicateHostHeader

/-- One declared length, which has to agree with the ones before it. -/
def checkLengthField (result : Option Nat) (value : Str) : Except EncodeError (Option Nat) :=
  let trimmed := trimOws value
  if trimmed.isEmpty || !(Utf8.encode trimmed).all isAsciiDigit then
    .error (.invalidContentLengthValue value)
  else match parseU64 trimmed with
    | none => .error (.invalidContentLengthValue value)
    | some parsed =>
      match result with
      | none => .ok (some parsed)
      -- Several fields may say the same length.
      | some prev => if prev ≠ parsed then .error .duplicateContentLength else .ok result

/-- The length all fields agree on. -/
def validateContentLengthHeaders (headers : Headers) : Except EncodeError (Option Nat) :=
  (getHeaders headers "Content-Length".toList).foldlM checkLengthField none

/-- The length of a body, which is zero without one. -/
def bodyLength (body : Option Bytes) : Nat := (body.map List.length).getD 0

/-- Header lines. -/
def encodeFields (headers : Headers) : Bytes :=
  headers.flatMap fun (name, value) =>
    Utf8.encode name ++ Utf8.encode ": ".toList ++ Utf8.encode value ++ crlf

/-- The line of a length added by the encoder. -/
def contentLengthLine (length : Nat) : Bytes :=
  Utf8.encode "Content-Length: ".toList ++ writeUsizeDecimal length ++ crlf

/-- The request line. -/
def requestLine (request : Request) : Bytes :=
  Utf8.encode request.method ++ [0x20] ++ Utf8.encode request.uri ++ [0x20] ++
    Utf8.encode request.version ++ crlf

/-- The status line. -/
def statusLine (response : Response) : Bytes :=
  Utf8.encode response.version ++ [0x20] ++ writeUsizeDecimal response.statusCode ++ [0x20] ++
    Utf8.encode response.reasonPhrase ++ crlf

/-- What both encoders of requests check before framing. -/
def checkRequest (request : Request) : Except EncodeError Unit := do
  validateRequestFields request
  rejectHttpUserinfo request.uri
  rejectHttpEmptyHost request.uri
  validateHostHeader request
  reject (hasHeader request.headers "Transfer-Encoding".toList &&
    hasHeader request.headers "Content-Length".toList) .conflictingTransferEncodingAndContentLength

/-- The declared length agrees with the body, where it has to. -/
def checkLength (headers : Headers) (body : Option Bytes) (compared : Bool) :
    Except EncodeError Unit := do
  match ← validateContentLengthHeaders headers with
  | some headerValue =>
    reject (compared && headerValue != bodyLength body)
      (.contentLengthMismatch headerValue (bodyLength body))
  | none => .ok ()

/-- The declared length agrees with the body. -/
def checkDeclaredLength (headers : Headers) (body : Option Bytes) : Except EncodeError Unit :=
  onlyIf (!hasHeader headers "Transfer-Encoding".toList) (checkLength headers body true)

/-- The encoder adds the length of the body to a request. -/
def shouldAutoEmitContentLengthForRequest (request : Request) : Bool :=
  request.body.isSome && !hasHeader request.headers "Content-Length".toList &&
    !hasHeader request.headers "Transfer-Encoding".toList

/-- The bytes of a request. -/
def encodeRequest (request : Request) : Except EncodeError Bytes := do
  checkRequest request
  checkDeclaredLength request.headers request.body
  return requestLine request ++ encodeFields request.headers ++
    (if shouldAutoEmitContentLengthForRequest request then
      contentLengthLine (bodyLength request.body) else []) ++
    crlf ++ request.body.getD []

/-- The bytes of a request up to its body. -/
def encodeRequestHeaders (request : Request) : Except EncodeError Bytes := do
  checkRequest request
  -- The length a tunnel declares is left to the application.
  onlyIf (request.method ≠ "CONNECT".toList) (checkDeclaredLength request.headers request.body)
  return requestLine request ++ encodeFields request.headers ++ crlf

/-- A status that admits a body. -/
def responseStatusHasBody (statusCode : Nat) : Bool :=
  !((100 ≤ statusCode && statusCode < 200) || statusCode == 204 || statusCode == 304)

/-- The encoder adds the length of the body to a response. -/
def shouldAutoEmitContentLengthForResponse (response : Response) : Bool :=
  responseStatusHasBody response.statusCode && !hasHeader response.headers "Content-Length".toList &&
    !hasHeader response.headers "Transfer-Encoding".toList &&
    match response.omitBody, response.body with
    | _, none => false
    | true, some [] => false
    | _, some _ => true

/-- The body of a response is sent. -/
def bodyWillBeEncoded (response : Response) : Bool :=
  responseStatusHasBody response.statusCode && !response.omitBody

/-- What both encoders of responses check before the status 205. -/
def checkResponse (response : Response) : Except EncodeError Unit := do
  validateResponseFields response
  let te := hasHeader response.headers "Transfer-Encoding".toList
  let cl := hasHeader response.headers "Content-Length".toList
  -- These responses may neither have a body nor frame one.
  let bodiless := (100 ≤ response.statusCode && response.statusCode < 200) ||
    response.statusCode == 204
  reject (te && cl) .conflictingTransferEncodingAndContentLength
  reject (bodiless && te) (.forbiddenTransferEncoding response.statusCode)
  reject (bodiless && cl) (.forbiddenContentLength response.statusCode)

/-- A response with status 205 declares no framing but the length zero. -/
def checkResetFields (response : Response) : Except EncodeError Unit := do
  reject (response.statusCode = 205 && hasHeader response.headers "Transfer-Encoding".toList)
    (.forbiddenTransferEncoding 205)
  reject (response.statusCode = 205 &&
    (getHeader response.headers "Content-Length".toList).any fun length =>
      trimOws length ≠ "0".toList) (.forbiddenContentLength 205)

/-- The bytes of a response. -/
def encodeResponse (response : Response) : Except EncodeError Bytes := do
  checkResponse response
  reject (response.statusCode = 205 && response.body.any fun body => !body.isEmpty)
    .forbiddenBodyFor205
  checkResetFields response
  -- A response to HEAD without its body may declare any length.
  onlyIf (responseStatusHasBody response.statusCode &&
    !hasHeader response.headers "Transfer-Encoding".toList)
    (checkLength response.headers response.body
      (bodyWillBeEncoded response || bodyLength response.body != 0))
  return statusLine response ++ encodeFields response.headers ++
    (if shouldAutoEmitContentLengthForResponse response then
      contentLengthLine (bodyLength response.body) else []) ++
    crlf ++ (if bodyWillBeEncoded response then response.body.getD [] else [])

/-- The bytes of a response up to its body. -/
def encodeResponseHeaders (response : Response) : Except EncodeError Bytes := do
  checkResponse response
  checkResetFields response
  onlyIf (responseStatusHasBody response.statusCode)
    (checkDeclaredLength response.headers response.body)
  return statusLine response ++ encodeFields response.headers ++ crlf

/-- One chunk; the empty one is the last. -/
def encodeChunk (data : Bytes) : Bytes :=
  if data.isEmpty then Utf8.encode "0\r\n\r\n".toList
  else writeHexUsize data.length ++ crlf ++ data ++ crlf

/-- Chunks and the last chunk. -/
def encodeChunks (chunks : List Bytes) : Bytes :=
  chunks.flatMap (fun chunk => writeHexUsize chunk.length ++ crlf ++ chunk ++ crlf) ++
    Utf8.encode "0\r\n\r\n".toList

end Http11

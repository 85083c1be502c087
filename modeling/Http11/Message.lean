import Http11.Decoder.Fields

/-! Heads, requests and responses, the checked ways to build them, and what heads tell of them. -/

namespace Http11

open Checked

/-- The head of a request. -/
structure RequestHead where
  /-- The method. -/
  method : Str
  /-- The request target. -/
  uri : Str
  /-- The protocol version. -/
  version : Str
  /-- The header fields. -/
  headers : Headers
  deriving DecidableEq, Repr

/-- The head of a response. -/
structure ResponseHead where
  /-- The protocol version. -/
  version : Str
  /-- The status code. -/
  statusCode : Nat
  /-- The reason phrase, empty when there is none. -/
  reasonPhrase : Str
  /-- The header fields. -/
  headers : Headers
  deriving DecidableEq, Repr

/-- A whole request. -/
structure Request where
  /-- The method. -/
  method : Str
  /-- The request target. -/
  uri : Str
  /-- The protocol version. -/
  version : Str
  /-- The header fields. -/
  headers : Headers
  /-- The body, or none when there is no framing for one. -/
  body : Option Bytes
  deriving DecidableEq, Repr

/-- A whole response. -/
structure Response where
  /-- The protocol version. -/
  version : Str
  /-- The status code. -/
  statusCode : Nat
  /-- The reason phrase, empty when there is none. -/
  reasonPhrase : Str
  /-- The header fields. -/
  headers : Headers
  /-- The body, or none when there is no framing for one. -/
  body : Option Bytes
  /-- The body is not sent, as in answers to HEAD. -/
  omitBody : Bool
  deriving DecidableEq, Repr

/-- The version a message has unless another one is asked for. -/
def http11 : Str := "HTTP/1.1".toList

/-- A header field checked before it is added. -/
def checkHeader (name value : Str) : Except EncodeError (Str × Str) :=
  if !isValidHeaderName name then .error (.invalidHeaderName name)
  else if !isValidFieldValue value then .error (.invalidHeaderValue name value)
  else .ok (name, value)

/-- Header fields with one more at the end. -/
def addField (headers : Headers) (name value : Str) : Except EncodeError Headers :=
  (checkHeader name value).map fun field => headers ++ [field]

/-- Header fields with all of one name replaced by one at the end. -/
def setField (headers : Headers) (name value : Str) : Except EncodeError Headers :=
  (checkHeader name value).map fun field =>
    headers.filter (fun other => !eqIgnoreAsciiCase other.1 name) ++ [field]

namespace Request

/-- The checks of a method and a target that a sender may use. -/
def checkTarget (method uri : Str) : Except EncodeError Unit :=
  if !isValidMethod method then .error (.invalidMethod method)
  else if !isValidRequestTarget uri then .error (.invalidRequestTarget uri)
  else if (Utf8.encode uri).any (fun byte => 0x80 ≤ byte) then .error (.invalidRequestTarget uri)
  else .ok ()

/-- A request without fields and body. -/
def new (method uri : Str) : Except EncodeError Request := do
  checkTarget method uri
  return ⟨method, uri, http11, [], none⟩

/-- A request of a given version without fields and body. -/
def withVersion (method uri version : Str) : Except EncodeError Request := do
  checkTarget method uri
  reject (!isValidProtocolVersion version) (.invalidVersion version)
  return ⟨method, uri, version, [], none⟩

/-- A request from the parts a decoder has checked. -/
def fromRawParts (head : RequestHead) (body : Option Bytes) : Request :=
  ⟨head.method, head.uri, head.version, head.headers, body⟩

/-- One more header field. -/
def addHeader (request : Request) (name value : Str) : Except EncodeError Request :=
  (addField request.headers name value).map fun headers => { request with headers }

/-- A header field in the place of all of its name. -/
def setHeader (request : Request) (name value : Str) : Except EncodeError Request :=
  (setField request.headers name value).map fun headers => { request with headers }

/-- A body. -/
def setBody (request : Request) (body : Bytes) : Request := { request with body := some body }

/-- No body. -/
def clearBody (request : Request) : Request := { request with body := none }

/-- The requests a program can build. -/
inductive Built : Request → Prop where
  /-- A fresh request. -/
  | new {method uri : Str} {request : Request} : new method uri = .ok request → Built request
  /-- A fresh request of a given version. -/
  | withVersion {method uri version : Str} {request : Request} :
    withVersion method uri version = .ok request → Built request
  /-- A field added. -/
  | addHeader {request next : Request} {name value : Str} :
    Built request → request.addHeader name value = .ok next → Built next
  /-- A field replaced. -/
  | setHeader {request next : Request} {name value : Str} :
    Built request → request.setHeader name value = .ok next → Built next
  /-- A body given. -/
  | setBody {request : Request} (body : Bytes) : Built request → Built (request.setBody body)
  /-- The body taken away. -/
  | clearBody {request : Request} : Built request → Built request.clearBody

end Request

namespace Response

/-- The checks of a status. -/
def checkStatus (statusCode : Nat) (reasonPhrase : Str) : Except EncodeError Unit :=
  if !isValidStatusCode statusCode then .error (.invalidStatusCode statusCode)
  else if !isValidReasonPhrase reasonPhrase then .error (.invalidReasonPhrase reasonPhrase)
  else .ok ()

/-- A response without fields and body. -/
def new (statusCode : Nat) (reasonPhrase : Str) : Except EncodeError Response := do
  checkStatus statusCode reasonPhrase
  return ⟨http11, statusCode, reasonPhrase, [], none, false⟩

/-- A response of a given version without fields and body. -/
def withVersion (version : Str) (statusCode : Nat) (reasonPhrase : Str) :
    Except EncodeError Response := do
  reject (!isValidProtocolVersion version) (.invalidVersion version)
  checkStatus statusCode reasonPhrase
  return ⟨version, statusCode, reasonPhrase, [], none, false⟩

/-- A response from the parts a decoder has checked. -/
def fromRawParts (head : ResponseHead) (body : Option Bytes) : Response :=
  ⟨head.version, head.statusCode, head.reasonPhrase, head.headers, body, false⟩

/-- One more header field. -/
def addHeader (response : Response) (name value : Str) : Except EncodeError Response :=
  (addField response.headers name value).map fun headers => { response with headers }

/-- A header field in the place of all of its name. -/
def setHeader (response : Response) (name value : Str) : Except EncodeError Response :=
  (setField response.headers name value).map fun headers => { response with headers }

/-- A body. -/
def setBody (response : Response) (body : Bytes) : Response := { response with body := some body }

/-- No body. -/
def clearBody (response : Response) : Response := { response with body := none }

/-- Whether the body is sent. -/
def setOmitBody (response : Response) (omit_ : Bool) : Response :=
  { response with omitBody := omit_ }

/-- The responses a program can build. -/
inductive Built : Response → Prop where
  /-- A fresh response. -/
  | new {statusCode : Nat} {reasonPhrase : Str} {response : Response} :
    new statusCode reasonPhrase = .ok response → Built response
  /-- A fresh response of a given version. -/
  | withVersion {version : Str} {statusCode : Nat} {reasonPhrase : Str} {response : Response} :
    withVersion version statusCode reasonPhrase = .ok response → Built response
  /-- A field added. -/
  | addHeader {response next : Response} {name value : Str} :
    Built response → response.addHeader name value = .ok next → Built next
  /-- A field replaced. -/
  | setHeader {response next : Response} {name value : Str} :
    Built response → response.setHeader name value = .ok next → Built next
  /-- A body given. -/
  | setBody {response : Response} (body : Bytes) : Built response → Built (response.setBody body)
  /-- The body taken away. -/
  | clearBody {response : Response} : Built response → Built response.clearBody
  /-- The body kept back, or not. -/
  | setOmitBody {response : Response} (omit_ : Bool) :
    Built response → Built (response.setOmitBody omit_)

end Response

namespace HttpHead

/-- The tokens of a value: whether one of them keeps the connection, unless one closes it. -/
def connectionTokens (hasKeepAlive : Bool) : List Str → Option Bool
  | [] => some hasKeepAlive
  | token :: rest =>
    if eqIgnoreAsciiCase (trimOws token) "close".toList then none
    else connectionTokens
      (hasKeepAlive || eqIgnoreAsciiCase (trimOws token) "keep-alive".toList) rest

/-- The fields from one of them on, behind tokens that did not close the connection. -/
def keepsAlive (version : Str) (hasKeepAlive : Bool) : Headers → Bool
  | [] => hasKeepAlive || version == http11
  | (name, value) :: rest =>
    if !eqIgnoreAsciiCase name "Connection".toList then keepsAlive version hasKeepAlive rest
    else match connectionTokens hasKeepAlive (value.splitOn ',') with
      | none => false
      | some hasKeepAlive => keepsAlive version hasKeepAlive rest

/-- The connection stays open behind the message. -/
def isKeepAlive (version : Str) (headers : Headers) : Bool := keepsAlive version false headers

/-- The length the fields declare. -/
def contentLength (headers : Headers) : Except Error (Option Nat) := parseContentLength headers

/-- The last coding in one value that is not empty, or the one before it. -/
def lastCoding (value : Str) (last : Option Str) : Option Str :=
  (value.splitOn ',').foldl
    (fun last token => if (trimOws token).isEmpty then last else some (trimOws token)) last

/-- The last coding of a message is the chunked one. -/
def isChunked (headers : Headers) : Bool :=
  (headers.foldl (fun last (name, value) =>
      if !eqIgnoreAsciiCase name "Transfer-Encoding".toList then last else lastCoding value last)
    none).any fun token => eqIgnoreAsciiCase token "chunked".toList

end HttpHead

end Http11

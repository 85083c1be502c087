import Http11.Decoder.Request
import Http11.Encoder
import Http11.Message
import Http11.ServerResponse
import Http11.Streaming

/-! The reverse proxy: requests of its clients go on to an upstream server. -/

namespace Http11

/-- The constant for a method that is not allowed, one of the registered statuses. -/
def StatusCode.methodNotAllowed : StatusCode := ⟨405, "Method Not Allowed", by decide⟩

namespace ReverseProxy

/-- The field names that the Connection fields of a head list, in lower case. -/
def connectionHeaders (headers : Headers) : List Str :=
  (headers.filter fun field => eqIgnoreAsciiCase field.1 "Connection".toList).flatMap fun field =>
    ((field.2.splitOn ',').map fun token => toAsciiLowercase (trim token)).filter
      fun token => !token.isEmpty

/-- The names of the fields that are meant for one connection only. -/
def hopByHopHeaders : List Str :=
  ["connection".toList, "keep-alive".toList, "proxy-authenticate".toList,
    "proxy-authorization".toList, "proxy-connection".toList, "te".toList,
    "transfer-encoding".toList, "upgrade".toList]

/-- A field that is not sent on. -/
def isHopByHopHeader (name : Str) (connectionHeaders : List Str) : Bool :=
  hopByHopHeaders.contains (toAsciiLowercase name) ||
    connectionHeaders.contains (toAsciiLowercase name)

/-- The fields of a head are added one by one, but for those left out. -/
def copyHeaders {Whole : Type} (addHeader : Whole → Str → Str → Except EncodeError Whole)
    (skipped : Str → Bool) (headers : Headers) (whole : Whole) : Except EncodeError Whole :=
  headers.foldlM (fun whole (name, value) =>
    if skipped name then .ok whole else addHeader whole name value) whole

/-- The fields of a request that are not copied. -/
def isSkippedInRequest (connectionHeaders : List Str) (name : Str) : Bool :=
  eqIgnoreAsciiCase name "host".toList || eqIgnoreAsciiCase name "content-length".toList ||
    isHopByHopHeader name connectionHeaders

/-- The request that goes on to the upstream server. -/
def upstreamRequest (upstreamHostHeader : Str) (head : RequestHead) (bodyKind : BodyKind)
    (body : Bytes) : Except EncodeError Request := do
  let request ← Request.new head.method head.uri
  let listed := connectionHeaders head.headers
  let request ← copyHeaders Request.addHeader (isSkippedInRequest listed) head.headers request
  let request ← request.addHeader "Host".toList upstreamHostHeader
  let request ← request.addHeader "Connection".toList "keep-alive".toList
  -- A request without framing stays without a body.
  return if bodyKind = .none then request else request.setBody body

/-- The answer to a request for a tunnel. -/
def rejectConnect : Except EncodeError Response := do
  let response ← Response.withStatus .methodNotAllowed
  let response ← response.header "Allow".toList
    "GET, HEAD, POST, PUT, DELETE, OPTIONS, PATCH".toList
  let response ← response.header "Content-Length".toList "0".toList
  response.header "Connection".toList "close".toList

/-- What a connection is given up for. -/
inductive Failure where
  /-- The decoder has refused the input. -/
  | decoder (error : Error)
  /-- What was built is refused. -/
  | encoder (error : EncodeError)
  /-- The proxy has given up by itself, and says why. -/
  | said (text : Str)
  /-- A connection could not be read or written. -/
  | connection
  deriving DecidableEq, Repr

/-- What the input of a client has come to. -/
inductive Outcome where
  /-- The client has left before its request was there. -/
  | left
  /-- The request for a tunnel was answered. -/
  | rejected (bytes : Bytes)
  /-- The request goes on. -/
  | forwards (request : Request)
  /-- The connection was given up. -/
  | failed (failure : Failure)
  deriving DecidableEq, Repr

/-- What happens on a connection that is read. -/
inductive Happening where
  /-- Bytes arrive. -/
  | arrives (data : Bytes)
  /-- At most so many of them are read. -/
  | reads (count : Nat)
  /-- The peer has closed the connection, which is read behind everything that has arrived. -/
  | closes
  /-- A connection breaks. -/
  | breaks
  deriving DecidableEq, Repr

/-- The bytes that arrive when something happens. -/
def Happening.input : Happening → Bytes
  | .arrives data => data
  | .reads _ | .closes | .breaks => []

/-- Everything that has arrived. -/
def arrived (happenings : List Happening) : Bytes := happenings.flatMap Happening.input

end ReverseProxy

open ReverseProxy

/-- The request of a client of the proxy, as far as it was received. -/
structure ProxyRequest where
  /-- The decoder. -/
  decoder : RequestDecoder := RequestDecoder.withLimits {}
  /-- The head and framing of the request, once they were read. -/
  current : Option (RequestHead × BodyKind) := none
  /-- The part of its body received so far. -/
  body : Bytes := []
  /-- What has arrived and was not read. -/
  waiting : Bytes := []
  /-- What it has come to. -/
  outcome : Option Outcome := none
  deriving DecidableEq, Repr

namespace ProxyRequest

/-- The most bytes of one read. -/
def readChunk : Nat := 4096

/-- What a request comes to that was received. -/
def received (upstreamHostHeader : Str) (head : RequestHead) (bodyKind : BodyKind) (body : Bytes) :
    Outcome :=
  -- A tunnel is refused with a response to the client.
  if bodyKind = .tunnel then
    match rejectConnect >>= encodeResponse with
    | .error error => .failed (.encoder error)
    | .ok bytes => .rejected bytes
  else match upstreamRequest upstreamHostHeader head bodyKind body with
    | .error error => .failed (.encoder error)
    | .ok request => .forwards request

/-- What follows a head that is there: the body as far as it has arrived. -/
def receiveBody (upstreamHostHeader : Str) (run : ProxyRequest) (head : RequestHead)
    (bodyKind : BodyKind) : ProxyRequest :=
  -- Such a request is complete with its head.
  if bodyKind = .none || bodyKind = .tunnel then
    { run with outcome := some (received upstreamHostHeader head bodyKind run.body) }
  else match run.decoder.takeBody with
    | (.error error, decoder, pieces) => { run with
        decoder, body := run.body ++ pieces.flatten, outcome := some (.failed (.decoder error)) }
    -- The rest of the body has not arrived yet.
    | (.ok none, decoder, pieces) => { run with decoder, body := run.body ++ pieces.flatten }
    | (.ok (some _), decoder, pieces) =>
      let body := run.body ++ pieces.flatten
      { run with decoder, body, outcome := some (received upstreamHostHeader head bodyKind body) }

/-- What follows a read. -/
def receive (upstreamHostHeader : Str) (run : ProxyRequest) : ProxyRequest :=
  match run.current with
  | some (head, bodyKind) => run.receiveBody upstreamHostHeader head bodyKind
  | none =>
    match RequestDecoder.decodeHeaders run.decoder with
    | (.error error, decoder) => { run with decoder, outcome := some (.failed (.decoder error)) }
    | (.ok none, decoder) => { run with decoder }
    -- The body may have arrived together with the head.
    | (.ok (some (head, bodyKind)), decoder) =>
      { run with decoder, current := some (head, bodyKind) }.receiveBody upstreamHostHeader head
        bodyKind

/-- A connection is given up where the next read would have no room. -/
def checkRoom (run : ProxyRequest) : ProxyRequest :=
  if run.outcome.isNone && run.decoder.want readChunk == 0 then
    { run with outcome := some (.failed (.said "decoder buffer full".toList)) }
  else run

/-- A read of some bytes, and everything that follows up to the next one. -/
def read (upstreamHostHeader : Str) (count : Nat) (run : ProxyRequest) : ProxyRequest :=
  -- A read returns once there is something to return.
  if run.outcome.isSome || run.decoder.granted readChunk count run.waiting == 0 then run
  else match run.decoder.receive readChunk count run.waiting with
    | (.error error, decoder, waiting) =>
      { run with decoder, waiting, outcome := some (.failed (.decoder error)) }
    | (.ok (), decoder, waiting) =>
      ({ run with decoder, waiting }.receive upstreamHostHeader).checkRoom

/-- The end of the connection is read. -/
def close (run : ProxyRequest) : ProxyRequest :=
  if run.outcome.isSome || !run.waiting.isEmpty then run
  else match run.current with
    | none => { run with outcome := some .left }
    -- A body that is not complete is not sent on.
    | some _ => { run with
        outcome := some (.failed (.said "client disconnected during request body".toList)) }

/-- The run after something has happened. -/
def happen (upstreamHostHeader : Str) (run : ProxyRequest) : Happening → ProxyRequest
  | .arrives data => { run with waiting := run.waiting ++ data }
  | .reads count => run.read upstreamHostHeader count
  | .closes => run.close
  | .breaks => { run with outcome := some (run.outcome.getD (.failed .connection)) }

/-- A client with whose connection some things happen, one after the other. -/
def across (upstreamHostHeader : Str) (happenings : List Happening) : ProxyRequest :=
  happenings.foldl (happen upstreamHostHeader) {}

end ProxyRequest

end Http11

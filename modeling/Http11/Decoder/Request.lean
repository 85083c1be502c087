import Http11.Decoder.Buffer
import Http11.Message
import Http11.RequestTarget

/-! The decoder of requests. -/

namespace Http11

open Checked

namespace RequestDecoder

/-- A request line: a method, a target in a form that suits it, and a version. -/
def checkStartLine (line : Str) : Except Error Unit :=
  if line.contains '\r' || line.contains '\n' then
    .error (.invalidData "invalid request line: contains CR/LF")
  else match splitn 3 ' ' line with
    | [method, uri, version] => do
      reject (!isValidMethod method) (.invalidData "invalid request line: invalid method")
      reject (!isValidRequestTarget uri)
        (.invalidData "invalid request line: invalid request-target")
      -- A target outside ASCII could not be sent on.
      reject ((Utf8.encode uri).any fun byte => 0x80 ≤ byte)
        (.invalidData "invalid request-target: non-ASCII characters")
      let form ← parseRequestTargetForm uri
      validateRequestTargetForMethod method form
      reject (!isValidProtocolVersion version)
        (.invalidData "invalid request line: invalid protocol version")
    | _ => .error (.invalidData ("invalid request line: " ++ String.ofList line))

/-- The one host a request of version 1.1 needs. -/
def checkHost (headers : Headers) : Except Error Unit :=
  match getHeaders headers "Host".toList with
  | [] => .error (.invalidData "HTTP/1.1 request missing Host header")
  | [host] =>
    -- An empty host is allowed.
    if !host.isEmpty && !(Host.parse host).isOk then
      .error (.invalidData "HTTP/1.1 request contains invalid Host header value")
    else .ok ()
  | _ => .error (.invalidData "HTTP/1.1 request contains multiple Host headers")

/-- The framing of a request. -/
def determineBodyKind (limits : DecoderLimits) (version : Str) (headers : Headers) :
    Except Error BodyKind := do
  let (chunked, contentLength) ← resolveBodyHeadersForRequest headers
  if chunked then
    -- The version is looked at only where the body is chunked.
    if version ≠ http11 then
      .error (.invalidData "Transfer-Encoding is only defined for HTTP/1.1")
    else pure .chunked
  else match contentLength with
    | some len =>
      if limits.maxBodySize < len then
        -- The error reports what fits the machine word.
        .error (.bodyTooLarge (min len usizeMax) limits.maxBodySize)
      else pure (.contentLength len)
    | none => pure .none

/-- The framing of a request, of which a tunnel needs none. -/
def requestBodyKind (limits : DecoderLimits) (method version : Str) (headers : Headers) :
    Except Error BodyKind :=
  if method = "CONNECT".toList then .ok .tunnel else determineBodyKind limits version headers

/-- The head of a request and its framing. -/
def finishHead (limits : DecoderLimits) (_ : Unit) (startLine : Str) (headers : Headers) :
    Except Error (RequestHead × BodyKind) := do
  let version := (startLine.splitOn ' ')[2]?.getD []
  onlyIf (version = http11) (checkHost headers)
  let bodyKind ← requestBodyKind limits ((startLine.splitOn ' ').head?.getD []) version headers
  -- The start line was checked to have these three parts.
  let parts := splitn 3 ' ' startLine
  return (⟨parts[0]?.getD [], parts[1]?.getD [], parts[2]?.getD [], headers⟩, bodyKind)

/-- The phase a framing leads to; requests never end with the connection. -/
def bodyPhase : BodyKind → DecodePhase
  | .contentLength len => if 0 < len then .bodyContentLength len else .complete
  | .chunked => .bodyChunkedSize
  | .closeDelimited | .none => .complete
  | .tunnel => .tunnel

/-- How heads of requests are read. -/
def side : Side RequestHead Unit where
  checkStartLine := checkStartLine
  missingStartLine := "missing request line"
  finishHead := finishHead
  headersOf := RequestHead.headers
  bodyPhase := bodyPhase
  nextContext := id

end RequestDecoder

/-- A decoder of requests. -/
abbrev RequestDecoder := Decoder RequestHead Unit

namespace RequestDecoder

/-- A fresh decoder. -/
def withLimits (limits : DecoderLimits) : RequestDecoder := { limits, context := () }

/-- The head of the next request, when all of it is buffered. -/
def decodeHeaders (decoder : RequestDecoder) :
    Except Error (Option (RequestHead × BodyKind)) × RequestDecoder :=
  decoder.onCore (Core.decodeHeaders side)

/-- The request that is complete, and the decoder ready for the next one. -/
def finish (decoder : RequestDecoder) (head : RequestHead) (bodyKind : BodyKind) :
    Except Error (Option Request) × RequestDecoder :=
  (.ok (some (Request.fromRawParts head (decoder.collectedBody bodyKind))),
    { decoder with phase := .startLine, bodyDecoder := {}, decoded := none, decodedBody := [] })

/-- The next whole request, when all of it is buffered. -/
def decode (decoder : RequestDecoder) : Except Error (Option Request) × RequestDecoder :=
  match decoder.decodeHead side with
  | (.error error, decoder) => (.error error, decoder)
  | (.ok none, decoder) => (.ok none, decoder)
  | (.ok (some (head, bodyKind)), decoder) =>
    match bodyKind with
    | .tunnel => (.error (.invalidData
        "decode() cannot be used in tunnel mode, use take_remaining() instead"), decoder)
    | .contentLength _ | .chunked =>
      match decoder.readBody with
      | (.error error, decoder) => (.error error, decoder)
      -- What has arrived of the body stays with the decoder.
      | (.ok false, decoder) => (.ok none, decoder)
      | (.ok true, decoder) => finish decoder head bodyKind
    | .closeDelimited | .none => finish decoder head bodyKind

/-- The decoders a program can come to. -/
inductive Reachable : RequestDecoder → Prop where
  /-- A fresh decoder. -/
  | withLimits (limits : DecoderLimits) : Reachable (withLimits limits)
  /-- Checked input, which may be refused. -/
  | feed {decoder : RequestDecoder} (data : Bytes) :
    Reachable decoder → Reachable (decoder.feed data).2
  /-- Unchecked input. -/
  | feedUnchecked {decoder : RequestDecoder} (data : Bytes) :
    Reachable decoder → Reachable (decoder.feedUnchecked data)
  /-- Room reserved for input. -/
  | mutBuf {decoder : RequestDecoder} (len : Nat) :
    Reachable decoder → Reachable (decoder.mutBuf len).2
  /-- Input written into the room reserved for it. -/
  | writePending {decoder : RequestDecoder} (data : Bytes) :
    Reachable decoder → Reachable (decoder.writePending data)
  /-- Room given back. -/
  | advanceBuf {decoder : RequestDecoder} (len : Nat) :
    Reachable decoder → Reachable (decoder.advanceBuf len)
  /-- The input taken away. -/
  | takeRemaining {decoder : RequestDecoder} :
    Reachable decoder → Reachable decoder.takeRemaining.2
  /-- A head read. -/
  | decodeHeaders {decoder : RequestDecoder} : Reachable decoder → Reachable (decodeHeaders decoder).2
  /-- Body bytes consumed. -/
  | consumeBody {decoder : RequestDecoder} (len : Nat) :
    Reachable decoder → Reachable (decoder.consumeBody len).2
  /-- The state machine moved on. -/
  | progress {decoder : RequestDecoder} : Reachable decoder → Reachable decoder.progress.2
  /-- A whole request decoded. -/
  | decode {decoder : RequestDecoder} : Reachable decoder → Reachable (decode decoder).2
  /-- Everything forgotten but the limits. -/
  | reset {decoder : RequestDecoder} : Reachable decoder → Reachable (decoder.reset ())

/-- A request that was decoded has left the buffer, or its head had done so before. -/
theorem decode_buf {decoder next : RequestDecoder} {request : Request}
    (decoded : decode decoder = (.ok (some request), next)) :
    next.decoded = none ∧ (next.buf.length < decoder.buf.length ∨
      decoder.decoded.isSome ∧ next.buf.length ≤ decoder.buf.length) := by
  unfold decode at decoded
  rcases read : decoder.decodeHead side with ⟨_ | _ | ⟨head, bodyKind⟩, headed⟩
  · simp [read] at decoded
  · simp [read] at decoded
  have before : decoder.decoded.isSome ∧ headed.buf.length ≤ decoder.buf.length ∨
      headed.buf.length < decoder.buf.length := by
    rcases Decoder.decodeHead_buf read with ⟨earlier, rfl⟩ | shorter
    · exact .inl ⟨earlier, le_rfl⟩
    · exact .inr shorter
  -- A finished request leaves the buffer as collecting its body did.
  have finished : ∀ collected : RequestDecoder, collected.buf.length ≤ headed.buf.length →
      finish collected head bodyKind = (.ok (some request), next) →
      next.decoded = none ∧ (next.buf.length < decoder.buf.length ∨
        decoder.decoded.isSome ∧ next.buf.length ≤ decoder.buf.length) := by
    intro collected shorter finished
    simp only [finish, Prod.mk.injEq] at finished
    obtain ⟨_, rfl⟩ := finished
    refine ⟨rfl, ?_⟩
    rcases before with ⟨earlier, bounded⟩ | strictly
    · exact .inr ⟨earlier, shorter.trans bounded⟩
    · exact .inl (shorter.trans_lt strictly)
  simp only [read] at decoded
  cases bodyKind with
  | tunnel => simp at decoded
  | closeDelimited => exact finished headed le_rfl decoded
  | none => exact finished headed le_rfl decoded
  | contentLength length =>
    rcases collected : headed.readBody with ⟨_ | _ | _, after⟩
    · simp [collected] at decoded
    · simp [collected] at decoded
    · simp only [collected] at decoded
      exact finished after (Decoder.readBody_buf collected) decoded
  | chunked =>
    rcases collected : headed.readBody with ⟨_ | _ | _, after⟩
    · simp [collected] at decoded
    · simp [collected] at decoded
    · simp only [collected] at decoded
      exact finished after (Decoder.readBody_buf collected) decoded

end RequestDecoder

end Http11

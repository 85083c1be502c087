import Http11.Decoder.Buffer
import Http11.Message

/-! The decoder of responses. -/

namespace Http11

open Checked

namespace ResponseDecoder

/-- A status line: a version, a status code and an optional reason phrase. -/
def checkStartLine (line : Str) : Except Error Unit :=
  if line.contains '\r' || line.contains '\n' then
    .error (.invalidData "invalid status line: contains CR/LF")
  else match splitn 3 ' ' line with
    | version :: status :: reason => do
      reject (!isValidProtocolVersion version)
        (.invalidData "invalid status line: invalid protocol version")
      match parseU16 status with
      | none => .error (.invalidData
          ("invalid status line: invalid status code: " ++ String.ofList status))
      | some statusCode => do
        reject (!isValidStatusCode statusCode) (.invalidData
          ("invalid status line: status code out of range: " ++ toString statusCode))
        -- An empty reason phrase counts as an absent one.
        reject (reason.head?.any fun reason => !reason.isEmpty && !isValidReasonPhrase reason)
          (.invalidData "invalid status line: invalid reason-phrase")
    | _ => .error (.invalidData ("invalid status line: " ++ String.ofList line))

/-- A status that admits a body. -/
def statusHasBody (statusCode : Nat) : Bool :=
  !((100 ≤ statusCode && statusCode < 200) || statusCode == 204 || statusCode == 304)

/-- The fields that a tunnel ignores. -/
def isFramingField (field : Str × Str) : Bool :=
  eqIgnoreAsciiCase field.1 "Transfer-Encoding".toList ||
    eqIgnoreAsciiCase field.1 "Content-Length".toList

/-- The framing of a response, and the fields its head keeps. -/
def determineBodyKind (limits : DecoderLimits) (requestMethod : Option Str) (startLine : Str)
    (headers : Headers) (statusCode : Nat) : Except Error (BodyKind × Headers) :=
  -- There is no body, whatever the fields say.
  if requestMethod = some "HEAD".toList || !statusHasBody statusCode then .ok (.none, headers)
  else if requestMethod = some "CONNECT".toList && (200 ≤ statusCode && statusCode < 300) then
    -- The head of a tunnel loses its framing fields.
    .ok (.tunnel, headers.filter fun field => !isFramingField field)
  else
    let version := (startLine.splitOn ' ').head?.getD []
    if version ≠ http11 && hasHeader headers "Transfer-Encoding".toList then
      .error (.invalidData "Transfer-Encoding is only defined for HTTP/1.1")
    else do
      let (result, contentLength) ← resolveBodyHeadersForResponse headers
      match result with
      | .chunked => pure (.chunked, headers)
      -- With another coding in the end the body lasts up to the end of the connection.
      | .other => pure (.closeDelimited, headers)
      | .none =>
        match contentLength with
        | some len =>
          if limits.maxBodySize < len then
            .error (.bodyTooLarge (min len usizeMax) limits.maxBodySize)
          else pure (.contentLength len, headers)
        | none => pure (.closeDelimited, headers)

/-- The head of a response and its framing. -/
def finishHead (limits : DecoderLimits) (requestMethod : Option Str) (startLine : Str)
    (headers : Headers) : Except Error (ResponseHead × BodyKind) :=
  let parts := splitn 3 ' ' startLine
  -- The parser of numbers admits a sign.
  match parseU16 (parts[1]?.getD []) with
  | none => .error (.invalidData
      ("invalid status code: " ++ String.ofList (parts[1]?.getD [])))
  | some statusCode => do
    let (bodyKind, headers) ← determineBodyKind limits requestMethod startLine headers statusCode
    return (⟨parts[0]?.getD [], statusCode, parts[2]?.getD [], headers⟩, bodyKind)

/-- The phase a framing leads to. -/
def bodyPhase : BodyKind → DecodePhase
  | .contentLength len => if 0 < len then .bodyContentLength len else .complete
  | .chunked => .bodyChunkedSize
  | .closeDelimited => .bodyCloseDelimited
  | .none => .complete
  | .tunnel => .tunnel

/-- How heads of responses are read; the method of a request serves one response only. -/
def side : Side ResponseHead (Option Str) where
  checkStartLine := checkStartLine
  missingStartLine := "missing status line"
  finishHead := finishHead
  headersOf := ResponseHead.headers
  bodyPhase := bodyPhase
  nextContext := fun _ => none

end ResponseDecoder

/-- A decoder of responses, which remembers the method of the request. -/
abbrev ResponseDecoder := Decoder ResponseHead (Option Str)

namespace ResponseDecoder

/-- A fresh decoder. -/
def withLimits (limits : DecoderLimits) : ResponseDecoder := { limits, context := none }

/-- The method of the request that is answered next. -/
def setRequestMethod (decoder : ResponseDecoder) (method : Str) : ResponseDecoder :=
  { decoder with context := some method }

/-- The end of the connection, which completes a body that lasts up to it. -/
def markEof (decoder : ResponseDecoder) : ResponseDecoder :=
  if decoder.phase = .bodyCloseDelimited then { decoder with phase := .complete } else decoder

/-- The head of the next response, when all of it is buffered. -/
def decodeHeaders (decoder : ResponseDecoder) :
    Except Error (Option (ResponseHead × BodyKind)) × ResponseDecoder :=
  decoder.onCore (Core.decodeHeaders side)

/-- The response that is complete, and the decoder ready for the next one. -/
def finish (decoder : ResponseDecoder) (head : ResponseHead) (bodyKind : BodyKind) :
    Except Error (Option Response) × ResponseDecoder :=
  (.ok (some (Response.fromRawParts head (decoder.collectedBody bodyKind))),
    { decoder with
      phase := .startLine, bodyDecoder := {}, decoded := none, decodedBody := [], context := none })

/-- What is buffered of a body that lasts up to the end of the connection. -/
def readUntilClose (decoder : ResponseDecoder) : Except Error Unit × ResponseDecoder :=
  match decoder.peekBody with
  | none => (.ok (), decoder)
  | some data =>
    -- The limit is compared before the data is taken.
    match checkedAdd decoder.decodedBody.length data.length with
    | none => (.error (.bodyTooLarge usizeMax decoder.limits.maxBodySize), decoder)
    | some newSize =>
      if decoder.limits.maxBodySize < newSize then
        (.error (.bodyTooLarge newSize decoder.limits.maxBodySize), decoder)
      else
        let decoder := { decoder with decodedBody := decoder.decodedBody ++ data }
        match decoder.consumeBody data.length with
        | (.error error, decoder) => (.error error, decoder)
        | (.ok _, decoder) => (.ok (), decoder)

/-- The next whole response, when all of it is buffered. -/
def decode (decoder : ResponseDecoder) : Except Error (Option Response) × ResponseDecoder :=
  match decoder.decodeHead side with
  | (.error error, decoder) => (.error error, decoder)
  | (.ok none, decoder) => (.ok none, decoder)
  | (.ok (some (head, bodyKind)), decoder) =>
    match bodyKind with
    | .tunnel => (.error (.invalidData
        "decode() cannot be used in tunnel mode, use take_remaining() instead"), decoder)
    | .contentLength _ | .chunked =>
      match decoder.readBody with
      | (.error error, decoder) => (.error error, decoder)
      | (.ok false, decoder) => (.ok none, decoder)
      | (.ok true, decoder) => finish decoder head bodyKind
    | .closeDelimited =>
      match readUntilClose decoder with
      | (.error error, decoder) => (.error error, decoder)
      | (.ok (), decoder) =>
        -- Only the end of the connection completes such a body.
        if decoder.phase ≠ .complete then (.ok none, decoder) else finish decoder head bodyKind
    | .none => finish decoder head bodyKind

end ResponseDecoder

end Http11

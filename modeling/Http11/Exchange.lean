import Http11.Decoder.Response

/-! Calls on a decoder of responses, with the method that each response answers. -/

namespace Http11

namespace ResponseDecoder

/-- A call on a decoder of responses. -/
inductive Call where
  /-- Input arrives. -/
  | feed (data : Bytes)
  /-- The method of the next request is told. -/
  | setRequestMethod (method : Str)
  /-- A head is asked for. -/
  | decodeHeaders
  /-- Body bytes are consumed. -/
  | consumeBody (len : Nat)
  /-- The body moves on without consuming bytes. -/
  | progress
  /-- A whole response is asked for. -/
  | decode
  /-- The connection has ended. -/
  | markEof
  deriving DecidableEq, Repr

/-- Between messages, where a method is meant for the response that comes next. -/
def isBetween (phase : DecodePhase) : Bool :=
  phase == .startLine || phase == .headers || phase == .complete

/-- The head that a call of decode reads. -/
def headOfDecode (decoder : ResponseDecoder) : Option (ResponseHead × BodyKind) :=
  match decoder.decoded, decoder.decodeHead side with
  | none, (.ok decoded, _) => decoded
  | _, _ => none

/-- The replies that are there, when the method of each request is told before its reply is read. -/
def decodeReplies (decoder : ResponseDecoder) :
    List Str → List (Except Error (Option Response)) × ResponseDecoder
  | [] => ([], decoder)
  | method :: methods =>
    let (reply, next) := ResponseDecoder.decode (setRequestMethod decoder method)
    let (replies, last) := decodeReplies next methods
    (reply :: replies, last)

end ResponseDecoder

/-- A head that a decoder returned, with the method that was set for it. -/
structure Answer where
  /-- The method. -/
  method : Option Str
  /-- The head. -/
  head : ResponseHead
  /-- The framing of the body. -/
  bodyKind : BodyKind
  deriving DecidableEq, Repr

/-- A decoder of responses in use. -/
structure Exchange where
  /-- The decoder. -/
  decoder : ResponseDecoder
  /-- The method set for the response that comes next. -/
  awaited : Option Str := none
  /-- The heads returned so far. -/
  answers : List Answer := []
  deriving DecidableEq, Repr

namespace Exchange

open ResponseDecoder

/-- A decoder after a call, and the head that the call has returned. -/
def returned (exchange : Exchange) (decoder : ResponseDecoder) :
    Option (ResponseHead × BodyKind) → Exchange
  | none => { exchange with decoder }
  | some (head, bodyKind) =>
    ⟨decoder, none, exchange.answers ++ [⟨exchange.awaited, head, bodyKind⟩]⟩

/-- One call. -/
def call (exchange : Exchange) : Call → Exchange
  | .feed data => { exchange with decoder := (exchange.decoder.feed data).2 }
  -- Only a method that is told between messages is for the next one.
  | .setRequestMethod method => { exchange with
      decoder := setRequestMethod exchange.decoder method
      awaited := if isBetween exchange.decoder.phase then some method else exchange.awaited }
  | .decodeHeaders =>
    match ResponseDecoder.decodeHeaders exchange.decoder with
    | (.ok decoded, decoder) => exchange.returned decoder decoded
    | (.error _, decoder) => { exchange with decoder }
  | .consumeBody len => { exchange with decoder := (exchange.decoder.consumeBody len).2 }
  | .progress => { exchange with decoder := exchange.decoder.progress.2 }
  | .decode =>
    exchange.returned (ResponseDecoder.decode exchange.decoder).2 (headOfDecode exchange.decoder)
  | .markEof => { exchange with decoder := ResponseDecoder.markEof exchange.decoder }

/-- Calls one after the other. -/
def run (exchange : Exchange) (calls : List Call) : Exchange := calls.foldl call exchange

/-- A call that sets no method while the message before is complete and has not been left. -/
def timelyCall (exchange : Exchange) : Call → Bool
  | .setRequestMethod _ => exchange.decoder.phase != .complete
  | _ => true

/-- Calls that set no method while a message is complete and has not been left. -/
def timely : Exchange → List Call → Bool
  | _, [] => true
  | exchange, next :: calls => exchange.timelyCall next && timely (exchange.call next) calls

end Exchange

/-- The framing of a response whose head is this, for a request of a given method. -/
def ResponseDecoder.framingFor (limits : DecoderLimits) (requestMethod : Option Str)
    (head : ResponseHead) : Except Error BodyKind :=
  -- The version stands for the status line, of which it is the first word.
  (determineBodyKind limits requestMethod head.version head.headers head.statusCode).map Prod.fst

/-- A method that decides the framing of a response with such a status. -/
def ResponseDecoder.methodMatters (method : Str) (statusCode : Nat) : Bool :=
  (method = "HEAD".toList && statusHasBody statusCode) ||
    (method = "CONNECT".toList && 200 ≤ statusCode && statusCode < 300 && statusCode != 204)

end Http11

import Http11.Decoder.Request
import Http11.Decoder.Response

/-! Programs that use a decoder: sequences of calls, whichever of the two decoders they are on. -/

namespace Http11

/-- A call on a decoder. -/
inductive Call (Context : Type) where
  /-- Input arrives. -/
  | feed (data : Bytes)
  /-- Room for input is reserved. -/
  | mutBuf (len : Nat)
  /-- Input is written into that room. -/
  | write (data : Bytes)
  /-- As much of that room as was written becomes input. -/
  | advanceBuf (len : Nat)
  /-- The decoder is told what its input alone does not say, such as the method of the request. -/
  | tell (context : Context)
  /-- A head is asked for. -/
  | decodeHeaders
  /-- Body bytes are looked at. -/
  | peekBody
  /-- Body bytes are consumed. -/
  | consumeBody (len : Nat)
  /-- The body moves on without consuming bytes. -/
  | progress
  /-- A whole message is asked for. -/
  | decode
  /-- The connection has ended. -/
  | markEof
  deriving DecidableEq, Repr

namespace Call

variable {Context : Type}

/-- A call that gives input to a decoder, or tells it something. -/
def isInput : Call Context → Bool
  | .feed _ | .mutBuf _ | .write _ | .advanceBuf _ | .tell _ => true
  | _ => false

/-- A call that asks for whole messages. -/
def isWhole : Call Context → Bool
  | .decode | .markEof => true
  | call => call.isInput

/-- A call that reads messages piece by piece. -/
def isStreaming : Call Context → Bool
  | .decode => false
  | _ => true

end Call

/-- What the assertions of a decoder allow: its methods wait until reserved room is settled. -/
def Decoder.admits {Head Context : Type} (decoder : Decoder Head Context) : Call Context → Bool
  | .mutBuf _ | .tell _ => true
  | .write data => data.length ≤ decoder.pending
  | .advanceBuf len => len ≤ decoder.pending
  | _ => decoder.pending == 0

/-- The methods in which the decoders of requests and of responses differ. -/
structure Api (Head Context Whole : Type) where
  /-- How heads are read. -/
  side : Side Head Context
  /-- What a fresh decoder remembers. -/
  initial : Context
  /-- The next whole message. -/
  decode : Decoder Head Context → Except Error (Option Whole) × Decoder Head Context
  /-- The end of the connection, where there is a method for it. -/
  markEof : Decoder Head Context → Decoder Head Context

/-- The methods of the decoder of requests. -/
def RequestDecoder.api : Api RequestHead Unit Request where
  side := RequestDecoder.side
  initial := ()
  decode := RequestDecoder.decode
  markEof := id

/-- The methods of the decoder of responses. -/
def ResponseDecoder.api : Api ResponseHead (Option Str) Response where
  side := ResponseDecoder.side
  initial := none
  decode := ResponseDecoder.decode
  markEof := ResponseDecoder.markEof

namespace Api

variable {Head Context Whole : Type} (api : Api Head Context Whole)

/-- A fresh decoder. -/
def fresh (limits : DecoderLimits) : Decoder Head Context := { limits, context := api.initial }

/-- The decoder after a call. -/
def call (decoder : Decoder Head Context) : Call Context → Decoder Head Context
  | .feed data => (decoder.feed data).2
  | .mutBuf len => (decoder.mutBuf len).2
  | .write data => decoder.writePending data
  | .advanceBuf len => decoder.advanceBuf len
  | .tell context => { decoder with context }
  | .decodeHeaders => (decoder.onCore (Core.decodeHeaders api.side)).2
  | .peekBody => decoder
  | .consumeBody len => (decoder.consumeBody len).2
  | .progress => decoder.progress.2
  | .decode => (api.decode decoder).2
  | .markEof => api.markEof decoder

/-- The decoders that a program comes to with calls of some kind only. -/
inductive Reachable (limits : DecoderLimits) (kind : Call Context → Bool) :
    Decoder Head Context → Prop where
  /-- A fresh decoder. -/
  | fresh : Reachable limits kind (api.fresh limits)
  /-- One more call. -/
  | call {decoder : Decoder Head Context} (next : Call Context) :
    Reachable limits kind decoder → kind next = true → decoder.admits next = true →
      Reachable limits kind (api.call decoder next)

end Api

/-- A line of a field that is read, so that only what it says can be refused. -/
def readsLine (limits : DecoderLimits) (count : Nat) (line : Bytes) (text : Str) : Prop :=
  line ≠ [] ∧ line.length ≤ limits.maxHeaderLineSize ∧ count < limits.maxHeadersCount ∧
    lineText line = .ok text

/-- The next line of the body is refused when it is off the buffer already. -/
def BodyState.Loses (limits : DecoderLimits) (state : BodyState) : Prop :=
  ∃ line rest, splitLine state.buf = some (line, rest) ∧
    match state.phase with
    -- A chunk that the body has no room for.
    | .bodyChunkedSize => ∃ size, parseChunkSize limits line = .ok size ∧
        (usizeMax < state.bodyDecoder.bodyConsumed + size ∨
          limits.maxBodySize < state.bodyDecoder.bodyConsumed + size)
    -- A trailer that is malformed, prohibited or undeclared.
    | .chunkedTrailer => ∃ text, readsLine limits state.bodyDecoder.trailerCount line text ∧
        ∀ name value, parseHeaderLine text = .ok (name, value) →
          isProhibitedTrailerField name = true ∨
            toAsciiLowercase name ∉ state.bodyDecoder.declaredTrailers
    | _ => False

/-- The next line is refused when it is off the buffer already. -/
def Core.Loses {Head Context : Type} (side : Side Head Context) (core : Core Context) : Prop :=
  core.toBodyState.Loses core.limits ∨
    ∃ line rest, splitLine core.buf = some (line, rest) ∧
      match core.phase with
      -- A start line that is not one.
      | .startLine => ∃ text, lineText line = .ok text ∧ side.checkStartLine text ≠ .ok ()
      -- The end of a head whose fields contradict each other, or a malformed field.
      | .headers =>
        (line = [] ∧ ∀ startLine decoded, core.startLine = some startLine →
          side.finishHead core.limits core.context startLine core.headers ≠ .ok decoded) ∨
        (∃ text, readsLine core.limits core.headers.length line text ∧
          ∀ field, parseHeaderLine text ≠ .ok field)
      | _ => False

/-- A call that reads input fails. -/
def Api.fails {Head Context Whole : Type} (api : Api Head Context Whole)
    (decoder : Decoder Head Context) : Call Context → Bool
  | .decodeHeaders => !(decoder.onCore (Core.decodeHeaders api.side)).1.isOk
  | .progress => !decoder.progress.1.isOk
  | .decode => !(api.decode decoder).1.isOk
  | _ => false

/-- A decoder that is watched: how the last head framed its body, and how much was delivered. -/
structure Watch (Head Context : Type) where
  /-- The decoder. -/
  decoder : Decoder Head Context
  /-- The framing of the last head that was handed out or is being collected. -/
  framing : Option BodyKind := none
  /-- The bytes of its body that left the buffer for the caller. -/
  delivered : Nat := 0

namespace Watch

variable {Head Context Whole : Type}

/-- The decoder after a call, with what the call says about the message. -/
def call (api : Api Head Context Whole) (size : Whole → Nat) (watch : Watch Head Context)
    (next : Call Context) : Watch Head Context where
  decoder := api.call watch.decoder next
  framing := match next with
    | .decodeHeaders =>
      match (watch.decoder.onCore (Core.decodeHeaders api.side)).1 with
      | .ok (some (_, bodyKind)) => some bodyKind
      | _ => watch.framing
    | .decode =>
      match (api.decode watch.decoder).2.decoded with
      | some (_, bodyKind) => some bodyKind
      | none => watch.framing
    | _ => watch.framing
  delivered := match next with
    | .decodeHeaders =>
      match (watch.decoder.onCore (Core.decodeHeaders api.side)).1 with
      | .ok (some _) => 0
      | _ => watch.delivered
    | .consumeBody len =>
      -- Bytes that were shown and are gone were delivered.
      if (watch.decoder.consumeBody len).2.buf = watch.decoder.buf then watch.delivered
      else watch.delivered + min len (watch.decoder.peekBody.getD []).length
    | .decode =>
      match (api.decode watch.decoder).1 with
      | .ok (some whole) => size whole
      | _ => watch.delivered
    | _ => watch.delivered

/-- What a program with calls of some kind only can watch. -/
inductive Reachable (api : Api Head Context Whole) (size : Whole → Nat) (limits : DecoderLimits)
    (kind : Call Context → Bool) : Watch Head Context → Prop where
  /-- A fresh decoder. -/
  | fresh : Reachable api size limits kind { decoder := api.fresh limits }
  /-- One more call. -/
  | call {watch : Watch Head Context} (next : Call Context) :
    Reachable api size limits kind watch → kind next = true →
      watch.decoder.admits next = true → Reachable api size limits kind (watch.call api size next)

end Watch

/-- A decoder that is given input, and the input that it was given. -/
structure Intake (Head Context : Type) where
  /-- The decoder. -/
  decoder : Decoder Head Context
  /-- What was fed, or was committed of what was written. -/
  committed : Bytes := []
  /-- The room that is reserved, as it was written. -/
  room : Bytes := []

namespace Intake

variable {Head Context : Type}

/-- A call that gives input to a decoder. -/
def call (intake : Intake Head Context) : Call Context → Intake Head Context
  | .feed data =>
    match intake.decoder.feed data with
    | (.ok (), decoder) => { intake with decoder, committed := intake.committed ++ data }
    | (.error _, decoder) => { intake with decoder }
  | .mutBuf len =>
    match intake.decoder.mutBuf len with
    | (.ok (), decoder) => { intake with decoder, room := List.replicate len 0 }
    | (.error _, decoder) => { intake with decoder, room := [] }
  -- What is written replaces the front of the room.
  | .write data => { intake with
      decoder := intake.decoder.writePending data
      room := data ++ intake.room.drop data.length }
  -- What is not advanced over is given up with the rest of the room.
  | .advanceBuf len => { intake with
      decoder := intake.decoder.advanceBuf len
      committed := intake.committed ++ intake.room.take len
      room := [] }
  | _ => intake

/-- Every call is made when the assertions of the decoder allow it. -/
def admits (intake : Intake Head Context) : List (Call Context) → Bool
  | [] => true
  | next :: rest => intake.decoder.admits next && (intake.call next).admits rest

/-- What calls that give input lead to. -/
inductive Reachable (decoder : Decoder Head Context) : Intake Head Context → Prop where
  /-- No input yet. -/
  | start : Reachable decoder { decoder }
  /-- One more call. -/
  | call {intake : Intake Head Context} (next : Call Context) : Reachable decoder intake →
    intake.decoder.admits next = true → Reachable decoder (intake.call next)

end Intake

end Http11

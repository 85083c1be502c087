import Http11.Calls

/-! A decoder that is tapped while its connection is a tunnel: what goes in, and what comes out. -/

namespace Http11

/-- What follows the first empty line; whether a line starts here is told beforehand. -/
def behindEmptyLine : Bool → Bytes → Option Bytes
  | true, 13 :: 10 :: rest => some rest
  | false, 13 :: 10 :: rest => behindEmptyLine true rest
  | _, [] => none
  | _, _ :: rest => behindEmptyLine false rest

/-- What follows the blank line that ends a head. -/
def behindHead (buf : Bytes) : Option Bytes := behindEmptyLine true buf

/-- Everything a program can do with a decoder. -/
inductive Use (Context : Type) where
  /-- A call. -/
  | call (next : Call Context)
  /-- Input arrives, whatever the limit. -/
  | feedUnchecked (data : Bytes)
  /-- The input is taken away. -/
  | takeRemaining
  /-- Everything is forgotten but the limits. -/
  | reset
  deriving DecidableEq, Repr

/-- What goes on in a tunnel: reserved room is for heads and bodies, and starting anew ends it. -/
def Use.isTunnelled {Context : Type} : Use Context → Bool
  | .call (.mutBuf _) | .call (.write _) | .call (.advanceBuf _) | .reset => false
  | _ => true

/-- What the assertions of a decoder allow; starting anew is always possible. -/
def Decoder.admitsUse {Head Context : Type} (decoder : Decoder Head Context) : Use Context → Bool
  | .call next => decoder.admits next
  | .feedUnchecked _ | .takeRemaining => decoder.pending == 0
  | .reset => true

/-- The decoder after a use. -/
def Api.use {Head Context Whole : Type} (api : Api Head Context Whole)
    (decoder : Decoder Head Context) : Use Context → Decoder Head Context
  | .call next => api.call decoder next
  | .feedUnchecked data => decoder.feedUnchecked data
  | .takeRemaining => decoder.takeRemaining.2
  | .reset => decoder.reset api.initial

/-- What went through a tunnel. -/
structure Flow where
  /-- The bytes received behind the blank line of the head that opened the tunnel. -/
  received : Bytes
  /-- The bytes that were taken away, in order. -/
  taken : Bytes := []
  deriving DecidableEq, Repr

/-- A decoder that is tapped, and the tunnel that is open. -/
structure Tap (Head Context : Type) where
  /-- The decoder. -/
  decoder : Decoder Head Context
  /-- What went through the tunnel, once there is one. -/
  flow : Option Flow := none

namespace Tap

variable {Head Context Whole : Type}

/-- The bytes that a use brings in. -/
def arriving (decoder : Decoder Head Context) : Use Context → Bytes
  | .call (.feed data) => if (decoder.feed data).1.isOk then data else []
  | .feedUnchecked data => data
  | _ => []

/-- The bytes that a use takes away. -/
def leaving (decoder : Decoder Head Context) : Use Context → Bytes
  | .takeRemaining => decoder.takeRemaining.1
  | _ => []

/-- The flow after a use: a tunnel starts with what is buffered behind the head that opens it. -/
def flowAfter (api : Api Head Context Whole) (tap : Tap Head Context) (next : Use Context) :
    Option Flow :=
  match tap.flow, next with
  -- A reset ends the tunnel.
  | some _, .reset => none
  | some flow, next => some {
      received := flow.received ++ arriving tap.decoder next
      taken := flow.taken ++ leaving tap.decoder next }
  | none, next =>
    if (api.use tap.decoder next).isTunnel then
      (behindHead tap.decoder.buf).map fun received => { received }
    else none

/-- The tapped decoder after a use. -/
def use (api : Api Head Context Whole) (tap : Tap Head Context) (next : Use Context) :
    Tap Head Context where
  decoder := api.use tap.decoder next
  flow := tap.flowAfter api next

/-- What a program can come to that reserves no room while there is a tunnel. -/
inductive Reachable (api : Api Head Context Whole) (limits : DecoderLimits) :
    Tap Head Context → Prop where
  /-- A fresh decoder. -/
  | fresh : Reachable api limits { decoder := api.fresh limits }
  /-- One more use. -/
  | use {tap : Tap Head Context} (next : Use Context) : Reachable api limits tap →
    tap.decoder.admitsUse next = true →
    (tap.flow.isSome = true → next.isTunnelled = true ∨ next = .reset) →
      Reachable api limits (tap.use api next)

end Tap

namespace Api

variable {Head Context Whole : Type} (api : Api Head Context Whole)

/-- Nothing in the buffer is read as part of a message. -/
structure IsShut (decoder : Decoder Head Context) : Prop where
  /-- No whole message is handed out. -/
  decode : ∀ whole, (api.decode decoder).1 ≠ .ok (some whole)
  /-- No head is read. -/
  decodeHeaders : ∃ error, (decoder.onCore (Core.decodeHeaders api.side)).1 = .error error
  /-- No body is shown. -/
  peekBody : decoder.peekBody = none
  /-- No body is consumed. -/
  consumeBody : ∀ len, ∃ error, (decoder.consumeBody len).1 = .error error
  /-- No body moves on. -/
  progress : ∃ error, decoder.progress.1 = .error error

/-- Whatever a program does, an open tunnel hands over exactly what it receives, and stays open. -/
def IsTransparent : Prop :=
  ∀ (limits : DecoderLimits) (tap : Tap Head Context), Tap.Reachable api limits tap →
    tap.flow.isSome = tap.decoder.isTunnel ∧
    ∀ flow, tap.flow = some flow →
      api.IsShut tap.decoder ∧
      flow.taken ++ tap.decoder.remaining = flow.received ∧
      ∀ next, next.isTunnelled = true → tap.decoder.admitsUse next = true →
        (tap.use api next).decoder.isTunnel = true

end Api

end Http11

import Http11.Decoder.Request
import Http11.ServerResponse
import Http11.Streaming

/-! The server: a connection is read, and each of its requests is answered before the next one. -/

namespace Http11

namespace Server

/-- The most bytes of one read. -/
def readChunk : Nat := 8192

/-- What the server keeps count of on a connection, and what it has written. -/
structure ConnectionState where
  /-- The number of requests. -/
  requestCount : Nat := 0
  /-- The most requests of one connection. -/
  maxRequests : Nat := 1000
  /-- The bytes written. -/
  written : Bytes := []
  deriving DecidableEq, Repr

/-- What the server gives up a connection for. -/
inductive Failure where
  /-- The decoder has refused the input. -/
  | decoder (error : Error)
  /-- The encoder has refused what was built. -/
  | encoder (error : EncodeError)
  deriving DecidableEq, Repr

/-- How a connection has ended. -/
inductive Ending where
  /-- The last answer announced it. -/
  | served
  /-- Something was refused. -/
  | failed (failure : Failure)
  /-- There was no more room in the buffer. -/
  | bufferFull
  /-- The client has closed it, was silent for too long, or could not be read. -/
  | left
  deriving DecidableEq, Repr

/-- The body as far as it has arrived, and whether it is complete. -/
def streamBody (decoder : RequestDecoder) (bodyKind : BodyKind) (buf : Option Bytes) :
    Except Error Bool × RequestDecoder × Option Bytes :=
  match bodyKind with
  -- Such requests have no body to wait for.
  | .none | .closeDelimited | .tunnel => (.ok true, decoder, none)
  | .contentLength _ | .chunked =>
    let acc := buf.getD []
    match decoder.takeBody with
    | (.error error, decoder, _) => (.error error, decoder, none)
    | (.ok none, decoder, pieces) => (.ok false, decoder, some (acc ++ pieces.flatten))
    | (.ok (some _), decoder, pieces) => (.ok true, decoder, some (acc ++ pieces.flatten))

/-- The request of a head, built again with its fields checked one by one. -/
def rebuild (head : RequestHead) (body : Option Bytes) : Except EncodeError Request := do
  let request ← Request.withVersion head.method head.uri head.version
  let request ← head.headers.foldlM
    (fun (request : Request) (field : Str × Str) => request.addHeader field.1 field.2) request
  return match body with
    | some body => request.setBody body
    | none => request

/-- Bytes written to the connection. -/
def ConnectionState.write (state : ConnectionState) (bytes : Bytes) : ConnectionState :=
  { state with written := state.written ++ bytes }

/-- One request is answered: whether the connection is kept for the next one. -/
def serveRequest (surroundings : Surroundings) (state : ConnectionState) (head : RequestHead)
    (bodyKind : BodyKind) (body : Option Bytes) : Except EncodeError Bool × ConnectionState :=
  -- A tunnel is refused, and the connection is closed.
  if bodyKind = .tunnel then
    match rejectTunnel >>= encodeResponse with
    | .error error => (.error error, state)
    | .ok bytes => (.ok false, state.write bytes)
  else match rebuild head body with
    | .error error => (.error error, state)
    | .ok request =>
      -- The request counts before it is answered, so that the last one closes the connection.
      let state := { state with requestCount := state.requestCount + 1 }
      let shouldKeepAlive := HttpHead.isKeepAlive request.version request.headers &&
        decide (state.requestCount < state.maxRequests)
      match buildResponse surroundings (surroundings.now state.requestCount) request
        shouldKeepAlive >>= encodeResponse with
      | .error error => (.error error, state)
      | .ok bytes => (.ok shouldKeepAlive, state.write bytes)

end Server

open Server

/-- A connection at the server. -/
structure ServerRun where
  /-- The decoder. -/
  decoder : RequestDecoder := RequestDecoder.withLimits {}
  /-- The head and framing of the request whose body is being received. -/
  current : Option (RequestHead × BodyKind) := none
  /-- The part of its body received so far. -/
  body : Option Bytes := none
  /-- The state of the connection. -/
  connection : ConnectionState := {}
  /-- What has arrived and was not read. -/
  waiting : Bytes := []
  /-- How the connection has ended. -/
  ending : Option Server.Ending := none
  deriving DecidableEq, Repr

namespace ServerRun

/-- The head of the request to receive, asked for unless it is there. -/
def receiveHead (run : ServerRun) : Except Error (Option (RequestHead × BodyKind)) × ServerRun :=
  match run.current with
  | some decoded => (.ok (some decoded), run)
  | none =>
    match RequestDecoder.decodeHeaders run.decoder with
    | (.error error, decoder) => (.error error, { run with decoder })
    | (.ok none, decoder) => (.ok none, { run with decoder })
    | (.ok (some decoded), decoder) =>
      (.ok (some decoded), { run with decoder, current := some decoded })

/-- The run after an answer: it goes on, or the connection has ended. -/
def answered (run : ServerRun) : Except EncodeError Bool × ConnectionState → ServerRun ⊕ ServerRun
  | (.error error, connection) =>
    .inr { run with connection, ending := some (.failed (.encoder error)) }
  | (.ok false, connection) => .inr { run with connection, ending := some .served }
  | (.ok true, connection) => .inl { run with connection }

/-- What follows a head: its body as far as it has arrived, and its answer. -/
def receiveBody (surroundings : Surroundings) (run : ServerRun) (head : RequestHead)
    (bodyKind : BodyKind) : ServerRun ⊕ ServerRun :=
  match streamBody run.decoder bodyKind run.body with
  | (.error error, decoder, body) =>
    .inr { run with decoder, body, ending := some (.failed (.decoder error)) }
  | (.ok false, decoder, body) => .inr { run with decoder, body }
  | (.ok true, decoder, body) =>
    -- The head and the body are taken out of the state before the answer.
    { run with decoder, current := none, body := none }.answered
      (serveRequest surroundings run.connection head bodyKind body)

/-- One request, as far as it has arrived. -/
def pass (surroundings : Surroundings) (run : ServerRun) : ServerRun ⊕ ServerRun :=
  match run.receiveHead with
  | (.error error, run) => .inr { run with ending := some (.failed (.decoder error)) }
  | (.ok none, run) => .inr run
  | (.ok (some (head, bodyKind)), run) => run.receiveBody surroundings head bodyKind

/-- The requests that have arrived, one after the other. -/
def loop (surroundings : Surroundings) : Iteration ServerRun ServerRun where
  body := pass surroundings
  size := fun run => 2 * run.decoder.buf.length + if run.current.isSome then 1 else 0
  decreases := by
    intro run next passed
    -- The head has left the buffer, unless it had done so before.
    have headed : ∀ decoded start, run.receiveHead = (.ok (some decoded), start) →
        2 * start.decoder.buf.length <
          2 * run.decoder.buf.length + if run.current.isSome then 1 else 0 := by
      intro decoded start received
      unfold receiveHead at received
      cases current : run.current with
      | some earlier =>
        simp only [current, Prod.mk.injEq] at received
        rw [← received.2]
        simp
      | none =>
        have shorter := Core.decodeHeaders_buf RequestDecoder.side run.decoder.toCore
        simp only [current, RequestDecoder.decodeHeaders, Decoder.onCore] at received
        rcases headers : run.decoder.toCore.decodeHeaders RequestDecoder.side with
          ⟨_ | _ | found, core⟩ <;> simp only [headers] at received <;> cases received
        rw [headers] at shorter
        have strictly : core.buf.length < run.decoder.buf.length := shorter _ rfl
        simp only [Option.isSome_none, Bool.false_eq_true, if_false]
        omega
    unfold pass at passed
    rcases received : run.receiveHead with ⟨_ | _ | ⟨head, bodyKind⟩, start⟩ <;>
      simp only [received] at passed
    · cases passed
    · cases passed
    have before := headed _ _ received
    -- The body is taken off the buffer behind it.
    have after : ∀ decoder body, streamBody start.decoder bodyKind start.body =
        (.ok true, decoder, body) → decoder.buf.length ≤ start.decoder.buf.length := by
      intro decoder body streamed
      unfold streamBody at streamed
      split at streamed
      · cases streamed
        exact le_rfl
      · cases streamed
        exact le_rfl
      · cases streamed
        exact le_rfl
      · dsimp only at streamed
        split at streamed <;> cases streamed
        exact Decoder.takeBody_buf (by assumption)
      · dsimp only at streamed
        split at streamed <;> cases streamed
        exact Decoder.takeBody_buf (by assumption)
    unfold receiveBody at passed
    rcases streamed : streamBody start.decoder bodyKind start.body with ⟨_ | _ | _, decoder, body⟩ <;>
      simp only [streamed] at passed
    · cases passed
    · cases passed
    have shorter := after _ _ streamed
    unfold answered at passed
    split at passed <;> cases passed
    simp only [Option.isSome_none, Bool.false_eq_true, if_false]
    omega

/-- A connection ends where the next read would have no room. -/
def checkRoom (run : ServerRun) : ServerRun :=
  if run.ending.isNone && run.decoder.want readChunk == 0 then
    { run with ending := some .bufferFull }
  else run

/-- A read of some bytes, and everything that follows up to the next one. -/
def read (surroundings : Surroundings) (count : Nat) (run : ServerRun) : ServerRun :=
  -- A read returns once there is something to return.
  if run.ending.isSome || run.decoder.granted readChunk count run.waiting == 0 then run
  else match run.decoder.receive readChunk count run.waiting with
    | (.error error, decoder, waiting) =>
      { run with decoder, waiting, ending := some (.failed (.decoder error)) }
    | (.ok (), decoder, waiting) =>
      ((loop surroundings).run { run with decoder, waiting }).checkRoom

/-- What happens on a connection. -/
inductive Happening where
  /-- Bytes arrive from the client. -/
  | arrives (data : Bytes)
  /-- The server reads at most so many of them. -/
  | reads (count : Nat)
  /-- The client has closed the connection, or was silent for too long. -/
  | leaves
  deriving DecidableEq, Repr

/-- The run after something has happened. -/
def happen (surroundings : Surroundings) (run : ServerRun) : Happening → ServerRun
  | .arrives data => { run with waiting := run.waiting ++ data }
  | .reads count => run.read surroundings count
  | .leaves => { run with ending := some (run.ending.getD .left) }

/-- A connection on which some things happen, one after the other. -/
def across (surroundings : Surroundings) (happenings : List Happening) : ServerRun :=
  happenings.foldl (happen surroundings) {}

end ServerRun

end Http11

import Http11.Exchange
import Http11.Proofs.Decoder.Decode
import Http11.Server

/-! What a connection at the server is for: the messages on it are answered, up to the last one. -/

namespace Http11

namespace Server

/-- What was counted and written on a connection, and how it has ended. -/
abbrev Standing : Type := ConnectionState × Option Ending

/-- How an answer ends the connection, if it does. -/
def endingOf : Except EncodeError Bool → Option Ending
  | .ok true => none
  | .ok false => some .served
  | .error error => some (.failed (.encoder error))

/-- One message is answered, unless the connection has ended. -/
def serveMessage (surroundings : Surroundings) (standing : Standing)
    (message : Message RequestHead) : Standing :=
  match standing with
  | (state, some ending) => (state, some ending)
  | (state, none) =>
    let (answer, state) :=
      serveRequest surroundings state message.head message.bodyKind message.content
    (state, endingOf answer)

/-- The messages on a connection are answered in their order. -/
def serveAll (surroundings : Surroundings) (messages : List (Message RequestHead)) : Standing :=
  messages.foldl (serveMessage surroundings) ({}, none)

/-- The connection is kept for another request after one, of which so many were counted before. -/
def staysOpen (count : Nat) (message : Message RequestHead) : Bool :=
  message.bodyKind != .tunnel &&
    (HttpHead.isKeepAlive message.head.version message.head.headers &&
      decide (count + 1 < ({} : ConnectionState).maxRequests))

/-- The response to a message, of which so many were counted before. -/
def answerTo (surroundings : Surroundings) (count : Nat) (message : Message RequestHead) :
    Except EncodeError Response :=
  if message.bodyKind = .tunnel then rejectTunnel
  else do
    let request ← rebuild message.head message.content
    buildResponse surroundings (surroundings.now (count + 1)) request (staysOpen count message)

/-- The messages of a reader, the last of which may ask for a tunnel. -/
def heard (reader : Reader RequestHead Unit) : List (Message RequestHead) :=
  reader.done ++ (if reader.core.phase = .tunnel then
    reader.current.map fun (head, bodyKind) => ⟨head, bodyKind, [], []⟩ else none).toList

/-- A request whose method is HEAD in these letters, or no variant of it in any case of letters. -/
def ExactMethod (message : Message RequestHead) : Prop :=
  eqIgnoreAsciiCase message.head.method "HEAD".toList = true → message.head.method = "HEAD".toList

/-- What a client without limits reads of some bytes, when it tells the methods of its requests. -/
def clientReads (requests : List (Message RequestHead)) (written : Bytes) :
    List (Except Error (Option Response)) × ResponseDecoder :=
  ResponseDecoder.decodeReplies ((ResponseDecoder.withLimits .unlimited).feed written).2
    (requests.map fun request => request.head.method)

/-- The most bytes that the server buffers. -/
def bufferSize : Nat := ({} : DecoderLimits).maxBufferSize

/-- What a reader of the connection that stops somewhere has to show for it. -/
def outcome (surroundings : Surroundings) (reader : Reader RequestHead Unit) : Standing :=
  match serveAll surroundings reader.done with
  | (state, some ending) => (state, some ending)
  | (state, none) =>
    match reader.failed, reader.core.phase, reader.current with
    | some error, _, _ => (state, some (.failed (.decoder error)))
    | none, .tunnel, some (head, bodyKind) =>
      -- A request for a tunnel is answered before anything is read in it.
      let (answer, state) := serveRequest surroundings state head bodyKind none
      (state, endingOf answer)
    | none, _, _ =>
      (state, if bufferSize ≤ reader.core.buf.length then some .bufferFull else none)

end Server

namespace ServerRun

/-- The bytes that arrive when something happens. -/
def Happening.input : Happening → Bytes
  | .arrives data => data
  | .reads _ | .leaves => []

/-- Everything that has arrived. -/
def arrived (happenings : List Happening) : Bytes := happenings.flatMap Happening.input

/-- The server has read everything that has arrived, or will not read on. -/
def Idle (run : ServerRun) : Prop := run.waiting = [] ∨ run.ending.isSome = true

end ServerRun

end Http11

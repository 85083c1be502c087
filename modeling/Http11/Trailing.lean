import Http11.Calls

/-! What a message in chunks is on the connection, and what is reported of its trailers. -/

namespace Http11

/-- A line without its end, which no line end interrupts. -/
def IsLine (line : Bytes) : Prop := findLine line = none

instance (line : Bytes) : Decidable (IsLine line) :=
  inferInstanceAs (Decidable (findLine line = none))

/-- Whole chunks, and the content in them. -/
inductive Chunks (limits : DecoderLimits) : Bytes → Bytes → Prop where
  /-- No chunk. -/
  | none : Chunks limits [] []
  /-- A chunk, which is not empty, and those after it. -/
  | more {line data chunks content : Bytes} (plain : IsLine line)
    (parsed : parseChunkSize limits line = .ok data.length) (present : data ≠ [])
    (rest : Chunks limits chunks content) :
    Chunks limits (line ++ crlf ++ data ++ crlf ++ chunks) (data ++ content)

/-- A body in chunks, up to the size line of the last one, which is empty. -/
def IsChunked (limits : DecoderLimits) (body : Bytes) : Prop :=
  ∃ chunks content line, Chunks limits chunks content ∧ IsLine line ∧
    parseChunkSize limits line = .ok 0 ∧ body = chunks ++ (line ++ crlf)

/-- A line of a trailer section, other than the empty one that ends it. -/
def IsTrailerLine (line : Bytes) : Prop := line ≠ [] ∧ IsLine line

instance (line : Bytes) : Decidable (IsTrailerLine line) :=
  inferInstanceAs (Decidable (line ≠ [] ∧ IsLine line))

/-- A trailer line that a message with some head fields may have, as the field it is. -/
structure IsTrailer (headers : Headers) (line : Bytes) (field : Str × Str) : Prop where
  /-- It reads as the field. -/
  parsed : ∃ text, lineText line = .ok text ∧ parseHeaderLine text = .ok field
  /-- Its name is an element of a field of the head that announces trailers. -/
  announced : ∃ element ∈ fieldElements headers "Trailer".toList,
    eqIgnoreAsciiCase field.1 element = true
  /-- Its name may stand in a trailer section at all. -/
  allowed : isProhibitedTrailerField field.1 = false

/-- The bytes of a whole message behind its head, whose trailer lines are some fields. -/
def IsWhole (limits : DecoderLimits) (headers : Headers) (bytes : Bytes) (fields : Headers) :
    Prop :=
  ∃ (body : Bytes) (lines : List Bytes), IsChunked limits body ∧
    (∀ line ∈ lines, IsTrailerLine line) ∧
    bytes = body ++ lines.flatMap (· ++ crlf) ++ crlf ∧
    List.Forall₂ (IsTrailer headers) lines fields

/-- Bytes of a message behind its head that have a trailer line which may not be there. -/
def HasBadTrailer (limits : DecoderLimits) (headers : Headers) (bytes : Bytes) : Prop :=
  ∃ (body : Bytes) (lines : List Bytes) (line rest : Bytes), IsChunked limits body ∧
    (∀ line ∈ lines, IsTrailerLine line) ∧ IsTrailerLine line ∧
    (∀ field, ¬ IsTrailer headers line field) ∧
    bytes = body ++ lines.flatMap (· ++ crlf) ++ (line ++ crlf) ++ rest

/-- Bytes of a message behind its head that have a chunk which the body has no room for. -/
def HasLargeChunk (limits : DecoderLimits) (bytes : Bytes) : Prop :=
  ∃ chunks content line size rest, Chunks limits chunks content ∧ IsLine line ∧
    parseChunkSize limits line = .ok size ∧
    (usizeMax < content.length + size ∨ limits.maxBodySize < content.length + size) ∧
    bytes = chunks ++ (line ++ crlf) ++ rest

/-- A decoder, and what it did with the message whose head it handed out last. -/
structure Delivery (Head Context : Type) where
  /-- The decoder. -/
  decoder : Decoder Head Context
  /-- The head and framing of the message. -/
  current : Option (Head × BodyKind) := none
  /-- The bytes behind its head that are off the buffer. -/
  taken : Bytes := []
  /-- The trailers that were reported of it, once it was reported to be complete. -/
  reported : Option Headers := none

namespace Delivery

variable {Head Context Whole : Type}

/-- The delivery after a call on the body of the message. -/
def after (delivery : Delivery Head Context)
    (outcome : Except Error BodyProgress × Decoder Head Context) : Delivery Head Context where
  decoder := outcome.2
  current := delivery.current
  -- What a call has taken is what the buffer got shorter by.
  taken := delivery.taken ++
    delivery.decoder.buf.take (delivery.decoder.buf.length - outcome.2.buf.length)
  reported := match outcome.1 with
    | .ok (.complete trailers) => some (delivery.reported.getD [] ++ trailers)
    | _ => delivery.reported

/-- The delivery after a call. -/
def call (api : Api Head Context Whole) (delivery : Delivery Head Context) :
    Call Context → Delivery Head Context
  | .decodeHeaders =>
    match delivery.decoder.onCore (Core.decodeHeaders api.side) with
    -- A head starts a new delivery.
    | (.ok (some decoded), decoder) => { decoder, current := some decoded }
    | (_, decoder) => { delivery with decoder }
  | .consumeBody len => delivery.after (delivery.decoder.consumeBody len)
  | .progress => delivery.after delivery.decoder.progress
  | next => { delivery with decoder := api.call delivery.decoder next }

/-- What calls that read messages piece by piece lead to, when each is made under a condition. -/
inductive Reachable (api : Api Head Context Whole) (limits : DecoderLimits)
    (condition : Delivery Head Context → Call Context → Prop) : Delivery Head Context → Prop where
  /-- A fresh decoder. -/
  | fresh : Reachable api limits condition { decoder := api.fresh limits }
  /-- One more call. -/
  | call {delivery : Delivery Head Context} (next : Call Context) :
    Reachable api limits condition delivery → next.isStreaming = true →
      condition delivery next → Reachable api limits condition (delivery.call api next)

/-- The trailers that are reported of a message in chunks are its trailer lines. -/
def Reports (side : Side Head Context) (delivery : Delivery Head Context) : Prop :=
  ∀ head fields, delivery.current = some (head, .chunked) → delivery.reported = some fields →
    IsWhole delivery.decoder.limits (side.headersOf head) delivery.taken fields

/-- A message in chunks with any other trailer line is not reported to be complete. -/
def Rejects (side : Side Head Context) (delivery : Delivery Head Context) : Prop :=
  ∀ head input, delivery.current = some (head, .chunked) →
    HasBadTrailer delivery.decoder.limits (side.headersOf head) (delivery.taken ++ input) →
      delivery.reported = none

/--
A call on the body of a message in chunks of which nothing is lost.

No line of the message that the decoder refuses is off the buffer already: neither a trailer
line that may not be there nor the size line of a chunk that the body has no room for.
-/
def Intact (side : Side Head Context) (delivery : Delivery Head Context) : Call Context → Prop
  | .consumeBody _ | .progress => ∀ head, delivery.current = some (head, .chunked) →
      ¬ HasBadTrailer delivery.decoder.limits (side.headersOf head) delivery.taken ∧
      ¬ HasLargeChunk delivery.decoder.limits delivery.taken
  | _ => True

end Delivery

end Http11

import Http11.Decoder.Response

/-! A response whose body lasts up to the end of the connection, as it arrives. -/

namespace Http11

namespace ResponseDecoder

/-- What happens to a decoder before the connection ends. -/
inductive Arrival where
  /-- Input arrives. -/
  | feed (data : Bytes)
  /-- A response is asked for. -/
  | decode
  deriving DecidableEq, Repr

/-- All the input of some arrivals. -/
def fed : List Arrival → Bytes
  | [] => []
  | .feed data :: arrivals => data ++ fed arrivals
  | .decode :: arrivals => fed arrivals

/-- The input that waits after one more arrival. -/
def wait (waiting : Bytes) : Arrival → Bytes
  | .feed data => waiting ++ data
  | .decode => []

/-- The input that arrived after the last time a response was asked for. -/
def unread (arrivals : List Arrival) : Bytes := arrivals.foldl wait []

end ResponseDecoder

/-- A decoder while input arrives, and whether all of it was accepted. -/
structure Reception where
  /-- The decoder. -/
  decoder : ResponseDecoder
  /-- No input was refused. -/
  accepted : Bool := true
  deriving DecidableEq, Repr

namespace Reception

open ResponseDecoder

/-- One arrival. -/
def arrive (reception : Reception) : Arrival → Reception
  | .feed data =>
    match reception.decoder.feed data with
    | (.ok (), decoder) => { reception with decoder }
    | (.error _, decoder) => ⟨decoder, false⟩
  | .decode => { reception with decoder := (ResponseDecoder.decode reception.decoder).2 }

/-- Arrivals one after the other. -/
def run (reception : Reception) (arrivals : List Arrival) : Reception :=
  arrivals.foldl arrive reception

/-- The end of the connection, after which the response is asked for once more. -/
def close (reception : Reception) : Except Error (Option Response) × ResponseDecoder :=
  ResponseDecoder.decode (markEof reception.decoder)

end Reception

/-- A decoder that has read the head of such a response, and nothing of its body. -/
structure ResponseDecoder.Opened (decoder : ResponseDecoder) (head : ResponseHead) : Prop where
  /-- The head is there, with its framing. -/
  decoded : decoder.decoded = some (head, .closeDelimited)
  /-- The body comes next. -/
  phase : decoder.phase = .bodyCloseDelimited
  /-- Nothing of it is buffered. -/
  buf : decoder.buf = []
  /-- Nothing of it was collected. -/
  decodedBody : decoder.decodedBody = []
  /-- Nothing of it was consumed. -/
  bodyConsumed : decoder.bodyDecoder.bodyConsumed = 0

end Http11

import Http11.ChunkGrammar
import Http11.Proofs.Decoder.Changes

/-! What calls that consume a body take of the buffer, and the loops over such calls. -/

namespace Http11

/-- What is buffered where no bytes of the body are shown is refused, and stays in the buffer. -/
def BodyState.RefusesNext (limits : DecoderLimits) (state : BodyState) : Prop :=
  match state.phase with
  | .bodyChunkedSize => ∃ line rest, splitLine state.buf = some (line, rest) ∧
      (limits.maxChunkLineSize < line.length ∨
        ∀ size ≤ usizeMax, ¬ (IsSizeLine line size ∨ IsPaddedSizeLine line size))
  | .bodyChunkedDataCrlf => ∃ first second rest, state.buf = first :: second :: rest ∧
      [first, second] ≠ crlf
  | .chunkedTrailer => ∃ line rest, splitLine state.buf = some (line, rest) ∧ line ≠ [] ∧
      refusesLine limits state.bodyDecoder.trailerCount line = true
  | .complete => False
  -- Within a body, and outside of it, a call without bytes to take is an error.
  | .bodyContentLength _ | .bodyChunkedData _ | .bodyCloseDelimited => True
  | .startLine | .headers | .tunnel => True

namespace Decoder

variable {Head Context : Type}

/-- The bytes of the body that are shown, none where there are none. -/
def shownBytes (decoder : Decoder Head Context) : Bytes := decoder.peekBody.getD []

/-- Some bytes in front of the buffer are taken as a part of the body. -/
structure TakesBytes (decoder next : Decoder Head Context) (bytes : Bytes) : Prop where
  /-- They leave the buffer, and with the last ones of a chunk maybe its line end. -/
  buffered : decoder.buf = bytes ++ next.buf ∨
    decoder.phase = .bodyChunkedData bytes.length ∧ decoder.buf = bytes ++ crlf ++ next.buf
  /-- They are counted. -/
  counted : next.bodyDecoder.bodyConsumed = decoder.bodyDecoder.bodyConsumed + bytes.length

/-- A call that consumes some bytes takes what it was shown, or is refused and changes nothing. -/
structure TakesShown (decoder : Decoder Head Context) (len : Nat) : Prop where
  /-- More than what is shown is refused. -/
  refused : decoder.shownBytes.length < len →
    ∃ error, decoder.consumeBody len = (.error error, decoder)
  /-- A body that is too large is left as it was. -/
  large : len ≤ decoder.shownBytes.length → ∀ size limit,
    (decoder.consumeBody len).1 = .error (.bodyTooLarge size limit) →
    (decoder.consumeBody len).2 = decoder
  /-- Otherwise exactly the first bytes that are shown are taken. -/
  taken : len ≤ decoder.shownBytes.length →
    (∀ size limit, (decoder.consumeBody len).1 ≠ .error (.bodyTooLarge size limit)) →
    decoder.TakesBytes (decoder.consumeBody len).2 (decoder.shownBytes.take len)

/-- One pass of the loop over a body that goes on: shown bytes are consumed, or it moves on. -/
inductive Drains : Decoder Head Context → Decoder Head Context → Prop where
  /-- Some of the bytes that are shown are consumed, and the body is not complete. -/
  | consume {decoder next : Decoder Head Context} (data : Bytes) (len : Nat)
    (progress : BodyProgress) (shown : decoder.peekBody = some data) (positive : 1 ≤ len)
    (enough : len ≤ data.length) (consumed : decoder.consumeBody len = (.ok progress, next))
    (incomplete : ∀ trailers, progress ≠ .complete trailers) : Drains decoder next
  /-- No bytes are shown, and the body advances. -/
  | advance {decoder next : Decoder Head Context} (hidden : decoder.peekBody = none)
    (advanced : decoder.progress = (.ok .advanced, next)) : Drains decoder next

/-- The decoder after some calls that move on. -/
def progresses (decoder : Decoder Head Context) : Nat → Decoder Head Context
  | 0 => decoder
  | calls + 1 => (decoder.progresses calls).progress.2

/-- A loop that goes on from state to state takes no more passes than there are bytes. -/
def EndsWithin (goesOn : Decoder Head Context → Decoder Head Context → Prop) : Prop :=
  ∀ (states : Nat → Decoder Head Context) (passes : Nat),
    (∀ pass < passes, goesOn (states pass) (states (pass + 1))) →
    passes + (states passes).buf.length ≤ (states 0).buf.length

end Decoder

end Http11

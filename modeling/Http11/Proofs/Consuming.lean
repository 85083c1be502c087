import Http11.Consuming
import Http11.Proofs.Decoder.Counting
import Http11.Proofs.Decoder.SizeLine
import Http11.Proofs.Draining

/-! Calls that consume bytes take what was shown, but between chunks nothing is refused. -/

namespace Http11

namespace BodyState

variable {limits : DecoderLimits} {state : BodyState} {len : Nat}

/-- A call is refused and changes nothing. -/
def Refuses (limits : DecoderLimits) (len : Nat) (state : BodyState) : Prop :=
  ∃ error, consumeBody limits len state = (.error error, state)

/-- What shortened the buffer did not leave everything as it was. -/
theorem not_refuses_of_shorter
    (shorter : (consumeBody limits len state).2.buf.length < state.buf.length) :
    ¬ Refuses limits len state := by
  rintro ⟨error, same⟩
  rw [same] at shorter
  exact Nat.lt_irrefl _ shorter

/-- A size line is refused when it is too long or no size line. -/
theorem parseChunkSize_refused (line : Bytes) :
    (∃ error, parseChunkSize limits line = .error error) ↔
    limits.maxChunkLineSize < line.length ∨
      ∀ size ≤ usizeMax, ¬ (IsSizeLine line size ∨ IsPaddedSizeLine line size) := by
  by_cases long : limits.maxChunkLineSize < line.length
  · simp [parseChunkSize, long]
  · rw [or_iff_right long]
    cases parsed : parseChunkSize limits line with
    -- Within the limit only a line that is no size line is refused.
    | error error =>
      refine iff_of_true ⟨error, rfl⟩ fun size fits isSize => ?_
      rw [(parseChunkSize_iff (Nat.not_lt.mp long)).mpr ⟨isSize, fits⟩] at parsed
      cases parsed
    | ok size =>
      have read := (parseChunkSize_iff (Nat.not_lt.mp long)).mp parsed
      exact iff_of_false (by simp) fun none => none size read.2 read.1

/-- Before a size line a call is refused exactly when the line is. -/
theorem refuses_sizeLine (phase : state.phase = .bodyChunkedSize) :
    Refuses limits len state ↔ ∃ line rest, splitLine state.buf = some (line, rest) ∧
      ∃ error, parseChunkSize limits line = .error error := by
  cases split : splitLine state.buf with
  | none =>
    simp [Refuses, consumeBody, phase, processChunkedSize, split]
  | some pair =>
    obtain ⟨line, rest⟩ := pair
    have shorter := splitLine_length split
    have only : (∃ front back, some (line, rest) = some (front, back) ∧
        ∃ error, parseChunkSize limits front = .error error) ↔
        ∃ error, parseChunkSize limits line = .error error := by simp
    rw [only]
    rcases chunkSizeLine_cases limits state line rest with ⟨error, refused, read⟩ | ⟨parsed, read⟩ |
      ⟨size, parsed, _, _, _, read⟩ | ⟨size, total, parsed, _, _, read⟩
    · exact iff_of_true ⟨error, by simp [consumeBody, phase, processChunkedSize, split, read]⟩
        ⟨error, refused⟩
    · -- The line is off the buffer, whatever the trailer lines behind it are.
      refine iff_of_false (not_refuses_of_shorter ?_) (by simp [parsed])
      have trailed := processTrailers_buf_le limits
        { state with buf := rest, phase := .chunkedTrailer }
      simp only [consumeBody, phase, processChunkedSize, split, read, ne_eq, not_true, if_false,
        if_true]
      rcases processed : processTrailers limits
        { state with buf := rest, phase := .chunkedTrailer } with ⟨_ | _, last⟩ <;>
        rw [processed] at trailed <;> dsimp only at trailed ⊢
      · omega
      · split <;> simp only [takeTrailers] <;> omega
    · refine iff_of_false (not_refuses_of_shorter ?_) (by simp [parsed])
      simp only [consumeBody, phase, processChunkedSize, split, read, ne_eq, not_true, if_false]
      rw [if_neg (by simp)]
      dsimp only
      omega
    · refine iff_of_false (not_refuses_of_shorter ?_) (by simp [parsed])
      simp only [consumeBody, phase, processChunkedSize, split, read, ne_eq, not_true, if_false]
      omega

/-- Behind the data of a chunk a call is refused exactly when no line end follows. -/
theorem refuses_lineEnd (phase : state.phase = .bodyChunkedDataCrlf) :
    Refuses limits len state ↔ ∃ first second rest, state.buf = first :: second :: rest ∧
      [first, second] ≠ crlf := by
  simp only [Refuses, consumeBody, phase, chunkDataCrlf]
  -- Two bytes are there, and are the line end or not, or they are not there yet.
  split
  · rename_i first second rest buffered
    by_cases other : [first, second] ≠ crlf
    · rw [if_pos other]
      exact iff_of_true ⟨_, rfl⟩ ⟨first, second, rest, buffered, other⟩
    · rw [if_neg other]
      refine iff_of_false (by simp) ?_
      rintro ⟨_, _, _, same, apart⟩
      rw [buffered] at same
      cases same
      exact other apart
  · rename_i short
    refine iff_of_false (by simp) ?_
    rintro ⟨first, second, rest, buffered, _⟩
    exact short first second rest buffered

/-- Among trailers a call is refused exactly when the first line is, before it is read. -/
theorem refuses_trailerLine (phase : state.phase = .chunkedTrailer) :
    Refuses limits len state ↔ ∃ line rest, splitLine state.buf = some (line, rest) ∧ line ≠ [] ∧
      refusesLine limits state.bodyDecoder.trailerCount line = true := by
  have call := consumeBody_trailers limits len phase
  have pass : (trailersLoop limits).body (false, state) = trailersPass limits false state := rfl
  cases split : splitLine state.buf with
  | none =>
    refine iff_of_false ?_ (by simp)
    have waits : processTrailers limits state = (.ok false, state) :=
      (trailersLoop limits).run_of_return (by simp [pass, trailersPass, phase, split])
    simp [Refuses, call, waits, phase]
  | some pair =>
    obtain ⟨line, rest⟩ := pair
    have shorter := splitLine_length split
    have only : (∃ front back, some (line, rest) = some (front, back) ∧ front ≠ [] ∧
        refusesLine limits state.bodyDecoder.trailerCount front = true) ↔
        line ≠ [] ∧ refusesLine limits state.bodyDecoder.trailerCount line = true := by
      constructor
      · rintro ⟨_, _, same, refused⟩
        cases same
        exact refused
      · exact fun refused => ⟨line, rest, rfl, refused⟩
    rw [only]
    rcases trailerLine_cases limits state line rest with ⟨empty, read⟩ |
      ⟨present, refused, error, read⟩ | ⟨_, taken, error, read⟩ |
      ⟨_, taken, _, _, _, _, _, _, _, read⟩
    · refine iff_of_false ?_ (by simp [empty])
      have ends : processTrailers limits state =
          (.ok true, { state with buf := rest, phase := .complete }) :=
        (trailersLoop limits).run_of_return (by simp [pass, trailersPass, phase, split, read])
      simp [Refuses, call, ends, takeTrailers]
    · have stays : processTrailers limits state = (.error error, state) :=
        (trailersLoop limits).run_of_return (by simp [pass, trailersPass, phase, split, read])
      exact iff_of_true ⟨error, by rw [call, stays]⟩ ⟨present, refused⟩
    · have off : processTrailers limits state = (.error error, { state with buf := rest }) :=
        (trailersLoop limits).run_of_return (by simp [pass, trailersPass, phase, split, read])
      refine iff_of_false (not_refuses_of_shorter ?_) (by simp [taken])
      rw [call, off]
      dsimp only
      omega
    · -- A line that is read is off the buffer, whatever the ones behind it are.
      refine iff_of_false (not_refuses_of_shorter ?_) (by simp [taken])
      obtain ⟨after, accepted, off, more⟩ : ∃ after, trailerLine limits state line rest =
          (.ok (), after) ∧ after.buf = rest ∧ after.phase = .chunkedTrailer :=
        ⟨_, read, rfl, phase⟩
      have trailed : ((trailersLoop limits).run (true, after)).2.buf.length ≤ after.buf.length :=
        (trailersLoop_buf limits (true, after)).1
      rw [call, processTrailers, trailersLoop_accepted false phase split accepted,
        if_neg (by simp [more])]
      rw [off] at trailed
      rcases processed : (trailersLoop limits).run (true, after) with ⟨_ | _, last⟩ <;>
        rw [processed] at trailed <;> dsimp only at trailed ⊢
      · omega
      · split
        · simp only [takeTrailers]
          omega
        · split <;> dsimp only <;> omega

/-- A call is refused where no bytes are shown exactly when what is buffered is. -/
theorem refuses_iff (hidden : state.peekBody = none) (positive : 1 ≤ len)
    (counts : state.phase.Counts) : Refuses limits len state ↔ state.RefusesNext limits := by
  unfold RefusesNext
  cases phase : state.phase with
  | bodyChunkedSize =>
    rw [refuses_sizeLine phase]
    simp only [parseChunkSize_refused]
  | bodyChunkedDataCrlf => exact refuses_lineEnd phase
  | chunkedTrailer => exact refuses_trailerLine phase
  | complete => simp [Refuses, consumeBody, phase, takeTrailers]
  | startLine | headers | tunnel => simp [Refuses, consumeBody, phase]
  | bodyContentLength remaining | bodyChunkedData remaining =>
    -- Some bytes are awaited, and none are buffered.
    rw [phase] at counts
    change 0 < remaining at counts
    have empty : state.buf = [] := by
      simp only [peekBody, phase] at hidden
      split at hidden
      · rename_i none
        rw [List.isEmpty_iff, List.take_eq_nil_iff] at none
        exact none.resolve_left (by omega)
      · cases hidden
    by_cases many : remaining < len
    · simp [Refuses, consumeBody, phase, many]
    · simp [Refuses, consumeBody, phase, many, empty, show 0 < len by omega]
  | bodyCloseDelimited =>
    have empty : state.buf = [] := by
      simpa [peekBody, phase] using hidden
    simp [Refuses, consumeBody, phase, empty, show 0 < len by omega]

/-- Where bytes are shown, more than these are refused. -/
theorem refuses_of_shown {data : Bytes} (shown : state.peekBody = some data)
    (more : data.length < len) : Refuses limits len state := by
  unfold Refuses
  cases phase : state.phase with
  | bodyContentLength remaining | bodyChunkedData remaining =>
    simp only [peekBody, phase] at shown
    split at shown
    · cases shown
    · cases shown
      rw [List.length_take] at more
      -- Either less is left of the body, or less is buffered.
      by_cases many : remaining < len
      · simp only [consumeBody, phase, if_pos many]
        exact ⟨_, rfl⟩
      · have short : state.buf.length < len := by omega
        simp only [consumeBody, phase, if_neg many, if_pos short]
        exact ⟨_, rfl⟩
  | bodyCloseDelimited =>
    simp only [peekBody, phase] at shown
    split at shown
    · cases shown
    · cases shown
      simp only [consumeBody, phase, if_pos more]
      exact ⟨_, rfl⟩
  | startLine | headers | bodyChunkedSize | bodyChunkedDataCrlf | chunkedTrailer | tunnel
  | complete => simp [peekBody, phase] at shown

/-- A body that is too large is refused, and nothing changes. -/
def RefusesLarge (limits : DecoderLimits) (len : Nat) (state : BodyState) : Prop :=
  ∃ size limit, consumeBody limits len state = (.error (.bodyTooLarge size limit), state)

/-- Some bytes in front of the buffer are taken, with a line end behind the last of a chunk. -/
def TakesFront (limits : DecoderLimits) (len : Nat) (state : BodyState) : Prop :=
  (∀ size limit, (consumeBody limits len state).1 ≠ .error (.bodyTooLarge size limit)) ∧
  (state.buf = state.buf.take len ++ (consumeBody limits len state).2.buf ∨
    state.phase = .bodyChunkedData len ∧
      state.buf = state.buf.take len ++ crlf ++ (consumeBody limits len state).2.buf) ∧
  (consumeBody limits len state).2.bodyDecoder.bodyConsumed = state.bodyDecoder.bodyConsumed + len

/-- Bytes of a body of known length are taken. -/
theorem takesFront_contentLength (sane : state.Sane limits) {remaining : Nat}
    (phase : state.phase = .bodyContentLength remaining) (within : len ≤ remaining)
    (buffered : len ≤ state.buf.length) : TakesFront limits len state := by
  have fits := sane.fits
  rw [phase] at fits
  dsimp only [DecodePhase.remaining] at fits
  have sum : checkedAdd state.bodyDecoder.bodyConsumed len =
      some (state.bodyDecoder.bodyConsumed + len) := by
    rw [checkedAdd, if_pos (by omega)]
  unfold TakesFront
  simp only [consumeBody, phase, addConsumed, sum, if_neg (Nat.not_lt.mpr within),
    if_neg (Nat.not_lt.mpr buffered)]
  -- The last bytes end the body, others leave some of it.
  split
  · simp
  · split <;> simp

/-- Bytes of a chunk are taken, and the line end behind the last one if it is there. -/
theorem takesFront_chunkedData (sane : state.Sane limits) {remaining : Nat}
    (phase : state.phase = .bodyChunkedData remaining) (within : len ≤ remaining)
    (buffered : len ≤ state.buf.length) (positive : 1 ≤ len) : TakesFront limits len state := by
  have fits := sane.fits
  rw [phase] at fits
  dsimp only [DecodePhase.remaining] at fits
  have sum : checkedAdd state.bodyDecoder.bodyConsumed len =
      some (state.bodyDecoder.bodyConsumed + len) := by
    rw [checkedAdd, if_pos (by omega)]
  unfold TakesFront
  simp only [consumeBody, phase, addConsumed, sum, if_neg (Nat.not_lt.mpr within),
    if_neg (Nat.not_lt.mpr buffered), if_neg (Nat.pos_iff_ne_zero.mp positive)]
  by_cases finished : remaining - len = 0
  · rw [if_pos finished]
    obtain rfl : remaining = len := by omega
    simp only [chunkDataCrlf]
    split
    · rename_i first second rest behind
      split
      · simp
      · rename_i same
        rw [not_ne_iff] at same
        -- The line end is what was behind the bytes.
        refine ⟨by simp, .inr ⟨trivial, ?_⟩, rfl⟩
        rw [← same, List.append_assoc]
        exact ((congrArg (state.buf.take remaining ++ ·) behind).symm.trans
          (List.take_append_drop remaining state.buf)).symm
    · simp
  · rw [if_neg finished]
    simp

/-- Bytes of a body up to the close are taken, or the body is too large. -/
theorem takesFront_closeDelimited (phase : state.phase = .bodyCloseDelimited)
    (buffered : len ≤ state.buf.length) (positive : 1 ≤ len) :
    RefusesLarge limits len state ∨ TakesFront limits len state := by
  unfold RefusesLarge TakesFront
  simp only [consumeBody, phase, if_neg (Nat.not_lt.mpr buffered),
    if_neg (Nat.pos_iff_ne_zero.mp positive)]
  -- Only bytes past the limit, or a count past its type, are too many.
  by_cases room : state.bodyDecoder.bodyConsumed + len ≤ usizeMax
  · by_cases large : limits.maxBodySize < state.bodyDecoder.bodyConsumed + len
    · left
      simp only [addConsumed, checkedAdd, if_pos room, if_pos large]
      exact ⟨_, _, rfl⟩
    · right
      simp only [addConsumed, checkedAdd, if_pos room, if_neg large]
      simp
  · left
    simp only [addConsumed, checkedAdd, if_neg room]
    exact ⟨_, _, rfl⟩

/-- Bytes that are shown are taken, or the body is too large. -/
theorem takesFront_of_shown (sane : state.Sane limits) {data : Bytes}
    (shown : state.peekBody = some data) (positive : 1 ≤ len) (enough : len ≤ data.length) :
    data.take len = state.buf.take len ∧
      (RefusesLarge limits len state ∨ TakesFront limits len state) := by
  -- Bytes are shown only in three phases, each of which takes them from the front.
  cases phase : state.phase with
  | bodyContentLength remaining =>
    simp only [peekBody, phase] at shown
    obtain ⟨within, buffered, same⟩ := Reader.take_of_peeked shown enough
    exact ⟨same, .inr (takesFront_contentLength sane phase within buffered)⟩
  | bodyChunkedData remaining =>
    simp only [peekBody, phase] at shown
    obtain ⟨within, buffered, same⟩ := Reader.take_of_peeked shown enough
    exact ⟨same, .inr (takesFront_chunkedData sane phase within buffered positive)⟩
  | bodyCloseDelimited =>
    simp only [peekBody, phase] at shown
    split at shown
    · cases shown
    · cases shown
      exact ⟨rfl, takesFront_closeDelimited phase enough positive⟩
  | startLine | headers | bodyChunkedSize | bodyChunkedDataCrlf | chunkedTrailer | tunnel
  | complete => simp [peekBody, phase] at shown

/-- Where bytes of a body are shown nothing is refused for what is buffered. -/
theorem refusesNext_of_shown {data : Bytes} (shown : state.peekBody = some data) :
    state.RefusesNext limits := by
  unfold RefusesNext
  cases phase : state.phase with
  | bodyContentLength remaining | bodyChunkedData remaining => trivial
  | bodyCloseDelimited | startLine | headers | tunnel => trivial
  | bodyChunkedSize | bodyChunkedDataCrlf | chunkedTrailer | complete =>
    simp [peekBody, phase] at shown

end BodyState

namespace Decoder

variable {Head Context : Type} {decoder : Decoder Head Context} {len : Nat}

/-- A call of a decoder is refused exactly when that of its body is. -/
theorem refused_iff (positive : 1 ≤ len) :
    (∃ error, decoder.consumeBody len = (.error error, decoder)) ↔
      BodyState.Refuses decoder.limits len decoder.toBodyState := by
  simp only [consumeBody_eq decoder positive, BodyState.Refuses]
  constructor
  · -- The decoder around the body is the same on both sides.
    rintro ⟨error, same⟩
    rw [Prod.mk.injEq] at same
    exact ⟨error, Prod.ext same.1
      (congrArg (fun next : Decoder Head Context => next.toBodyState) same.2)⟩
  · rintro ⟨error, same⟩
    rw [same]
    exact ⟨error, rfl⟩

/-- A call takes what was shown exactly where what is buffered is shown or refused. -/
theorem takesShown_iff_of_sane (sane : decoder.toCore.Sane) (positive : 1 ≤ len) :
    decoder.TakesShown len ↔ decoder.toBodyState.RefusesNext decoder.limits := by
  cases shown : decoder.toBodyState.peekBody with
  | none =>
    -- Every call asks for more than is shown.
    have none : decoder.shownBytes = [] := by
      rw [shownBytes, show decoder.peekBody = none from shown]
      rfl
    rw [← BodyState.refuses_iff shown positive sane.body.counts, ← refused_iff positive]
    constructor
    · exact fun taken => taken.refused (by rw [none]; exact positive)
    · intro refused
      refine ⟨fun _ => refused, fun enough => ?_, fun enough => ?_⟩ <;>
        · rw [none, List.length_nil] at enough
          omega
  | some data =>
    have bytes : decoder.shownBytes = data := by
      rw [shownBytes, show decoder.peekBody = some data from shown]
      rfl
    refine iff_of_true ⟨fun more => ?_, fun enough => ?_, fun enough => ?_⟩
      (BodyState.refusesNext_of_shown shown)
    · rw [bytes] at more
      exact (refused_iff positive).mpr (BodyState.refuses_of_shown shown more)
    · rw [bytes] at enough
      intro size limit large
      rw [consumeBody_eq decoder positive] at large ⊢
      rcases (BodyState.takesFront_of_shown sane.body shown positive enough).2 with
        ⟨_, _, refused⟩ | ⟨fine, _, _⟩
      · rw [refused]
      · exact absurd large (fine size limit)
    · rw [bytes] at enough ⊢
      intro fine
      rw [consumeBody_eq decoder positive] at fine ⊢
      obtain ⟨front, taken⟩ := BodyState.takesFront_of_shown sane.body shown positive enough
      rcases taken with ⟨size, limit, refused⟩ | ⟨_, buffered, counted⟩
      · exact absurd (congrArg Prod.fst refused) (fine size limit)
      · have length : (data.take len).length = len := by
          rw [List.length_take]
          omega
        refine ⟨?_, ?_⟩
        · rw [length, front]
          exact buffered
        · rw [length]
          exact counted

end Decoder

open Decoder

/-- Calls take what was shown exactly where what is buffered is shown or refused. -/
theorem takesShown_iff (limits : DecoderLimits) :
    (∀ decoder len, RequestDecoder.api.Reachable limits (fun _ => true) decoder → 1 ≤ len →
      (decoder.TakesShown len ↔ decoder.toBodyState.RefusesNext decoder.limits)) ∧
    (∀ decoder len, ResponseDecoder.api.Reachable limits (fun _ => true) decoder → 1 ≤ len →
      (decoder.TakesShown len ↔ decoder.toBodyState.RefusesNext decoder.limits)) := by
  refine ⟨fun decoder len reachable positive => ?_, fun decoder len reachable positive => ?_⟩
  · exact takesShown_iff_of_sane (Api.request_lawful.reachable reachable).sane positive
  · exact takesShown_iff_of_sane (Api.response_lawful.reachable reachable).sane positive

/-- A request in chunks. -/
def chunkedBytes : Bytes := Utf8.encode
  "POST / HTTP/1.1\r\nHost: a\r\nTransfer-Encoding: chunked\r\n\r\n5\r\nhello\r\n".toList

/-- A decoder that has read the head of the request, and none of its chunks. -/
def chunkedRequest : RequestDecoder :=
  RequestDecoder.api.call (RequestDecoder.api.call (RequestDecoder.api.fresh {})
    (.feed chunkedBytes)) .decodeHeaders

/-- The head of the request in chunks can be read. -/
theorem chunkedRequest_reachable :
    RequestDecoder.api.Reachable {} (fun _ => true) chunkedRequest := by
  have fed : RequestDecoder.api.Reachable {} (fun _ => true)
      (RequestDecoder.api.call (RequestDecoder.api.fresh {}) (.feed chunkedBytes)) :=
    .call _ .fresh rfl rfl
  exact fed.call .decodeHeaders rfl (by decide)

/-- Within a chunk exactly the bytes asked for are taken. -/
theorem takesShown_chunk :
    (RequestDecoder.api.call chunkedRequest .progress).peekBody =
        some (Utf8.encode "hello".toList) ∧
      (RequestDecoder.api.call chunkedRequest .progress).TakesShown 3 := by
  have shown : (RequestDecoder.api.call chunkedRequest .progress).peekBody =
      some (Utf8.encode "hello".toList) := by decide +kernel
  have reachable := chunkedRequest_reachable.call .progress rfl (by decide +kernel)
  -- Named by a variable, the decoder is not run by the elaborator.
  have taken : ∀ decoder : RequestDecoder, RequestDecoder.api.Reachable {} (fun _ => true) decoder →
      decoder.peekBody = some (Utf8.encode "hello".toList) → decoder.TakesShown 3 :=
    fun decoder reachable shown => ((takesShown_iff {}).1 decoder 3 reachable (by decide)).mpr
      (BodyState.refusesNext_of_shown shown)
  exact ⟨shown, taken _ reachable shown⟩

/-- In front of a chunk a byte that is not shown is asked for, and the size line is taken. -/
theorem takesShown_sizeLine : ¬ (∀ limits : DecoderLimits,
    (∀ decoder len, RequestDecoder.api.Reachable limits (fun _ => true) decoder → 1 ≤ len →
      decoder.TakesShown len) ∧
    (∀ decoder len, ResponseDecoder.api.Reachable limits (fun _ => true) decoder → 1 ≤ len →
      decoder.TakesShown len)) := by
  intro takes
  have hidden : chunkedRequest.shownBytes.length < 1 := by decide +kernel
  -- Nothing is shown, so by the claim a byte would have to be refused.
  obtain ⟨error, refused⟩ :=
    ((takes {}).1 chunkedRequest 1 chunkedRequest_reachable (by decide)).refused hidden
  have accepted : (chunkedRequest.consumeBody 1).1 = .ok .advanced := by decide +kernel
  rw [refused] at accepted
  cases accepted

end Http11

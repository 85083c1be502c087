import Http11.Decoder.ChunkExt
import Http11.Decoder.Fields

/-! The decoder of bodies: content by length, in chunks with trailers, or up to the close. -/

namespace Http11

/-- Where a decoder stands. -/
inductive DecodePhase where
  /-- Waiting for the start line. -/
  | startLine
  /-- Waiting for header lines. -/
  | headers
  /-- Reading a body of known length. -/
  | bodyContentLength (remaining : Nat)
  /-- Waiting for a chunk-size line. -/
  | bodyChunkedSize
  /-- Reading the data of a chunk. -/
  | bodyChunkedData (remaining : Nat)
  /-- Waiting for the line end after the data of a chunk. -/
  | bodyChunkedDataCrlf
  /-- Waiting for trailer lines. -/
  | chunkedTrailer
  /-- Reading a body that ends with the connection. -/
  | bodyCloseDelimited
  /-- The connection has become a tunnel. -/
  | tunnel
  /-- The message is complete. -/
  | complete
  deriving DecidableEq, Repr

/-- A phase in which a head is read. -/
def DecodePhase.isHeading (phase : DecodePhase) : Bool := phase == .startLine || phase == .headers

/-- How a body is framed. -/
inductive BodyKind where
  /-- By its length. -/
  | contentLength (length : Nat)
  /-- In chunks. -/
  | chunked
  /-- By the end of the connection. -/
  | closeDelimited
  /-- There is no body. -/
  | none
  /-- The connection becomes a tunnel. -/
  | tunnel
  deriving DecidableEq, Repr

/-- What a step of body decoding achieved. -/
inductive BodyProgress where
  /-- More may be possible with what is buffered. -/
  | advanced
  /-- More input is needed. -/
  | needData
  /-- The body is complete, with its trailers. -/
  | complete (trailers : Headers)
  deriving DecidableEq, Repr

/-- What the decoder remembers of a body. -/
structure BodyDecoder where
  /-- The trailers read so far. -/
  trailers : Headers := []
  /-- The number of body bytes consumed. -/
  bodyConsumed : Nat := 0
  /-- The number of trailers read so far. -/
  trailerCount : Nat := 0
  /-- The trailer names the message declared, in lower case. -/
  declaredTrailers : List Str := []
  deriving DecidableEq, Repr

/-- The buffer, the phase and the body decoder, which body decoding works on. -/
structure BodyState where
  /-- The bytes not consumed yet. -/
  buf : Bytes := []
  /-- The phase. -/
  phase : DecodePhase := .startLine
  /-- The body decoder. -/
  bodyDecoder : BodyDecoder := {}
  deriving DecidableEq, Repr

/-- The position of the first line end. -/
def findLine : Bytes → Option Nat
  | 13 :: 10 :: _ => some 0
  | [] => none
  | _ :: rest => (findLine rest).map (· + 1)

/-- The first line and what follows its end. -/
def splitLine (buf : Bytes) : Option (Bytes × Bytes) :=
  (findLine buf).map fun pos => (buf.take pos, buf.drop (pos + 2))

/-- The text of a line. -/
def lineText (line : Bytes) : Except Error Str :=
  match Utf8.decode line with
  | .ok text => .ok text
  | .error error => .error (.invalidData ("invalid UTF-8: " ++ utf8ErrorText error))

namespace BodyState

/-- The body bytes that can be consumed now. -/
def peekBody (state : BodyState) : Option Bytes :=
  match state.phase with
  | .bodyContentLength remaining | .bodyChunkedData remaining =>
    let available := state.buf.take remaining
    if available.isEmpty then none else some available
  | .bodyCloseDelimited => if state.buf.isEmpty then none else some state.buf
  | _ => none

/-- Some of the body bytes that can be consumed now, as many as there are. -/
def offered (state : BodyState) (len : Nat) : Bytes := (state.peekBody.getD []).take len

end BodyState

/-- The error of a chunk-size line, which shows its part up to the first semicolon. -/
def invalidChunkSize (sizeBytes : Bytes) : Error :=
  .invalidData ("invalid chunk size: " ++ String.ofList (Utf8.decodeLossy sizeBytes))

/-- The size a chunk-size line declares. -/
def parseChunkSize (limits : DecoderLimits) (line : Bytes) : Except Error Nat :=
  if limits.maxChunkLineSize < line.length then
    .error (.chunkLineTooLong line.length limits.maxChunkLineSize)
  else
    let hasExt := line.contains 0x3B
    let sizeBytes := line.takeWhile fun byte => byte != 0x3B
    let hexBytes := sizeBytes.takeWhile isAsciiHexdigit
    let trailing := sizeBytes.dropWhile isAsciiHexdigit
    if hexBytes.isEmpty then .error (invalidChunkSize sizeBytes)
    -- Only spaces before an extension may follow the digits.
    else if !trailing.isEmpty && !(hasExt && trailing.all fun byte => byte == 0x20 || byte == 0x09)
    then .error (invalidChunkSize sizeBytes)
    else match Utf8.decode hexBytes with
      | .error _ => .error (.invalidData "invalid chunk size: not ASCII")
      | .ok sizeStr =>
        match parseHexUsize sizeStr with
        | none => .error (.invalidData ("invalid chunk size: " ++ String.ofList sizeStr))
        | some size => do
          if hasExt then validateChunkExt (line.dropWhile fun byte => byte != 0x3B)
          return size

namespace BodyState

/-- A chunk-size line: the data of a chunk follows, or the trailers do. -/
def chunkSizeLine (limits : DecoderLimits) (state : BodyState) (line rest : Bytes) :
    Except Error Unit × BodyState :=
  match parseChunkSize limits line with
  | .error error => (.error error, state)
  | .ok size =>
    -- The line is off the buffer before its size is compared with the limit.
    let state := { state with buf := rest }
    if size = 0 then (.ok (), { state with phase := .chunkedTrailer })
    -- The sizes of all chunks have to fit the machine word together.
    else match checkedAdd state.bodyDecoder.bodyConsumed size with
      | none => (.error (.bodyTooLarge usizeMax limits.maxBodySize), state)
      | some newSize =>
        if limits.maxBodySize < newSize then
          (.error (.bodyTooLarge newSize limits.maxBodySize), state)
        else (.ok (), { state with phase := .bodyChunkedData size })

/-- A trailer line: the empty one completes the body, others are fields. -/
def trailerLine (limits : DecoderLimits) (state : BodyState) (line rest : Bytes) :
    Except Error Unit × BodyState :=
  if line.isEmpty then (.ok (), { state with buf := rest, phase := .complete })
  else if limits.maxHeaderLineSize < line.length then
    (.error (.headerLineTooLong line.length limits.maxHeaderLineSize), state)
  else if limits.maxHeadersCount ≤ state.bodyDecoder.trailerCount then
    (.error (.tooManyHeaders (state.bodyDecoder.trailerCount + 1) limits.maxHeadersCount), state)
  else match lineText line with
    | .error error => (.error error, state)
    | .ok text =>
      let state := { state with buf := rest }
      match parseHeaderLine text with
      | .error error => (.error error, state)
      | .ok (name, value) =>
        if isProhibitedTrailerField name then
          (.error (.invalidData ("prohibited trailer field: " ++ String.ofList name)), state)
        -- Only names the message declared are accepted.
        else if !state.bodyDecoder.declaredTrailers.contains (toAsciiLowercase name) then
          (.error (.invalidData ("undeclared trailer field: " ++ String.ofList name)), state)
        else (.ok (), { state with bodyDecoder := { state.bodyDecoder with
          trailers := state.bodyDecoder.trailers ++ [(name, value)]
          trailerCount := state.bodyDecoder.trailerCount + 1 } })

/-- One pass of the trailer loop, with whether a line was read before. -/
def trailersPass (limits : DecoderLimits) (advanced : Bool) (state : BodyState) :
    (Bool × BodyState) ⊕ (Except Error Bool × BodyState) :=
  if state.phase = .chunkedTrailer then
    match splitLine state.buf with
    | none => .inr (.ok advanced, state)
    | some (line, rest) =>
      match trailerLine limits state line rest with
      | (.error error, state) => .inr (.error error, state)
      | (.ok (), state) =>
        -- The empty line has completed the message.
        if state.phase = .complete then .inr (.ok true, state) else .inl (true, state)
  else .inr (.ok advanced, state)

end BodyState

/-- A line ends within the buffer. -/
theorem findLine_lt {buf : Bytes} {pos : Nat} (found : findLine buf = some pos) :
    pos + 2 ≤ buf.length := by
  -- The search either stops at the two bytes in front or moves one byte along.
  fun_induction findLine buf generalizing pos with
  | case1 => cases found; simp
  | case2 => cases found
  | case3 byte rest _ ih =>
    simp only [Option.map_eq_some_iff] at found
    obtain ⟨before, foundBefore, rfl⟩ := found
    have := ih foundBefore
    simp only [List.length_cons]
    omega

/-- What follows a line is at least its end shorter than the buffer. -/
theorem splitLine_length {buf line rest : Bytes} (split : splitLine buf = some (line, rest)) :
    line.length + 2 + rest.length = buf.length := by
  simp only [splitLine, Option.map_eq_some_iff, Prod.mk.injEq] at split
  obtain ⟨pos, found, rfl, rfl⟩ := split
  have inside := findLine_lt found
  simp only [List.length_take, List.length_drop]
  omega

namespace BodyState

/-- A trailer line that is accepted is taken, and completes the body or leaves its phase. -/
theorem trailerLine_ok {limits : DecoderLimits} {state next : BodyState} {line rest : Bytes}
    (accepted : trailerLine limits state line rest = (.ok (), next)) :
    next.buf = rest ∧ (next.phase = .complete ∨ next.phase = state.phase) := by
  unfold trailerLine at accepted
  -- The empty line completes the body; all checks of another line leave the phase.
  split at accepted
  · simp only [Prod.mk.injEq] at accepted
    rw [← accepted.2]
    exact ⟨rfl, .inl rfl⟩
  split at accepted
  · simp at accepted
  split at accepted
  · simp at accepted
  split at accepted
  · simp at accepted
  simp only at accepted
  split at accepted
  · simp at accepted
  split at accepted
  · simp at accepted
  split at accepted
  · simp at accepted
  · simp only [Prod.mk.injEq] at accepted
    rw [← accepted.2]
    exact ⟨rfl, .inr rfl⟩

/-- A trailer line leaves the buffer as it was or without the line. -/
theorem trailerLine_buf (limits : DecoderLimits) (state : BodyState) (line rest : Bytes) :
    (trailerLine limits state line rest).2.buf = state.buf ∨
      (trailerLine limits state line rest).2.buf = rest := by
  unfold trailerLine
  split
  · -- Only the empty line and the accepted ones are taken off.
    exact .inr rfl
  split
  · exact .inl rfl
  split
  · exact .inl rfl
  split
  · exact .inl rfl
  right
  dsimp only
  split
  · rfl
  split
  · rfl
  split <;> rfl

/-- The loop over trailer lines. -/
def trailersLoop (limits : DecoderLimits) :
    Iteration (Bool × BodyState) (Except Error Bool × BodyState) where
  body := fun (advanced, state) => trailersPass limits advanced state
  size := fun (_, state) => state.buf.length
  decreases := by
    rintro ⟨advanced, state⟩ ⟨nextAdvanced, next⟩ pass
    simp only [trailersPass] at pass
    split at pass
    · split at pass
      · cases pass
      · rename_i line rest split
        have shorter := splitLine_length split
        split at pass
        · cases pass
        · rename_i accepted
          split at pass
          · cases pass
          · cases pass
            change next.buf.length < state.buf.length
            rw [(trailerLine_ok accepted).1]
            omega
    · cases pass

/-- The trailer lines that are buffered: whether there was one. -/
def processTrailers (limits : DecoderLimits) (state : BodyState) : Except Error Bool × BodyState :=
  (trailersLoop limits).run (false, state)

/-- The chunk-size line that is buffered, and the trailers after the last chunk. -/
def processChunkedSize (limits : DecoderLimits) (state : BodyState) :
    Except Error Unit × BodyState :=
  if state.phase ≠ .bodyChunkedSize then (.ok (), state)
  else match splitLine state.buf with
    | none => (.ok (), state)
    | some (line, rest) =>
      match chunkSizeLine limits state line rest with
      | (.error error, state) => (.error error, state)
      | (.ok (), state) =>
        -- Trailers that have arrived are read by the same call.
        if state.phase = .chunkedTrailer then
          match processTrailers limits state with
          | (.error error, state) => (.error error, state)
          | (.ok _, state) => (.ok (), state)
        else (.ok (), state)

/-- The line end after the data of a chunk, once both its bytes are buffered. -/
def chunkDataCrlf (state : BodyState) : Except Error BodyProgress × BodyState :=
  match state.buf with
  | first :: second :: rest =>
    if [first, second] ≠ crlf then
      (.error (.invalidData "invalid chunked encoding: expected CRLF after chunk data"), state)
    else (.ok .advanced, { state with buf := rest, phase := .bodyChunkedSize })
  | _ => (.ok .needData, state)

/-- Completion with the trailers, which are handed over. -/
def takeTrailers (state : BodyState) : Except Error BodyProgress × BodyState :=
  (.ok (.complete state.bodyDecoder.trailers),
    { state with bodyDecoder := { state.bodyDecoder with trailers := [] } })

/-- The sum of the bytes consumed, or the error of a body past every limit. -/
def addConsumed (limits : DecoderLimits) (len : Nat) (state : BodyState) : Except Error Nat :=
  match checkedAdd state.bodyDecoder.bodyConsumed len with
  | some total => .ok total
  | none => .error (.bodyTooLarge usizeMax limits.maxBodySize)

/-- Some bytes of the body are consumed, or the state machine moves on without any. -/
def consumeBody (limits : DecoderLimits) (len : Nat) (state : BodyState) :
    Except Error BodyProgress × BodyState :=
  match state.phase with
  | .bodyContentLength remaining =>
    if remaining < len then
      (.error (.invalidData "consume_body: len exceeds remaining"), state)
    else if state.buf.length < len then
      (.error (.invalidData "consume_body: len exceeds buffer"), state)
    else
      let state := { state with
        buf := state.buf.drop len, phase := .bodyContentLength (remaining - len) }
      match addConsumed limits len state with
      | .error error => (.error error, state)
      | .ok total =>
        let state := { state with bodyDecoder := { state.bodyDecoder with bodyConsumed := total } }
        if remaining - len = 0 then (.ok (.complete []), { state with phase := .complete })
        else if 0 < len then (.ok .advanced, state)
        else (.ok .needData, state)
  | .bodyChunkedSize =>
    match processChunkedSize limits state with
    | (.error error, state) => (.error error, state)
    | (.ok (), state) =>
      match state.phase with
      | .complete => takeTrailers state
      | .bodyChunkedSize => (.ok .needData, state)
      | _ => (.ok .advanced, state)
  | .bodyChunkedData remaining =>
    if remaining < len then
      (.error (.invalidData "consume_body: len exceeds chunk remaining"), state)
    else if state.buf.length < len then
      (.error (.invalidData "consume_body: len exceeds buffer"), state)
    else if len = 0 then (.ok .needData, state)
    else
      let state := { state with
        buf := state.buf.drop len, phase := .bodyChunkedData (remaining - len) }
      match addConsumed limits len state with
      | .error error => (.error error, state)
      | .ok total =>
        let state := { state with bodyDecoder := { state.bodyDecoder with bodyConsumed := total } }
        -- The line end after the last byte is taken at once when it is buffered.
        if remaining - len = 0 then chunkDataCrlf { state with phase := .bodyChunkedDataCrlf }
        else (.ok .advanced, state)
  | .bodyChunkedDataCrlf => chunkDataCrlf state
  | .chunkedTrailer =>
    match processTrailers limits state with
    | (.error error, state) => (.error error, state)
    | (.ok advanced, state) =>
      if state.phase = .complete then takeTrailers state
      else if advanced then (.ok .advanced, state)
      else (.ok .needData, state)
  | .bodyCloseDelimited =>
    if state.buf.length < len then
      (.error (.invalidData "consume_body: len exceeds buffer"), state)
    else if len = 0 then (.ok .needData, state)
    else match addConsumed limits len state with
      | .error error => (.error error, state)
      | .ok total =>
        if limits.maxBodySize < total then
          (.error (.bodyTooLarge total limits.maxBodySize), state)
        else (.ok .advanced, { state with
          buf := state.buf.drop len
          bodyDecoder := { state.bodyDecoder with bodyConsumed := total } })
  | .complete => takeTrailers state
  | .startLine | .headers =>
    (.error (.invalidData "consume_body called before decode_headers"), state)
  | .tunnel => (.error (.invalidData
      "consume_body cannot be used in tunnel mode, use take_remaining instead"), state)

/-- An accepted chunk-size line is taken off the buffer, and leads to data or to trailers. -/
theorem chunkSizeLine_ok {limits : DecoderLimits} {state next : BodyState} {line rest : Bytes}
    (accepted : chunkSizeLine limits state line rest = (.ok (), next)) :
    ∃ size, parseChunkSize limits line = .ok size ∧
      ((size = 0 ∧ next = { state with buf := rest, phase := .chunkedTrailer }) ∨
        (0 < size ∧ state.bodyDecoder.bodyConsumed + size ≤ usizeMax ∧
          state.bodyDecoder.bodyConsumed + size ≤ limits.maxBodySize ∧
          next = { state with buf := rest, phase := .bodyChunkedData size })) := by
  unfold chunkSizeLine at accepted
  cases parsed : parseChunkSize limits line with
  -- A last chunk needs no room, and any other one has to fit the word and the limit.
  | error error => simp [parsed] at accepted
  | ok size =>
    refine ⟨size, rfl, ?_⟩
    by_cases last : size = 0
    · simp only [parsed, if_pos last, Prod.mk.injEq, true_and] at accepted
      exact .inl ⟨last, accepted.symm⟩
    · by_cases fits : state.bodyDecoder.bodyConsumed + size ≤ usizeMax
      · by_cases allowed : limits.maxBodySize < state.bodyDecoder.bodyConsumed + size
        · simp [parsed, last, checkedAdd, fits, allowed] at accepted
        · simp only [parsed, if_neg last, checkedAdd, if_pos fits, if_neg allowed, Prod.mk.injEq,
            true_and] at accepted
          exact .inr ⟨by omega, fits, by omega, accepted.symm⟩
      · simp [parsed, last, checkedAdd, fits] at accepted

/-- Trailer lines only shorten the buffer, and having read one means that they did. -/
theorem trailersLoop_buf (limits : DecoderLimits) (start : Bool × BodyState) :
    let result := (trailersLoop limits).run start
    result.2.buf.length ≤ start.2.buf.length ∧
      (result.1 = .ok true → start.1 = true ∨ result.2.buf.length < start.2.buf.length) := by
  -- Each pass either returns at once or takes one line off the buffer.
  refine (trailersLoop limits).run_rule
    (motive := fun start result => result.2.buf.length ≤ start.2.buf.length ∧
      (result.1 = .ok true → start.1 = true ∨ result.2.buf.length < start.2.buf.length)) ?_ ?_ start
  · rintro ⟨advanced, state⟩ result pass
    change trailersPass limits advanced state = .inr result at pass
    unfold trailersPass at pass
    split at pass
    · split at pass
      · cases pass
        simp
      · rename_i line rest split
        have shorter := splitLine_length split
        split at pass
        · rename_i error after refused
          cases pass
          have kept : after.buf.length ≤ state.buf.length := by
            have := trailerLine_buf limits state line rest
            rw [refused] at this
            rcases this with same | same
            · rw [same]
            · rw [same]
              omega
          simpa using kept
        · rename_i after accepted
          split at pass
          · cases pass
            have taken := (trailerLine_ok accepted).1
            simp only [taken]
            omega
          · cases pass
    · cases pass
      simp
  · rintro ⟨advanced, state⟩ ⟨nextAdvanced, next⟩ result pass ih
    have smaller := (trailersLoop limits).decreases pass
    change next.buf.length < state.buf.length at smaller
    obtain ⟨bounded, -⟩ := ih
    dsimp only at bounded ⊢
    exact ⟨by omega, fun _ => .inr (by omega)⟩

/-- Trailer lines only shorten the buffer. -/
theorem processTrailers_buf_le (limits : DecoderLimits) (state : BodyState) :
    (processTrailers limits state).2.buf.length ≤ state.buf.length :=
  (trailersLoop_buf limits (false, state)).1

/-- A chunk-size line that was there is gone. -/
theorem processChunkedSize_buf {limits : DecoderLimits} {state next : BodyState}
    (processed : processChunkedSize limits state = (.ok (), next)) :
    next = state ∨ next.buf.length < state.buf.length := by
  unfold processChunkedSize at processed
  -- Without the phase or without a whole line nothing is done.
  split at processed
  · simp only [Prod.mk.injEq, true_and] at processed
    exact .inl processed.symm
  cases found : splitLine state.buf with
  | none =>
    simp only [found, Prod.mk.injEq, true_and] at processed
    exact .inl processed.symm
  | some pair =>
    obtain ⟨line, rest⟩ := pair
    right
    have shorter := splitLine_length found
    -- Whatever the line leads to, it is gone, and trailers behind it only shorten the rest.
    cases read : chunkSizeLine limits state line rest with
    | mk outcome after =>
      cases outcome with
      | error error => simp [found, read] at processed
      | ok done =>
        obtain ⟨size, _, leads⟩ := chunkSizeLine_ok read
        have taken : after.buf = rest := by
          rcases leads with ⟨_, rfl⟩ | ⟨_, _, _, rfl⟩ <;> rfl
        have more := processTrailers_buf_le limits after
        simp only [found, read] at processed
        split at processed
        · split at processed
          · simp at processed
          · rename_i trailed
            simp only [Prod.mk.injEq, true_and] at processed
            rw [trailed] at more
            subst processed
            rw [taken] at more
            dsimp only at more
            omega
        · simp only [Prod.mk.injEq, true_and] at processed
          subst processed
          rw [taken]
          omega

/-- The line end after a chunk shortens the buffer when it is there. -/
theorem chunkDataCrlf_buf (state : BodyState) :
    (chunkDataCrlf state).2.buf.length ≤ state.buf.length ∧
      ((chunkDataCrlf state).1 = .ok .advanced →
        (chunkDataCrlf state).2.buf.length < state.buf.length) := by
  unfold chunkDataCrlf
  -- Two bytes are taken when they are the line end, and none otherwise.
  split
  · rename_i first second rest buffered
    split <;> simp [buffered]
    omega
  · simp

/-- A call among trailers: their lines, and the end of the body behind them. -/
theorem consumeBody_trailers (limits : DecoderLimits) (len : Nat) {state : BodyState}
    (phase : state.phase = .chunkedTrailer) :
    consumeBody limits len state = match processTrailers limits state with
      | (.error error, state) => (.error error, state)
      | (.ok advanced, state) =>
        if state.phase = .complete then takeTrailers state
        else if advanced then (.ok .advanced, state) else (.ok .needData, state) := by
  obtain ⟨buf, _, bodyDecoder⟩ := state
  cases phase
  rfl

/-- What was taken is off the buffer: something was, on moving on and where bytes were shown. -/
def Shortens (len : Nat) (state : BodyState) (progress : BodyProgress) (next : BodyState) : Prop :=
  next.buf.length ≤ state.buf.length ∧
    (progress = .advanced ∨ 0 < len ∧ state.peekBody ≠ none → next.buf.length < state.buf.length)

section Shortening

variable {limits : DecoderLimits} {len remaining : Nat} {state next : BodyState}
  {progress : BodyProgress}

/-- Where nothing is shown, only moving on has to shorten the buffer. -/
theorem Shortens.unseen (unseen : state.peekBody = none)
    (shorter : next.buf.length ≤ state.buf.length)
    (moved : progress = .advanced → next.buf.length < state.buf.length) :
    Shortens len state progress next := by
  refine ⟨shorter, ?_⟩
  rintro (advanced | ⟨_, seen⟩)
  · exact moved advanced
  · exact absurd unseen seen

/-- Of a body by length, the bytes consumed leave the buffer. -/
theorem shortens_content (phase : state.phase = .bodyContentLength remaining)
    (consumed : consumeBody limits len state = (.ok progress, next)) :
    Shortens len state progress next := by
  -- Each of the three ways to succeed drops the same bytes.
  simp only [consumeBody, phase] at consumed
  split at consumed
  · simp at consumed
  split at consumed
  · simp at consumed
  split at consumed
  · simp at consumed
  split at consumed
  · simp only [Prod.mk.injEq, Except.ok.injEq] at consumed
    obtain ⟨rfl, rfl⟩ := consumed
    simp only [Shortens, List.length_drop, reduceCtorEq, false_or]
    omega
  split at consumed
  all_goals
    simp only [Prod.mk.injEq, Except.ok.injEq] at consumed
    obtain ⟨rfl, rfl⟩ := consumed
    simp only [Shortens, List.length_drop, reduceCtorEq, false_or]
    omega

/-- At a chunk-size line a line leaves the buffer, or nothing changes. -/
theorem shortens_size (phase : state.phase = .bodyChunkedSize)
    (consumed : consumeBody limits len state = (.ok progress, next)) :
    Shortens len state progress next := by
  have unseen : state.peekBody = none := by simp [peekBody, phase]
  simp only [consumeBody, phase] at consumed
  rcases processed : processChunkedSize limits state with ⟨_ | _, after⟩
  · simp [processed] at consumed
  have shorter := processChunkedSize_buf processed
  simp only [processed] at consumed
  split at consumed
  · -- The body is complete, with its trailers.
    simp only [takeTrailers, Prod.mk.injEq, Except.ok.injEq] at consumed
    obtain ⟨rfl, rfl⟩ := consumed
    refine .unseen unseen ?_ (by simp)
    rcases shorter with rfl | shorter
    · exact le_rfl
    · exact shorter.le
  · -- The line is still to come.
    simp only [Prod.mk.injEq, Except.ok.injEq] at consumed
    obtain ⟨rfl, rfl⟩ := consumed
    refine .unseen unseen ?_ (by simp)
    rcases shorter with rfl | shorter
    · exact le_rfl
    · exact shorter.le
  · -- The phase has changed, so the state has.
    rename_i moved
    simp only [Prod.mk.injEq, Except.ok.injEq] at consumed
    obtain ⟨rfl, rfl⟩ := consumed
    rcases shorter with rfl | shorter
    · exact absurd phase moved
    · exact ⟨shorter.le, fun _ => shorter⟩

/-- Of the data of a chunk, the bytes consumed leave the buffer, and the line end after it. -/
theorem shortens_chunk (phase : state.phase = .bodyChunkedData remaining)
    (consumed : consumeBody limits len state = (.ok progress, next)) :
    Shortens len state progress next := by
  simp only [consumeBody, phase] at consumed
  split at consumed
  · simp at consumed
  split at consumed
  · simp at consumed
  split at consumed
  · -- Nothing was asked for, and nothing has advanced.
    simp only [Prod.mk.injEq, Except.ok.injEq] at consumed
    obtain ⟨rfl, rfl⟩ := consumed
    simp only [Shortens, reduceCtorEq, false_or]
    omega
  split at consumed
  · simp at consumed
  split at consumed
  · have shorter := (chunkDataCrlf_buf _).1.trans_eq' (congrArg (·.2.buf.length) consumed)
    simp only [List.length_drop] at shorter
    simp only [Shortens]
    omega
  · simp only [Prod.mk.injEq, Except.ok.injEq] at consumed
    obtain ⟨rfl, rfl⟩ := consumed
    simp only [Shortens, List.length_drop]
    omega

/-- Among trailers, moving on means that there was a line. -/
theorem shortens_trailers (phase : state.phase = .chunkedTrailer)
    (consumed : consumeBody limits len state = (.ok progress, next)) :
    Shortens len state progress next := by
  have unseen : state.peekBody = none := by simp [peekBody, phase]
  have shorter := trailersLoop_buf limits (false, state)
  change (processTrailers limits state).2.buf.length ≤ state.buf.length ∧
    ((processTrailers limits state).1 = .ok true →
      false = true ∨ (processTrailers limits state).2.buf.length < state.buf.length) at shorter
  rw [consumeBody_trailers limits len phase] at consumed
  rcases processed : processTrailers limits state with ⟨_ | advanced, after⟩ <;>
    rw [processed] at shorter
  · simp [processed] at consumed
  simp only [processed] at consumed
  -- The end of the body and a line that was read are the only ways of moving on.
  split at consumed
  · simp only [takeTrailers, Prod.mk.injEq, Except.ok.injEq] at consumed
    obtain ⟨rfl, rfl⟩ := consumed
    exact .unseen unseen shorter.1 (by simp)
  split at consumed
  · rename_i moved
    simp only [Prod.mk.injEq, Except.ok.injEq] at consumed
    obtain ⟨rfl, rfl⟩ := consumed
    exact .unseen unseen shorter.1 fun _ => (shorter.2 (by simp [moved])).resolve_left (by simp)
  · simp only [Prod.mk.injEq, Except.ok.injEq] at consumed
    obtain ⟨rfl, rfl⟩ := consumed
    exact .unseen unseen shorter.1 (by simp)

/-- Of a body up to the close, the bytes consumed leave the buffer. -/
theorem shortens_lasting (phase : state.phase = .bodyCloseDelimited)
    (consumed : consumeBody limits len state = (.ok progress, next)) :
    Shortens len state progress next := by
  simp only [consumeBody, phase] at consumed
  -- Neither a body that is too large nor one past the word is consumed.
  split at consumed
  · simp at consumed
  split at consumed
  · simp only [Prod.mk.injEq, Except.ok.injEq] at consumed
    obtain ⟨rfl, rfl⟩ := consumed
    simp only [Shortens, reduceCtorEq, false_or]
    omega
  split at consumed
  · simp at consumed
  split at consumed
  · simp at consumed
  · simp only [Prod.mk.injEq, Except.ok.injEq] at consumed
    obtain ⟨rfl, rfl⟩ := consumed
    simp only [Shortens, List.length_drop]
    omega

/-- Moving on, and consuming what was shown, shorten the buffer. -/
theorem consumeBody_buf (consumed : consumeBody limits len state = (.ok progress, next)) :
    next.buf.length ≤ state.buf.length ∧
      (progress = .advanced ∨ 0 < len ∧ state.peekBody ≠ none →
        next.buf.length < state.buf.length) := by
  change Shortens len state progress next
  -- Phases that show bytes lose those consumed; the others lose the lines that they read.
  cases phase : state.phase with
  | bodyContentLength remaining => exact shortens_content phase consumed
  | bodyChunkedSize => exact shortens_size phase consumed
  | bodyChunkedData remaining => exact shortens_chunk phase consumed
  | bodyChunkedDataCrlf =>
    have shorter := chunkDataCrlf_buf state
    simp only [consumeBody, phase] at consumed
    rw [consumed] at shorter
    refine .unseen (by simp [peekBody, phase]) shorter.1 fun advanced => ?_
    subst advanced
    exact shorter.2 rfl
  | chunkedTrailer => exact shortens_trailers phase consumed
  | bodyCloseDelimited => exact shortens_lasting phase consumed
  | complete =>
    simp only [consumeBody, phase, takeTrailers, Prod.mk.injEq, Except.ok.injEq] at consumed
    obtain ⟨rfl, rfl⟩ := consumed
    exact .unseen (by simp [peekBody, phase]) le_rfl (by simp)
  | startLine | headers | tunnel => simp [consumeBody, phase] at consumed

end Shortening

end BodyState

end Http11

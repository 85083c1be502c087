import Http11.Proofs.Decoder.Phases

/-! What calls can do to a decoder: a few elementary changes, any number of which make up a call. -/

namespace Http11

/-- A line of a field that is refused before it is taken off the buffer. -/
def refusesLine (limits : DecoderLimits) (count : Nat) (line : Bytes) : Bool :=
  limits.maxHeaderLineSize < line.length || limits.maxHeadersCount ≤ count || !(lineText line).isOk

/-- A line that is not refused at once has a text, and is within its limits. -/
theorem refusesLine_eq_false {limits : DecoderLimits} {count : Nat} {line : Bytes} :
    refusesLine limits count line = false ↔ line.length ≤ limits.maxHeaderLineSize ∧
      count < limits.maxHeadersCount ∧ ∃ text, lineText line = .ok text := by
  simp only [refusesLine, Bool.or_eq_false_iff, decide_eq_false_iff_not, not_lt, not_le,
    Bool.not_eq_false', and_assoc]
  refine and_congr_right fun _ => and_congr_right fun _ => ?_
  cases lineText line <;> simp [Except.isOk, Except.toBool]

namespace BodyState

/-- Everything that a chunk-size line can do. -/
theorem chunkSizeLine_cases (limits : DecoderLimits) (state : BodyState) (line rest : Bytes) :
    (∃ error, parseChunkSize limits line = .error error ∧
      chunkSizeLine limits state line rest = (.error error, state)) ∨
    (parseChunkSize limits line = .ok 0 ∧ chunkSizeLine limits state line rest =
      (.ok (), { state with buf := rest, phase := .chunkedTrailer })) ∨
    (∃ size, parseChunkSize limits line = .ok size ∧ 0 < size ∧
      state.bodyDecoder.bodyConsumed + size ≤ usizeMax ∧
      state.bodyDecoder.bodyConsumed + size ≤ limits.maxBodySize ∧
      chunkSizeLine limits state line rest =
        (.ok (), { state with buf := rest, phase := .bodyChunkedData size })) ∨
    (∃ size total, parseChunkSize limits line = .ok size ∧ 0 < size ∧
      (usizeMax < state.bodyDecoder.bodyConsumed + size ∨
        limits.maxBodySize < state.bodyDecoder.bodyConsumed + size) ∧
      chunkSizeLine limits state line rest =
        (.error (.bodyTooLarge total limits.maxBodySize), { state with buf := rest })) := by
  unfold chunkSizeLine
  -- The size is refused, zero, within the limit or past it.
  cases parseChunkSize limits line with
  | error error => exact .inl ⟨error, rfl, rfl⟩
  | ok size =>
    right
    by_cases last : size = 0
    · exact .inl ⟨by rw [last], by simp [last]⟩
    right
    -- The sum may not fit into its type, and then it is past every limit.
    by_cases fits : state.bodyDecoder.bodyConsumed + size ≤ usizeMax
    · by_cases allowed : limits.maxBodySize < state.bodyDecoder.bodyConsumed + size
      · exact .inr ⟨size, state.bodyDecoder.bodyConsumed + size, rfl, by omega, .inr allowed,
          by simp [last, checkedAdd, fits, allowed]⟩
      · exact .inl ⟨size, rfl, by omega, fits, by omega,
          by simp [last, checkedAdd, fits, allowed]⟩
    · exact .inr ⟨size, usizeMax, rfl, by omega, .inl (by omega),
        by simp [last, checkedAdd, fits]⟩

/-- Everything that a trailer line can do. -/
theorem trailerLine_cases (limits : DecoderLimits) (state : BodyState) (line rest : Bytes) :
    (line = [] ∧ trailerLine limits state line rest =
      (.ok (), { state with buf := rest, phase := .complete })) ∨
    (line ≠ [] ∧ refusesLine limits state.bodyDecoder.trailerCount line = true ∧
      ∃ error, trailerLine limits state line rest = (.error error, state)) ∨
    (line ≠ [] ∧ refusesLine limits state.bodyDecoder.trailerCount line = false ∧
      ∃ error, trailerLine limits state line rest = (.error error, { state with buf := rest })) ∨
    (line ≠ [] ∧ refusesLine limits state.bodyDecoder.trailerCount line = false ∧
      ∃ text name value, lineText line = .ok text ∧ parseHeaderLine text = .ok (name, value) ∧
        isProhibitedTrailerField name = false ∧
        toAsciiLowercase name ∈ state.bodyDecoder.declaredTrailers ∧
        trailerLine limits state line rest = (.ok (), { state with
          buf := rest
          bodyDecoder := { state.bodyDecoder with
            trailers := state.bodyDecoder.trailers ++ [(name, value)]
            trailerCount := state.bodyDecoder.trailerCount + 1 } })) := by
  unfold trailerLine
  -- The checks come in the order of the source: the end, the length, the number, the text.
  by_cases empty : line = []
  · exact .inl ⟨empty, by simp [empty]⟩
  rw [if_neg (by simpa using empty)]
  right
  by_cases long : limits.maxHeaderLineSize < line.length
  · exact .inl ⟨empty, by simp [refusesLine, long], _, if_pos long⟩
  rw [if_neg long]
  by_cases many : limits.maxHeadersCount ≤ state.bodyDecoder.trailerCount
  · exact .inl ⟨empty, by simp [refusesLine, many], _, if_pos many⟩
  rw [if_neg many]
  cases decoded : lineText line with
  | error error =>
    exact .inl ⟨empty, by simp [refusesLine, decoded, Except.isOk, Except.toBool], error, rfl⟩
  | ok text =>
    right
    have taken : refusesLine limits state.bodyDecoder.trailerCount line = false :=
      refusesLine_eq_false.mpr ⟨by omega, by omega, text, decoded⟩
    dsimp only
    -- From here on the line is taken, whatever becomes of it.
    cases parsed : parseHeaderLine text with
    | error error => exact .inl ⟨empty, taken, error, rfl⟩
    | ok field =>
      obtain ⟨name, value⟩ := field
      dsimp only
      -- A field must be one that may stand in trailers and one that was declared.
      by_cases prohibited : isProhibitedTrailerField name = true
      · exact .inl ⟨empty, taken, _, if_pos prohibited⟩
      rw [if_neg prohibited]
      by_cases declared : toAsciiLowercase name ∈ state.bodyDecoder.declaredTrailers
      · exact .inr ⟨empty, taken, text, name, value, rfl, parsed, by simpa using prohibited,
          declared, if_neg (by simpa using declared)⟩
      · exact .inl ⟨empty, taken, _, if_pos (by simpa using declared)⟩

/-- Everything that the line end after a chunk can do. -/
theorem chunkDataCrlf_cases (state : BodyState) :
    (state.buf.length < 2 ∧ chunkDataCrlf state = (.ok .needData, state)) ∨
    (∃ error, chunkDataCrlf state = (.error error, state)) ∨
    (∃ rest, state.buf = crlf ++ rest ∧ chunkDataCrlf state =
      (.ok .advanced, { state with buf := rest, phase := .bodyChunkedSize })) := by
  unfold chunkDataCrlf
  -- Two bytes are there, and are a line end or not, or fewer are there.
  split
  · rename_i first second rest buffered
    right
    split
    · exact .inl ⟨_, rfl⟩
    · rename_i same
      rw [not_ne_iff] at same
      exact .inr ⟨rest, by rw [buffered, ← same]; rfl, rfl⟩
  · rename_i short
    refine .inl ⟨?_, rfl⟩
    -- Only the empty buffer and a single byte are too short.
    match found : state.buf, short with
    | [], _ => simp
    | [_], _ => simp
    | first :: second :: rest, short => exact absurd rfl (short first second rest)

/-- The state after some bytes of the body left the buffer, in the phase that follows. -/
def afterContent (state : BodyState) (len : Nat) (phase : DecodePhase) : BodyState where
  buf := state.buf.drop len
  phase := phase
  bodyDecoder := { state.bodyDecoder with
    bodyConsumed := state.bodyDecoder.bodyConsumed + len }

/-- One elementary change of the state of a body. -/
inductive Change (limits : DecoderLimits) : BodyState → BodyState → Prop where
  /-- A chunk-size line is read or refused. -/
  | sizeLine {state : BodyState} {line rest : Bytes} (phase : state.phase = .bodyChunkedSize)
    (split : splitLine state.buf = some (line, rest)) :
    Change limits state (chunkSizeLine limits state line rest).2
  /-- A trailer line is read or refused. -/
  | trailerLine {state : BodyState} {line rest : Bytes} (phase : state.phase = .chunkedTrailer)
    (split : splitLine state.buf = some (line, rest)) :
    Change limits state (trailerLine limits state line rest).2
  /-- The line end after a chunk is read or refused. -/
  | lineEnd {state : BodyState} (phase : state.phase = .bodyChunkedDataCrlf) :
    Change limits state (chunkDataCrlf state).2
  /-- The trailers are handed over. -/
  | handOver {state : BodyState} (phase : state.phase = .complete) :
    Change limits state (takeTrailers state).2
  /-- Bytes of a body of known length are consumed. -/
  | content {state : BodyState} {remaining len : Nat}
    (phase : state.phase = .bodyContentLength remaining) (enough : len ≤ remaining)
    (buffered : len ≤ state.buf.length)
    (fits : state.bodyDecoder.bodyConsumed + len ≤ usizeMax) :
    Change limits state (state.afterContent len
      (if remaining - len = 0 then .complete else .bodyContentLength (remaining - len)))
  /-- Bytes of a chunk are consumed. -/
  | chunk {state : BodyState} {remaining len : Nat}
    (phase : state.phase = .bodyChunkedData remaining) (enough : len ≤ remaining)
    (buffered : len ≤ state.buf.length)
    (fits : state.bodyDecoder.bodyConsumed + len ≤ usizeMax) :
    Change limits state (state.afterContent len
      (if remaining - len = 0 then .bodyChunkedDataCrlf else .bodyChunkedData (remaining - len)))
  /-- Bytes of a body up to the end of the connection are consumed. -/
  | lasting {state : BodyState} {len : Nat} (phase : state.phase = .bodyCloseDelimited)
    (buffered : len ≤ state.buf.length)
    (fits : state.bodyDecoder.bodyConsumed + len ≤ usizeMax)
    (allowed : state.bodyDecoder.bodyConsumed + len ≤ limits.maxBodySize) :
    Change limits state (state.afterContent len .bodyCloseDelimited)
  /-- Bytes leave the buffer that no counter can count. -/
  | overflow {state : BodyState} {remaining len : Nat} (counting : Nat → DecodePhase)
    (kind : counting = .bodyContentLength ∨ counting = .bodyChunkedData)
    (phase : state.phase = counting remaining)
    (enough : len ≤ remaining) (unfit : usizeMax < state.bodyDecoder.bodyConsumed + len) :
    Change limits state
      { state with buf := state.buf.drop len, phase := counting (remaining - len) }

/-- While a head is read, the state of the body does not change. -/
theorem Change.outside {limits : DecoderLimits} {state next : BodyState}
    (changed : Change limits state next) : state.phase.isHeading = false := by
  cases changed with
  | sizeLine phase | trailerLine phase | lineEnd phase | handOver phase | content phase
  | chunk phase | lasting phase => rw [phase]; rfl
  | overflow counting kind phase =>
    rw [phase]
    rcases kind with rfl | rfl <;> rfl

/-- Any number of elementary changes. -/
def Changes (limits : DecoderLimits) : BodyState → BodyState → Prop :=
  Relation.ReflTransGen (Change limits)

/-- A trailer line that is accepted leads to the next one, or ends the loop. -/
theorem trailersLoop_accepted {limits : DecoderLimits} {state next : BodyState}
    {line rest : Bytes} (advanced : Bool) (phase : state.phase = .chunkedTrailer)
    (split : splitLine state.buf = some (line, rest))
    (accepted : trailerLine limits state line rest = (.ok (), next)) :
    (trailersLoop limits).run (advanced, state) =
      if next.phase = .complete then (.ok true, next) else (trailersLoop limits).run (true, next) := by
  have pass : (trailersLoop limits).body (advanced, state) =
      if next.phase = .complete then .inr (.ok true, next) else .inl (true, next) := by
    change trailersPass limits advanced state = _
    simp only [trailersPass, if_pos phase, split, accepted]
  rw [(trailersLoop limits).run_eq, pass]
  -- The empty line ends the loop, any other starts the next pass.
  by_cases complete : next.phase = .complete
  · rw [if_pos complete, if_pos complete]
  · rw [if_neg complete, if_neg complete]

/-- What every trailer line preserves is preserved by any number of them. -/
theorem processTrailers_rule {limits : DecoderLimits} {motive : BodyState → Prop}
    (preserved : ∀ state line rest, state.phase = .chunkedTrailer →
      splitLine state.buf = some (line, rest) → motive state →
        motive (trailerLine limits state line rest).2)
    {state : BodyState} (initial : motive state) : motive (processTrailers limits state).2 := by
  refine (trailersLoop limits).run_rule
    (motive := fun start result => motive start.2 → motive result.2) ?_ ?_ (false, state) initial
  · -- The pass that returns has at most one line behind it.
    rintro ⟨advanced, state⟩ result pass initial
    change trailersPass limits advanced state = .inr result at pass
    unfold trailersPass at pass
    split at pass
    · rename_i phase
      split at pass
      · cases pass
        exact initial
      · rename_i line rest found
        have kept := preserved state line rest phase found initial
        split at pass
        · rename_i read
          cases pass
          rwa [read] at kept
        · rename_i read
          rw [read] at kept
          split at pass <;> cases pass
          exact kept
    · cases pass
      exact initial
  · -- A pass that goes on has exactly one line behind it, and the rest follow.
    rintro ⟨advanced, state⟩ ⟨nextAdvanced, next⟩ result pass ih initial
    change trailersPass limits advanced state = .inl (nextAdvanced, next) at pass
    unfold trailersPass at pass
    split at pass
    · rename_i phase
      split at pass
      · cases pass
      · rename_i line rest found
        have kept := preserved state line rest phase found initial
        split at pass
        · cases pass
        · rename_i read
          rw [read] at kept
          split at pass <;> cases pass
          exact ih kept
    · cases pass

/-- Trailer lines are changes one after the other. -/
theorem processTrailers_changes (limits : DecoderLimits) (state : BodyState) :
    Changes limits state (processTrailers limits state).2 :=
  processTrailers_rule (motive := Changes limits state)
    (fun _ _ _ phase split changes => changes.tail (.trailerLine phase split)) .refl

/-- A chunk-size line and the trailers after the last chunk are changes one after the other. -/
theorem processChunkedSize_changes (limits : DecoderLimits) (state : BodyState) :
    Changes limits state (processChunkedSize limits state).2 := by
  unfold processChunkedSize
  split
  · exact .refl
  rename_i phase
  rw [not_ne_iff] at phase
  cases found : splitLine state.buf with
  | none => exact .refl
  | some pair =>
    obtain ⟨line, rest⟩ := pair
    have changed : Change limits state _ := .sizeLine phase found
    dsimp only
    rcases read : chunkSizeLine limits state line rest with ⟨_ | _, next⟩
    · rw [read] at changed
      exact .single changed
    · rw [read] at changed
      dsimp only
      split
      · -- The last chunk is followed by its trailers.
        have trailed := processTrailers_changes limits next
        rcases processed : processTrailers limits next with ⟨_ | _, last⟩ <;>
        · rw [processed] at trailed
          exact .head changed trailed
      · exact .single changed

/-- Whatever consuming a body does is made up of elementary changes. -/
theorem consumeBody_changes (limits : DecoderLimits) (len : Nat) (state : BodyState) :
    Changes limits state (consumeBody limits len state).2 := by
  unfold consumeBody
  -- The cases are those of the phases, in the order of the source.
  split
  · rename_i remaining phase
    split
    · exact .refl
    rename_i enough
    split
    · exact .refl
    rename_i buffered
    dsimp only [addConsumed, checkedAdd]
    -- The counter may overflow, which is refused with the bytes gone.
    by_cases fits : state.bodyDecoder.bodyConsumed + len ≤ usizeMax
    · simp only [if_pos fits]
      have changed : Change limits state _ := .content phase (by omega) (by omega) fits
      by_cases last : remaining - len = 0
      · simp only [if_pos last] at changed ⊢
        exact .single changed
      · simp only [if_neg last] at changed ⊢
        split <;> exact .single changed
    · simp only [if_neg fits]
      exact .single (Change.overflow .bodyContentLength (.inl rfl) phase (by omega) (by omega))
  · -- A size line, and the trailers where they end the body.
    have sized := processChunkedSize_changes limits state
    rcases processed : processChunkedSize limits state with ⟨_ | _, next⟩
    · rw [processed] at sized
      exact sized
    · rw [processed] at sized
      dsimp only
      split
      · rename_i complete
        exact sized.tail (.handOver complete)
      · exact sized
      · exact sized
  · rename_i remaining phase
    split
    · exact .refl
    rename_i enough
    split
    · exact .refl
    rename_i buffered
    split
    · exact .refl
    dsimp only [addConsumed, checkedAdd]
    by_cases fits : state.bodyDecoder.bodyConsumed + len ≤ usizeMax
    · simp only [if_pos fits]
      have changed : Change limits state _ := .chunk phase (by omega) (by omega) fits
      by_cases last : remaining - len = 0
      · -- The line end after the last byte may be there as well.
        simp only [if_pos last] at changed ⊢
        exact .tail (.single changed) (.lineEnd rfl)
      · simp only [if_neg last] at changed ⊢
        exact .single changed
    · simp only [if_neg fits]
      exact .single (Change.overflow .bodyChunkedData (.inr rfl) phase (by omega) (by omega))
  · -- The line end behind a chunk.
    rename_i phase
    exact .single (.lineEnd phase)
  · -- The trailers may be complete, and are handed over then.
    have trailed := processTrailers_changes limits state
    rcases processed : processTrailers limits state with ⟨_ | _, next⟩
    · rw [processed] at trailed
      exact trailed
    · rw [processed] at trailed
      dsimp only
      split
      · rename_i complete
        exact trailed.tail (.handOver complete)
      · split <;> exact trailed
  · -- A body up to the close has no number of bytes to count down, but a limit.
    rename_i phase
    split
    · exact .refl
    rename_i buffered
    split
    · exact .refl
    dsimp only [addConsumed, checkedAdd]
    by_cases fits : state.bodyDecoder.bodyConsumed + len ≤ usizeMax
    · simp only [if_pos fits]
      split
      · exact .refl
      · rename_i allowed
        have changed : Change limits state _ := .lasting phase (by omega) fits (by omega)
        unfold afterContent at changed
        rw [← phase] at changed
        exact .single changed
    · simp only [if_neg fits]
      exact .refl
  · -- A complete body hands over its trailers once more.
    rename_i phase
    exact .single (.handOver phase)
  -- In a head and in a tunnel nothing happens.
  all_goals exact .refl

end BodyState

namespace Core

variable {Head Context : Type}

/-- A line of a head that is refused before it is taken off the buffer. -/
def refuses (core : Core Context) (line : Bytes) : Bool :=
  if core.phase = .startLine then !(lineText line).isOk
  else !line.isEmpty && refusesLine core.limits core.headers.length line

/-- A start line is refused at once, refused when it was taken, or accepted. -/
theorem readStartLine_cases (side : Side Head Context) (core : Core Context) (line rest : Bytes) :
    ((lineText line).isOk = false ∧ ∃ error, core.readStartLine side line rest =
      (.error error, core)) ∨
    ((lineText line).isOk = true ∧ ∃ error, core.readStartLine side line rest =
      (.error error, { core with buf := rest })) ∨
    ((lineText line).isOk = true ∧ ∃ next, core.readStartLine side line rest = (.ok (), next)) := by
  unfold readStartLine
  -- A line that is no text is not taken, and one refused later is.
  cases lineText line with
  | error error => exact .inl ⟨rfl, error, rfl⟩
  | ok text =>
    right
    dsimp only
    cases side.checkStartLine text with
    | error error => exact .inl ⟨rfl, error, rfl⟩
    | ok done => exact .inr ⟨rfl, _, rfl⟩

/-- The end of a head is refused when it was taken, or accepted. -/
theorem finishHeaders_cases (side : Side Head Context) (core : Core Context) (rest : Bytes) :
    (∃ error, core.finishHeaders side rest = (.error error, { core with buf := rest })) ∨
    (∃ decoded next, core.finishHeaders side rest = (.ok decoded, next)) := by
  unfold finishHeaders
  dsimp only
  -- Without a start line, or where the fields do not fit it, the head is refused.
  cases core.startLine with
  | none => exact .inl ⟨_, rfl⟩
  | some startLine =>
    dsimp only
    rcases side.finishHead core.limits core.context startLine core.headers with error | decoded
    · exact .inl ⟨error, rfl⟩
    · exact .inr ⟨decoded, _, rfl⟩

/-- A header line is refused at once, refused when it was taken, or accepted. -/
theorem readHeaderLine_cases (core : Core Context) (line rest : Bytes) :
    (refusesLine core.limits core.headers.length line = true ∧
      ∃ error, core.readHeaderLine line rest = (.error error, core)) ∨
    (refusesLine core.limits core.headers.length line = false ∧
      ∃ error, core.readHeaderLine line rest = (.error error, { core with buf := rest })) ∨
    (refusesLine core.limits core.headers.length line = false ∧
      ∃ next, core.readHeaderLine line rest = (.ok (), next)) := by
  unfold readHeaderLine
  -- The three checks before the parsing leave the line in the buffer.
  by_cases long : core.limits.maxHeaderLineSize < line.length
  · exact .inl ⟨by simp [refusesLine, long], _, if_pos long⟩
  rw [if_neg long]
  by_cases many : core.limits.maxHeadersCount ≤ core.headers.length
  · exact .inl ⟨by simp [refusesLine, many], _, if_pos many⟩
  rw [if_neg many]
  cases decoded : lineText line with
  | error error =>
    exact .inl ⟨by simp [refusesLine, decoded, Except.isOk, Except.toBool], error, rfl⟩
  | ok text =>
    right
    have taken : refusesLine core.limits core.headers.length line = false :=
      refusesLine_eq_false.mpr ⟨by omega, by omega, text, decoded⟩
    dsimp only
    -- Behind them the line is gone, also where it is no field.
    cases parseHeaderLine text with
    | error error => exact .inl ⟨taken, error, rfl⟩
    | ok field => exact .inr ⟨taken, _, rfl⟩

/-- A line of a head is refused at once, refused when it was taken, or accepted. -/
theorem headLine_cases (side : Side Head Context) (core : Core Context) (line rest : Bytes) :
    (core.refuses line = true ∧ ∃ error, core.headLine side line rest = (.error error, core)) ∨
    (core.refuses line = false ∧ ∃ error, core.headLine side line rest =
      (.error error, { core with buf := rest })) ∨
    (core.refuses line = false ∧ ∃ result next, core.headLine side line rest =
      (.ok result, next)) := by
  unfold headLine refuses
  -- The phase tells whether the line is the first one.
  by_cases first : core.phase = .startLine
  · simp only [if_pos first]
    rcases readStartLine_cases side core line rest with ⟨bad, error, read⟩ | ⟨good, error, read⟩ |
      ⟨good, next, read⟩
    · exact .inl ⟨by simp [bad], error, by rw [read]; rfl⟩
    · exact .inr (.inl ⟨by simp [good], error, by rw [read]; rfl⟩)
    · exact .inr (.inr ⟨by simp [good], none, next, by rw [read]; rfl⟩)
  · simp only [if_neg first]
    -- The empty line ends the head, any other is a field.
    by_cases empty : line.isEmpty = true
    · simp only [empty, if_true]
      rcases finishHeaders_cases side core rest with ⟨error, read⟩ | ⟨decoded, next, read⟩
      · exact .inr (.inl ⟨rfl, error, by rw [read]; rfl⟩)
      · exact .inr (.inr ⟨rfl, some decoded, next, by rw [read]; rfl⟩)
    · simp only [empty, Bool.not_false, Bool.true_and]
      rcases readHeaderLine_cases core line rest with ⟨bad, error, read⟩ | ⟨good, error, read⟩ |
        ⟨good, next, read⟩
      · exact .inl ⟨bad, error, by rw [read]; rfl⟩
      · exact .inr (.inl ⟨good, error, by rw [read]; rfl⟩)
      · exact .inr (.inr ⟨good, none, next, by rw [read]; rfl⟩)

/-- One elementary change of a decoder. -/
inductive Change (side : Side Head Context) : Core Context → Core Context → Prop where
  /-- The state of the body changes. -/
  | body {core : Core Context} {state : BodyState}
    (changed : BodyState.Change core.limits core.toBodyState state) :
    Change side core { core with toBodyState := state }
  /-- A line of the head is read or refused. -/
  | headLine {core : Core Context} {line rest : Bytes} (heading : core.phase.isHeading = true)
    (split : splitLine core.buf = some (line, rest)) :
    Change side core (core.headLine side line rest).2
  /-- A complete message gives way to the next one. -/
  | next {core : Core Context} (phase : core.phase = .complete) :
    Change side core (core.nextMessage side)

/-- Any number of elementary changes. -/
def Changes (side : Side Head Context) : Core Context → Core Context → Prop :=
  Relation.ReflTransGen (Change side)

/-- What every change preserves is preserved by any number of them. -/
theorem Changes.preserves {side : Side Head Context} {motive : Core Context → Prop}
    {core next : Core Context} (changes : Changes side core next)
    (preserved : ∀ core next, motive core → Change side core next → motive next)
    (initial : motive core) : motive next := by
  induction changes with
  | refl => exact initial
  | tail _ last ih => exact preserved _ _ ih last

/-- Changes of the body are changes of the decoder. -/
theorem changes_body (side : Side Head Context) {core : Core Context} {state : BodyState}
    (changes : BodyState.Changes core.limits core.toBodyState state) :
    Changes side core { core with toBodyState := state } := by
  induction changes with
  | refl => exact .refl
  | tail _ last ih =>
    exact ih.tail (Change.body last)

/-- Only the body changes. -/
def Moves (core next : Core Context) : Prop :=
  ∃ state, BodyState.Changes core.limits core.toBodyState state ∧
    next = { core with toBodyState := state }

/-- Nothing changes. -/
theorem Moves.refl {core : Core Context} : core.Moves core := ⟨core.toBodyState, .refl, rfl⟩

/-- One move after the other. -/
theorem Moves.trans {core middle last : Core Context} (first : core.Moves middle)
    (rest : middle.Moves last) : core.Moves last := by
  obtain ⟨state, changes, rfl⟩ := first
  obtain ⟨later, more, rfl⟩ := rest
  exact ⟨later, changes.trans more, rfl⟩

/-- What changes the body changes the decoder. -/
theorem Moves.changes {core next : Core Context} (moves : core.Moves next)
    (side : Side Head Context) : Changes side core next := by
  obtain ⟨state, changes, rfl⟩ := moves
  exact changes_body side changes

/-- A pass over a head that returns: no line, a line that ends the head, or the wrong phase. -/
theorem decodeHeadersPass_returned {side : Side Head Context} {core : Core Context}
    {result : Except Error (Option (Head × BodyKind)) × Core Context}
    (pass : decodeHeadersPass side core = .inr result) :
    (core.phase.isHeading = true ∧ splitLine core.buf = none ∧ result = (.ok none, core)) ∨
    (core.phase.isHeading = true ∧ result.1 ≠ .ok none ∧ ∃ line rest,
      splitLine core.buf = some (line, rest) ∧ core.headLine side line rest = result) ∨
    (core.phase.isHeading = false ∧ core.phase ≠ .complete ∧
      ∃ error, result = (.error error, core)) := by
  -- Both phases of a head do the same with the next line.
  have lines : core.phase = .startLine ∨ core.phase = .headers →
      (core.phase.isHeading = true ∧ splitLine core.buf = none ∧ result = (.ok none, core)) ∨
      (core.phase.isHeading = true ∧ result.1 ≠ .ok none ∧ ∃ line rest,
        splitLine core.buf = some (line, rest) ∧ core.headLine side line rest = result) := by
    intro phases
    have heading : core.phase.isHeading = true := by simpa [DecodePhase.isHeading] using phases
    cases split : splitLine core.buf with
    | none =>
      left
      -- The pass has returned because the line is missing.
      rcases phases with phase | phase <;>
        simp [decodeHeadersPass, phase, split] at pass <;> exact ⟨heading, rfl, pass.symm⟩
    | some pair =>
      right
      obtain ⟨line, rest⟩ := pair
      refine ⟨heading, ?_⟩
      -- The pass has returned because the line was no ordinary one.
      rcases read : core.headLine side line rest with ⟨_ | _ | _, next⟩ <;>
        rcases phases with phase | phase <;>
        simp only [decodeHeadersPass, phase, split, read] at pass <;> cases pass <;>
        exact ⟨by simp, line, rest, rfl, read⟩
  cases phase : core.phase with
  | startLine => exact (lines (.inl phase)).imp (phase ▸ ·) fun found => .inl (phase ▸ found)
  | headers => exact (lines (.inr phase)).imp (phase ▸ ·) fun found => .inl (phase ▸ found)
  | complete => simp [decodeHeadersPass, phase] at pass
  -- All other phases refuse a head.
  | tunnel | bodyContentLength | bodyChunkedSize | bodyChunkedData | bodyChunkedDataCrlf
  | chunkedTrailer | bodyCloseDelimited =>
    simp only [decodeHeadersPass, phase] at pass
    cases pass
    exact .inr (.inr ⟨rfl, by simp, _, rfl⟩)

/-- A pass over a head that goes on: a line that leaves the head open, or the next message. -/
theorem decodeHeadersPass_continued {side : Side Head Context} {core next : Core Context}
    (pass : decodeHeadersPass side core = .inl next) :
    (core.phase.isHeading = true ∧ ∃ line rest, splitLine core.buf = some (line, rest) ∧
      core.headLine side line rest = (.ok none, next)) ∨
    (core.phase = .complete ∧ next = core.nextMessage side) := by
  -- Both phases of a head do the same with the next line.
  have lines : core.phase = .startLine ∨ core.phase = .headers →
      core.phase.isHeading = true ∧ ∃ line rest, splitLine core.buf = some (line, rest) ∧
        core.headLine side line rest = (.ok none, next) := by
    intro phases
    refine ⟨by simpa [DecodePhase.isHeading] using phases, ?_⟩
    cases split : splitLine core.buf with
    | none => rcases phases with phase | phase <;> simp [decodeHeadersPass, phase, split] at pass
    | some pair =>
      obtain ⟨line, rest⟩ := pair
      refine ⟨line, rest, rfl, ?_⟩
      -- Only a line without an answer lets the loop go on.
      rcases read : core.headLine side line rest with ⟨_ | _ | _, next⟩ <;>
        rcases phases with phase | phase <;>
        simp only [decodeHeadersPass, phase, split, read] at pass <;> cases pass <;> rfl
  cases phase : core.phase with
  | startLine => exact .inl (phase ▸ lines (.inl phase))
  | headers => exact .inl (phase ▸ lines (.inr phase))
  | complete =>
    simp only [decodeHeadersPass, phase, Sum.inl.injEq] at pass
    exact .inr ⟨rfl, pass.symm⟩
  -- All other phases return at once.
  | tunnel | bodyContentLength | bodyChunkedSize | bodyChunkedData | bodyChunkedDataCrlf
  | chunkedTrailer | bodyCloseDelimited => simp [decodeHeadersPass, phase] at pass

/-- Reading a head is a number of changes. -/
theorem decodeHeaders_changes (side : Side Head Context) (core : Core Context) :
    Changes side core (core.decodeHeaders side).2 := by
  refine (decodeHeadersLoop side).run_rule
    (motive := fun core result => Changes side core result.2) ?_ ?_ core
  · -- The pass that returns has read at most one line.
    intro core result pass
    rcases decodeHeadersPass_returned pass with ⟨_, _, rfl⟩ |
      ⟨heading, _, line, rest, split, rfl⟩ | ⟨_, _, _, rfl⟩
    · exact .refl
    · exact .single (.headLine heading split)
    · exact .refl
  · -- The line, or the step to the next message, comes before what the other passes do.
    intro core next result pass ih
    rcases decodeHeadersPass_continued pass with ⟨heading, line, rest, split, read⟩ |
      ⟨complete, rfl⟩
    · have changed : Change side core _ := .headLine heading split
      rw [read] at changed
      exact .head changed ih
    · exact .head (.next complete) ih

/-- A head that is read ends with the empty line behind its fields. -/
theorem decodeHeaders_last {side : Side Head Context} {core next : Core Context}
    {decoded : Head × BodyKind} (read : core.decodeHeaders side = (.ok (some decoded), next)) :
    ∃ last rest, Changes side core last ∧ last.phase.isHeading = true ∧
      last.finishHeaders side rest = (.ok decoded, next) := by
  -- The pass that finds the head has read the empty line, and the passes before are changes.
  have rule := (decodeHeadersLoop side).run_rule
    (motive := fun core result => ∀ decoded, result.1 = .ok (some decoded) →
      ∃ last rest, Changes side core last ∧ last.phase.isHeading = true ∧
        last.finishHeaders side rest = (.ok decoded, result.2)) ?_ ?_ core decoded
  · rw [show (decodeHeadersLoop side).run core = _ from read] at rule
    exact rule rfl
  · rintro core ⟨outcome, next⟩ pass decoded found
    dsimp only at found
    subst found
    rcases decodeHeadersPass_returned pass with ⟨_, _, other⟩ | ⟨heading, _, line, rest, _, read⟩ |
      ⟨_, _, _, other⟩
    · cases other
    · -- Of the three ways to accept a line only the empty one answers with a head.
      rcases headLine_ok read with ⟨_, other, _⟩ | ⟨_, _, _, _, same, finished⟩ | ⟨_, _, other, _⟩
      · cases other
      · cases same
        exact ⟨core, rest, .refl, heading, finished⟩
      · cases other
    · cases other
  · intro core next result pass ih decoded found
    obtain ⟨last, rest, changes, heading, finished⟩ := ih decoded found
    refine ⟨last, rest, ?_, heading, finished⟩
    rcases decodeHeadersPass_continued pass with ⟨heading, line, _, split, read⟩ | ⟨complete, rfl⟩
    · have changed : Change side core _ := .headLine heading split
      rw [read] at changed
      exact .head changed changes
    · exact .head (.next complete) changes

end Core

namespace Decoder

variable {Head Context : Type}

/-- Consuming some bytes of a body changes the body only. -/
theorem consumeBody_moves (decoder : Decoder Head Context) (len : Nat) :
    decoder.toCore.Moves (decoder.consumeBody len).2.toCore := by
  unfold consumeBody
  split
  · exact .refl
  · exact ⟨_, BodyState.consumeBody_changes decoder.limits len _, rfl⟩

/-- Moving on changes the body only. -/
theorem progress_moves (decoder : Decoder Head Context) :
    decoder.toCore.Moves decoder.progress.2.toCore :=
  ⟨_, BodyState.consumeBody_changes decoder.limits 0 _, rfl⟩

/-- One pass of collecting a body changes the body only. -/
theorem readBodyPass_moves (decoder : Decoder Head Context) :
    match readBodyPass decoder with
    | .inl next => decoder.toCore.Moves next.toCore
    | .inr result => decoder.toCore.Moves result.2.toCore := by
  unfold readBodyPass
  cases peeked : decoder.peekBody with
  -- Collecting is no change of its own, as it leaves what the decoder reads as it is.
  | some data =>
    have moves := consumeBody_moves
      ({ decoder with decodedBody := decoder.decodedBody ++ data } : Decoder Head Context)
      data.length
    dsimp only
    rcases consumed : consumeBody { decoder with decodedBody := decoder.decodedBody ++ data }
      data.length with ⟨_ | _, next⟩
    · rwa [consumed] at moves
    · rw [consumed] at moves
      dsimp only
      by_cases complete : next.phase = .complete
      · rw [if_pos complete]
        exact moves
      · rw [if_neg complete]
        exact moves
  | none =>
    have moves := progress_moves decoder
    rcases moved : decoder.progress with ⟨_ | _ | _ | _, next⟩ <;> rwa [moved] at moves

/-- Collecting a body changes the body only. -/
theorem readBody_moves (decoder : Decoder Head Context) :
    decoder.toCore.Moves decoder.readBody.2.toCore := by
  refine readBodyLoop.run_rule
    (motive := fun decoder result => decoder.toCore.Moves result.2.toCore) ?_ ?_ decoder
  · -- The last pass moves, and each pass before moves to where the next starts.
    intro decoder result pass
    have moves := readBodyPass_moves decoder
    change readBodyPass decoder = .inr result at pass
    rwa [pass] at moves
  · intro decoder next result pass ih
    have moves := readBodyPass_moves decoder
    change readBodyPass decoder = .inl next at pass
    rw [pass] at moves
    exact moves.trans ih

/-- Reading the head to collect is a number of changes. -/
theorem decodeHead_changes (side : Side Head Context) (decoder : Decoder Head Context) :
    Core.Changes side decoder.toCore (decoder.decodeHead side).2.toCore := by
  cases found : decoder.decoded with
  | some decoded =>
    simp only [decodeHead, found]
    exact .refl
  | none =>
    by_cases heading : decoder.phase = .startLine ∨ decoder.phase = .headers
    · have changes := Core.decodeHeaders_changes side decoder.toCore
      rw [decodeHead_eq side found heading]
      rcases read : decoder.toCore.decodeHeaders side with ⟨_ | _ | _, core⟩ <;>
        rwa [read] at changes
    · -- In any other phase the call is refused.
      rw [decodeHead_refused side found heading]
      exact .refl

end Decoder

end Http11

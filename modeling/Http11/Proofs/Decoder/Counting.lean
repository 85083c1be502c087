import Http11.Proofs.Decoder.Collecting

/-! How the counters of a decoder follow the bytes that are consumed and collected. -/

namespace Http11

namespace BodyState

variable {limits : DecoderLimits} {state next : BodyState}

/-- The bytes that are shown, or none. -/
def shown (state : BodyState) : Nat := (state.peekBody.getD []).length

/-- Trailer lines consume nothing of the body. -/
theorem processTrailers_consumed (limits : DecoderLimits) (state : BodyState) :
    (processTrailers limits state).2.bodyDecoder.bodyConsumed = state.bodyDecoder.bodyConsumed := by
  refine processTrailers_rule
    (motive := fun next => next.bodyDecoder.bodyConsumed = state.bodyDecoder.bodyConsumed)
    (fun before line rest _ _ same => ?_) rfl
  rcases trailerLine_cases limits before line rest with ⟨_, read⟩ | ⟨_, _, _, read⟩ |
    ⟨_, _, _, read⟩ | ⟨_, _, _, _, _, _, _, _, _, read⟩ <;> rw [read] <;> exact same

/-- Moving on consumes nothing of the body. -/
theorem advance_consumed (limits : DecoderLimits) {state : BodyState}
    (counts : state.phase.Counts) :
    (consumeBody limits 0 state).2.bodyDecoder.bodyConsumed = state.bodyDecoder.bodyConsumed := by
  -- Only a call with bytes takes some, and the phases differ in what a call without any does.
  cases phase : state.phase with
  | bodyContentLength remaining =>
    rw [phase] at counts
    rw [advance_content limits phase counts]
  | bodyChunkedSize =>
    have sized : (processChunkedSize limits state).2.bodyDecoder.bodyConsumed =
        state.bodyDecoder.bodyConsumed := by
      -- A chunk-size line is taken or not, and the last chunk's goes on to the trailers.
      simp only [processChunkedSize, phase, ne_eq, not_true, if_false]
      cases split : splitLine state.buf with
      | none => rfl
      | some pair =>
        obtain ⟨line, rest⟩ := pair
        dsimp only
        have read : (chunkSizeLine limits state line rest).2.bodyDecoder.bodyConsumed =
            state.bodyDecoder.bodyConsumed := by
          rcases chunkSizeLine_cases limits state line rest with ⟨_, _, read⟩ | ⟨_, read⟩ |
            ⟨_, _, _, _, _, read⟩ | ⟨_, _, _, _, _, read⟩ <;> rw [read]
        rcases sized : chunkSizeLine limits state line rest with ⟨_ | _, after⟩ <;>
          rw [sized] at read
        · exact read
        · dsimp only
          split
          · have trailed := processTrailers_consumed limits after
            rcases processed : processTrailers limits after with ⟨_ | _, last⟩ <;>
              rw [processed] at trailed <;> exact trailed.trans read
          · exact read
    simp only [consumeBody, phase]
    rcases processed : processChunkedSize limits state with ⟨_ | _, last⟩ <;>
      rw [processed] at sized
    · exact sized
    · dsimp only
      split <;> exact sized
  | bodyChunkedDataCrlf =>
    -- The line end behind a chunk is missing, wrong or taken.
    rcases chunkDataCrlf_cases state with ⟨_, read⟩ | ⟨_, read⟩ | ⟨_, _, read⟩ <;>
      simp [consumeBody, phase, read]
  | chunkedTrailer =>
    -- Trailer lines are stored apart from the body.
    have trailed := processTrailers_consumed limits state
    simp only [consumeBody, phase]
    rcases processed : processTrailers limits state with ⟨_ | _, last⟩ <;>
      rw [processed] at trailed
    · exact trailed
    · -- What is left behind the trailers decides the answer only, not the count.
      dsimp only
      split
      · exact trailed
      · split <;> exact trailed
  | complete => simp [consumeBody, phase, takeTrailers]
  | startLine | headers | bodyChunkedData | bodyCloseDelimited | tunnel => simp [consumeBody, phase]

/-- Consuming bytes that are shown counts them, unless the limit of bodies refuses them. -/
theorem collect_counts (sane : state.Sane limits) {data : Bytes} {len : Nat}
    (peeked : state.peekBody = some data) (positive : len ≠ 0) (enough : len ≤ data.length) :
    (state.phase = .bodyCloseDelimited ∧ (consumeBody limits len state).2 = state) ∨
      (consumeBody limits len state).2.bodyDecoder.bodyConsumed =
        state.bodyDecoder.bodyConsumed + len := by
  have fits := sane.fits
  cases phase : state.phase with
  | bodyContentLength remaining =>
    right
    simp only [peekBody, phase] at peeked
    obtain ⟨within, buffered, _⟩ := Reader.take_of_peeked peeked enough
    rw [phase] at fits
    dsimp only [DecodePhase.remaining] at fits
    have sum : checkedAdd state.bodyDecoder.bodyConsumed len =
        some (state.bodyDecoder.bodyConsumed + len) := by
      rw [checkedAdd, if_pos (by omega)]
    simp only [consumeBody, phase, addConsumed, sum, if_neg (Nat.not_lt.mpr within),
      if_neg (Nat.not_lt.mpr buffered)]
    split
    · rfl
    · split <;> rfl
  | bodyChunkedData remaining =>
    right
    simp only [peekBody, phase] at peeked
    obtain ⟨within, buffered, _⟩ := Reader.take_of_peeked peeked enough
    rw [phase] at fits
    dsimp only [DecodePhase.remaining] at fits
    have sum : checkedAdd state.bodyDecoder.bodyConsumed len =
        some (state.bodyDecoder.bodyConsumed + len) := by
      rw [checkedAdd, if_pos (by omega)]
    simp only [consumeBody, phase, addConsumed, sum, if_neg (Nat.not_lt.mpr within),
      if_neg (Nat.not_lt.mpr buffered), if_neg positive]
    split
    · -- The line end behind the chunk counts nothing.
      rcases chunkDataCrlf_cases (state.afterContent len .bodyChunkedDataCrlf) with
        ⟨_, read⟩ | ⟨_, read⟩ | ⟨_, _, read⟩ <;>
        simp only [afterContent] at read <;> rw [read]
    · rfl
  | bodyCloseDelimited =>
    simp only [consumeBody, phase]
    by_cases short : state.buf.length < len
    · exact .inl ⟨trivial, by rw [if_pos short]⟩
    rw [if_neg short, if_neg positive]
    by_cases room : state.bodyDecoder.bodyConsumed + len ≤ usizeMax
    · by_cases large : limits.maxBodySize < state.bodyDecoder.bodyConsumed + len
      · exact .inl ⟨trivial, by simp [addConsumed, checkedAdd, room, large]⟩
      · exact .inr (by simp [addConsumed, checkedAdd, room, large])
    · exact .inl ⟨trivial, by simp [addConsumed, checkedAdd, room]⟩
  | startLine | headers | bodyChunkedSize | bodyChunkedDataCrlf | chunkedTrailer | tunnel
  | complete => simp [peekBody, phase] at peeked

/-- Within the limit of bodies, consuming counts in a body up to the close as well. -/
theorem lasting_counts (phase : state.phase = .bodyCloseDelimited) {len : Nat}
    (buffered : len ≤ state.buf.length) (positive : len ≠ 0)
    (fits : state.bodyDecoder.bodyConsumed + len ≤ usizeMax)
    (allowed : state.bodyDecoder.bodyConsumed + len ≤ limits.maxBodySize) :
    (consumeBody limits len state).2.bodyDecoder.bodyConsumed =
      state.bodyDecoder.bodyConsumed + len := by
  simp [consumeBody, phase, addConsumed, checkedAdd, Nat.not_lt.mpr buffered, positive, fits,
    Nat.not_lt.mpr allowed]

/-- What a body operation counts: nothing, or the shown bytes that it consumes. -/
theorem consumeBody_counts (sane : state.Sane limits) (len : Nat) :
    (consumeBody limits len state).2 = state ∨
      (state.shown = 0 ∧ (consumeBody limits len state).2.bodyDecoder.bodyConsumed =
        state.bodyDecoder.bodyConsumed) ∨
      (len ≤ state.shown ∧ (consumeBody limits len state).2.bodyDecoder.bodyConsumed =
        state.bodyDecoder.bodyConsumed + len) := by
  by_cases apart : len = 0 ∨ ∀ data, state.peekBody = some data → data.length < len
  · rcases consumeBody_apart limits sane.counts apart with same | ⟨hidden, same⟩
    · exact .inl same
    · right; left
      rw [same, advance_consumed limits sane.counts]
      simp [shown, hidden]
  · -- Some bytes are shown, and no more than these are consumed.
    push Not at apart
    obtain ⟨positive, data, peeked, enough⟩ := apart
    rcases collect_counts sane peeked positive enough with ⟨_, same⟩ | counted
    · exact .inl same
    · exact .inr (.inr ⟨by simp [shown, peeked, enough], counted⟩)

/-- In a body of known length, what was consumed and what is waited for add up as before. -/
theorem Change.total (changed : Change limits state next) (sane : state.Sane limits)
    {remaining : Nat} (phase : next.phase = .bodyContentLength remaining) :
    ∃ before, state.phase = .bodyContentLength before ∧
      state.bodyDecoder.bodyConsumed + before = next.bodyDecoder.bodyConsumed + remaining := by
  cases changed with
  | sizeLine earlier split =>
    rename_i line rest
    rcases chunkSizeLine_cases limits state line rest with ⟨_, _, read⟩ | ⟨_, read⟩ |
      ⟨_, _, _, _, _, read⟩ | ⟨_, _, _, _, _, read⟩ <;> rw [read] at phase <;>
      simp [earlier] at phase
  | trailerLine earlier split =>
    rename_i line rest
    rcases trailerLine_cases limits state line rest with ⟨_, read⟩ | ⟨_, _, _, read⟩ |
      ⟨_, _, _, read⟩ | ⟨_, _, _, _, _, _, _, _, _, read⟩ <;> rw [read] at phase <;>
      simp [earlier] at phase
  | lineEnd earlier =>
    rcases chunkDataCrlf_cases state with ⟨_, read⟩ | ⟨_, read⟩ | ⟨_, _, read⟩ <;>
      rw [read] at phase <;> simp [earlier] at phase
  | handOver earlier => simp [takeTrailers, earlier] at phase
  | content earlier enough buffered fits =>
    rename_i waiting len
    simp only [afterContent] at phase ⊢
    split at phase
    · cases phase
    · cases phase
      exact ⟨waiting, earlier, by omega⟩
  | chunk earlier enough buffered fits =>
    simp only [afterContent] at phase
    split at phase <;> cases phase
  | lasting earlier => cases phase
  | overflow counting kind earlier enough unfit =>
    -- What is consumed and what is waited for fit together, so this never happens.
    exfalso
    have bounded := sane.fits
    rcases kind with rfl | rfl <;> rw [earlier] at bounded <;>
      dsimp only [DecodePhase.remaining] at bounded <;> omega

/-- A body of known length that is read, or was read in full. -/
def Owes (length : Nat) (state : BodyState) : Prop :=
  (∃ remaining, state.phase = .bodyContentLength remaining ∧
    state.bodyDecoder.bodyConsumed + remaining = length) ∨
  (state.phase = .complete ∧ state.bodyDecoder.bodyConsumed = length)

/-- A body of known length ends once all of it is consumed. -/
theorem Change.owes {length : Nat} (changed : Change limits state next) (sane : state.Sane limits)
    (owes : state.Owes length) : next.Owes length := by
  rcases owes with ⟨waiting, earlier, sum⟩ | ⟨earlier, sum⟩
  · cases changed with
    | content phase enough buffered fits =>
      rename_i remaining len
      rw [earlier] at phase
      cases phase
      by_cases last : waiting - len = 0
      · refine .inr ⟨if_pos last, ?_⟩
        dsimp only [afterContent]
        omega
      · refine .inl ⟨waiting - len, if_neg last, ?_⟩
        dsimp only [afterContent]
        omega
    | overflow counting kind phase enough unfit =>
      -- What is consumed and what is waited for fit together, so this never happens.
      exfalso
      have bounded := sane.fits
      rcases kind with rfl | rfl <;> rw [phase] at bounded <;>
        dsimp only [DecodePhase.remaining] at bounded <;> omega
    | sizeLine phase | trailerLine phase | lineEnd phase | handOver phase | chunk phase
    | lasting phase => rw [earlier] at phase; cases phase
  · cases changed with
    | handOver => exact .inr ⟨earlier, sum⟩
    | sizeLine phase | trailerLine phase | lineEnd phase | content phase | chunk phase
    | lasting phase => rw [earlier] at phase; cases phase
    | overflow counting kind phase =>
      rw [earlier] at phase
      rcases kind with rfl | rfl <;> cases phase

/-- A body that lasts up to the close has done so from the start. -/
theorem Change.lasted (changed : Change limits state next)
    (phase : next.phase = .bodyCloseDelimited) : state.phase = .bodyCloseDelimited := by
  cases changed with
  -- A chunk size leads to data or to the trailers, and an error leaves the phase as it was.
  | sizeLine earlier split =>
    rename_i line rest
    rcases chunkSizeLine_cases limits state line rest with ⟨_, _, read⟩ | ⟨_, read⟩ |
      ⟨_, _, _, _, _, read⟩ | ⟨_, _, _, _, _, read⟩ <;> rw [read] at phase <;>
      simp [earlier] at phase
  -- A trailer line stays among them or ends the body.
  | trailerLine earlier split =>
    rename_i line rest
    rcases trailerLine_cases limits state line rest with ⟨_, read⟩ | ⟨_, _, _, read⟩ |
      ⟨_, _, _, read⟩ | ⟨_, _, _, _, _, _, _, _, _, read⟩ <;> rw [read] at phase <;>
      simp [earlier] at phase
  -- Behind a chunk comes the next size.
  | lineEnd earlier =>
    rcases chunkDataCrlf_cases state with ⟨_, read⟩ | ⟨_, read⟩ | ⟨_, _, read⟩ <;>
      rw [read] at phase <;> simp [earlier] at phase
  | handOver earlier => simp [takeTrailers, earlier] at phase
  -- Counted bytes lead on to the end or to the line end, never to the close.
  | content | chunk =>
    simp only [afterContent] at phase
    split at phase <;> cases phase
  | lasting earlier => exact earlier
  -- The overflow arises in the counted phases, and the phase stays.
  | overflow counting kind =>
    rcases kind with rfl | rfl <;> cases phase

/-- A body that lasts up to the close stays so, or the connection ends. -/
theorem Change.lasts (changed : Change limits state next)
    (phase : state.phase = .bodyCloseDelimited ∨ state.phase = .complete) :
    next.phase = state.phase := by
  cases changed with
  | handOver => rfl
  | lasting earlier => exact earlier.symm
  -- All of these start in a phase of chunks or of counted bytes.
  | sizeLine earlier | trailerLine earlier | lineEnd earlier | content earlier | chunk earlier =>
    rcases phase with other | other <;> rw [other] at earlier <;> cases earlier
  | overflow counting kind earlier =>
    rcases phase with other | other <;> rw [other] at earlier <;>
      rcases kind with rfl | rfl <;> cases earlier

/-- Any number of changes keeps a body sane. -/
theorem Changes.sane (changes : Changes limits state next) (sane : state.Sane limits) :
    next.Sane limits := by
  induction changes with
  | refl => exact sane
  | tail _ last ih => exact last.sane ih

/-- However far a body of known length was read, its parts add up to its length. -/
theorem Changes.total (changes : Changes limits state next) (sane : state.Sane limits)
    {remaining : Nat} (phase : next.phase = .bodyContentLength remaining) :
    ∃ before, state.phase = .bodyContentLength before ∧
      state.bodyDecoder.bodyConsumed + before = next.bodyDecoder.bodyConsumed + remaining := by
  induction changes generalizing remaining with
  | refl => exact ⟨remaining, phase, rfl⟩
  | tail before last ih =>
    obtain ⟨middle, earlier, same⟩ := last.total (Changes.sane before sane) phase
    obtain ⟨first, start, sum⟩ := ih earlier
    exact ⟨first, start, sum.trans same⟩

/-- Changes only shorten the buffer. -/
theorem Change.shortens (changed : Change limits state next) :
    next.buf.length ≤ state.buf.length := by
  cases changed with
  -- A line that is split off is shorter than what it stood in front of.
  | sizeLine phase split =>
    rename_i line rest
    have shorter := splitLine_length split
    rcases chunkSizeLine_cases limits state line rest with ⟨_, _, read⟩ | ⟨_, read⟩ |
      ⟨_, _, _, _, _, read⟩ | ⟨_, _, _, _, _, read⟩ <;> rw [read] <;> dsimp only <;> omega
  -- A refused trailer line has been taken off all the same.
  | trailerLine phase split =>
    rename_i line rest
    have shorter := splitLine_length split
    rcases trailerLine_buf limits state line rest with same | same <;> rw [same]
    omega
  -- The two bytes of the line end are taken only where both are there.
  | lineEnd _ =>
    rcases chunkDataCrlf_cases state with ⟨_, read⟩ | ⟨_, read⟩ | ⟨rest, same, read⟩ <;> rw [read]
    rw [same]
    simp
  | handOver _ => exact le_rfl
  -- Bytes that are taken are dropped from the front.
  | content | chunk | lasting => simp [afterContent]
  | overflow => simp

end BodyState

namespace Core

variable {Head Context : Type} {side : Side Head Context} {core next : Core Context}

/-- A framing by length says how much of a body of known length there is in all. -/
def Declared (framing : Option BodyKind) (core : Core Context) : Prop :=
  ∀ remaining, core.phase = .bodyContentLength remaining →
    framing = some (.contentLength (core.bodyDecoder.bodyConsumed + remaining))

/-- Moves through a body keep its length. -/
theorem Declared.moves {framing : Option BodyKind} (declared : core.Declared framing)
    (sane : core.Sane) (moves : core.Moves next) : next.Declared framing := by
  obtain ⟨state, changes, rfl⟩ := moves
  intro remaining phase
  obtain ⟨before, earlier, sum⟩ := changes.total sane.body phase
  rw [declared before earlier, sum]

/-- Moves through a body of known length come to its end once all of it is consumed. -/
theorem Moves.owes (moves : core.Moves next) (sane : core.Sane) {length : Nat}
    (owes : core.toBodyState.Owes length) : next.toBodyState.Owes length := by
  obtain ⟨state, changes, rfl⟩ := moves
  change state.Owes length
  induction changes with
  | refl => exact owes
  | tail before last ih => exact last.owes (BodyState.Changes.sane before sane.body) ih

/-- Moves through a body do not come to one that lasts up to the close. -/
theorem Moves.lasted (moves : core.Moves next) (phase : next.phase = .bodyCloseDelimited) :
    core.phase = .bodyCloseDelimited := by
  obtain ⟨state, changes, rfl⟩ := moves
  change state.phase = .bodyCloseDelimited at phase
  induction changes with
  | refl => exact phase
  | tail _ last ih => exact ih (last.lasted phase)

/-- Moves through a body that lasts up to the close stay in it. -/
theorem Moves.lasts (moves : core.Moves next)
    (phase : core.phase = .bodyCloseDelimited ∨ core.phase = .complete) :
    next.phase = core.phase := by
  obtain ⟨state, changes, rfl⟩ := moves
  change state.phase = core.phase
  induction changes with
  | refl => rfl
  | tail _ last ih => rw [last.lasts (by rwa [ih]), ih]

/-- Changes only shorten the buffer. -/
theorem Changes.shortens (changes : Changes side core next) :
    next.buf.length ≤ core.buf.length := by
  induction changes with
  -- The induction is on the changes; each of them only takes off the front.
  | refl => exact le_rfl
  | @tail middle last _ changed ih =>
    refine le_trans ?_ ih
    cases changed with
    | body changed => exact changed.shortens
    | @headLine line rest _ split =>
      -- A refused start line stays, any other line is taken.
      have shorter := splitLine_length split
      rcases headLine_cases side middle line rest with ⟨_, _, read⟩ | ⟨_, _, read⟩ |
        ⟨_, _, _, read⟩
      · rw [read]
      · rw [read]
        dsimp only
        omega
      · rw [read, headLine_buf read]
        omega
    | next => exact le_rfl

/-- Behind a head that was just read nothing of its body is consumed. -/
theorem decodeHeaders_unconsumed (lawful : side.Lawful) (limited : side.Limited)
    (sane : core.Sane) {decoded : Head × BodyKind}
    (read : core.decodeHeaders side = (.ok (some decoded), next)) :
    next.bodyDecoder.bodyConsumed = 0 := by
  obtain ⟨last, rest, changes, heading, finished⟩ := decodeHeaders_last read
  have empty := (changes.sane lawful limited sane).body.heading heading
  -- The empty line that ends the head leaves what is remembered of a body as it is.
  obtain ⟨_, _, _, rfl⟩ := finishHeaders_ok finished
  simp [empty]

/-- A head that was just read declares the length of its body. -/
theorem declared_headed (lawful : side.Lawful) {bodyKind : BodyKind}
    (phase : core.phase = side.bodyPhase bodyKind) (fresh : core.bodyDecoder.bodyConsumed = 0) :
    core.Declared (some bodyKind) := by
  intro remaining same
  rw [phase] at same
  -- Only a length, if it is not zero, leads to a phase that counts.
  cases bodyKind with
  | contentLength length =>
    rw [lawful.contentLength] at same
    split at same <;> cases same
    rw [fresh, Nat.zero_add]
  | chunked =>
    rw [lawful.chunked] at same
    cases same
  | closeDelimited =>
    rcases lawful.closeDelimited with other | other <;> rw [other] at same <;> cases same
  | none =>
    rw [lawful.none] at same
    cases same
  | tunnel =>
    rw [lawful.tunnel] at same
    cases same

/-- A head that was just read promises all of the length it declares. -/
theorem owes_headed (lawful : side.Lawful) {length : Nat}
    (phase : core.phase = side.bodyPhase (.contentLength length))
    (fresh : core.bodyDecoder.bodyConsumed = 0) : core.toBodyState.Owes length := by
  rw [lawful.contentLength] at phase
  by_cases present : 0 < length
  · rw [if_pos present] at phase
    exact .inl ⟨length, phase, by rw [fresh, Nat.zero_add]⟩
  · rw [if_neg present] at phase
    exact .inr ⟨phase, by omega⟩

end Core

namespace Decoder

variable {Head Context : Type} {side : Side Head Context} {decoder : Decoder Head Context}

/-- What holds of a decoder that was only asked for whole messages. -/
structure Gathers (decoder : Decoder Head Context) : Prop where
  /-- Without a head one is being read, and nothing is collected. -/
  idle : decoder.decoded = none → decoder.phase.isHeading = true
  /-- Everything that was consumed is collected. -/
  counted : decoder.decodedBody.length = decoder.bodyDecoder.bodyConsumed
  /-- A body up to the close is read so until the connection ends. -/
  lasting : ∀ head, decoder.decoded = some (head, .closeDelimited) →
    decoder.phase = .bodyCloseDelimited ∨ decoder.phase = .complete
  /-- Other bodies are never read up to the close. -/
  framed : ∀ head bodyKind, decoder.decoded = some (head, bodyKind) →
    bodyKind ≠ .closeDelimited → decoder.phase ≠ .bodyCloseDelimited
  /-- The head declares the length of a body of known length. -/
  declared : ∀ head bodyKind, decoder.decoded = some (head, bodyKind) →
    decoder.toCore.Declared (some bodyKind)

/-- A decoder between messages gathers nothing. -/
theorem gathers_fresh {decoder : Decoder Head Context} (undecoded : decoder.decoded = none)
    (heading : decoder.phase.isHeading = true) (empty : decoder.decodedBody = [])
    (unread : decoder.bodyDecoder = {}) : decoder.Gathers where
  idle := fun _ => heading
  counted := by rw [empty, unread]; rfl
  lasting := fun _ found => by rw [undecoded] at found; cases found
  framed := fun _ _ found => by rw [undecoded] at found; cases found
  declared := fun _ _ found => by rw [undecoded] at found; cases found

/-- A pass that collects a body counts everything it collects. -/
theorem readBodyPass_counted (sane : decoder.toCore.Sane)
    (framed : decoder.phase ≠ .bodyCloseDelimited)
    (counted : decoder.decodedBody.length = decoder.bodyDecoder.bodyConsumed) :
    match decoder.readBodyPass with
    | .inl next => next.decodedBody.length = next.bodyDecoder.bodyConsumed
    | .inr result => result.2.decodedBody.length = result.2.bodyDecoder.bodyConsumed := by
  unfold readBodyPass
  -- Shown bytes are collected and consumed together, so both counts grow alike.
  cases peeked : decoder.peekBody with
  | some data =>
    have present := List.length_pos_of_ne_nil (peekBody_ne_nil peeked)
    have added := (BodyState.collect_counts sane.body peeked (Nat.pos_iff_ne_zero.mp present)
      le_rfl).resolve_left fun lasting => framed lasting.1
    simp only [consumeBody_eq _ present]
    rcases consumed : BodyState.consumeBody decoder.limits data.length decoder.toBodyState with
      ⟨_ | _, state⟩ <;> rw [consumed] at added <;> dsimp only at added ⊢
    · -- The collected bytes count even where consuming them is refused.
      rw [List.length_append, counted, added]
    · by_cases complete : state.phase = .complete
      · rw [if_pos complete]
        dsimp only
        rw [List.length_append, counted, added]
      · rw [if_neg complete]
        dsimp only
        rw [List.length_append, counted, added]
  -- Without bytes the pass moves on, and counts none.
  | none =>
    have same := BodyState.advance_consumed decoder.limits sane.body.counts
    simp only [progress_eq]
    rcases consumed : BodyState.consumeBody decoder.limits 0 decoder.toBodyState with
      ⟨_ | _ | _ | _, state⟩ <;> rw [consumed] at same <;> exact counted.trans same.symm

/-- Collecting a body counts everything it collects. -/
theorem readBody_counted (lawful : side.Lawful) (limited : side.Limited)
    (sane : decoder.toCore.Sane) (framed : decoder.phase ≠ .bodyCloseDelimited)
    (counted : decoder.decodedBody.length = decoder.bodyDecoder.bodyConsumed) :
    decoder.readBody.2.decodedBody.length = decoder.readBody.2.bodyDecoder.bodyConsumed := by
  -- The loop keeps the counts equal at each pass, and what it returns last is such a pass.
  refine readBodyLoop.run_rule (motive := fun decoder result => decoder.toCore.Sane →
    decoder.phase ≠ .bodyCloseDelimited →
    decoder.decodedBody.length = decoder.bodyDecoder.bodyConsumed →
      result.2.decodedBody.length = result.2.bodyDecoder.bodyConsumed)
    ?_ ?_ decoder sane framed counted
  · intro decoder result pass sane framed counted
    have more := readBodyPass_counted sane framed counted
    rwa [show readBodyPass decoder = .inr result from pass] at more
  · intro decoder next result pass ih sane framed counted
    have more := readBodyPass_counted sane framed counted
    have moves := readBodyPass_moves decoder
    rw [show readBodyPass decoder = .inl next from pass] at more moves
    exact ih ((moves.changes side).sane lawful limited sane)
      (fun lasting => framed (moves.lasted lasting)) more

/-- Moving through the body behind a head keeps what holds of what is gathered. -/
theorem Gathers.moves {next : Decoder Head Context} (gathers : decoder.Gathers)
    (sane : decoder.toCore.Sane) (moves : decoder.toCore.Moves next.toCore)
    {head : Head} {bodyKind : BodyKind} (found : decoder.decoded = some (head, bodyKind))
    (same : next.decoded = decoder.decoded)
    (counted : next.decodedBody.length = next.bodyDecoder.bodyConsumed) : next.Gathers where
  -- A head is decoded, so nothing is said about a decoder without one.
  idle := fun undecoded => by
    rw [same, found] at undecoded
    cases undecoded
  counted := counted
  -- The phase up to the close is kept by moving on.
  lasting := by
    intro other kept
    rw [same] at kept
    have phases := gathers.lasting other kept
    rwa [moves.lasts phases]
  framed := by
    -- A phase up to the close would have been one before, against the framing.
    intro other otherKind kept framed lasting
    rw [same] at kept
    exact gathers.framed other otherKind kept framed (moves.lasted lasting)
  -- What is still to come counts down as the body is consumed.
  declared := by
    intro other otherKind kept
    rw [same] at kept
    exact (gathers.declared other otherKind kept).moves sane moves

/-- A head that is read to collect a message starts gathering it. -/
theorem gathers_headed (lawful : side.Lawful) (limited : side.Limited)
    (sane : decoder.toCore.Sane) (gathers : decoder.Gathers) {head : Head} {bodyKind : BodyKind}
    {headed : Decoder Head Context}
    (read : decoder.decodeHead side = (.ok (some (head, bodyKind)), headed)) :
    headed.toCore.Sane ∧ headed.limits = decoder.limits ∧ headed.Gathers := by
  have changes := decodeHead_changes side decoder
  rw [read] at changes
  refine ⟨changes.sane lawful limited sane, changes.limits, ?_⟩
  rcases decodeHead_cases side decoder with ⟨_, _, same⟩ |
    ⟨_, _, _, core, same, lines, phase, heading⟩ | ⟨_, _, _, same, unread, _⟩ <;>
    rw [read] at same <;> cases same
  · exact gathers
  · -- Nothing was consumed before, and nothing is by the lines of the head.
    have unconsumed := Core.decodeHeaders_unconsumed lawful limited sane lines
    have before := gathers.counted
    rw [sane.body.heading heading] at before
    refine ⟨fun undecoded => (by cases undecoded), before.trans unconsumed.symm, ?_, ?_, ?_⟩
    · rintro other kept
      cases kept
      exact (lawful.closeDelimited).imp phase.trans phase.trans
    · rintro other otherKind kept framed lasting
      cases kept
      change core.phase = .bodyCloseDelimited at lasting
      rw [phase] at lasting
      cases bodyKind with
      | contentLength length =>
        rw [lawful.contentLength] at lasting
        split at lasting <;> cases lasting
      | chunked =>
        rw [lawful.chunked] at lasting
        cases lasting
      | closeDelimited => exact framed rfl
      | none =>
        rw [lawful.none] at lasting
        cases lasting
      | tunnel =>
        rw [lawful.tunnel] at lasting
        cases lasting
    · rintro other otherKind kept
      cases kept
      exact Core.declared_headed lawful phase unconsumed
  · exact absurd rfl (unread _)

/-- A call for a whole message that finds no head reads on in the head. -/
theorem gathers_headless (lawful : side.Lawful) (limited : side.Limited)
    (sane : decoder.toCore.Sane) (gathers : decoder.Gathers)
    {result : Except Error (Option (Head × BodyKind))} {next : Decoder Head Context}
    (read : decoder.decodeHead side = (result, next))
    (unread : ∀ decoded, result ≠ .ok (some decoded)) : next.Gathers := by
  have changes := decodeHead_changes side decoder
  rw [read] at changes
  have later := changes.sane lawful limited sane
  -- The head was there, was found or is missing; the first two are excluded.
  rcases decodeHead_cases side decoder with ⟨decoded, _, same⟩ |
    ⟨_, head, bodyKind, _, same, _⟩ | ⟨undecoded, _, core, same, _, inside⟩ <;>
    rw [read] at same <;> cases same
  · exact absurd rfl (unread decoded)
  · exact absurd rfl (unread (head, bodyKind))
  · -- Nothing of a body was collected before a head.
    have heading := gathers.idle undecoded
    have empty : decoder.decodedBody = [] := by
      have before := gathers.counted
      rw [sane.body.heading heading] at before
      exact List.eq_nil_of_length_eq_zero before
    exact gathers_fresh undecoded (inside heading) empty (later.body.heading (inside heading))

/-- What a call for a whole message that gathers does, and how much it hands out. -/
def Measured {Whole : Type} (size : Whole → Nat) (decoder : Decoder Head Context)
    (outcome : Except Error (Option Whole) × Decoder Head Context) : Prop :=
  outcome.2.Gathers ∧ ∀ whole, outcome.1 = .ok (some whole) →
    size whole ≤ decoder.limits.maxBodySize

/-- A body that is collected in full is within the limit. -/
theorem measured_framed {Whole : Type} {size : Whole → Nat} (lawful : side.Lawful)
    (limited : side.Limited) {headed : Decoder Head Context} (sane : headed.toCore.Sane)
    (bounds : headed.limits = decoder.limits) (gathers : headed.Gathers) {head : Head}
    {bodyKind : BodyKind} (found : headed.decoded = some (head, bodyKind))
    (framed : bodyKind ≠ .closeDelimited) (whole : Decoder Head Context → Whole)
    (sized : ∀ last, size (whole last) = last.decodedBody.length)
    {outcome : Except Error (Option Whole) × Decoder Head Context}
    (same : outcome = match headed.readBody with
      | (.error error, last) => (.error error, last)
      | (.ok false, last) => (.ok none, last)
      | (.ok true, last) => (.ok (some (whole last)), last.finished side)) :
    Measured size decoder outcome := by
  have moves := readBody_moves headed
  have counted := readBody_counted lawful limited sane (gathers.framed head bodyKind found framed)
    gathers.counted
  have kept := (readBody_frame headed).1.1
  subst same
  rcases read : headed.readBody with ⟨_ | _ | _, last⟩ <;> rw [read] at moves counted kept
  · exact ⟨gathers.moves sane moves found kept counted, by simp⟩
  · exact ⟨gathers.moves sane moves found kept counted, by simp⟩
  · refine ⟨gathers_fresh rfl rfl rfl rfl, ?_⟩
    rintro message ⟨⟩
    -- What was collected was consumed, which is within the limit.
    have later := (moves.changes side).sane lawful limited sane
    have allowed := later.body.allowed
    have limits := (moves.changes side).limits
    rw [sized, counted]
    rw [limits, bounds] at allowed
    omega

/-- A message whose body is over hands out what is collected, which is within the limit. -/
theorem measured_finished {Whole : Type} {size : Whole → Nat} (side : Side Head Context)
    {last : Decoder Head Context}
    (sane : last.toCore.Sane) (bounds : last.limits = decoder.limits)
    (counted : last.decodedBody.length = last.bodyDecoder.bodyConsumed) {message : Whole}
    (sized : size message ≤ last.decodedBody.length) :
    Measured size decoder (.ok (some message), last.finished side) := by
  refine ⟨gathers_fresh rfl rfl rfl rfl, ?_⟩
  rintro whole ⟨⟩
  have allowed := sane.body.allowed
  rw [bounds] at allowed
  omega

end Decoder

namespace RequestDecoder

open Decoder

/-- The bytes of the body of a request. -/
def size (request : Request) : Nat := (request.body.getD []).length

/-- A call for a whole request gathers it within the limit. -/
theorem decode_measured {decoder : RequestDecoder} (sane : decoder.toCore.Sane)
    (gathers : decoder.Gathers) : Measured size decoder (decode decoder) := by
  unfold decode
  rcases read : decoder.decodeHead side with ⟨_ | _ | ⟨head, bodyKind⟩, headed⟩
  · exact ⟨gathers_headless side_lawful side_limited sane gathers read (by simp), by simp⟩
  · exact ⟨gathers_headless side_lawful side_limited sane gathers read (by simp), by simp⟩
  have found := decodeHead_decoded read
  obtain ⟨later, bounds, gathering⟩ := gathers_headed side_lawful side_limited sane gathers read
  -- Each framing has its own way of collecting, and only a length and chunks have a loop.
  cases bodyKind with
  | tunnel => exact ⟨gathering, by simp⟩
  | closeDelimited => exact measured_finished side later bounds gathering.counted le_rfl
  | none => exact measured_finished side later bounds gathering.counted (Nat.zero_le _)
  | contentLength length =>
    refine measured_framed side_lawful side_limited later bounds gathering found (by simp)
      (fun last => Request.fromRawParts head (last.collectedBody (.contentLength length)))
      (fun _ => rfl) ?_
    dsimp only
    rcases headed.readBody with ⟨_ | _ | _, _⟩ <;> rfl
  | chunked =>
    refine measured_framed side_lawful side_limited later bounds gathering found (by simp)
      (fun last => Request.fromRawParts head (last.collectedBody .chunked)) (fun _ => rfl) ?_
    dsimp only
    rcases headed.readBody with ⟨_ | _ | _, _⟩ <;> rfl

end RequestDecoder

namespace ResponseDecoder

open Decoder

/-- The bytes of the body of a response. -/
def size (response : Response) : Nat := (response.body.getD []).length

/-- Reading up to the close counts everything it collects. -/
theorem readUntilClose_counted {decoder : ResponseDecoder}
    (phases : decoder.phase = .bodyCloseDelimited ∨ decoder.phase = .complete)
    (counted : decoder.decodedBody.length = decoder.bodyDecoder.bodyConsumed) :
    (readUntilClose decoder).2.decodedBody.length =
      (readUntilClose decoder).2.bodyDecoder.bodyConsumed := by
  unfold readUntilClose
  cases peeked : decoder.peekBody with
  | none => exact counted
  | some data =>
    have present := List.length_pos_of_ne_nil (peekBody_ne_nil peeked)
    dsimp only
    by_cases fits : decoder.decodedBody.length + data.length ≤ usizeMax
    · simp only [checkedAdd, if_pos fits]
      by_cases large : decoder.limits.maxBodySize < decoder.decodedBody.length + data.length
      · simp only [if_pos large]
        exact counted
      · -- The limit was checked before, so that consuming is not refused.
        have phase : decoder.phase = .bodyCloseDelimited := by
          refine phases.resolve_right fun complete => ?_
          simp [Decoder.peekBody, BodyState.peekBody, complete] at peeked
        have all : data = decoder.buf := by
          simp only [Decoder.peekBody, BodyState.peekBody, phase] at peeked
          split at peeked <;> cases peeked
          rfl
        rw [counted] at fits large
        have added := BodyState.lasting_counts phase (Nat.le_of_eq (congrArg List.length all))
          (Nat.pos_iff_ne_zero.mp present) fits (Nat.not_lt.mp large)
        simp only [counted, if_neg large, consumeBody_eq _ present]
        rcases consumed : BodyState.consumeBody decoder.limits data.length decoder.toBodyState with
          ⟨_ | _, state⟩ <;> rw [consumed] at added <;> dsimp only at added ⊢ <;>
          rw [List.length_append, counted, added]
    · simp only [checkedAdd, if_neg fits]
      exact counted

/-- A call for a whole response gathers it within the limit. -/
theorem decode_measured {decoder : ResponseDecoder} (sane : decoder.toCore.Sane)
    (gathers : decoder.Gathers) : Measured size decoder (decode decoder) := by
  unfold decode
  rcases read : decoder.decodeHead side with ⟨_ | _ | ⟨head, bodyKind⟩, headed⟩
  · exact ⟨gathers_headless side_lawful side_limited sane gathers read (by simp), by simp⟩
  · exact ⟨gathers_headless side_lawful side_limited sane gathers read (by simp), by simp⟩
  have found := decodeHead_decoded read
  obtain ⟨later, bounds, gathering⟩ := gathers_headed side_lawful side_limited sane gathers read
  cases bodyKind with
  | tunnel => exact ⟨gathering, by simp⟩
  | closeDelimited =>
    -- Such a body is complete only when the connection has been closed.
    obtain ⟨moves, kept, _⟩ := readUntilClose_moves headed
    have counted := readUntilClose_counted (gathering.lasting head found) gathering.counted
    dsimp only
    rcases body : readUntilClose headed with ⟨_ | _, last⟩ <;> rw [body] at moves kept counted
    · exact ⟨gathering.moves later moves found kept counted, by simp⟩
    · dsimp only
      by_cases ended : last.phase = .complete
      · rw [if_neg (not_not.mpr ended)]
        have changes := moves.changes side
        exact measured_finished side (changes.sane side_lawful side_limited later)
          (changes.limits.trans bounds) counted le_rfl
      · rw [if_pos ended]
        exact ⟨gathering.moves later moves found kept counted, by simp⟩
  | none => exact measured_finished side later bounds gathering.counted (Nat.zero_le _)
  | contentLength length =>
    refine measured_framed side_lawful side_limited later bounds gathering found (by simp)
      (fun last => Response.fromRawParts head (last.collectedBody (.contentLength length)))
      (fun _ => rfl) ?_
    dsimp only
    rcases headed.readBody with ⟨_ | _ | _, _⟩ <;> rfl
  | chunked =>
    refine measured_framed side_lawful side_limited later bounds gathering found (by simp)
      (fun last => Response.fromRawParts head (last.collectedBody .chunked)) (fun _ => rfl) ?_
    dsimp only
    rcases headed.readBody with ⟨_ | _ | _, _⟩ <;> rfl

end ResponseDecoder

end Http11

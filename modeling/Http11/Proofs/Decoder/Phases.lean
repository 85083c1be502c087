import Http11.Decoder.Buffer

/-! Calls keep the context, and lead from heads to bodies and not back. -/

namespace Http11

namespace BodyState

/-- Trailer lines do not change the phase unless they complete the body. -/
theorem trailerLine_heading (limits : DecoderLimits) (state : BodyState) (line rest : Bytes) :
    (trailerLine limits state line rest).2.phase = state.phase ∨
      (trailerLine limits state line rest).2.phase = .complete := by
  unfold trailerLine
  split
  · -- An empty line completes the body.
    exact .inr rfl
  -- Refused or stored, any other line stays among the trailers.
  left
  split
  · rfl
  split
  · rfl
  split
  · rfl
  dsimp only
  split
  · rfl
  split
  · rfl
  split <;> rfl

/-- The trailer loop does not change the phase unless it completes the body. -/
theorem processTrailers_heading (limits : DecoderLimits) (state : BodyState) :
    (processTrailers limits state).2.phase = state.phase ∨
      (processTrailers limits state).2.phase = .complete := by
  refine (trailersLoop limits).run_rule
    (motive := fun start result => result.2.phase = start.2.phase ∨ result.2.phase = .complete)
    ?_ ?_ (false, state)
  · -- The pass that returns has no line left, refuses one or has come to the end.
    rintro ⟨advanced, state⟩ result pass
    change trailersPass limits advanced state = .inr result at pass
    unfold trailersPass at pass
    split at pass
    · split at pass
      · cases pass
        exact .inl rfl
      · rename_i line rest _
        have kept := trailerLine_heading limits state line rest
        split at pass
        · rename_i read
          cases pass
          rwa [read] at kept
        · rename_i read
          rw [read] at kept
          split at pass <;> cases pass
          exact kept
    · cases pass
      exact .inl rfl
  · -- A pass that goes on has stored a line, so the next one starts in the same phase.
    rintro ⟨advanced, state⟩ ⟨nextAdvanced, next⟩ result pass ih
    change trailersPass limits advanced state = .inl (nextAdvanced, next) at pass
    unfold trailersPass at pass
    split at pass
    · split at pass
      · cases pass
      · rename_i line rest _
        have kept := trailerLine_heading limits state line rest
        split at pass
        · cases pass
        · rename_i read
          rw [read] at kept
          split at pass
          · cases pass
          · rename_i incomplete
            cases pass
            have same : next.phase = state.phase := kept.resolve_right incomplete
            rcases ih with unchanged | complete
            · exact .inl (unchanged.trans same)
            · exact .inr complete
    · cases pass

/-- Trailer lines lead to no head. -/
theorem processTrailers_outside (limits : DecoderLimits) {state : BodyState}
    (phase : state.phase = .chunkedTrailer) :
    (processTrailers limits state).2.phase.isHeading = false := by
  rcases processTrailers_heading limits state with same | complete
  · simp [same, phase, DecodePhase.isHeading]
  · simp [complete, DecodePhase.isHeading]

/-- A chunk-size line leads to no head. -/
theorem processChunkedSize_heading (limits : DecoderLimits) {state : BodyState}
    (phase : state.phase = .bodyChunkedSize) :
    (processChunkedSize limits state).2.phase.isHeading = false := by
  -- Without a whole line nothing happens; a line leads to data, to the trailers or nowhere.
  unfold processChunkedSize
  rw [if_neg (by simp [phase])]
  cases split : splitLine state.buf with
  | none => simp [phase, DecodePhase.isHeading]
  | some pair =>
    obtain ⟨line, rest⟩ := pair
    dsimp only
    have read : (chunkSizeLine limits state line rest).2.phase.isHeading = false := by
      unfold chunkSizeLine
      split
      · simp [phase, DecodePhase.isHeading]
      dsimp only
      split
      · rfl
      split
      · simp [phase, DecodePhase.isHeading]
      · split <;> simp [phase, DecodePhase.isHeading]
    rcases sized : chunkSizeLine limits state line rest with ⟨_ | _, next⟩
    · rwa [sized] at read
    · dsimp only
      split
      · -- Only the last chunk goes on to the trailer lines in the same call.
        rename_i trailing
        have outside := processTrailers_outside limits trailing
        rcases trailed : processTrailers limits next with ⟨_ | _, last⟩ <;> rwa [trailed] at outside
      · rwa [sized] at read

/-- Body operations neither enter nor leave a head. -/
theorem consumeBody_heading (limits : DecoderLimits) (len : Nat) (state : BodyState) :
    (consumeBody limits len state).2.phase.isHeading = state.phase.isHeading := by
  -- The phases of a head are refused, and no phase of a body leads back to one.
  cases phase : state.phase with
  | startLine => simp [consumeBody, phase]
  | headers => simp [consumeBody, phase]
  | tunnel => simp [consumeBody, phase]
  | complete => simp [consumeBody, phase, takeTrailers]
  | bodyContentLength remaining =>
    simp only [consumeBody, phase]
    split
    · -- Too much is asked for, or the number is at its limit, or the bytes are taken.
      simp [phase]
    split
    · simp [phase]
    split
    · rfl
    split
    · rfl
    split <;> rfl
  | bodyChunkedSize =>
    have kept := processChunkedSize_heading limits phase
    simp only [consumeBody, phase]
    rcases processed : processChunkedSize limits state with ⟨_ | _, next⟩
    · rwa [processed] at kept
    · rw [processed] at kept
      dsimp only
      split <;> exact kept
  | bodyChunkedData remaining =>
    simp only [consumeBody, phase]
    -- As with a length, but behind the last byte the line end is looked for at once.
    split
    · simp [phase]
    split
    · simp [phase]
    split
    · simp [phase]
    split
    · rfl
    split
    · unfold chunkDataCrlf
      split
      · split <;> rfl
      · rfl
    · rfl
  | bodyChunkedDataCrlf =>
    simp only [consumeBody, phase, chunkDataCrlf]
    -- The two bytes are missing, wrong or a line end.
    split
    · split
      · simp [phase]
      · rfl
    · simp [phase]
  | chunkedTrailer =>
    have outside := processTrailers_outside limits phase
    simp only [consumeBody, phase]
    rcases processed : processTrailers limits state with ⟨_ | _, next⟩
    · rwa [processed] at outside
    · rw [processed] at outside
      dsimp only
      split
      · exact outside
      split <;> exact outside
  | bodyCloseDelimited =>
    simp only [consumeBody, phase]
    -- Such a body ends with the connection, so its phase stays.
    split
    · simp [phase]
    split
    · simp [phase]
    split
    · simp [phase]
    split <;> simp [phase]

/-- Only the end of a body reports that it is complete. -/
theorem consumeBody_complete {limits : DecoderLimits} {len : Nat} {state next : BodyState}
    {trailers : Headers}
    (consumed : consumeBody limits len state = (.ok (.complete trailers), next)) :
    next.phase = .complete := by
  -- The line end after a chunk never completes a body.
  have line : ∀ before : BodyState, chunkDataCrlf before ≠ (.ok (.complete trailers), next) := by
    intro before ended
    unfold chunkDataCrlf at ended
    split at ended
    · split at ended <;> cases ended
    · cases ended
  unfold consumeBody at consumed
  split at consumed
  · split at consumed
    · cases consumed
    split at consumed
    · cases consumed
    dsimp only at consumed
    split at consumed
    · cases consumed
    split at consumed
    · cases consumed
      rfl
    split at consumed <;> cases consumed
  · -- A size line completes a body through the trailers after it.
    split at consumed
    · cases consumed
    · split at consumed
      · rename_i complete
        cases consumed
        exact complete
      · cases consumed
      · cases consumed
  · split at consumed
    · cases consumed
    split at consumed
    · cases consumed
    split at consumed
    · cases consumed
    dsimp only at consumed
    split at consumed
    · cases consumed
    split at consumed
    · exact absurd consumed (line _)
    · cases consumed
  · exact absurd consumed (line _)
  · split at consumed
    · cases consumed
    split at consumed
    · rename_i complete
      cases consumed
      exact complete
    split at consumed <;> cases consumed
  · split at consumed
    · cases consumed
    split at consumed
    · cases consumed
    split at consumed
    · cases consumed
    split at consumed <;> cases consumed
  · rename_i complete
    cases consumed
    exact complete
  all_goals cases consumed
end BodyState

namespace Core

variable {Head Context : Type} {side : Side Head Context}

/-- What every line of a head keeps, and a line that is refused keeps besides. -/
def Keeps {Result : Type} (core : Core Context) (outcome : Except Error Result × Core Context) :
    Prop :=
  outcome.2.context = core.context ∧ outcome.2.limits = core.limits ∧
    ∀ error, outcome.1 = .error error → outcome.2.phase = core.phase

/-- A start line keeps the context and the limits. -/
theorem readStartLine_keeps (side : Side Head Context) (core : Core Context) (line rest : Bytes) :
    core.Keeps (core.readStartLine side line rest) := by
  unfold readStartLine
  -- Only an accepted line leaves the phase, and that is no error.
  split
  · exact ⟨rfl, rfl, fun _ _ => rfl⟩
  · dsimp only
    split
    · exact ⟨rfl, rfl, fun _ _ => rfl⟩
    · exact ⟨rfl, rfl, by simp⟩

/-- The end of a head keeps the context and the limits. -/
theorem finishHeaders_keeps (side : Side Head Context) (core : Core Context) (rest : Bytes) :
    core.Keeps (core.finishHeaders side rest) := by
  unfold finishHeaders
  dsimp only
  -- Without a start line, or refused, the head is over; otherwise its body begins.
  split
  · exact ⟨rfl, rfl, fun _ _ => rfl⟩
  · split
    · exact ⟨rfl, rfl, fun _ _ => rfl⟩
    · exact ⟨rfl, rfl, by simp⟩

/-- A header line keeps the context and the limits. -/
theorem readHeaderLine_keeps (core : Core Context) (line rest : Bytes) :
    core.Keeps (core.readHeaderLine line rest) := by
  unfold readHeaderLine
  -- A line is too long, one too many, not text, no field, or stored.
  split
  · exact ⟨rfl, rfl, fun _ _ => rfl⟩
  split
  · exact ⟨rfl, rfl, fun _ _ => rfl⟩
  split
  · exact ⟨rfl, rfl, fun _ _ => rfl⟩
  · dsimp only
    split
    · exact ⟨rfl, rfl, fun _ _ => rfl⟩
    · exact ⟨rfl, rfl, by simp⟩

/-- A line of a head keeps the context and the limits. -/
theorem headLine_keeps (side : Side Head Context) (core : Core Context) (line rest : Bytes) :
    core.Keeps (core.headLine side line rest) := by
  -- The kinds of line differ in what they answer, which is mapped afterwards.
  have mapped : ∀ {Result Other : Type} {outcome : Except Error Result × Core Context}
      (change : Result → Other), core.Keeps outcome →
      core.Keeps (outcome.1.map change, outcome.2) := by
    intro Result Other outcome change keeps
    obtain ⟨context, limits, refused⟩ := keeps
    refine ⟨context, limits, fun error failed => ?_⟩
    rcases result : outcome.1 with error | value
    · exact refused error result
    · simp [result, Except.map] at failed
  unfold headLine
  -- The phase and the emptiness of the line decide who reads it.
  split
  · exact mapped _ (readStartLine_keeps side core line rest)
  split
  · exact mapped _ (finishHeaders_keeps side core rest)
  · exact mapped _ (readHeaderLine_keeps core line rest)

/-- What reading a head did to the context, and which framing it has determined. -/
def HeadersRead (side : Side Head Context) (limits : DecoderLimits) (context : Context)
    (outcome : Except Error (Option (Head × BodyKind)) × Core Context) : Prop :=
  outcome.2.context = context ∧ outcome.2.limits = limits ∧
  match outcome.1 with
  | .ok (some (head, bodyKind)) => outcome.2.phase = side.bodyPhase bodyKind ∧
      ∃ startLine headers, side.finishHead limits context startLine headers = .ok (head, bodyKind)
  | _ => outcome.2.phase.isHeading = true

/-- A head is determined with the context of its message, which a complete one leaves behind. -/
theorem decodeHeaders_keeps (side : Side Head Context) (core : Core Context) (context : Context)
    (entered : core.phase.isHeading = true ∧ core.context = context ∨
      core.phase = .complete ∧ side.nextContext core.context = context) :
    HeadersRead side core.limits context (core.decodeHeaders side) := by
  refine (decodeHeadersLoop side).run_rule
    (motive := fun core result => (core.phase.isHeading = true ∧ core.context = context ∨
      core.phase = .complete ∧ side.nextContext core.context = context) →
      HeadersRead side core.limits context result) ?_ ?_ core entered
  · -- The loop returns where no line is left, one is refused, or the head ends.
    intro core result pass entered
    change decodeHeadersPass side core = .inr result at pass
    rcases entered with ⟨heading, rfl⟩ | ⟨complete, _⟩
    · have lines : core.phase = .startLine ∨ core.phase = .headers := by
        simpa [DecodePhase.isHeading] using heading
      cases split : splitLine core.buf with
      | none =>
        have same : result = (.ok none, core) := by
          rcases lines with phase | phase <;>
            simpa [decodeHeadersPass, phase, split] using pass.symm
        subst same
        exact ⟨rfl, rfl, heading⟩
      | some pair =>
        obtain ⟨line, rest⟩ := pair
        obtain ⟨sameContext, sameLimits, refused⟩ := headLine_keeps side core line rest
        have answered : result = core.headLine side line rest ∧ result.1 ≠ .ok none := by
          rcases read : core.headLine side line rest with ⟨_ | _ | _, next⟩ <;>
            rcases lines with phase | phase <;>
            simp only [decodeHeadersPass, phase, split, read] at pass <;> cases pass <;> simp
        obtain ⟨rfl, decided⟩ := answered
        refine ⟨sameContext, sameLimits, ?_⟩
        -- An error keeps the phase, and among answers only the end of the head has one.
        rcases read : core.headLine side line rest with ⟨error | _ | ⟨head, bodyKind⟩, next⟩
        · have kept := refused error (by rw [read])
          rw [read] at kept
          dsimp only at kept ⊢
          rw [kept]
          exact heading
        · simp [read] at decided
        · rcases headLine_ok read with ⟨_, other, _⟩ | ⟨_, _, _, _, same, finished⟩ |
            ⟨_, _, other, _⟩
          · cases other
          · cases same
            obtain ⟨startLine, _, accepted, rfl⟩ := finishHeaders_ok finished
            exact ⟨rfl, startLine, core.headers, accepted⟩
          · cases other
    · simp [decodeHeadersPass, complete] at pass
  · -- A pass that goes on has read a line of this head, or has left the message before.
    intro core next result pass ih entered
    change decodeHeadersPass side core = .inl next at pass
    rcases entered with ⟨heading, rfl⟩ | ⟨complete, rfl⟩
    · have lines : core.phase = .startLine ∨ core.phase = .headers := by
        simpa [DecodePhase.isHeading] using heading
      cases split : splitLine core.buf with
      | none => rcases lines with phase | phase <;> simp [decodeHeadersPass, phase, split] at pass
      | some pair =>
        obtain ⟨line, rest⟩ := pair
        obtain ⟨sameContext, sameLimits, _⟩ := headLine_keeps side core line rest
        have read : core.headLine side line rest = (.ok none, next) := by
          rcases read : core.headLine side line rest with ⟨_ | _ | _, next⟩ <;>
            rcases lines with phase | phase <;>
            simp only [decodeHeadersPass, phase, split, read] at pass <;> cases pass <;> rfl
        rw [read] at sameContext sameLimits
        have headers := headLine_phase lines read
        rw [← sameLimits]
        exact ih (.inl ⟨by simp [headers, DecodePhase.isHeading], sameContext⟩)
    · -- Leaving a complete message makes the next context the current one.
      simp only [decodeHeadersPass, complete, Sum.inl.injEq] at pass
      subst pass
      exact ih (.inl ⟨rfl, rfl⟩)

/-- During a body or in a tunnel no head is read. -/
theorem decodeHeaders_refused (side : Side Head Context) {core : Core Context}
    (outside : core.phase.isHeading = false) (incomplete : core.phase ≠ .complete) :
    ∃ error, core.decodeHeaders side = (.error error, core) := by
  have refused : ∃ error, decodeHeadersPass side core = .inr (.error error, core) := by
    -- Of the remaining phases each answers at once with an error.
    unfold decodeHeadersPass
    split
    · rename_i phase
      simp [phase, DecodePhase.isHeading] at outside
    · rename_i phase
      simp [phase, DecodePhase.isHeading] at outside
    · exact absurd (by assumption) incomplete
    · exact ⟨_, rfl⟩
    · exact ⟨_, rfl⟩
  obtain ⟨error, pass⟩ := refused
  exact ⟨error, (decodeHeadersLoop side).run_of_return pass⟩

/-- Behind a complete message, the head of the next one is read. -/
theorem decodeHeaders_complete (side : Side Head Context) {core : Core Context}
    (complete : core.phase = .complete) :
    core.decodeHeaders side = (core.nextMessage side).decodeHeaders side := by
  -- The first pass clears what is left of the message before.
  refine (decodeHeadersLoop side).run_of_continue ?_
  change decodeHeadersPass side core = _
  simp [decodeHeadersPass, complete]

/-- A head is made with what is remembered, unless a complete message came before it. -/
theorem decodeHeaders_finished {side : Side Head Context} {core : Core Context} {head : Head}
    {bodyKind : BodyKind} (read : (core.decodeHeaders side).1 = .ok (some (head, bodyKind))) :
    ∃ startLine headers, side.finishHead core.limits
      (if core.phase = .complete then side.nextContext core.context else core.context)
      startLine headers = .ok (head, bodyKind) := by
  by_cases complete : core.phase = .complete
  · have kept := (decodeHeaders_keeps side core _ (.inr ⟨complete, rfl⟩)).2.2
    rw [read] at kept
    rw [if_pos complete]
    exact kept.2
  · rw [if_neg complete]
    cases heading : core.phase.isHeading with
    | true =>
      have kept := (decodeHeaders_keeps side core _ (.inl ⟨heading, rfl⟩)).2.2
      rw [read] at kept
      exact kept.2
    | false =>
      -- Anywhere else the call is refused.
      obtain ⟨error, refused⟩ := decodeHeaders_refused side heading complete
      rw [refused] at read
      cases read

end Core

namespace Decoder

variable {Head Context : Type}

/-- What body operations keep: the limits, the start line and whether a head is being read. -/
def KeepsBody {Result : Type} (decoder : Decoder Head Context)
    (outcome : Result × Decoder Head Context) : Prop :=
  outcome.2.limits = decoder.limits ∧ outcome.2.startLine = decoder.startLine ∧
    outcome.2.phase.isHeading = decoder.phase.isHeading

/-- Consuming a body neither enters nor leaves a head. -/
theorem consumeBody_keeps (decoder : Decoder Head Context) (len : Nat) :
    decoder.KeepsBody (decoder.consumeBody len) := by
  unfold consumeBody
  split
  · exact ⟨rfl, rfl, rfl⟩
  · exact ⟨rfl, rfl, BodyState.consumeBody_heading decoder.limits len decoder.toBodyState⟩

/-- Moving on neither enters nor leaves a head. -/
theorem progress_keeps (decoder : Decoder Head Context) : decoder.KeepsBody decoder.progress :=
  ⟨rfl, rfl, BodyState.consumeBody_heading decoder.limits 0 decoder.toBodyState⟩

/-- One pass of collecting a body neither enters nor leaves a head. -/
theorem readBodyPass_keeps (decoder : Decoder Head Context) :
    match readBodyPass decoder with
    | .inl next => decoder.KeepsBody ((), next)
    | .inr result => decoder.KeepsBody result := by
  unfold readBodyPass
  -- Collecting changes nothing but the body, and consuming keeps what a body does.
  cases peeked : decoder.peekBody with
  | some data =>
    have kept := consumeBody_keeps
      ({ decoder with decodedBody := decoder.decodedBody ++ data } : Decoder Head Context)
      data.length
    dsimp only
    rcases consumed : consumeBody { decoder with decodedBody := decoder.decodedBody ++ data }
      data.length with ⟨_ | _, next⟩
    · rwa [consumed] at kept
    · rw [consumed] at kept
      dsimp only
      by_cases complete : next.phase = .complete
      · rw [if_pos complete]
        exact kept
      · rw [if_neg complete]
        exact kept
  | none =>
    have kept := progress_keeps decoder
    rcases moved : decoder.progress with ⟨_ | _ | _ | _, next⟩ <;> rwa [moved] at kept

/-- Collecting a body neither enters nor leaves a head. -/
theorem readBody_keeps (decoder : Decoder Head Context) : decoder.KeepsBody decoder.readBody := by
  refine readBodyLoop.run_rule (motive := fun decoder result => decoder.KeepsBody result) ?_ ?_
    decoder
  · -- The last pass keeps it, and so do the passes before, one after the other.
    intro decoder result pass
    have kept := readBodyPass_keeps decoder
    change readBodyPass decoder = .inr result at pass
    rwa [pass] at kept
  · intro decoder next result pass ih
    have kept := readBodyPass_keeps decoder
    change readBodyPass decoder = .inl next at pass
    rw [pass] at kept
    exact ⟨ih.1.trans kept.1, ih.2.1.trans kept.2.1, ih.2.2.trans kept.2.2⟩

end Decoder

end Http11

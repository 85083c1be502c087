import Http11.Proofs.Decoder.Collecting

/-! A call that failed fails again, unless what it refused is off the buffer. -/

namespace Http11

namespace BodyState

variable {limits : DecoderLimits} {state next : BodyState}

/-- A chunk-size line that is refused stays in the buffer, or is lost. -/
theorem chunkSizeLine_refused {line rest : Bytes} {error : Error}
    (phase : state.phase = .bodyChunkedSize) (split : splitLine state.buf = some (line, rest))
    (refused : chunkSizeLine limits state line rest = (.error error, next)) :
    next = state ∨ next = { state with buf := rest } ∧ state.Loses limits := by
  rcases chunkSizeLine_cases limits state line rest with ⟨_, _, read⟩ | ⟨_, read⟩ |
    ⟨_, _, _, _, _, read⟩ | ⟨size, _, parsed, _, large, read⟩
  · rw [read] at refused
    cases refused
    exact .inl rfl
  · rw [read] at refused
    cases refused
  · rw [read] at refused
    cases refused
  · -- A chunk that does not fit is refused once its line is gone.
    rw [read] at refused
    cases refused
    exact .inr ⟨rfl, line, rest, split, by simp only [phase]; exact ⟨size, parsed, large⟩⟩

/-- A trailer line that is refused stays in the buffer, or is lost. -/
theorem trailerLine_refused {line rest : Bytes} {error : Error}
    (phase : state.phase = .chunkedTrailer) (split : splitLine state.buf = some (line, rest))
    (refused : trailerLine limits state line rest = (.error error, next)) :
    next = state ∨ next = { state with buf := rest } ∧ state.Loses limits := by
  rcases trailerLine_cases limits state line rest with ⟨_, read⟩ | ⟨_, _, _, read⟩ |
    ⟨present, taken, _, read⟩ | ⟨_, _, _, _, _, _, _, _, _, read⟩
  · rw [read] at refused
    cases refused
  · rw [read] at refused
    cases refused
    exact .inl rfl
  · -- The line was read, so it is what it says that was refused.
    right
    obtain ⟨short, few, text, decoded⟩ := refusesLine_eq_false.mp taken
    refine ⟨by rw [read] at refused; cases refused; rfl, line, rest, split, ?_⟩
    simp only [phase]
    refine ⟨text, ⟨present, short, few, decoded⟩, fun name value parsed => ?_⟩
    by_contra accepted
    push Not at accepted
    obtain ⟨allowed, declared⟩ := accepted
    have long : ¬ limits.maxHeaderLineSize < line.length := by omega
    have many : ¬ limits.maxHeadersCount ≤ state.bodyDecoder.trailerCount := by omega
    simp [trailerLine, present, long, many, decoded, parsed, allowed, declared] at refused
  · rw [read] at refused
    cases refused

/-- Trailers that fail to be read fail again, or a line of them is lost. -/
theorem processTrailers_retried (phase : state.phase = .chunkedTrailer) {error : Error}
    (failed : (processTrailers limits state).1 = .error error) :
    ((processTrailers limits state).2.phase = .chunkedTrailer ∧
      ∃ again, (processTrailers limits (processTrailers limits state).2).1 = .error again) ∨
    ∃ lost, Changes limits state lost ∧ lost.Loses limits := by
  refine (trailersLoop limits).run_rule
    (motive := fun start result => start.2.phase = .chunkedTrailer → result.1 = .error error →
      (result.2.phase = .chunkedTrailer ∧
        ∃ again, (processTrailers limits result.2).1 = .error again) ∨
      ∃ lost, Changes limits start.2 lost ∧ lost.Loses limits) ?_ ?_ (false, state) phase failed
  · rintro ⟨advanced, state⟩ result pass phase failed
    change state.phase = .chunkedTrailer at phase
    change trailersPass limits advanced state = .inr result at pass
    unfold trailersPass at pass
    rw [if_pos phase] at pass
    cases split : splitLine state.buf with
    | none =>
      simp only [split, Sum.inr.injEq] at pass
      subst pass
      cases failed
    | some pair =>
      obtain ⟨line, rest⟩ := pair
      simp only [split] at pass
      rcases read : trailerLine limits state line rest with ⟨refusal | _, next⟩
      · simp only [read, Sum.inr.injEq] at pass
        subst pass
        rcases trailerLine_refused phase split read with same | loses
        · -- The line is still the first one, and is refused again.
          subst same
          refine .inl ⟨phase, refusal, ?_⟩
          have again : (trailersLoop limits).body (false, next) = .inr (.error refusal, next) := by
            change trailersPass limits false next = _
            simp [trailersPass, phase, split, read]
          rw [processTrailers, (trailersLoop limits).run_of_return again]
        · exact .inr ⟨state, .refl, loses.2⟩
      · simp only [read] at pass
        split at pass <;> cases pass
        cases failed
  · rintro ⟨advanced, state⟩ ⟨nextAdvanced, next⟩ result pass ih phase failed
    change state.phase = .chunkedTrailer at phase
    change trailersPass limits advanced state = .inl (nextAdvanced, next) at pass
    unfold trailersPass at pass
    rw [if_pos phase] at pass
    cases split : splitLine state.buf with
    | none => simp [split] at pass
    | some pair =>
      obtain ⟨line, rest⟩ := pair
      have changed : Change limits state _ := .trailerLine phase split
      simp only [split] at pass
      rcases read : trailerLine limits state line rest with ⟨_ | _, after⟩
      · simp [read] at pass
      · rw [read] at changed
        simp only [read] at pass
        split at pass
        · cases pass
        · rename_i incomplete
          cases pass
          have more := (trailerLine_ok read).2.resolve_left incomplete
          refine (ih (more.trans phase) failed).imp_right fun lost => ?_
          obtain ⟨lost, changes, loses⟩ := lost
          exact ⟨lost, .head changed changes, loses⟩

/-- Some line of the body is lost. -/
def Losing (limits : DecoderLimits) (state : BodyState) : Prop :=
  ∃ lost, Changes limits state lost ∧ lost.Loses limits

/-- In the trailer section, moving on fails where reading trailers does. -/
theorem consumeBody_trailers_failed (len : Nat) (phase : state.phase = .chunkedTrailer)
    {error : Error} (failed : (processTrailers limits state).1 = .error error) :
    consumeBody limits len state = (.error error, (processTrailers limits state).2) := by
  rcases processed : processTrailers limits state with ⟨_ | _, last⟩
  · rw [processed] at failed
    cases failed
    simp [consumeBody, phase, processed]
  · rw [processed] at failed
    cases failed

/-- Moving on that fails does so again, or a line is lost. -/
theorem advance_retried (sane : state.Sane limits) {error : Error}
    (failed : (consumeBody limits 0 state).1 = .error error) :
    (∃ again, (consumeBody limits 0 (consumeBody limits 0 state).2).1 = .error again) ∨
      state.Losing limits := by
  -- Where nothing has changed, the call is the same one.
  have unchanged : (consumeBody limits 0 state).2 = state →
      ∃ again, (consumeBody limits 0 (consumeBody limits 0 state).2).1 = .error again := by
    intro same
    rw [same]
    exact ⟨error, failed⟩
  -- A failure among trailers leaves the decoder among them.
  have trailed : ∀ later : BodyState, later.phase = .chunkedTrailer →
      (processTrailers limits later).1 = .error error →
      (consumeBody limits 0 state).2 = (processTrailers limits later).2 →
      Changes limits state later →
      (∃ again, (consumeBody limits 0 (consumeBody limits 0 state).2).1 = .error again) ∨
        state.Losing limits := by
    intro later phase stopped same changes
    rcases processTrailers_retried phase stopped with ⟨stays, again, refused⟩ |
      ⟨lost, more, loses⟩
    · left
      rw [same, consumeBody_trailers_failed 0 stays refused]
      exact ⟨again, rfl⟩
    · exact .inr ⟨lost, changes.trans more, loses⟩
  cases phase : state.phase with
  | bodyContentLength remaining =>
    have counts := sane.counts
    rw [phase] at counts
    exact .inl (unchanged (advance_content limits phase counts))
  | bodyChunkedSize =>
    cases split : splitLine state.buf with
    | none => simp [consumeBody, processChunkedSize, phase, split] at failed
    | some pair =>
      obtain ⟨line, rest⟩ := pair
      rcases read : chunkSizeLine limits state line rest with ⟨refusal | _, next⟩
      · have outcome : consumeBody limits 0 state = (.error refusal, next) := by
          simp [consumeBody, processChunkedSize, phase, split, read]
        rcases chunkSizeLine_refused phase split read with same | loses
        · exact .inl (unchanged (by rw [outcome, same]))
        · exact .inr ⟨state, .refl, loses.2⟩
      · have changed : Change limits state _ := .sizeLine phase split
        rw [read] at changed
        by_cases last : next.phase = .chunkedTrailer
        · rcases processed : processTrailers limits next with ⟨refusal | _, final⟩
          · have outcome : consumeBody limits 0 state = (.error refusal, final) := by
              simp [consumeBody, processChunkedSize, phase, split, read, last, processed]
            rw [outcome] at failed
            cases failed
            exact trailed next last (by rw [processed]) (by rw [outcome, processed])
              (.single changed)
          · exfalso
            simp only [consumeBody, processChunkedSize, phase, split, read, last, processed, ne_eq,
              not_true, if_false, if_true] at failed
            split at failed <;> cases failed
        · exfalso
          simp only [consumeBody, processChunkedSize, phase, split, read, ne_eq,
            not_true, if_false, if_neg last] at failed
          split at failed <;> cases failed
  | chunkedTrailer =>
    rcases processed : processTrailers limits state with ⟨refusal | advanced, final⟩
    · have outcome := consumeBody_trailers_failed 0 phase (by rw [processed])
      rw [outcome] at failed
      cases failed
      exact trailed state phase (by rw [processed]) (by rw [outcome]) .refl
    · exfalso
      simp only [consumeBody, phase, processed] at failed
      split at failed
      · cases failed
      · split at failed <;> cases failed
  | bodyChunkedDataCrlf =>
    left
    rcases chunkDataCrlf_cases state with ⟨_, read⟩ | ⟨_, read⟩ | ⟨_, _, read⟩
    · simp [consumeBody, phase, read] at failed
    · exact unchanged (by simp [consumeBody, phase, read])
    · simp [consumeBody, phase, read] at failed
  | complete => simp [consumeBody, phase, takeTrailers] at failed
  | startLine | headers | bodyChunkedData | bodyCloseDelimited | tunnel =>
    exact .inl (unchanged (by simp [consumeBody, phase]))

/-- Where moving on fails, nothing is shown. -/
theorem unseen_of_failed (sane : state.Sane limits) {error : Error}
    (failed : (consumeBody limits 0 state).1 = .error error) : state.peekBody = none := by
  cases phase : state.phase with
  | bodyContentLength remaining =>
    -- The counter has room for what is waited for, so waiting does not fail.
    exfalso
    have fits := sane.fits
    have sum : checkedAdd state.bodyDecoder.bodyConsumed 0 =
        some state.bodyDecoder.bodyConsumed := by
      rw [checkedAdd, if_pos (by omega), Nat.add_zero]
    simp only [consumeBody, phase, addConsumed, Nat.not_lt_zero, if_false, sum] at failed
    split at failed
    · cases failed
    · cases failed
  | bodyChunkedData | bodyCloseDelimited => simp [consumeBody, phase] at failed
  | startLine | headers | bodyChunkedSize | bodyChunkedDataCrlf | chunkedTrailer | tunnel
  | complete => simp [peekBody, phase]

/-- What is refused of a body up to the end of the connection stays in the buffer. -/
theorem lasting_refused {len : Nat} {error : Error} (phase : state.phase = .bodyCloseDelimited)
    (failed : (consumeBody limits len state).1 = .error error) :
    (consumeBody limits len state).2 = state := by
  simp only [consumeBody, phase] at failed ⊢
  -- Too few bytes, none at all or a body too large: each is found before anything is taken.
  by_cases short : state.buf.length < len
  · rw [if_pos short]
  rw [if_neg short] at failed ⊢
  by_cases empty : len = 0
  · rw [if_pos empty]
  rw [if_neg empty] at failed ⊢
  cases added : addConsumed limits len state with
  | error _ => rfl
  | ok total =>
    rw [added] at failed
    dsimp only at failed ⊢
    by_cases large : limits.maxBodySize < total
    · rw [if_pos large]
    · rw [if_neg large] at failed
      cases failed

/-- Consuming what is shown fails where it was, or at the line end behind it. -/
theorem collect_retried (sane : state.Sane limits) {data : Bytes} {error : Error}
    (peeked : state.peekBody = some data)
    (failed : (consumeBody limits data.length state).1 = .error error) :
    (consumeBody limits data.length state).2 = state ∨
      ∃ again, (consumeBody limits 0 (consumeBody limits data.length state).2).1 =
        .error again := by
  have fits := sane.fits
  cases phase : state.phase with
  | bodyContentLength remaining =>
    exfalso
    simp only [peekBody, phase] at peeked
    obtain ⟨enough, buffered, _⟩ := Reader.take_of_peeked peeked le_rfl
    rw [phase] at fits
    dsimp only [DecodePhase.remaining] at fits
    have sum : checkedAdd state.bodyDecoder.bodyConsumed data.length =
        some (state.bodyDecoder.bodyConsumed + data.length) := by
      rw [checkedAdd, if_pos (by omega)]
    simp only [consumeBody, phase, addConsumed, sum, if_neg (Nat.not_lt.mpr enough),
      if_neg (Nat.not_lt.mpr buffered)] at failed
    split at failed
    · cases failed
    · split at failed <;> cases failed
  | bodyChunkedData remaining =>
    right
    have present := List.length_pos_of_ne_nil (Decoder.peekBody_ne_nil peeked)
    simp only [peekBody, phase] at peeked
    obtain ⟨enough, buffered, _⟩ := Reader.take_of_peeked peeked le_rfl
    rw [phase] at fits
    dsimp only [DecodePhase.remaining] at fits
    have sum : checkedAdd state.bodyDecoder.bodyConsumed data.length =
        some (state.bodyDecoder.bodyConsumed + data.length) := by
      rw [checkedAdd, if_pos (by omega)]
    by_cases last : remaining - data.length = 0
    · -- Only the line end can be refused, and it stays.
      have outcome : consumeBody limits data.length state =
          chunkDataCrlf (state.afterContent data.length .bodyChunkedDataCrlf) := by
        simp only [consumeBody, phase, addConsumed, sum, if_neg (Nat.not_lt.mpr enough),
          if_neg (Nat.not_lt.mpr buffered), if_neg (Nat.pos_iff_ne_zero.mp present), if_pos last,
          afterContent]
      rw [outcome] at failed ⊢
      rcases chunkDataCrlf_cases (state.afterContent data.length .bodyChunkedDataCrlf) with
        ⟨_, read⟩ | ⟨again, read⟩ | ⟨_, _, read⟩
      · rw [read] at failed
        cases failed
      · rw [read]
        exact ⟨again, congrArg Prod.fst read⟩
      · rw [read] at failed
        cases failed
    · exfalso
      simp only [consumeBody, phase, addConsumed, sum, if_neg (Nat.not_lt.mpr enough),
        if_neg (Nat.not_lt.mpr buffered), if_neg (Nat.pos_iff_ne_zero.mp present),
        if_neg last] at failed
      cases failed
  | bodyCloseDelimited => exact .inl (lasting_refused phase failed)
  | startLine | headers | bodyChunkedSize | bodyChunkedDataCrlf | chunkedTrailer | tunnel
  | complete => simp [peekBody, phase] at peeked

end BodyState

namespace Core

variable {Head Context : Type} {side : Side Head Context} {core : Core Context}

/-- Some line is lost. -/
def Losing (side : Side Head Context) (core : Core Context) : Prop :=
  ∃ lost, Changes side core lost ∧ lost.Loses side

/-- A line that is lost in the body is lost. -/
theorem losing_body (losing : core.toBodyState.Losing core.limits) : core.Losing side := by
  obtain ⟨lost, changes, loses⟩ := losing
  exact ⟨_, changes_body side changes, .inl loses⟩

/-- What is lost later is lost. -/
theorem Losing.before {next : Core Context} (losing : next.Losing side)
    (changes : Changes side core next) : core.Losing side := by
  obtain ⟨lost, more, loses⟩ := losing
  exact ⟨lost, changes.trans more, loses⟩

/-- A line of a head that is refused stays in the buffer, or is lost. -/
theorem headLine_refused {next : Core Context} {line rest : Bytes} {error : Error}
    (heading : core.phase.isHeading = true) (split : splitLine core.buf = some (line, rest))
    (refused : core.headLine side line rest = (.error error, next)) :
    next = core ∨ next = { core with buf := rest } ∧ core.Loses side := by
  rcases headLine_cases side core line rest with ⟨_, _, read⟩ | ⟨taken, _, read⟩ | ⟨_, _, _, read⟩
  · rw [read] at refused
    cases refused
    exact .inl rfl
  · right
    refine ⟨by rw [read] at refused; cases refused; rfl, .inr ⟨line, rest, split, ?_⟩⟩
    have phases : core.phase = .startLine ∨ core.phase = .headers := by
      simpa [DecodePhase.isHeading] using heading
    rcases phases with phase | phase
    · -- The text of the start line was there, so it is the line itself that was refused.
      simp only [phase]
      simp only [refuses, phase, if_true, Bool.not_eq_false'] at taken
      rcases decoded : lineText line with _ | text
      · simp [decoded, Except.isOk, Except.toBool] at taken
      · refine ⟨text, rfl, fun accepted => ?_⟩
        simp [headLine, phase, readStartLine, decoded, accepted, Except.map] at refused
    · simp only [phase]
      have later : core.phase ≠ .startLine := by simp [phase]
      by_cases empty : line = []
      · refine .inl ⟨empty, fun startLine decoded started accepted => ?_⟩
        simp [headLine, later, empty, finishHeaders, started, accepted, Except.map] at refused
      · right
        have present : line.isEmpty = false := by simpa using empty
        simp only [refuses, if_neg later, present, Bool.not_false, Bool.true_and] at taken
        obtain ⟨short, few, text, decoded⟩ := refusesLine_eq_false.mp taken
        refine ⟨text, ⟨empty, short, few, decoded⟩, fun field parsed => ?_⟩
        have long : ¬ core.limits.maxHeaderLineSize < line.length := by omega
        have many : ¬ core.limits.maxHeadersCount ≤ core.headers.length := by omega
        simp [headLine, later, empty, readHeaderLine, long, many, decoded, parsed,
          Except.map] at refused
  · rw [read] at refused
    cases refused

/-- Reading a head that fails does so again, or a line is lost. -/
theorem decodeHeaders_retried (side : Side Head Context) (core : Core Context)
    (failed : (core.decodeHeaders side).1.isOk = false) :
    ((core.decodeHeaders side).2.decodeHeaders side).1.isOk = false ∨ core.Losing side := by
  refine (decodeHeadersLoop side).run_rule
    (motive := fun core result => result.1.isOk = false →
      (result.2.decodeHeaders side).1.isOk = false ∨ core.Losing side) ?_ ?_ core failed
  · intro core result pass failed
    -- Where the last pass changed nothing, the next call starts with that pass.
    have unchanged : result.2 = core → (result.2.decodeHeaders side).1.isOk = false := by
      intro same
      rw [same, decodeHeaders, (decodeHeadersLoop side).run_of_return pass]
      exact failed
    rcases decodeHeadersPass_returned pass with ⟨_, _, rfl⟩ |
      ⟨heading, _, line, rest, split, read⟩ | ⟨_, _, _, rfl⟩
    · cases failed
    · rcases result with ⟨_ | _, next⟩
      · rcases headLine_refused heading split read with same | loses
        · exact .inl (unchanged same)
        · exact .inr ⟨core, .refl, loses.2⟩
      · cases failed
    · exact .inl (unchanged rfl)
  · intro core next result pass ih failed
    refine (ih failed).imp_right fun losing => ?_
    rcases decodeHeadersPass_continued pass with ⟨heading, line, rest, split, read⟩ |
      ⟨complete, rfl⟩
    · have changed : Change side core _ := .headLine heading split
      rw [read] at changed
      exact losing.before (.single changed)
    · exact losing.before (.single (.next complete))

end Core

namespace Decoder

variable {Head Context : Type} {side : Side Head Context} {decoder : Decoder Head Context}

/-- One pass of collecting a body that fails does so again, or a line is lost. -/
theorem readBodyPass_retried (side : Side Head Context) (lawful : side.Lawful)
    (limited : side.Limited) (sane : decoder.toCore.Sane) {error : Error}
    {next : Decoder Head Context} (pass : decoder.readBodyPass = .inr (.error error, next)) :
    (∃ again, next.readBody.1 = .error again) ∨ decoder.toCore.Losing side := by
  -- A pass that fails ends the loop it starts.
  have again : ∀ {later : Decoder Head Context} {refusal : Error},
      later.peekBody = none → later.progress.1 = .error refusal →
        ∃ again, later.readBody.1 = .error again := by
    intro later refusal hidden failed
    rcases moved : later.progress with ⟨stop | _, last⟩
    · have returned : later.readBodyPass = .inr (.error stop, last) := by
        simp only [readBodyPass, hidden, moved]
      exact ⟨stop, by rw [readBody, readBodyLoop.run_of_return returned]⟩
    · rw [moved] at failed
      cases failed
  unfold readBodyPass at pass
  cases peeked : decoder.peekBody with
  | some data =>
    left
    have present := List.length_pos_of_ne_nil (peekBody_ne_nil peeked)
    simp only [peeked, consumeBody_eq _ present] at pass
    rcases consumed : BodyState.consumeBody decoder.limits data.length decoder.toBodyState with
      ⟨refusal | _, state⟩
    · simp only [consumed, Sum.inr.injEq, Prod.mk.injEq, Except.error.injEq] at pass
      obtain ⟨rfl, rfl⟩ := pass
      have retried := BodyState.collect_retried sane.body peeked (by rw [consumed])
      rw [consumed] at retried
      rcases retried with same | ⟨refusal, failed⟩
      · -- The bytes are still there, and are refused again.
        dsimp only at same
        subst same
        have returned : readBodyPass { decoder with decodedBody := decoder.decodedBody ++ data } =
            .inr (.error refusal, { decoder with
              decodedBody := decoder.decodedBody ++ data ++ data }) := by
          unfold readBodyPass
          rw [show peekBody { decoder with decodedBody := decoder.decodedBody ++ data } = some data
            from peeked]
          simp only [consumeBody_eq _ present, consumed]
        exact ⟨refusal, by rw [readBody, readBodyLoop.run_of_return returned]⟩
      · have kept := Core.Changes.sane lawful limited
          (Core.changes_body side (BodyState.consumeBody_changes decoder.limits data.length _)) sane
        rw [consumed] at kept
        exact again (BodyState.unseen_of_failed kept.body failed) failed
    · simp only [consumed] at pass
      split at pass <;> cases pass
  | none =>
    simp only [peeked, progress_eq] at pass
    rcases consumed : BodyState.consumeBody decoder.limits 0 decoder.toBodyState with
      ⟨refusal | _ | _ | _, state⟩
    · simp only [consumed, Sum.inr.injEq, Prod.mk.injEq, Except.error.injEq] at pass
      obtain ⟨rfl, rfl⟩ := pass
      have retried := BodyState.advance_retried sane.body (by rw [consumed])
      rw [consumed] at retried
      rcases retried with ⟨refusal, failed⟩ | losing
      · left
        have kept := Core.Changes.sane lawful limited
          (Core.changes_body side (BodyState.consumeBody_changes decoder.limits 0 _)) sane
        rw [consumed] at kept
        exact again (BodyState.unseen_of_failed kept.body failed) failed
      · exact .inr (Core.losing_body losing)
    · simp [consumed] at pass
    · simp [consumed] at pass
    · simp [consumed] at pass

/-- Collecting a body that fails does so again, or a line is lost. -/
theorem readBody_retried (lawful : side.Lawful) (limited : side.Limited)
    (sane : decoder.toCore.Sane) {error : Error} (failed : decoder.readBody.1 = .error error) :
    (∃ again, decoder.readBody.2.readBody.1 = .error again) ∨ decoder.toCore.Losing side := by
  -- The pass that fails is repeated, and the passes before it took what they took.
  refine readBodyLoop.run_rule (motive := fun decoder result => decoder.toCore.Sane →
    result.1 = .error error →
      (∃ again, result.2.readBody.1 = .error again) ∨ decoder.toCore.Losing side)
    ?_ ?_ decoder sane failed
  · intro decoder result pass sane failed
    obtain ⟨_, next⟩ := result
    cases failed
    exact readBodyPass_retried side lawful limited sane pass
  · intro decoder next result pass ih sane failed
    have moves := readBodyPass_moves decoder
    rw [show readBodyPass decoder = .inl next from pass] at moves
    have changes := moves.changes side
    -- A line that is lost behind this pass is lost behind the whole body.
    refine (ih (changes.sane lawful limited sane) failed).imp_right fun losing => ?_
    exact losing.before changes

/-- Reading the head to collect that fails does so again, or a line is lost. -/
theorem decodeHead_retried (side : Side Head Context) (decoder : Decoder Head Context)
    (failed : (decoder.decodeHead side).1.isOk = false) :
    ((decoder.decodeHead side).2.decodeHead side).1.isOk = false ∨
      decoder.toCore.Losing side := by
  cases found : decoder.decoded with
  | some decoded =>
    simp only [decodeHead, found] at failed
    cases failed
  | none =>
    by_cases heading : decoder.phase = .startLine ∨ decoder.phase = .headers
    · have retried := Core.decodeHeaders_retried side decoder.toCore
      have inside : decoder.phase.isHeading = true := by simpa [DecodePhase.isHeading] using heading
      obtain ⟨_, _, read⟩ := Core.decodeHeaders_keeps side decoder.toCore decoder.context
        (.inl ⟨inside, rfl⟩)
      rw [decodeHead_eq side found heading] at failed ⊢
      rcases headers : decoder.toCore.decodeHeaders side with ⟨refusal | _ | _, core⟩
      · rw [headers] at retried read
        refine (retried rfl).imp_left fun again => ?_
        have later : core.phase = .startLine ∨ core.phase = .headers := by
          simpa [DecodePhase.isHeading] using read
        have same : decodeHead side { decoder with toCore := core } = _ :=
          decodeHead_eq side (show ({ decoder with toCore := core } :
            Decoder Head Context).decoded = none from found) later
        rw [same]
        rcases more : core.decodeHeaders side with ⟨_ | _, _⟩ <;> rw [more] at again
        · rfl
        · cases again
      · rw [headers] at failed
        cases failed
      · rw [headers] at failed
        cases failed
    · -- In any other phase the call is refused, and changes nothing.
      have refused := decodeHead_refused side found heading
      rw [refused]
      exact .inl (by rw [refused]; rfl)

/-- Collecting the body behind a head that fails does so again, or a line is lost. -/
theorem headed_retried (lawful : side.Lawful) (limited : side.Limited)
    (sane : decoder.toCore.Sane) {headed last : Decoder Head Context} {error : Error}
    (changes : Core.Changes side decoder.toCore headed.toCore)
    (failed : headed.readBody = (.error error, last)) :
    last.decoded = headed.decoded ∧
      ((∃ again later, last.readBody = (.error again, later)) ∨ decoder.toCore.Losing side) := by
  have frame := (readBody_frame headed).1.1
  have retried := readBody_retried lawful limited (changes.sane lawful limited sane)
    (show headed.readBody.1 = .error error by rw [failed])
  rw [failed] at frame retried
  -- The changes of the head come before what the body loses.
  refine ⟨frame, retried.imp (fun again => ?_) fun losing => losing.before changes⟩
  obtain ⟨again, refused⟩ := again
  exact ⟨again, _, Prod.ext refused rfl⟩

/-- A body that ends by a length or with its last chunk. -/
def IsDelimited (bodyKind : BodyKind) : Prop :=
  bodyKind = .chunked ∨ ∃ length, bodyKind = .contentLength length

/-- A call for a whole message that fails where its head or its delimited body fails. -/
structure FailsInParts {Whole : Type} (side : Side Head Context)
    (decode : Decoder Head Context → Except Error (Option Whole) × Decoder Head Context) : Prop where
  /-- What the head is refused for is what the call is refused for. -/
  refused : ∀ {decoder next : Decoder Head Context} {error : Error},
    decoder.decodeHead side = (.error error, next) → decode decoder = (.error error, next)
  /-- To wait for the head is no failure. -/
  awaited : ∀ {decoder next : Decoder Head Context},
    decoder.decodeHead side = (.ok none, next) → (decode decoder).1.isOk = true
  /-- So it is with the body that is collected behind the head. -/
  uncollected : ∀ {decoder headed last : Decoder Head Context} {head : Head} {bodyKind : BodyKind}
    {error : Error}, decoder.decodeHead side = (.ok (some (head, bodyKind)), headed) →
    IsDelimited bodyKind → headed.readBody = (.error error, last) →
      decode decoder = (.error error, last)
  /-- Neither to wait for the body nor to have it is a failure. -/
  collected : ∀ {decoder headed last : Decoder Head Context} {head : Head} {bodyKind : BodyKind}
    {complete : Bool}, decoder.decodeHead side = (.ok (some (head, bodyKind)), headed) →
    IsDelimited bodyKind → headed.readBody = (.ok complete, last) → (decode decoder).1.isOk = true

/-- What fails in its parts fails again or loses a line, unless its body is not delimited. -/
theorem FailsInParts.retried {Whole : Type}
    {decode : Decoder Head Context → Except Error (Option Whole) × Decoder Head Context}
    (parts : FailsInParts side decode) (lawful : side.Lawful) (limited : side.Limited)
    (sane : decoder.toCore.Sane) (failed : (decode decoder).1.isOk = false)
    (undelimited : ∀ head bodyKind headed, ¬ IsDelimited bodyKind →
      decoder.decodeHead side = (.ok (some (head, bodyKind)), headed) →
        (decode (decode decoder).2).1.isOk = false ∨ decoder.toCore.Losing side) :
    (decode (decode decoder).2).1.isOk = false ∨ decoder.toCore.Losing side := by
  have changes := decodeHead_changes side decoder
  have retried := decodeHead_retried side decoder
  -- The head is refused, is awaited, which is no failure, or is there.
  rcases read : decoder.decodeHead side with ⟨error | _ | ⟨head, bodyKind⟩, headed⟩
  · rw [read] at retried
    rw [parts.refused read]
    refine (retried rfl).imp_left fun again => ?_
    rcases more : headed.decodeHead side with ⟨_ | _, _⟩ <;> rw [more] at again
    · rw [parts.refused more]
      rfl
    · cases again
  · rw [parts.awaited read] at failed
    cases failed
  · by_cases delimited : IsDelimited bodyKind
    · rcases body : headed.readBody with ⟨error | complete, last⟩
      · -- The head is found again, and behind it the body fails again.
        rw [read] at changes
        obtain ⟨same, again⟩ := headed_retried lawful limited sane changes body
        rw [parts.uncollected read delimited body]
        refine again.imp_left fun again => ?_
        obtain ⟨again, later, refused⟩ := again
        have there := decodeHead_found side (same.trans (decodeHead_decoded read))
        rw [parts.uncollected there delimited refused]
        rfl
      · rw [parts.collected read delimited body] at failed
        cases failed
    · exact undelimited head bodyKind headed delimited read

end Decoder

namespace RequestDecoder

open Decoder

/-- A call for a whole request fails where its head or its body fails. -/
theorem decode_parts : FailsInParts side decode where
  refused := by
    intro decoder next error read
    simp [decode, read]
  awaited := by
    intro decoder next read
    simp [decode, read, Except.isOk, Except.toBool]
  uncollected := by
    intro decoder headed last head bodyKind error read delimited body
    rcases delimited with rfl | ⟨_, rfl⟩ <;> simp [decode, read, body]
  collected := by
    intro decoder headed last head bodyKind complete read delimited body
    cases complete <;> rcases delimited with rfl | ⟨_, rfl⟩ <;>
      simp [decode, read, body, finish, Except.isOk, Except.toBool]

/-- A call for a whole request that fails does so again, or a line is lost. -/
theorem decode_retried {decoder : RequestDecoder} (sane : decoder.toCore.Sane)
    (failed : (decode decoder).1.isOk = false) :
    (decode (decode decoder).2).1.isOk = false ∨ decoder.toCore.Losing side := by
  refine decode_parts.retried side_lawful side_limited sane failed ?_
  intro head bodyKind headed undelimited read
  -- Without a delimited body only a tunnel fails.
  cases bodyKind with
  | chunked => exact absurd (.inl rfl) undelimited
  | contentLength length => exact absurd (.inr ⟨length, rfl⟩) undelimited
  | tunnel =>
    have there := decodeHead_found side (decodeHead_decoded read)
    exact .inl (by simp [decode, read, there, Except.isOk, Except.toBool])
  | closeDelimited => simp [decode, read, finish, Except.isOk, Except.toBool] at failed
  | none => simp [decode, read, finish, Except.isOk, Except.toBool] at failed

end RequestDecoder

namespace ResponseDecoder

open Decoder

/-- Reading up to the close that fails does so again, since what was refused stays. -/
theorem readUntilClose_retried {decoder last : ResponseDecoder} {error : Error}
    (phases : decoder.phase = .bodyCloseDelimited ∨ decoder.phase = .complete)
    (failed : readUntilClose decoder = (.error error, last)) :
    last.decoded = decoder.decoded ∧ ∃ again later, readUntilClose last = (.error again, later) := by
  have frame := (readUntilClose_moves decoder).2.1
  rw [failed] at frame
  refine ⟨frame, ?_⟩
  rcases phases with phase | phase
  · cases peeked : decoder.peekBody with
    | none => simp [readUntilClose, peeked] at failed
    | some data =>
      have present := List.length_pos_of_ne_nil (peekBody_ne_nil peeked)
      -- Before anything is collected, the call fails as it did.
      have unchanged : last = decoder → ∃ again later, readUntilClose last = (.error again, later) :=
        fun same => by subst same; exact ⟨error, _, failed⟩
      have read := failed
      simp only [readUntilClose, peeked, consumeBody_eq _ present] at read
      split at read
      · cases read
        exact unchanged rfl
      · split at read
        · cases read
          exact unchanged rfl
        · -- The bytes were collected but stay in the buffer, where they are refused again.
          rcases consumed : BodyState.consumeBody decoder.limits data.length decoder.toBodyState with
            ⟨refusal | _, state⟩
          · have same := BodyState.lasting_refused phase (show (BodyState.consumeBody decoder.limits
              data.length decoder.toBodyState).1 = .error refusal by rw [consumed])
            rw [consumed] at same
            dsimp only at same
            subst same
            simp only [consumed, Prod.mk.injEq, Except.error.injEq] at read
            obtain ⟨rfl, rfl⟩ := read
            have shown : peekBody { decoder with decodedBody := decoder.decodedBody ++ data } =
              some data := peeked
            simp only [readUntilClose, shown, consumeBody_eq _ present, consumed]
            split
            · exact ⟨_, _, rfl⟩
            · split <;> exact ⟨_, _, rfl⟩
          · simp [consumed] at read
  · have hidden : decoder.peekBody = none := by
      simp [Decoder.peekBody, BodyState.peekBody, phase]
    simp [readUntilClose, hidden] at failed

/-- A body up to the close is collected only in its own phase. -/
def Lasts (decoder : ResponseDecoder) : Prop :=
  ∀ head, decoder.decoded = some (head, .closeDelimited) →
    decoder.phase = .bodyCloseDelimited ∨ decoder.phase = .complete

/-- A call for a whole response fails where its head or its delimited body fails. -/
theorem decode_parts : FailsInParts side decode where
  refused := by
    intro decoder next error read
    simp [decode, read]
  awaited := by
    intro decoder next read
    simp [decode, read, Except.isOk, Except.toBool]
  uncollected := by
    intro decoder headed last head bodyKind error read delimited body
    rcases delimited with rfl | ⟨_, rfl⟩ <;> simp [decode, read, body]
  collected := by
    intro decoder headed last head bodyKind complete read delimited body
    cases complete <;> rcases delimited with rfl | ⟨_, rfl⟩ <;>
      simp [decode, read, body, finish, Except.isOk, Except.toBool]

/-- A call for a whole response that fails does so again, or a line is lost. -/
theorem decode_retried {decoder : ResponseDecoder} (sane : decoder.toCore.Sane)
    (lasts : Lasts decoder) (failed : (decode decoder).1.isOk = false) :
    (decode (decode decoder).2).1.isOk = false ∨ decoder.toCore.Losing side := by
  refine decode_parts.retried side_lawful side_limited sane failed ?_
  intro head bodyKind headed undelimited read
  have found := decodeHead_decoded read
  -- Here a body up to the close can fail as well as a tunnel.
  cases bodyKind with
  | chunked => exact absurd (.inl rfl) undelimited
  | contentLength length => exact absurd (.inr ⟨length, rfl⟩) undelimited
  | tunnel =>
    have there := decodeHead_found side found
    exact .inl (by simp [decode, read, there, Except.isOk, Except.toBool])
  | closeDelimited =>
    left
    have phases : headed.phase = .bodyCloseDelimited ∨ headed.phase = .complete := by
      -- A head that was there had left the decoder in that body, a new one has just led to it.
      rcases decodeHead_cases side decoder with ⟨_, there, same⟩ |
        ⟨_, _, _, _, same, _, phase, _⟩ | ⟨_, _, _, same, unread, _⟩ <;> rw [read] at same <;>
        cases same
      · exact lasts head there
      · exact .inl phase
      · exact absurd rfl (unread _)
    -- Only an error of reading fails, and reading again meets it again.
    rcases body : readUntilClose headed with ⟨error | _, last⟩
    · have outcome : decode decoder = (.error error, last) := by simp [decode, read, body]
      obtain ⟨same, again, later, refused⟩ := readUntilClose_retried phases body
      have there := decodeHead_found side (same.trans found)
      rw [outcome]
      simp [decode, there, refused, Except.isOk, Except.toBool]
    · simp only [decode, read, body] at failed
      split at failed <;> cases failed
  | none => simp [decode, read, finish, Except.isOk, Except.toBool] at failed

end ResponseDecoder

/-- A call that reads input and fails does so again when no line is lost. -/
theorem Api.fails_kept {Head Context Whole : Type} {api : Api Head Context Whole}
    {decoder : Decoder Head Context} (sane : decoder.toCore.Sane)
    (kept : ¬ decoder.toCore.Losing api.side)
    (decode : (api.decode decoder).1.isOk = false →
      (api.decode (api.decode decoder).2).1.isOk = false ∨ decoder.toCore.Losing api.side)
    (call : Call Context) (failed : api.fails decoder call = true) :
    api.fails (api.call decoder call) call = true := by
  -- Three calls read input and can fail; the others never do.
  cases call with
  | decodeHeaders =>
    simp only [Api.fails, Bool.not_eq_true'] at failed ⊢
    have retried := Core.decodeHeaders_retried api.side decoder.toCore failed
    exact retried.resolve_right kept
  | progress =>
    simp only [Api.fails, Bool.not_eq_true'] at failed ⊢
    -- Moving on is refused again unless a line has been lost.
    rcases consumed : decoder.progress with ⟨error | _, next⟩ <;> rw [consumed] at failed
    · have retried := BodyState.advance_retried sane.body
        (show (BodyState.consumeBody decoder.limits 0 decoder.toBodyState).1 = .error error from
          congrArg Prod.fst consumed)
      obtain ⟨again, refused⟩ := retried.resolve_right fun losing => kept (Core.losing_body losing)
      change (BodyState.consumeBody decoder.limits 0
        (BodyState.consumeBody decoder.limits 0 decoder.toBodyState).2).1.isOk = false
      rw [refused]
      rfl
    · cases failed
  | decode =>
    simp only [Api.fails, Bool.not_eq_true'] at failed ⊢
    exact (decode failed).resolve_right kept
  | feed | mutBuf | write | advanceBuf | tell | peekBody | consumeBody | markEof => cases failed

/-- A call that failed fails again, as long as no refused line is off the buffer. -/
theorem fails_again (limits : DecoderLimits) :
    (∀ decoder call, RequestDecoder.api.Reachable limits (fun _ => true) decoder →
      ¬ decoder.toCore.Losing RequestDecoder.side → RequestDecoder.api.fails decoder call = true →
        RequestDecoder.api.fails (RequestDecoder.api.call decoder call) call = true) ∧
    (∀ decoder call, ResponseDecoder.api.Reachable limits (fun _ => true) decoder →
      ¬ decoder.toCore.Losing ResponseDecoder.side → ResponseDecoder.Lasts decoder →
      ResponseDecoder.api.fails decoder call = true →
        ResponseDecoder.api.fails (ResponseDecoder.api.call decoder call) call = true) := by
  refine ⟨fun decoder call reachable kept failed => ?_,
    fun decoder call reachable kept lasts failed => ?_⟩
  · have sane := (Api.request_lawful.reachable reachable).sane
    exact Api.fails_kept sane kept (RequestDecoder.decode_retried sane) call failed
  · have sane := (Api.response_lawful.reachable reachable).sane
    exact Api.fails_kept sane kept (ResponseDecoder.decode_retried sane lasts) call failed

/-- A start line that is not text stays in the buffer, and fails again. -/
theorem fails_again_kept :
    let api := RequestDecoder.api
    let decoder := api.call (api.fresh {}) (.feed [0xFF, 13, 10])
    api.fails decoder .decodeHeaders = true ∧
      api.fails (api.call decoder .decodeHeaders) .decodeHeaders = true := by
  intro api decoder
  have failed : api.fails decoder .decodeHeaders = true := by decide +kernel
  refine ⟨failed, (fails_again {}).1 decoder .decodeHeaders (.call _ .fresh rfl rfl) ?_ failed⟩
  have phase : decoder.phase = .startLine := rfl
  have split : splitLine decoder.buf = some ([0xFF], []) := by decide +kernel
  have text : ∀ text, lineText [0xFF] ≠ .ok text := by
    intro text
    have refused : (lineText [0xFF]).isOk = false := by decide +kernel
    cases decoded : lineText [0xFF] <;> simp_all [Except.isOk, Except.toBool]
  -- The only change there can be reads that line, and leaves everything as it was.
  have same : ∀ core, Core.Changes RequestDecoder.side decoder.toCore core →
      core = decoder.toCore := by
    intro core changes
    induction changes with
    | refl => rfl
    | tail _ last ih =>
      subst ih
      cases last with
      | body changed =>
        have outside := changed.outside
        rw [phase] at outside
        cases outside
      | headLine _ found =>
        rw [split] at found
        cases found
        decide +kernel
      | next complete =>
        rw [phase] at complete
        cases complete
  rintro ⟨lost, changes, loses⟩
  rw [same lost changes] at loses
  rcases loses with ⟨line, rest, found, inside⟩ | ⟨line, rest, found, inside⟩
  · simp only [phase] at inside
  · rw [split] at found
    cases found
    simp only [phase] at inside
    obtain ⟨read, decoded, _⟩ := inside
    exact text read decoded

/-- A malformed field is skipped by the next call, which hands out the head without it. -/
theorem fails_again_skipped :
    let api := RequestDecoder.api
    let decoder := api.call (api.fresh {})
      (.feed (Utf8.encode "GET / HTTP/1.1\r\nHost: a\r\nbad\r\n\r\n".toList))
    api.Reachable {} (fun _ => true) decoder ∧ api.fails decoder .decodeHeaders = true ∧
      api.fails (api.call decoder .decodeHeaders) .decodeHeaders = false ∧
      (RequestDecoder.decodeHeaders (api.call decoder .decodeHeaders)).1 =
        .ok (some (⟨"GET".toList, "/".toList, http11, [("Host".toList, "a".toList)]⟩, .none)) :=
  ⟨.call _ .fresh rfl rfl, by decide +kernel, by decide +kernel, by decide +kernel⟩

end Http11

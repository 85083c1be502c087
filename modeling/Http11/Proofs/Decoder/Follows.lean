import Http11.Proofs.Decoder.Consistent

/-! The methods of the decoders take the steps of the reader, several at a time. -/

namespace Http11

namespace Reader

variable {Head Context : Type} {side : Side Head Context} {limit : Option Nat}
  {reader : Reader Head Context}

/-- A reader that goes on has not failed. -/
theorem failed_of_running (running : reader.halted limit = false) : reader.failed = none := by
  simpa [halted] using (Bool.or_eq_false_iff.mp running).1

/-- Within one message, a reader goes on until it fails. -/
theorem running_of_done {next : Reader Head Context} (running : reader.halted limit = false)
    (unfailed : next.failed = none) (same : next.done = reader.done) :
    next.halted limit = false := by
  simpa [halted, unfailed, same] using (Bool.or_eq_false_iff.mp running).2

/-- A reader that has failed takes no step. -/
theorem settled_of_halted (stopped : reader.halted limit = true) :
    (machine side limit).Settled reader := by
  change reader.step side limit = none
  simp [step, stopped]

/-- The step at a line of the head. -/
theorem step_head (side : Side Head Context) (running : reader.halted limit = false)
    (heading : reader.core.phase = .startLine ∨ reader.core.phase = .headers) {line rest : Bytes}
    (split : splitLine reader.core.buf = some (line, rest)) :
    (machine side limit).Reaches reader
      (reader.afterHead (reader.core.headLine side line rest)) := by
  refine Incremental.Reaches.single ?_
  change reader.step side limit = _
  rcases heading with phase | phase <;> simp [step, running, phase, split]

/-- Without a line the reader of a head waits. -/
theorem settled_head (heading : reader.core.phase = .startLine ∨ reader.core.phase = .headers)
    (split : splitLine reader.core.buf = none) : (machine side limit).Settled reader := by
  change reader.step side limit = none
  unfold step
  cases reader.halted limit with
  | true => rfl
  | false => rcases heading with phase | phase <;> simp [phase, split]

/-- A tunnel takes no step. -/
theorem settled_tunnel (phase : reader.core.phase = .tunnel) :
    (machine side limit).Settled reader := by
  change reader.step side limit = none
  cases stopped : reader.halted limit <;> simp [step, stopped, phase]

/-- A body that lasts up to the end of the connection takes no step. -/
theorem settled_lasting (phase : reader.core.phase = .bodyCloseDelimited) :
    (machine side limit).Settled reader := by
  change reader.step side limit = none
  cases stopped : reader.halted limit <;> simp [step, stopped, phase]

/-- Nothing new about the head leaves the reader as it was. -/
theorem afterHead_same (unfailed : reader.failed = none) (unread : reader.current = none) :
    reader.afterHead (.ok none, reader.core) = reader := by
  obtain ⟨core, current, body, done, failed⟩ := reader
  simp_all [afterHead]

/-- An operation that changes nothing leaves the reader as it was. -/
theorem afterBody_same {Result : Type} (unfailed : reader.failed = none) (result : Result) :
    reader.afterBody (.ok result, reader.core.toBodyState) = reader := by
  obtain ⟨core, current, body, done, failed⟩ := reader
  simp_all [afterBody]

/-- Reading a head takes the steps of its lines, and waits when it is not complete. -/
theorem decodeHeaders_follows (side : Side Head Context) (running : reader.halted limit = false)
    (heading : reader.core.phase = .startLine ∨ reader.core.phase = .headers)
    (unread : reader.current = none) :
    (machine side limit).Reaches reader (reader.afterHead (reader.core.decodeHeaders side)) ∧
      ((reader.core.decodeHeaders side).1 = .ok none →
        ((reader.core.decodeHeaders side).2.phase = .startLine ∨
          (reader.core.decodeHeaders side).2.phase = .headers) ∧
        splitLine (reader.core.decodeHeaders side).2.buf = none) := by
  -- Each pass of the loop is one step, until a pass returns.
  refine (Core.decodeHeadersLoop side).run_rule
    (motive := fun core result => ∀ reader : Reader Head Context, reader.core = core →
      reader.halted limit = false → (core.phase = .startLine ∨ core.phase = .headers) →
      reader.current = none → (machine side limit).Reaches reader (reader.afterHead result) ∧
        (result.1 = .ok none → (result.2.phase = .startLine ∨ result.2.phase = .headers) ∧
          splitLine result.2.buf = none)) ?_ ?_ reader.core reader rfl running heading unread
  · rintro core result pass reader rfl running heading unread
    have unfailed := failed_of_running running
    change Core.decodeHeadersPass side reader.core = .inr result at pass
    cases split : splitLine reader.core.buf with
    | none =>
      -- Without a whole line nothing was read.
      have same : result = (.ok none, reader.core) := by
        rcases heading with phase | phase <;>
          simpa [Core.decodeHeadersPass, phase, split] using pass.symm
      subst same
      rw [afterHead_same unfailed unread]
      exact ⟨.refl, fun _ => ⟨heading, split⟩⟩
    | some pair =>
      obtain ⟨line, rest⟩ := pair
      -- A line that ends the head, or is refused, is the last step.
      have stepped := step_head side running heading split
      cases read : reader.core.headLine side line rest with
      | mk outcome next =>
        have same : result = (outcome, next) ∧ outcome ≠ .ok none := by
          rcases heading with phase | phase <;>
            simp only [Core.decodeHeadersPass, phase, split, read] at pass <;>
            (split at pass <;> cases pass <;> simp_all)
        obtain ⟨rfl, decided⟩ := same
        rw [read] at stepped
        exact ⟨stepped, fun waiting => absurd waiting decided⟩
  · rintro core next result pass ih reader rfl running heading unread
    have unfailed := failed_of_running running
    change Core.decodeHeadersPass side reader.core = .inl next at pass
    -- A pass that goes on has read a line of the head.
    cases split : splitLine reader.core.buf with
    | none =>
      rcases heading with phase | phase <;> simp [Core.decodeHeadersPass, phase, split] at pass
    | some pair =>
      obtain ⟨line, rest⟩ := pair
      have stepped := step_head side running heading split
      cases read : reader.core.headLine side line rest with
      | mk outcome after =>
        have same : outcome = .ok none ∧ after = next := by
          rcases heading with phase | phase <;>
            simp only [Core.decodeHeadersPass, phase, split, read] at pass <;>
            (split at pass <;> cases pass; simp_all)
        obtain ⟨rfl, rfl⟩ := same
        rw [read] at stepped
        have headers : after.phase = .headers := Core.headLine_phase heading read
        have goesOn : (reader.afterHead (.ok none, after)).halted limit = false :=
          running_of_done running rfl rfl
        have rest := ih (reader.afterHead (.ok none, after)) rfl goesOn (.inr headers) rfl
        exact ⟨stepped.trans rest.1, rest.2⟩

/-- Some bytes of the body at once, in the phase that follows. -/
def afterBytes (reader : Reader Head Context) (count : Nat) (phase : DecodePhase) :
    Reader Head Context :=
  { reader with
    core := { reader.core with
      buf := reader.core.buf.drop count
      phase
      bodyDecoder := { reader.core.bodyDecoder with
        bodyConsumed := reader.core.bodyDecoder.bodyConsumed + count } }
    body := reader.body ++ reader.core.buf.take count }

/-- Bytes that are counted down are read one by one. -/
theorem bytes_follow (side : Side Head Context) (counting : Nat → DecodePhase)
    (ended : DecodePhase)
    (counts : ∀ (reader : Reader Head Context) remaining byte rest, reader.halted limit = false →
      reader.core.phase = counting remaining → reader.core.buf = byte :: rest →
      reader.step side limit = some (reader.afterByte byte rest
        (if remaining = 1 then ended else counting (remaining - 1))))
    (count : Nat) {remaining : Nat} (running : reader.halted limit = false)
    (phase : reader.core.phase = counting remaining) (enough : count + 1 ≤ remaining)
    (buffered : count + 1 ≤ reader.core.buf.length) :
    (machine side limit).Reaches reader (reader.afterBytes (count + 1)
      (if remaining = count + 1 then ended else counting (remaining - (count + 1)))) := by
  -- The first byte is one step, and the others follow from the state after it.
  induction count generalizing reader remaining with
  | zero =>
    cases buf : reader.core.buf with
    | nil => simp [buf] at buffered
    | cons byte rest =>
      have stepped := counts reader remaining byte rest running phase buf
      have same : reader.afterByte byte rest
          (if remaining = 1 then ended else counting (remaining - 1)) =
          reader.afterBytes (0 + 1)
            (if remaining = 0 + 1 then ended else counting (remaining - (0 + 1))) := by
        simp [afterByte, afterBytes, buf]
      rw [← same]
      exact Incremental.Reaches.single stepped
  | succ count ih =>
    cases buf : reader.core.buf with
    | nil => simp [buf] at buffered
    | cons byte rest =>
      have stepped := counts reader remaining byte rest running phase buf
      rw [if_neg (by omega)] at stepped
      have room : count + 1 ≤ rest.length := by simpa [buf] using buffered
      have going : (reader.afterByte byte rest (counting (remaining - 1))).halted limit = false :=
        running_of_done running (failed_of_running running) rfl
      have later := ih going rfl (by omega) room
      -- One byte fewer is left on both sides.
      have phases : (if remaining = count + 1 + 1 then ended
          else counting (remaining - (count + 1 + 1))) =
          if remaining - 1 = count + 1 then ended else counting (remaining - 1 - (count + 1)) := by
        by_cases last : remaining = count + 1 + 1
        · rw [if_pos last, if_pos (by omega)]
        · rw [if_neg last, if_neg (by omega), Nat.sub_sub, Nat.add_comm 1]
      -- The counters of the two ways are sums in another order.
      have sum : reader.core.bodyDecoder.bodyConsumed + (count + 1 + 1) =
          reader.core.bodyDecoder.bodyConsumed + 1 + (count + 1) := by omega
      have same : reader.afterBytes (count + 1 + 1) (if remaining = count + 1 + 1 then ended
          else counting (remaining - (count + 1 + 1))) =
          (reader.afterByte byte rest (counting (remaining - 1))).afterBytes (count + 1)
            (if remaining - 1 = count + 1 then ended
              else counting (remaining - 1 - (count + 1))) := by
        simp only [phases, afterBytes, afterByte, sum, buf, List.drop_succ_cons,
          List.take_succ_cons, List.append_assoc, List.singleton_append]
      rw [same]
      exact .head stepped later

/-- What a body operation achieved, together with the phase it led to. -/
def Achieved (outcome : Except Error BodyProgress × BodyState) : Prop :=
  match outcome.1 with
  | .error _ => True
  | .ok (.complete trailers) => trailers = [] ∧ outcome.2.phase = .complete ∧
      outcome.2.bodyDecoder.trailers = []
  | .ok _ => outcome.2.phase ≠ .tunnel

/-- Body bytes that are shown are the first ones of the buffer. -/
theorem take_of_peeked {data : Bytes} {count : Nat} {buf : Bytes} {remaining : Nat}
    (peeked : (if (buf.take remaining).isEmpty then none else some (buf.take remaining)) =
      some data) (shown : count ≤ data.length) :
    count ≤ remaining ∧ count ≤ buf.length ∧ data.take count = buf.take count := by
  split at peeked
  · cases peeked
  · cases peeked
    rw [List.length_take] at shown
    refine ⟨by omega, by omega, ?_⟩
    rw [List.take_take, Nat.min_eq_left (by omega)]

/-- Consuming bytes of a body by length takes the steps of these bytes. -/
theorem consumeBody_contentLength (running : reader.halted limit = false)
    {remaining : Nat} (phase : reader.core.phase = .bodyContentLength remaining)
    (fits : reader.core.bodyDecoder.bodyConsumed + remaining ≤ usizeMax)
    (untrailed : reader.core.bodyDecoder.trailers = []) {count : Nat}
    (enough : count + 1 ≤ remaining) (buffered : count + 1 ≤ reader.core.buf.length) :
    (machine side limit).Reaches reader { reader.afterBody (BodyState.consumeBody
        reader.core.limits (count + 1) reader.core.toBodyState) with
      body := reader.body ++ reader.core.buf.take (count + 1) } ∧
    Achieved (BodyState.consumeBody reader.core.limits (count + 1) reader.core.toBodyState) := by
  -- The reader takes one byte at a time.
  have counts : ∀ (reader : Reader Head Context) remaining byte rest,
      reader.halted limit = false → reader.core.phase = .bodyContentLength remaining →
      reader.core.buf = byte :: rest → reader.step side limit = some (reader.afterByte byte rest
        (if remaining = 1 then .complete else .bodyContentLength (remaining - 1))) := by
    intro reader remaining byte rest running phase buf
    simp [step, running, phase, buf]
  have bytes := bytes_follow side _ _ counts count running phase enough buffered
  have unfailed := failed_of_running running
  have sum : checkedAdd reader.core.bodyDecoder.bodyConsumed (count + 1) =
      some (reader.core.bodyDecoder.bodyConsumed + (count + 1)) := by
    rw [checkedAdd, if_pos (by omega)]
  -- The bytes end the body, or leave some of it to come.
  by_cases last : remaining = count + 1
  · subst last
    have outcome : BodyState.consumeBody reader.core.limits (count + 1) reader.core.toBodyState =
        (.ok (.complete []), { reader.core.toBodyState with
          buf := reader.core.buf.drop (count + 1)
          phase := .complete
          bodyDecoder := { reader.core.bodyDecoder with
            bodyConsumed := reader.core.bodyDecoder.bodyConsumed + (count + 1) } }) := by
      simp [BodyState.consumeBody, phase, BodyState.addConsumed, sum, Nat.not_lt.mpr buffered]
    rw [outcome]
    refine ⟨?_, rfl, rfl, untrailed⟩
    simpa [afterBytes, afterBody, unfailed] using bytes
  · have outcome : BodyState.consumeBody reader.core.limits (count + 1) reader.core.toBodyState =
        (.ok .advanced, { reader.core.toBodyState with
          buf := reader.core.buf.drop (count + 1)
          phase := .bodyContentLength (remaining - (count + 1))
          bodyDecoder := { reader.core.bodyDecoder with
            bodyConsumed := reader.core.bodyDecoder.bodyConsumed + (count + 1) } }) := by
      have more : ¬ remaining - (count + 1) = 0 := by omega
      simp [BodyState.consumeBody, phase, BodyState.addConsumed, sum, Nat.not_lt.mpr buffered,
        Nat.not_lt.mpr enough, more]
    rw [outcome]
    refine ⟨?_, by simp [Achieved]⟩
    simpa [afterBytes, afterBody, unfailed, last] using bytes

/-- The line end after a chunk is one step, once it is there. -/
theorem chunkDataCrlf_follows (side : Side Head Context) (running : reader.halted limit = false)
    (phase : reader.core.phase = .bodyChunkedDataCrlf) :
    (machine side limit).Reaches reader
        (reader.afterBody reader.core.toBodyState.chunkDataCrlf) ∧
      Achieved reader.core.toBodyState.chunkDataCrlf ∧
      (reader.core.toBodyState.chunkDataCrlf.1 = .ok .needData → ∀ any,
        (machine side any).Settled (reader.afterBody reader.core.toBodyState.chunkDataCrlf)) := by
  have unfailed := failed_of_running running
  match buffered : reader.core.buf with
  | [] | [_] =>
    -- Nothing happens before both bytes are there.
    have waits : reader.core.toBodyState.chunkDataCrlf = (.ok .needData, reader.core.toBodyState) := by
      simp [BodyState.chunkDataCrlf, buffered]
    rw [waits, afterBody_same unfailed]
    refine ⟨.refl, by simp [Achieved, phase], fun _ any => ?_⟩
    change reader.step side any = none
    cases stopped : reader.halted any <;> simp [step, stopped, phase, buffered]
  | first :: second :: rest =>
    refine ⟨.single ?_, ?_, ?_⟩
    · change reader.step side limit = _
      simp [step, running, phase, buffered]
    · by_cases ended : [first, second] = crlf <;>
        simp [Achieved, BodyState.chunkDataCrlf, buffered, ended]
    · by_cases ended : [first, second] = crlf <;> simp [BodyState.chunkDataCrlf, buffered, ended]

/-- Consuming bytes of a chunk takes the steps of these bytes, and of the line end after them. -/
theorem consumeBody_chunkedData (running : reader.halted limit = false)
    {remaining : Nat} (phase : reader.core.phase = .bodyChunkedData remaining)
    (fits : reader.core.bodyDecoder.bodyConsumed + remaining ≤ usizeMax) {count : Nat}
    (enough : count + 1 ≤ remaining) (buffered : count + 1 ≤ reader.core.buf.length) :
    (machine side limit).Reaches reader { reader.afterBody (BodyState.consumeBody
        reader.core.limits (count + 1) reader.core.toBodyState) with
      body := reader.body ++ reader.core.buf.take (count + 1) } ∧
    Achieved (BodyState.consumeBody reader.core.limits (count + 1) reader.core.toBodyState) := by
  -- The bytes of a chunk are counted down like those of a length, to the line end behind them.
  have counts : ∀ (reader : Reader Head Context) remaining byte rest,
      reader.halted limit = false → reader.core.phase = .bodyChunkedData remaining →
      reader.core.buf = byte :: rest → reader.step side limit = some (reader.afterByte byte rest
        (if remaining = 1 then .bodyChunkedDataCrlf else .bodyChunkedData (remaining - 1))) := by
    intro reader remaining byte rest running phase buf
    simp [step, running, phase, buf]
  have bytes := bytes_follow side _ _ counts count running phase enough buffered
  have unfailed := failed_of_running running
  have sum : checkedAdd reader.core.bodyDecoder.bodyConsumed (count + 1) =
      some (reader.core.bodyDecoder.bodyConsumed + (count + 1)) := by
    rw [checkedAdd, if_pos (by omega)]
  by_cases last : remaining = count + 1
  · subst last
    -- The line end is tried from the state after the last byte.
    have outcome : BodyState.consumeBody reader.core.limits (count + 1) reader.core.toBodyState =
        (reader.afterBytes (count + 1) .bodyChunkedDataCrlf).core.toBodyState.chunkDataCrlf := by
      simp [BodyState.consumeBody, phase, BodyState.addConsumed, sum, Nat.not_lt.mpr buffered,
        afterBytes]
    rw [if_pos rfl] at bytes
    have going : (reader.afterBytes (count + 1) .bodyChunkedDataCrlf).halted limit = false :=
      running_of_done running unfailed rfl
    have ended := chunkDataCrlf_follows side going rfl
    rw [outcome]
    exact ⟨bytes.trans ended.1, ended.2.1⟩
  · have outcome : BodyState.consumeBody reader.core.limits (count + 1) reader.core.toBodyState =
        (.ok .advanced, { reader.core.toBodyState with
          buf := reader.core.buf.drop (count + 1)
          phase := .bodyChunkedData (remaining - (count + 1))
          bodyDecoder := { reader.core.bodyDecoder with
            bodyConsumed := reader.core.bodyDecoder.bodyConsumed + (count + 1) } }) := by
      -- Bytes of the chunk are left, so no line end is tried.
      have more : ¬ remaining - (count + 1) = 0 := by omega
      simp [BodyState.consumeBody, phase, BodyState.addConsumed, sum, Nat.not_lt.mpr buffered,
        Nat.not_lt.mpr enough, more]
    rw [outcome]
    refine ⟨?_, by simp [Achieved]⟩
    simpa [afterBytes, afterBody, unfailed, last] using bytes

/-- Consuming what is shown takes the steps of its bytes. -/
theorem consumeBody_follows (side : Side Head Context) (running : reader.halted limit = false)
    (consistent : reader.Consistent) (framed : reader.core.phase ≠ .bodyCloseDelimited)
    {data : Bytes} (peeked : reader.core.toBodyState.peekBody = some data) {len : Nat}
    (positive : 0 < len) (shown : len ≤ data.length) :
    (machine side limit).Reaches reader { reader.afterBody (BodyState.consumeBody
        reader.core.limits len reader.core.toBodyState) with
      body := reader.body ++ data.take len } ∧
    Achieved (BodyState.consumeBody reader.core.limits len reader.core.toBodyState) := by
  obtain ⟨count, rfl⟩ : ∃ count, len = count + 1 := ⟨len - 1, by omega⟩
  -- Bytes are shown only of a length or a chunk, as the body does not last up to the close.
  cases phase : reader.core.phase with
  | bodyContentLength remaining =>
    simp only [BodyState.peekBody, phase] at peeked
    obtain ⟨enough, buffered, same⟩ := take_of_peeked peeked shown
    simp only [Consistent, phase] at consistent
    rw [same]
    exact consumeBody_contentLength running phase consistent.2.2.1 consistent.2.2.2.1 enough
      buffered
  | bodyChunkedData remaining =>
    simp only [BodyState.peekBody, phase] at peeked
    obtain ⟨enough, buffered, same⟩ := take_of_peeked peeked shown
    simp only [Consistent, phase] at consistent
    rw [same]
    exact consumeBody_chunkedData running phase consistent.2.2.1 enough buffered
  | bodyCloseDelimited => exact absurd phase framed
  | startLine | headers | bodyChunkedSize | bodyChunkedDataCrlf | chunkedTrailer | tunnel
  | complete => simp [BodyState.peekBody, phase] at peeked

/-- The step at a chunk-size line. -/
theorem step_chunkSize (side : Side Head Context) (running : reader.halted limit = false)
    (phase : reader.core.phase = .bodyChunkedSize) {line rest : Bytes}
    (split : splitLine reader.core.buf = some (line, rest)) :
    reader.step side limit = some (reader.afterBody
      (reader.core.toBodyState.chunkSizeLine reader.core.limits line rest)) := by
  simp [step, running, phase, split]

/-- The step at a trailer line. -/
theorem step_trailer (side : Side Head Context) (running : reader.halted limit = false)
    (phase : reader.core.phase = .chunkedTrailer) {line rest : Bytes}
    (split : splitLine reader.core.buf = some (line, rest)) :
    reader.step side limit = some (reader.afterBody
      (reader.core.toBodyState.trailerLine reader.core.limits line rest)) := by
  simp [step, running, phase, split]

/-- The trailer loop takes the steps of its lines, and waits or completes. -/
theorem processTrailers_follows (side : Side Head Context) (running : reader.halted limit = false)
    (phase : reader.core.phase = .chunkedTrailer) :
    (machine side limit).Reaches reader (reader.afterBody
        (reader.core.toBodyState.processTrailers reader.core.limits)) ∧
      (∀ advanced, (reader.core.toBodyState.processTrailers reader.core.limits).1 = .ok advanced →
        (reader.core.toBodyState.processTrailers reader.core.limits).2.phase = .complete ∨
        (reader.core.toBodyState.processTrailers reader.core.limits).2.phase = .chunkedTrailer ∧
        splitLine (reader.core.toBodyState.processTrailers reader.core.limits).2.buf = none) := by
  -- Each pass of the loop is one step, until a pass returns.
  refine (BodyState.trailersLoop reader.core.limits).run_rule
    (motive := fun start result => ∀ other : Reader Head Context,
      other.core.toBodyState = start.2 → other.core.limits = reader.core.limits →
      other.halted limit = false → start.2.phase = .chunkedTrailer →
      (machine side limit).Reaches other (other.afterBody result) ∧
        (∀ advanced, result.1 = .ok advanced → result.2.phase = .complete ∨
          result.2.phase = .chunkedTrailer ∧ splitLine result.2.buf = none))
    ?_ ?_ (false, reader.core.toBodyState) reader rfl rfl running phase
  · rintro ⟨advanced, state⟩ result pass other rfl limits running phase
    have unfailed := failed_of_running running
    change other.core.phase = .chunkedTrailer at phase
    change BodyState.trailersPass reader.core.limits advanced other.core.toBodyState =
      .inr result at pass
    unfold BodyState.trailersPass at pass
    rw [if_pos phase] at pass
    cases split : splitLine other.core.buf with
    | none =>
      -- A line has not arrived.
      simp only [split, Sum.inr.injEq] at pass
      subst pass
      rw [afterBody_same unfailed]
      exact ⟨.refl, fun _ _ => .inr ⟨phase, split⟩⟩
    | some pair =>
      obtain ⟨line, rest⟩ := pair
      have stepped := step_trailer side running phase split
      rw [limits] at stepped
      cases read : other.core.toBodyState.trailerLine reader.core.limits line rest with
      | mk outcome next =>
        rw [read] at stepped
        simp only [split, read] at pass
        cases outcome with
        -- A refused line is a step all the same.
        | error error =>
          simp only [Sum.inr.injEq] at pass
          subst pass
          exact ⟨.single stepped, by simp⟩
        | ok done =>
          cases done
          dsimp only at pass
          -- The empty line completes the trailers, and any other one goes on.
          split at pass
          · rename_i complete
            simp only [Sum.inr.injEq] at pass
            subst pass
            exact ⟨.single stepped, fun _ _ => .inl complete⟩
          · cases pass
  · rintro ⟨advanced, state⟩ ⟨nextAdvanced, next⟩ result pass ih other rfl limits running phase
    change other.core.phase = .chunkedTrailer at phase
    change BodyState.trailersPass reader.core.limits advanced other.core.toBodyState =
      .inl (nextAdvanced, next) at pass
    unfold BodyState.trailersPass at pass
    rw [if_pos phase] at pass
    cases split : splitLine other.core.buf with
    -- A pass goes on only behind a line.
    | none => simp [split] at pass
    | some pair =>
      obtain ⟨line, rest⟩ := pair
      have stepped := step_trailer side running phase split
      rw [limits] at stepped
      cases read : other.core.toBodyState.trailerLine reader.core.limits line rest with
      | mk outcome after =>
        rw [read] at stepped
        simp only [split, read] at pass
        cases outcome with
        | error error => cases pass
        | ok done =>
          cases done
          dsimp only at pass
          split at pass
          · cases pass
          · rename_i incomplete
            cases pass
            -- The line was a field, so the section goes on.
            have more := (BodyState.trailerLine_ok read).2.resolve_left incomplete
            have rest := ih (other.afterBody (.ok (), next)) rfl limits
              (running_of_done running rfl rfl) (more.trans phase)
            exact ⟨.head stepped rest.1, rest.2⟩

/-- A trailer section that waits for a line is settled. -/
theorem settled_trailers (phase : reader.core.phase = .chunkedTrailer)
    (split : splitLine reader.core.buf = none) : (machine side limit).Settled reader := by
  change reader.step side limit = none
  unfold step
  cases reader.halted limit with
  | true => rfl
  | false => simp [phase, split]

/-- What moving on without bytes did: the reader follows, and what waits is settled. -/
def Progressed (side : Side Head Context) (limit : Option Nat) (reader : Reader Head Context)
    (outcome : Except Error BodyProgress × BodyState) : Prop :=
  match outcome.1 with
  | .error error => reader.core.phase = .tunnel ∧ outcome.2 = reader.core.toBodyState ∨
      (machine side limit).Reaches reader (reader.afterBody (Except.error (α := Unit) error, outcome.2))
  | .ok .advanced =>
      (machine side limit).Reaches reader (reader.afterBody (Except.ok (), outcome.2))
  | .ok .needData => outcome.2.phase ≠ .tunnel ∧
      (machine side limit).Reaches reader (reader.afterBody (Except.ok (), outcome.2)) ∧
      ∀ any, (machine side any).Settled (reader.afterBody (Except.ok (), outcome.2))
  | .ok (.complete trailers) => ∃ state : BodyState, state.phase = .complete ∧
      state.bodyDecoder.trailers = trailers ∧
      outcome.2 = { state with bodyDecoder := { state.bodyDecoder with trailers := [] } } ∧
      (machine side limit).Reaches reader (reader.afterBody (Except.ok (), state))

/-- Moving on where nothing can be consumed waits, since nothing is buffered. -/
theorem progressed_waiting (running : reader.halted limit = false)
    (untunneled : reader.core.phase ≠ .tunnel)
    (settled : ∀ any, (machine side any).Settled reader)
    {outcome : Except Error BodyProgress × BodyState}
    (same : outcome = (.ok .needData, reader.core.toBodyState)) :
    Progressed side limit reader outcome := by
  subst same
  simp only [Progressed]
  rw [afterBody_same (failed_of_running running)]
  exact ⟨untunneled, .refl, settled⟩

/-- Moving on through trailer lines follows the reader. -/
theorem progressed_trailers (running : reader.halted limit = false)
    (phase : reader.core.phase = .chunkedTrailer) {outcome : Except Error BodyProgress × BodyState}
    (same : outcome = match reader.core.toBodyState.processTrailers reader.core.limits with
      | (.error error, state) => (.error error, state)
      | (.ok advanced, state) =>
        if state.phase = .complete then BodyState.takeTrailers state
        else if advanced then (.ok .advanced, state) else (.ok .needData, state)) :
    Progressed side limit reader outcome := by
  have followed := processTrailers_follows side running phase
  cases processed : reader.core.toBodyState.processTrailers reader.core.limits with
  | mk result next =>
    rw [processed] at followed same
    obtain ⟨reached, ended⟩ := followed
    cases result with
    | error error =>
      subst same
      exact .inr reached
    | ok advanced =>
      dsimp only at same ended
      -- The trailers have ended, or a line of them has not arrived.
      rcases ended advanced rfl with complete | ⟨more, split⟩
      · rw [if_pos complete] at same
        subst same
        exact ⟨next, complete, rfl, rfl, reached⟩
      · have incomplete : next.phase ≠ .complete := by simp [more]
        rw [if_neg incomplete] at same
        -- Having moved the reader has taken steps; otherwise it waits there.
        cases advanced with
        | true =>
          subst same
          exact reached
        | false =>
          subst same
          exact ⟨by simp [more], reached, fun any => settled_trailers more split⟩

/-- Without a chunk-size line the reader waits. -/
theorem settled_chunkSize (phase : reader.core.phase = .bodyChunkedSize)
    (split : splitLine reader.core.buf = none) : (machine side limit).Settled reader := by
  change reader.step side limit = none
  cases stopped : reader.halted limit <;> simp [step, stopped, phase, split]

/-- Moving on through a chunk-size line, and trailers after the last one, follows the reader. -/
theorem progressed_chunkSize (running : reader.halted limit = false)
    (phase : reader.core.phase = .bodyChunkedSize) :
    Progressed side limit reader
      (BodyState.consumeBody reader.core.limits 0 reader.core.toBodyState) := by
  simp only [BodyState.consumeBody, phase, BodyState.processChunkedSize, ne_eq, not_true, if_false]
  cases split : splitLine reader.core.buf with
  | none =>
    simp only [phase]
    exact progressed_waiting running (by simp [phase])
      (fun any => settled_chunkSize phase split) rfl
  | some pair =>
    obtain ⟨line, rest⟩ := pair
    -- A size line is one step, also if it is refused.
    have stepped := step_chunkSize side running phase split
    cases read : reader.core.toBodyState.chunkSizeLine reader.core.limits line rest with
    | mk result next =>
      rw [read] at stepped
      simp only [read]
      cases result with
      | error error => exact .inr (.single stepped)
      | ok done =>
        cases done
        obtain ⟨size, _, ⟨_, rfl⟩ | ⟨_, _, _, rfl⟩⟩ := BodyState.chunkSizeLine_ok read
        · -- The trailers are tried at once, from the state after the line.
          dsimp only
          rw [if_pos rfl]
          have going : (reader.afterBody (Except.ok (), { reader.core.toBodyState with
              buf := rest, phase := .chunkedTrailer })).halted limit = false :=
            running_of_done running rfl rfl
          obtain ⟨reached, ended⟩ := processTrailers_follows side going rfl
          cases processed : BodyState.processTrailers reader.core.limits
            { reader.core.toBodyState with buf := rest, phase := .chunkedTrailer } with
          | mk result next =>
            simp only [afterBody, processed] at reached ended
            cases result with
            | error error => exact .inr (.head stepped reached)
            | ok advanced =>
              rcases ended advanced rfl with complete | ⟨more, _⟩
              · simp only [complete]
                exact ⟨next, complete, rfl, rfl, .head stepped reached⟩
              · simp only [more]
                exact .head stepped reached
        · -- A chunk begins, and its bytes are not tried yet.
          exact .single stepped

/-- Moving on without consuming follows the reader. -/
theorem progress_follows (side : Side Head Context) (running : reader.halted limit = false)
    (consistent : reader.Consistent)
    (reading : reader.current ≠ none) (unseen : reader.core.toBodyState.peekBody = none) :
    Progressed side limit reader
      (BodyState.consumeBody reader.core.limits 0 reader.core.toBodyState) := by
  cases phase : reader.core.phase with
  | startLine =>
    -- A body is read only behind its head.
    simp only [Consistent, phase] at consistent
    exact absurd consistent.1 reading
  | headers =>
    simp only [Consistent, phase] at consistent
    exact absurd consistent.1 reading
  | bodyContentLength remaining =>
    simp only [Consistent, phase] at consistent
    -- No bytes are shown although some are to come, so none are buffered.
    have empty : reader.core.buf = [] := by
      simpa [BodyState.peekBody, phase, (Nat.pos_iff_ne_zero.mp consistent.2.1)] using unseen
    refine progressed_waiting running (by simp [phase]) ?_ ?_
    · intro any
      change reader.step side any = none
      cases stopped : reader.halted any <;> simp [step, stopped, phase, empty]
    · have sum : checkedAdd reader.core.bodyDecoder.bodyConsumed 0 =
          some reader.core.bodyDecoder.bodyConsumed := by
        rw [checkedAdd, if_pos (by omega), Nat.add_zero]
      have more : ¬ remaining = 0 := by omega
      simp only [BodyState.consumeBody, phase, BodyState.addConsumed, Nat.not_lt_zero, if_false, sum,
        Nat.sub_zero, if_neg more, List.drop_zero]
      rw [← phase]
  | bodyChunkedSize => exact progressed_chunkSize running phase
  | bodyChunkedData remaining =>
    simp only [Consistent, phase] at consistent
    -- As above, of a chunk.
    have empty : reader.core.buf = [] := by
      simpa [BodyState.peekBody, phase, (Nat.pos_iff_ne_zero.mp consistent.2.1)] using unseen
    refine progressed_waiting running (by simp [phase]) ?_ ?_
    · intro any
      change reader.step side any = none
      cases stopped : reader.halted any <;> simp [step, stopped, phase, empty]
    · simp [BodyState.consumeBody, phase]
  | bodyChunkedDataCrlf =>
    obtain ⟨reached, achieved, waits⟩ := chunkDataCrlf_follows side running phase
    simp only [BodyState.consumeBody, phase]
    cases ended : reader.core.toBodyState.chunkDataCrlf with
    | mk result next =>
      rw [ended] at reached achieved waits
      cases result with
      | error error => exact .inr reached
      | ok progress =>
        cases progress with
        | advanced => exact reached
        | needData => exact ⟨achieved, reached, waits rfl⟩
        | complete trailers =>
          -- The line end of a chunk never completes the body.
          simp only [BodyState.chunkDataCrlf] at ended
          split at ended
          · split at ended <;> simp at ended
          · simp at ended
  | chunkedTrailer =>
    exact progressed_trailers running phase (BodyState.consumeBody_trailers _ 0 phase)
  | bodyCloseDelimited =>
    -- Whatever is buffered would be shown.
    have empty : reader.core.buf = [] := by
      simpa [BodyState.peekBody, phase] using unseen
    refine progressed_waiting running (by simp [phase]) ?_ ?_
    · intro any
      change reader.step side any = none
      cases stopped : reader.halted any <;> simp [step, stopped, phase]
    · simp [BodyState.consumeBody, phase]
  | tunnel =>
    -- A body that was complete gives its trailers once more, if they are there.
    -- A tunnel is refused, and left as it is.
    simp only [BodyState.consumeBody, phase]
    exact .inl ⟨phase, rfl⟩
  | complete =>
    simp only [BodyState.consumeBody, phase]
    refine ⟨reader.core.toBodyState, phase, rfl, rfl, ?_⟩
    rw [afterBody_same (failed_of_running running)]
    exact .refl

end Reader

end Http11

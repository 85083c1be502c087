import Http11.Proofs.Decoder.Decode
import Http11.Session

/-! How a connection is cut, and how its bodies are consumed, does not change what is read. -/

namespace Http11

open Decoder

/-- A reader stays proper when input arrives. -/
theorem Reader.Proper.feed {Head Context : Type} {side : Side Head Context}
    {reader : Reader Head Context} (proper : reader.Proper side) (input : Bytes) :
    (reader.feed input).Proper side where
  consistent := proper.consistent
  determined := proper.determined

namespace DecodeRun

/-- The error with which a run ends where a reader waits. -/
def outcome (reader : Reader RequestHead Unit) : Option Error :=
  match reader.failed with
  | some error => some error
  | none => if reader.core.phase = .tunnel then some tunnelError else none

/-- A run that has seen what a reader has read. -/
structure Follows (run : DecodeRun) (reader : Reader RequestHead Unit) : Prop where
  /-- The requests are the messages. -/
  requests : run.requests = reader.done.map Message.request
  /-- The error is that of the reader. -/
  failed : run.failed = outcome reader
  /-- What is buffered or was not fed is what the reader has not read. -/
  buffered : reader.core.buf = run.decoder.buf ++ run.unfed
  /-- While the run goes on, the decoder is the reader. -/
  running : run.failed = none →
    reader = run.decoder.view reader.done ∧ run.unfed = [] ∧ reader.Proper RequestDecoder.side

/-- A fresh run follows a fresh reader, which waits for input. -/
theorem start_follows (limits : DecoderLimits) :
    Follows (start limits) ((start limits).decoder.view []) where
  requests := rfl
  failed := rfl
  buffered := rfl
  running := fun _ => ⟨rfl, rfl, view_fresh _ rfl rfl rfl rfl rfl rfl⟩

/-- A fragment reaches the run and the reader alike. -/
theorem give_follows (run : DecodeRun) (reader : Reader RequestHead Unit) (fragment : Bytes)
    (follows : run.Follows reader) : (run.give fragment).Follows (reader.feed fragment) := by
  -- A run that has not failed passes the fragment on, one that has keeps it.
  cases ended : run.failed with
  | none =>
    obtain ⟨same, fed, proper⟩ := follows.running ended
    have given : run.give fragment =
        { run with decoder := run.decoder.feedUnchecked fragment } := by
      simp [give, ended]
    rw [given]
    refine ⟨follows.requests, follows.failed, ?_, fun _ => ⟨?_, fed, proper.feed fragment⟩⟩
    · simp [Reader.feed, feedUnchecked, follows.buffered, fed]
    · rw [same]
      rfl
  | some error =>
    have given : run.give fragment = { run with unfed := run.unfed ++ fragment } := by
      simp [give, ended]
    rw [given]
    refine ⟨follows.requests, follows.failed, ?_, fun running => ?_⟩
    · simp [Reader.feed, follows.buffered]
    · rw [show run.failed = none from running] at ended
      cases ended

/-- Calls of decode follow the reader until it waits. -/
theorem loop_follows (run : DecodeRun) :
    ∀ done, (run.decoder.view done).Proper RequestDecoder.side →
      run.requests = done.map Message.request → run.failed = none → run.unfed = [] →
      ∃ next, (loop.run run).Follows next ∧
        (Reader.machine RequestDecoder.side none).Reaches (run.decoder.view done) next ∧
        (Reader.machine RequestDecoder.side none).Settled next := by
  refine loop.run_rule (motive := fun run result =>
    ∀ done, (run.decoder.view done).Proper RequestDecoder.side →
      run.requests = done.map Message.request → run.failed = none → run.unfed = [] →
      ∃ next, result.Follows next ∧
        (Reader.machine RequestDecoder.side none).Reaches (run.decoder.view done) next ∧
        (Reader.machine RequestDecoder.side none).Settled next) ?_ ?_ run
  · -- The call returns with an error, in a tunnel, or waiting.
    intro run result passed done proper requests running fed
    have decoded := RequestDecoder.decode_follows (going_none done) proper
    change pass run = .inr result at passed
    unfold pass at passed
    cases called : RequestDecoder.decode run.decoder with
    | mk answer decoder =>
      rw [called] at decoded
      rcases answer with error | _ | request
      · simp only [called, Sum.inr.injEq] at passed
        subst passed
        -- An error stops the reader, and a tunnel lets it settle where it is.
        rcases decoded with ⟨reader, ⟨failed, buffered, kept⟩, reached⟩ | ⟨rfl, phase, reached⟩
        · refine ⟨reader, ⟨?_, ?_, ?_, by simp⟩, reached, ?_⟩
          · rw [kept]
            exact requests
          · simp [outcome, failed]
          · simp [buffered, fed]
          · exact Reader.settled_of_halted (by simp [Reader.halted, failed])
        · refine ⟨_, ⟨requests, ?_, ?_, by simp⟩, reached, Reader.settled_tunnel phase⟩
          · dsimp only at phase
            simp [outcome, view, phase]
          · simp [view, fed]
      · simp only [called, Sum.inr.injEq] at passed
        subst passed
        -- While it waits nothing is lost, and the reader has settled as well.
        obtain ⟨phase, reached, settled⟩ := decoded
        have later := Reader.reaches_proper RequestDecoder.side_lawful reached proper rfl
        refine ⟨_, ⟨requests, ?_, ?_, fun _ => ⟨rfl, fed, later⟩⟩, reached, settled none⟩
        · dsimp only at phase
          simp [outcome, view, phase, running]
        · simp [view, fed]
      · simp [called] at passed
  · -- The call hands a request over, and the next one starts behind it.
    intro run next result passed ih done proper requests running fed
    have decoded := RequestDecoder.decode_follows (going_none done) proper
    change pass run = .inl next at passed
    unfold pass at passed
    cases called : RequestDecoder.decode run.decoder with
    | mk answer decoder =>
      rw [called] at decoded
      rcases answer with error | _ | request
      · simp [called] at passed
      · simp [called] at passed
      · simp only [called, Sum.inl.injEq] at passed
        subst passed
        obtain ⟨message, rfl, reached⟩ := decoded
        have later := Reader.reaches_proper RequestDecoder.side_lawful reached proper rfl
        obtain ⟨last, follows, onward, settled⟩ :=
          ih (done ++ [message]) later (by simp [requests]) running fed
        exact ⟨last, follows, reached.trans onward, settled⟩

/-- Decoding what is there follows the reader until it waits. -/
theorem pump_follows (run : DecodeRun) (reader : Reader RequestHead Unit)
    (follows : run.Follows reader) :
    ∃ next, run.pump.Follows next ∧
      (Reader.machine RequestDecoder.side none).Reaches reader next ∧
      (Reader.machine RequestDecoder.side none).Settled next := by
  unfold pump
  -- A run that has failed does not call decode any more.
  cases ended : run.failed with
  | none =>
    obtain ⟨same, fed, proper⟩ := follows.running ended
    rw [same] at proper ⊢
    exact loop_follows run reader.done proper follows.requests ended fed
  | some error =>
    refine ⟨reader, follows, .refl, ?_⟩
    have stopped := follows.failed
    rw [ended] at stopped
    -- It failed in an error or in a tunnel, and in both the reader has settled.
    unfold outcome at stopped
    split at stopped
    · rename_i failed
      exact Reader.settled_of_halted (by simp [Reader.halted, failed])
    · split at stopped
      · exact Reader.settled_tunnel (by assumption)
      · cases stopped

/-- A run over fragments ends where the whole connection leads a reader. -/
theorem across_follows (limits : DecoderLimits) (fragments : List Bytes) :
    ∃ reader, (across limits fragments).Follows reader ∧
      (Reader.machine RequestDecoder.side none).Reaches
        (((start limits).decoder.view []).feed fragments.flatten) reader ∧
      (Reader.machine RequestDecoder.side none).Settled reader :=
  Incremental.fragments_follow (Reader.machine RequestDecoder.side none)
    give_follows pump_follows fragments _ _ (start_follows limits)
    (Reader.settled_head (.inl rfl) rfl)

/-- Nothing is left unfed of a connection that arrives at once. -/
theorem loop_unfed (run : DecodeRun) : (loop.run run).unfed = run.unfed := by
  refine loop.run_rule (motive := fun run result => result.unfed = run.unfed) ?_ ?_ run
  · -- Only what is given behind an error is left unfed, and here nothing is given.
    intro run result passed
    change pass run = .inr result at passed
    unfold pass at passed
    split at passed <;> cases passed <;> rfl
  · intro run next result passed ih
    change pass run = .inl next at passed
    unfold pass at passed
    split at passed <;> cases passed
    exact ih

/--
However a connection is cut, the same requests are decoded and the same error ends it.

What is not consumed is the same too, counting what arrived after the error and was not fed.
-/
theorem over_fragments (limits : DecoderLimits) (fragments : List Bytes) :
    let cut := across limits fragments
    let whole := across limits [fragments.flatten]
    cut.requests = whole.requests ∧ cut.failed = whole.failed ∧
      cut.decoder.remaining ++ cut.unfed = whole.decoder.remaining ∧
      (cut.failed = none → cut.unfed = []) := by
  intro cut whole
  obtain ⟨reader, follows, reached, settled⟩ := across_follows limits fragments
  obtain ⟨other, otherFollows, otherReached, otherSettled⟩ :=
    across_follows limits [fragments.flatten]
  rw [List.flatten_singleton] at otherReached
  -- Both readers have had the same input and have settled, so they are the same.
  have same := reached.settled_unique settled otherReached otherSettled
  subst same
  have fed : whole.unfed = [] := loop_unfed _
  refine ⟨?_, ?_, ?_, fun running => (follows.running running).2.1⟩
  · rw [follows.requests, otherFollows.requests]
  · rw [follows.failed, otherFollows.failed]
  · have buffered := otherFollows.buffered
    change _ = whole.decoder.buf ++ whole.unfed at buffered
    rw [fed, List.append_nil] at buffered
    exact follows.buffered.symm.trans buffered

/-- After an error the bytes that were never fed are missing from what remains. -/
theorem remaining_after_error :
    let fragments : List Bytes := [crlf, [0x58]]
    (across .unlimited fragments).failed.isSome ∧
      (across .unlimited fragments).decoder.remaining ≠
        (across .unlimited [fragments.flatten]).decoder.remaining := by
  decide

end DecodeRun

namespace StreamRun

variable {Head Context : Type} {side : Side Head Context} {pick : Nat → Nat} {limit : Option Nat}

/-- A decoder between messages, as the reader that has moved on to the next one. -/
def settle (side : Side Head Context) (core : Core Context) : Core Context :=
  if core.phase = .complete then core.nextMessage side else core

/-- A run as a reader, which moves on at once when a message is complete. -/
def view (side : Side Head Context) (run : StreamRun Head Context) : Reader Head Context where
  core := match run.current with
    | none => settle side run.decoder.toCore
    | some _ => run.decoder.toCore
  current := run.current
  body := run.body
  done := run.messages

/-- Moving on leaves the buffer as it is. -/
theorem view_buf (side : Side Head Context) (run : StreamRun Head Context) :
    (run.view side).core.buf = run.decoder.buf := by
  unfold view settle
  cases run.current with
  | none =>
    dsimp only
    split <;> rfl
  | some decoded => rfl

/-- Reading a head moves on from a complete message first. -/
theorem decodeHeaders_settle (side : Side Head Context) (core : Core Context) :
    core.decodeHeaders side = (settle side core).decodeHeaders side := by
  unfold settle
  -- A complete message is left by the first pass of the loop.
  split
  · rename_i complete
    refine (Core.decodeHeadersLoop side).run_of_continue ?_
    change Core.decodeHeadersPass side core = _
    simp [Core.decodeHeadersPass, complete]
  · rfl

/-- A run that has seen what a reader has read. -/
structure Follows (side : Side Head Context) (limit : Option Nat) (run : StreamRun Head Context)
    (reader : Reader Head Context) : Prop where
  /-- The messages are those of the reader. -/
  messages : run.messages = reader.done
  /-- The run fails where the reader does, or when it is asked for more in a tunnel. -/
  failed : run.failed.isSome =
    (reader.failed.isSome || (reader.core.phase = .tunnel && !reader.halted limit))
  /-- What is buffered or was not fed is what the reader has not read. -/
  buffered : reader.core.buf = run.decoder.buf ++ run.unfed
  /-- While the run goes on, the decoder is the reader. -/
  running : run.failed = none → reader = run.view side ∧ run.unfed = [] ∧ reader.Proper side

/-- A run in a body that lasts up to the end of the connection, where a reader stops. -/
structure Lasting (side : Side Head Context) (run : StreamRun Head Context)
    (reader : Reader Head Context) : Prop where
  /-- The reader stands before that body. -/
  phase : reader.core.phase = .bodyCloseDelimited
  /-- The reader has not failed. -/
  unfailed : reader.failed = none
  /-- The reader is a proper one. -/
  proper : reader.Proper side
  /-- The messages before it are those of the reader. -/
  messages : run.messages = reader.done
  /-- While the run goes on it stays in that body. -/
  running : run.failed = none → run.decoder.phase = .bodyCloseDelimited ∧ run.current.isSome

/-- A run follows a reader up to the first body that lasts to the end of the connection. -/
def Traces (side : Side Head Context) (limit : Option Nat) (run : StreamRun Head Context)
    (reader : Reader Head Context) : Prop :=
  run.Follows side limit reader ∨ run.Lasting side reader

/-- A fragment reaches the run and the reader alike. -/
theorem give_traces (run : StreamRun Head Context) (reader : Reader Head Context)
    (fragment : Bytes) (traces : run.Traces side limit reader) :
    (run.give fragment).Traces side limit (reader.feed fragment) := by
  rcases traces with follows | lasting
  · -- The reader follows, or the body lasts up to the close of the connection.
    left
    cases ended : run.failed with
    | none =>
      obtain ⟨same, fed, proper⟩ := follows.running ended
      have given : run.give fragment =
          { run with decoder := run.decoder.feedUnchecked fragment } := by
        simp [give, ended]
      rw [given]
      refine ⟨follows.messages, follows.failed, ?_, fun _ => ⟨?_, fed, proper.feed fragment⟩⟩
      · simp [Reader.feed, feedUnchecked, follows.buffered, fed]
      · rw [same]
        obtain ⟨decoder, current, body, messages, calls, failed, unfed⟩ := run
        cases current with
        | some decoded => rfl
        | none =>
          -- Between messages the reader has moved on already, within one it has not.
          by_cases complete : decoder.phase = .complete <;>
            simp [view, settle, Reader.feed, feedUnchecked, Core.nextMessage, complete]
    | some error =>
      have given : run.give fragment = { run with unfed := run.unfed ++ fragment } := by
        simp [give, ended]
      rw [given]
      refine ⟨follows.messages, follows.failed, ?_, fun running => ?_⟩
      · simp [Reader.feed, follows.buffered]
      · rw [show run.failed = none from running] at ended
        cases ended
  · right
    refine ⟨lasting.phase, lasting.unfailed, lasting.proper.feed fragment, ?_, ?_⟩
    · -- A body up to the close takes whatever is given, or has failed.
      unfold give
      split <;> exact lasting.messages
    · unfold give
      split
      · exact lasting.running
      · rename_i ended
        intro running
        rw [show run.failed = none from running] at ended
        cases ended

/-- Consuming a body up to the end of the connection neither completes nor leaves it. -/
theorem consumeBody_lasting (limits : DecoderLimits) (len : Nat) {state : BodyState}
    (phase : state.phase = .bodyCloseDelimited) :
    (BodyState.consumeBody limits len state).2.phase = .bodyCloseDelimited ∧
      ∀ trailers, (BodyState.consumeBody limits len state).1 ≠ .ok (.complete trailers) := by
  -- Every branch of this phase leaves it as it is.
  simp only [BodyState.consumeBody, phase]
  split
  · simp [phase]
  split
  · simp [phase]
  split
  · simp [phase]
  split <;> simp [phase]

/-- A call in a body up to the end of the connection stays in it. -/
theorem pass_lasting (side : Side Head Context) (pick : Nat → Nat) (limit : Option Nat)
    {run : StreamRun Head Context} (phase : run.decoder.phase = .bodyCloseDelimited)
    (reading : run.current.isSome) :
    match pass side pick limit run with
    | .inl next => next.messages = run.messages ∧ next.decoder.phase = .bodyCloseDelimited ∧
        next.current.isSome
    | .inr result => result.messages = run.messages ∧
        (result.failed = none → result.decoder.phase = .bodyCloseDelimited ∧
          result.current.isSome) := by
  unfold pass
  -- With enough messages the run has nothing to do.
  by_cases enough : limit.any fun count => count ≤ run.messages.length
  · rw [if_pos enough]
    exact ⟨rfl, fun _ => ⟨phase, reading⟩⟩
  rw [if_neg enough]
  obtain ⟨decoded, current⟩ := Option.isSome_iff_exists.mp reading
  simp only [current]
  -- Taking bytes or moving on, the call stays in the body, and no message is complete.
  cases peeked : run.decoder.peekBody with
  | some data =>
    have positive : 0 < taken pick run.calls data := by simp [taken]
    obtain ⟨stays, incomplete⟩ := consumeBody_lasting run.decoder.limits
      (taken pick run.calls data) phase
    simp only [consumeBody_eq _ positive]
    rcases consumed : BodyState.consumeBody run.decoder.limits (taken pick run.calls data)
      run.decoder.toBodyState with ⟨_ | progress, state⟩
    · exact ⟨rfl, by simp⟩
    · rw [consumed] at stays incomplete
      cases progress with
      | complete trailers => exact absurd rfl (incomplete trailers)
      | advanced => exact ⟨rfl, stays, rfl⟩
      | needData => exact ⟨rfl, stays, rfl⟩
  | none =>
    obtain ⟨stays, incomplete⟩ := consumeBody_lasting run.decoder.limits 0 phase
    simp only [progress_eq]
    rcases consumed : BodyState.consumeBody run.decoder.limits 0 run.decoder.toBodyState with
      ⟨_ | progress, state⟩
    · exact ⟨rfl, by simp⟩
    · rw [consumed] at stays incomplete
      cases progress with
      | complete trailers => exact absurd rfl (incomplete trailers)
      | advanced => exact ⟨rfl, stays, rfl⟩
      | needData => exact ⟨rfl, fun _ => ⟨stays, rfl⟩⟩

/-- Consuming a body up to the end of the connection stays in it. -/
theorem loop_lasting (side : Side Head Context) (pick : Nat → Nat) (limit : Option Nat)
    (run : StreamRun Head Context) :
    run.decoder.phase = .bodyCloseDelimited → run.current.isSome →
      ((loop side pick limit).run run).messages = run.messages ∧
      (((loop side pick limit).run run).failed = none →
        ((loop side pick limit).run run).decoder.phase = .bodyCloseDelimited ∧
        ((loop side pick limit).run run).current.isSome) := by
  -- The run rule takes the pass to the loop.
  refine (loop side pick limit).run_rule (motive := fun run result =>
    run.decoder.phase = .bodyCloseDelimited → run.current.isSome →
      result.messages = run.messages ∧ (result.failed = none →
        result.decoder.phase = .bodyCloseDelimited ∧ result.current.isSome)) ?_ ?_ run
  · intro run result passed phase reading
    have stays := pass_lasting side pick limit phase reading
    change pass side pick limit run = .inr result at passed
    rwa [passed] at stays
  · intro run next result passed ih phase reading
    have stays := pass_lasting side pick limit phase reading
    change pass side pick limit run = .inl next at passed
    rw [passed] at stays
    obtain ⟨messages, phaseNext, readingNext⟩ := stays
    obtain ⟨kept, running⟩ := ih phaseNext readingNext
    exact ⟨kept.trans messages, running⟩

/-- What one call did: the reader follows, up to a body that lasts. -/
def Passed (side : Side Head Context) (limit : Option Nat) (run : StreamRun Head Context) :
    StreamRun Head Context ⊕ StreamRun Head Context → Prop
  | .inl next => next.failed = none ∧ next.unfed = [] ∧
      (Reader.machine side limit).Reaches (run.view side) (next.view side)
  | .inr result => ∃ next, result.Follows side limit next ∧
      (Reader.machine side limit).Reaches (run.view side) next ∧
      (Reader.machine side limit).Settled next

/-- A call for a head takes the steps of its lines. -/
theorem pass_head (lawful : side.Lawful) {run : StreamRun Head Context}
    (unfailed : run.failed = none) (fed : run.unfed = [])
    (proper : (run.view side).Proper side) (running : (run.view side).halted limit = false)
    (unread : run.current = none) :
    Passed side limit run (match run.decoder.onCore (Core.decodeHeaders side) with
      | (.error error, decoder) => .inr { run with decoder, failed := some error }
      | (.ok none, decoder) => .inr { run with decoder }
      | (.ok (some decoded), decoder) => .inl { run with decoder, current := some decoded }) := by
  have core : (run.view side).core = settle side run.decoder.toCore := by simp [view, unread]
  have heading : (run.view side).core.phase = .startLine ∨
      -- Without a message being read, the reader is at a head.
      (run.view side).core.phase = .headers := by
    have consistent := proper.consistent
    unfold Reader.Consistent at consistent
    rw [show (run.view side).current = none from unread] at consistent
    split at consistent
    · exact .inl (by assumption)
    · exact .inr (by assumption)
    all_goals simp at consistent
  obtain ⟨reached, waits⟩ := Reader.decodeHeaders_follows side running heading unread
  rw [core, ← decodeHeaders_settle] at reached waits
  simp only [onCore]
  cases headers : run.decoder.toCore.decodeHeaders side with
  | mk outcome next =>
    rw [headers] at reached waits
    dsimp only at waits
    -- The head is refused, awaited or there.
    rcases outcome with error | _ | decoded
    · refine ⟨_, ⟨rfl, rfl, ?_, by simp⟩, reached, Reader.settled_of_halted rfl⟩
      simp [Reader.afterHead, fed]
    · obtain ⟨phases, split⟩ := waits rfl
      have same : (run.view side).afterHead (.ok none, next) =
          view side { run with decoder := { run.decoder with toCore := next } } := by
        have incomplete : next.phase ≠ .complete := by
          -- Waiting in a head is no complete message, so nothing has to be moved on from.
          rcases phases with phase | phase <;> simp [phase]
        simp [Reader.afterHead, view, unread, settle, incomplete]
      rw [same] at reached
      have later := Reader.reaches_proper lawful reached proper rfl
      refine ⟨_, ⟨rfl, ?_, ?_, fun _ => ⟨rfl, fed, later⟩⟩, reached,
        Reader.settled_head ?_ ?_⟩
      · rw [← same]
        rcases phases with phase | phase <;> simp [Reader.afterHead, phase, unfailed]
      · rw [← same]
        simp [Reader.afterHead, fed]
      · rw [← same]
        exact phases
      · rw [← same]
        exact split
    · exact ⟨unfailed, fed, reached⟩

/-- A message that is complete counts as read once the run has moved on. -/
theorem view_after {run : StreamRun Head Context} {reader : Reader Head Context}
    {trailers : Headers} {head : Head} {bodyKind : BodyKind} (running : reader.halted limit = false)
    (phase : reader.core.phase = .complete) (current : run.current = some (head, bodyKind))
    (sameCurrent : reader.current = run.current)
    (body : reader.body = run.body) (done : reader.done = run.messages)
    (trailing : reader.core.bodyDecoder.trailers = trailers)
    (complete : run.decoder.phase = .complete)
    (core : reader.core.nextMessage side = run.decoder.toCore.nextMessage side) :
    (Reader.machine side limit).Reaches reader ((run.after (.complete trailers)).view side) := by
  have stepped : reader.step side limit = some (reader.push side) := by
    simp [Reader.step, running, phase]
  have same : reader.push side = (run.after (.complete trailers)).view side := by
    -- The run moves on from the message by handing it over.
    simp [Reader.push, view, after, settle, complete, core, sameCurrent, current, body, done,
      trailing, Reader.failed_of_running running]
  rw [same] at stepped
  exact .single stepped

/-- A call that consumes body bytes takes the steps of these bytes. -/
theorem pass_consume {run : StreamRun Head Context} (unfailed : run.failed = none)
    (fed : run.unfed = []) (proper : (run.view side).Proper side)
    (running : (run.view side).halted limit = false) {head : Head} {bodyKind : BodyKind}
    (current : run.current = some (head, bodyKind))
    (framed : run.decoder.phase ≠ .bodyCloseDelimited) {data : Bytes}
    (peeked : run.decoder.peekBody = some data) :
    Passed side limit run (match run.decoder.consumeBody (taken pick run.calls data) with
      | (.error error, decoder) => .inr { run with decoder, failed := some error }
      | (.ok progress, decoder) => .inl ({ run with
          decoder
          calls := run.calls + 1
          body := run.body ++ data.take (taken pick run.calls data) }.after progress)) := by
  have core : (run.view side).core = run.decoder.toCore := by simp [view, current]
  have present := List.length_pos_of_ne_nil (peekBody_ne_nil peeked)
  have positive : 0 < taken pick run.calls data := by simp [taken]
  have shown : taken pick run.calls data ≤ data.length := by
    simp only [taken]
    omega
  obtain ⟨reached, achieved⟩ := Reader.consumeBody_follows side running
    proper.consistent (by rwa [core]) (by rwa [core]) positive shown
  rw [core] at reached achieved
  rw [consumeBody_eq _ positive]
  rcases consumed : BodyState.consumeBody run.decoder.limits (taken pick run.calls data)
    -- Consuming what is shown is refused, or it takes the bytes and may end the message.
    run.decoder.toBodyState with ⟨error | progress, state⟩
  · rw [consumed] at reached
    refine ⟨_, ⟨rfl, rfl, ?_, by simp⟩, reached, Reader.settled_of_halted rfl⟩
    simp [Reader.afterBody, fed]
  · rw [consumed] at reached achieved
    have same : { (run.view side).afterBody (Except.ok progress, state) with
        body := (run.view side).body ++ data.take (taken pick run.calls data) } =
        view side { run with
          decoder := { run.decoder with toBodyState := state }
          calls := run.calls + 1
          body := run.body ++ data.take (taken pick run.calls data) } := by
      simp [Reader.afterBody, view, current]
    cases progress with
    | complete trailers =>
      obtain ⟨rfl, phase, untrailed⟩ := achieved
      refine ⟨unfailed, fed, reached.trans ?_⟩
      -- The message is handed over with the step behind its end.
      exact view_after (Reader.running_of_done running rfl rfl) phase current rfl rfl rfl untrailed
        phase (by simp [Reader.afterBody, view, current])
    | advanced =>
      rw [same] at reached
      exact ⟨unfailed, fed, reached⟩
    | needData =>
      rw [same] at reached
      exact ⟨unfailed, fed, reached⟩

/-- A call that moves on without consuming takes the steps of lines. -/
theorem pass_progress (lawful : side.Lawful) {run : StreamRun Head Context}
    (unfailed : run.failed = none) (fed : run.unfed = []) (proper : (run.view side).Proper side)
    (running : (run.view side).halted limit = false) {head : Head} {bodyKind : BodyKind}
    (current : run.current = some (head, bodyKind)) (unseen : run.decoder.peekBody = none) :
    Passed side limit run (match run.decoder.progress with
      | (.error error, decoder) => .inr { run with decoder, failed := some error }
      | (.ok .needData, decoder) => .inr { run with decoder }
      | (.ok progress, decoder) => .inl ({ run with decoder }.after progress)) := by
  have core : (run.view side).core = run.decoder.toCore := by simp [view, current]
  have progressed := Reader.progress_follows side running proper.consistent
    (by simp [view, current]) (by rwa [core])
  rw [core] at progressed
  rw [progress_eq]
  have same : ∀ state, (run.view side).afterBody (Except.ok (), state) =
      view side { run with decoder := { run.decoder with toBodyState := state } } := by
    intro state
    simp [Reader.afterBody, view, current]
  -- Moving on is refused, advances, waits for bytes or ends the body.
  rcases consumed : BodyState.consumeBody run.decoder.limits 0 run.decoder.toBodyState with
    ⟨error | progress, state⟩
  · rw [consumed] at progressed
    -- Moving on is refused without a step only in a tunnel.
    rcases progressed with ⟨phase, unchanged⟩ | reached
    · refine ⟨run.view side, ⟨rfl, ?_, ?_, by simp⟩, .refl, Reader.settled_tunnel phase⟩
      · simp [phase, running]
      · rw [core] at unchanged
        dsimp only at unchanged
        simp [core, fed, unchanged]
    · refine ⟨_, ⟨rfl, rfl, ?_, by simp⟩, reached, Reader.settled_of_halted rfl⟩
      simp [Reader.afterBody, fed]
  · rw [consumed] at progressed
    cases progress with
    | advanced =>
      simp only [Reader.Progressed, same] at progressed
      exact ⟨unfailed, fed, progressed⟩
    -- Waiting for bytes the reader settles where the run stands.
    | needData =>
      obtain ⟨untunneled, reached, settled⟩ := progressed
      rw [same] at reached
      have later := Reader.reaches_proper lawful reached proper rfl
      refine ⟨_, ⟨rfl, ?_, ?_, fun _ => ⟨rfl, fed, later⟩⟩, reached, ?_⟩
      · dsimp only at untunneled
        simp [view, current, unfailed, untunneled]
      · simp [view, current, fed]
      · rw [← same]
        exact settled limit
    | complete trailers =>
      -- The trailers that are handed out are those the reader has read.
      obtain ⟨before, phase, trailing, rfl, reached⟩ := progressed
      refine ⟨unfailed, fed, reached.trans ?_⟩
      exact view_after (Reader.running_of_done running rfl rfl) phase current rfl rfl rfl trailing
        phase (by simp [Reader.afterBody, view, current, Core.nextMessage])

/-- One call follows the reader, up to a body that lasts to the end of the connection. -/
theorem pass_follows (pick : Nat → Nat) (limit : Option Nat) (lawful : side.Lawful)
    {run : StreamRun Head Context}
    (unfailed : run.failed = none) (fed : run.unfed = []) (proper : (run.view side).Proper side)
    (framed : run.decoder.phase ≠ .bodyCloseDelimited ∨ run.current = none) :
    Passed side limit run (pass side pick limit run) := by
  have alike : (run.view side).halted limit =
      limit.any fun count => count ≤ run.messages.length := rfl
  unfold pass
  -- With enough messages both the run and the reader have stopped.
  by_cases enough : limit.any fun count => count ≤ run.messages.length
  · rw [if_pos enough]
    have follows : run.Follows side limit (run.view side) := by
      refine ⟨rfl, ?_, ?_, fun _ => ⟨rfl, fed, proper⟩⟩
      · rw [alike, enough]
        simp [unfailed, view]
      · rw [fed, List.append_nil, view_buf]
    exact ⟨_, follows, .refl, Reader.settled_of_halted (alike.trans enough)⟩
  rw [if_neg enough]
  have running : (run.view side).halted limit = false := by
    rw [alike]
    simpa using enough
  -- The run reads a head, takes bytes or moves on.
  split
  · rename_i current
    exact pass_head lawful unfailed fed proper running current
  · rename_i current
    have lasting := framed.resolve_right (by simp [current])
    split
    · rename_i peeked
      exact pass_consume unfailed fed proper running current lasting peeked
    · rename_i peeked
      exact pass_progress lawful unfailed fed proper running current peeked

/-- Calls in a body that lasts stay there, as the reader does. -/
theorem loop_lasts {run : StreamRun Head Context} (proper : (run.view side).Proper side)
    (phase : run.decoder.phase = .bodyCloseDelimited) (reading : run.current.isSome) :
    ∃ next, ((loop side pick limit).run run).Traces side limit next ∧
      (Reader.machine side limit).Reaches (run.view side) next ∧
      (Reader.machine side limit).Settled next := by
  obtain ⟨messages, stays⟩ := loop_lasting side pick limit run
    phase reading
  obtain ⟨decoded, current⟩ := Option.isSome_iff_exists.mp reading
  have before : (run.view side).core.phase = .bodyCloseDelimited := by simp [view, current, phase]
  exact ⟨run.view side, .inr ⟨before, rfl, proper, messages, stays⟩, .refl, Reader.settled_lasting before⟩

/-- Calls follow the reader until it waits, up to a body that lasts. -/
theorem loop_traces (lawful : side.Lawful) (run : StreamRun Head Context)
    (proper : (run.view side).Proper side) (unfailed : run.failed = none) (fed : run.unfed = []) :
    ∃ next, ((loop side pick limit).run run).Traces side limit next ∧
      (Reader.machine side limit).Reaches (run.view side) next ∧
      (Reader.machine side limit).Settled next := by
  refine (loop side pick limit).run_rule (motive := fun run result =>
    result = (loop side pick limit).run run → (run.view side).Proper side → run.failed = none →
      run.unfed = [] → ∃ next, result.Traces side limit next ∧
        (Reader.machine side limit).Reaches (run.view side) next ∧
        (Reader.machine side limit).Settled next) ?_ ?_ run rfl proper unfailed fed
  · -- In a body up to the close the loop has its own lemma, whether it returns or goes on.
    rintro run result passed rfl proper unfailed fed
    by_cases lasting : run.decoder.phase = .bodyCloseDelimited ∧ run.current.isSome
    · exact loop_lasts proper lasting.1 lasting.2
    have framed : run.decoder.phase ≠ .bodyCloseDelimited ∨ run.current = none := by
      simpa [imp_iff_not_or] using lasting
    have follows := pass_follows pick limit lawful unfailed fed proper framed
    change pass side pick limit run = .inr _ at passed
    rw [passed] at follows
    obtain ⟨next, follows, reached, settled⟩ := follows
    exact ⟨next, .inl follows, reached, settled⟩
  · -- A call that goes on leads the reader to where the next one starts.
    rintro run next result passed ih rfl proper unfailed fed
    by_cases lasting : run.decoder.phase = .bodyCloseDelimited ∧ run.current.isSome
    · exact loop_lasts proper lasting.1 lasting.2
    have framed : run.decoder.phase ≠ .bodyCloseDelimited ∨ run.current = none := by
      simpa [imp_iff_not_or] using lasting
    have follows := pass_follows pick limit lawful unfailed fed proper framed
    have continued := (loop side pick limit).run_of_continue passed
    change pass side pick limit run = .inl next at passed
    rw [passed] at follows
    obtain ⟨unfailedNext, fedNext, reached⟩ := follows
    have later := Reader.reaches_proper lawful reached proper rfl
    obtain ⟨last, traces, onward, settled⟩ := ih continued later unfailedNext fedNext
    exact ⟨last, traces, reached.trans onward, settled⟩

/-- Reading what is there follows the reader until it waits. -/
theorem pump_traces (lawful : side.Lawful) (run : StreamRun Head Context)
    (reader : Reader Head Context) (traces : run.Traces side limit reader) :
    ∃ next, (run.pump side pick limit).Traces side limit next ∧
      (Reader.machine side limit).Reaches reader next ∧
      (Reader.machine side limit).Settled next := by
  unfold pump
  rcases traces with follows | lasting
  · -- A run that has failed does not go on, and the reader it follows has stopped.
    cases ended : run.failed with
    | none =>
      obtain ⟨rfl, fed, proper⟩ := follows.running ended
      exact loop_traces lawful run proper ended fed
    | some error =>
      refine ⟨reader, .inl follows, .refl, ?_⟩
      have stopped := follows.failed
      simp only [ended, Option.isSome_some, Bool.true_eq, Bool.or_eq_true, Bool.and_eq_true,
        decide_eq_true_eq] at stopped
      rcases stopped with failed | ⟨phase, _⟩
      · exact Reader.settled_of_halted (by simp [Reader.halted, failed])
      · exact Reader.settled_tunnel phase
  · -- A body up to the close is settled as long as the connection lasts.
    refine ⟨reader, .inr ?_, .refl, Reader.settled_lasting lasting.phase⟩
    cases ended : run.failed with
    | none =>
      obtain ⟨phase, reading⟩ := lasting.running ended
      obtain ⟨messages, stays⟩ := loop_lasting side pick limit run
        phase reading
      exact ⟨lasting.phase, lasting.unfailed, lasting.proper, messages.trans lasting.messages, stays⟩
    | some error => exact lasting

/-- A run over fragments ends where the whole connection leads a reader. -/
theorem across_traces (pick : Nat → Nat) (limit : Option Nat) (lawful : side.Lawful)
    {decoder : Decoder Head Context}
    (proper : (decoder.view []).Proper side) (phase : decoder.phase = .startLine)
    (undecoded : decoder.decoded = none) (empty : decoder.buf = [])
    (collected : decoder.decodedBody = []) (fragments : List Bytes) :
    ∃ reader, (across side pick limit decoder fragments).Traces side limit reader ∧
      (Reader.machine side limit).Reaches ((decoder.view []).feed fragments.flatten) reader ∧
      (Reader.machine side limit).Settled reader := by
  -- Before any input both stand in front of the first head.
  have start : (view side { decoder } : Reader Head Context) = decoder.view [] := by
    simp [view, Decoder.view, settle, phase, undecoded, collected]
  have follows : Traces side limit ({ decoder } : StreamRun Head Context) (decoder.view []) := by
    refine .inl ⟨rfl, ?_, ?_, fun _ => ⟨start.symm, rfl, proper⟩⟩
    · simp [Decoder.view, phase]
    · simp [Decoder.view]
  refine Incremental.fragments_follow (Reader.machine side limit)
    give_traces (pump_traces lawful) fragments _ _ follows (Reader.settled_head (.inl phase) ?_)
  simp [Decoder.view, empty, splitLine, findLine]

end StreamRun

/-- Every message read so far has the content its framing leaves it. -/
def Reader.Filled {Head Context : Type} (reader : Reader Head Context) : Prop :=
  ∀ message ∈ reader.done, message.content.getD [] = message.body

/-- Every step keeps messages with the content their framing leaves them. -/
theorem Reader.step_filled {Head Context : Type} {side : Side Head Context} {limit : Option Nat}
    {reader next : Reader Head Context} (sound : reader.Sound) (filled : reader.Filled)
    (stepped : reader.step side limit = some next) : next.Filled := by
  -- Only the end of a message adds one.
  have unfailed : reader.halted limit = false → reader.failed = none := failed_of_running
  unfold step at stepped
  split at stepped
  · cases stepped
  · simp only [Option.map_eq_some_iff] at stepped
    obtain ⟨_, _, rfl⟩ := stepped
    exact filled
  · simp only [Option.map_eq_some_iff] at stepped
    obtain ⟨_, _, rfl⟩ := stepped
    exact filled
  · split at stepped <;> cases stepped
    exact filled
  · simp only [Option.map_eq_some_iff] at stepped
    obtain ⟨_, _, rfl⟩ := stepped
    exact filled
  · split at stepped <;> cases stepped
    exact filled
  · split at stepped <;> cases stepped
    exact filled
  · simp only [Option.map_eq_some_iff] at stepped
    obtain ⟨_, _, rfl⟩ := stepped
    exact filled
  · rename_i running phase
    cases stepped
    have consistent := sound (unfailed running)
    simp only [Consistent, phase] at consistent
    obtain ⟨⟨head, bodyKind, current, notTunnel, bodiless, _⟩, _⟩ := consistent
    intro message found
    simp only [push, current, List.mem_append, List.mem_singleton] at found
    rcases found with before | rfl
    · exact filled message before
    · cases bodyKind with
      | none => simp [Message.content, bodiless rfl]
      | tunnel => exact absurd rfl notTunnel
      | contentLength length => rfl
      | chunked => rfl
      | closeDelimited => rfl
  · cases stepped
  · cases stepped

/-- A fresh reader keeps the content of its messages wherever it gets. -/
theorem Reader.reaches_filled {Head Context : Type} {side : Side Head Context}
    {limit : Option Nat} {reader next : Reader Head Context} (lawful : side.Lawful)
    (reached : (machine side limit).Reaches reader next) (proper : reader.Proper side)
    (fresh : reader.done = []) : next.Filled := by
  have both := reached.preserves (motive := fun reader => reader.Sound ∧ reader.Filled)
    (fun _ _ before stepped =>
      ⟨step_sound lawful before.1 stepped, step_filled before.1 before.2 stepped⟩)
    ⟨fun _ => proper.consistent, by simp [Filled, fresh]⟩
  exact both.2

/-- A streamed connection yields the requests that decoding it whole does, or fails with it. -/
theorem StreamRun.over_decode (limits : DecoderLimits) (pick : Nat → Nat)
    (fragments : List Bytes) :
    let streamed := StreamRun.across RequestDecoder.side pick none
      (RequestDecoder.withLimits limits) fragments
    let decoded := DecodeRun.across limits [fragments.flatten]
    streamed.messages.map (fun message => (message.head.method, message.head.uri,
        message.head.version, message.head.headers, message.body)) =
      decoded.requests.map (fun request => (request.method, request.uri, request.version,
        request.headers, request.body.getD [])) ∧
    streamed.failed.isSome = decoded.failed.isSome := by
  intro streamed decoded
  have proper : ((RequestDecoder.withLimits limits).view []).Proper RequestDecoder.side :=
    view_fresh _ rfl rfl rfl rfl rfl rfl
  obtain ⟨reader, traces, reached, settled⟩ := across_traces pick none
    RequestDecoder.side_lawful proper rfl rfl rfl rfl fragments
  obtain ⟨other, follows, otherReached, otherSettled⟩ :=
    DecodeRun.across_follows limits [fragments.flatten]
  rw [List.flatten_singleton] at otherReached
  have same : reader = other := reached.settled_unique settled otherReached otherSettled
  subst same
  have filled := Reader.reaches_filled RequestDecoder.side_lawful reached (proper.feed _) rfl
  rcases traces with traced | lasting
  · refine ⟨?_, ?_⟩
    · rw [traced.messages, follows.requests, List.map_map]
      refine List.map_congr_left fun message found => ?_
      simp [Message.request, Request.fromRawParts, filled message found]
    · rw [traced.failed, follows.failed]
      unfold DecodeRun.outcome
      cases failed : reader.failed with
      | some error => rfl
      | none => by_cases tunnel : reader.core.phase = .tunnel <;> simp [tunnel, Reader.halted, failed]
  · -- Requests are never read up to the end of the connection.
    have consistent := lasting.proper.consistent
    simp only [Reader.Consistent, lasting.phase] at consistent
    obtain ⟨⟨head, current⟩, _⟩ := consistent
    exact absurd rfl (RequestDecoder.not_closeDelimited lasting.proper.determined current)

end Http11

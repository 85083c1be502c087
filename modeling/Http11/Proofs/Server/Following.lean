import Http11.Proofs.Streaming
import Http11.Service

/-! The server keeps in step with a reader of all that arrives, whatever the order of things. -/

namespace Http11

namespace Server

variable {surroundings : Surroundings}

/-- Messages behind others are answered where these left the connection. -/
theorem serveAll_append (messages more : List (Message RequestHead)) :
    serveAll surroundings (messages ++ more) =
      more.foldl (serveMessage surroundings) (serveAll surroundings messages) := by
  simp [serveAll]

/-- A connection that has ended answers nothing more. -/
theorem serveMessages_ended {state : ConnectionState} {ending : Ending}
    (more : List (Message RequestHead)) :
    more.foldl (serveMessage surroundings) (state, some ending) = (state, some ending) := by
  induction more with
  | nil => rfl
  | cons message more ih => exact ih

/-- What has ended a connection ends it with more messages behind it. -/
theorem serveAll_ended {messages : List (Message RequestHead)} {state : ConnectionState}
    {ending : Ending} (ended : serveAll surroundings messages = (state, some ending))
    (more : List (Message RequestHead)) :
    serveAll surroundings (messages ++ more) = (state, some ending) := by
  rw [serveAll_append, ended]
  exact serveMessages_ended more

end Server

open Server Decoder

namespace ServerRun

variable {surroundings : Surroundings}

/-- The decoder of a run as a reader, with the messages that were answered. -/
def view (run : ServerRun) (done : List (Message RequestHead)) : Reader RequestHead Unit :=
  run.decoder.streaming RequestDecoder.side run.current (run.body.getD []) done

/-- A framing that leaves something to receive. -/
def hasBody (bodyKind : BodyKind) : Prop := isFramed bodyKind ∧ bodyKind ≠ .none

/-- A run whose connection goes on: its decoder is a reader, and what was read is answered. -/
structure Coherent (surroundings : Surroundings) (run : ServerRun)
    (done : List (Message RequestHead)) : Prop where
  /-- The connection has not ended. -/
  going : run.ending = none
  /-- The decoder is a proper reader. -/
  proper : (run.view done).Proper RequestDecoder.side
  /-- Its buffer is within its limit. -/
  roomy : run.decoder.Roomy
  /-- Its limits are the default ones. -/
  limits : run.decoder.limits = {}
  /-- The messages read so far were answered, and did not end the connection. -/
  served : serveAll surroundings done = (run.connection, none)

/-- Such a run before another pass. -/
structure Receiving (surroundings : Surroundings) (run : ServerRun)
    (done : List (Message RequestHead)) : Prop extends run.Coherent surroundings done where
  /-- A body that is being received has a framing. -/
  framed : ∀ head bodyKind, run.current = some (head, bodyKind) → hasBody bodyKind
  /-- Between messages there is no body. -/
  between : run.current = none → run.body = none

/-- A reader where the server will not read on. -/
def Final (surroundings : Surroundings) (reader : Reader RequestHead Unit) : Prop :=
  (serveAll surroundings reader.done).2.isSome = true ∨ reader.failed.isSome = true ∨
    reader.core.phase = .tunnel ∨ bufferSize ≤ reader.core.buf.length ∧
      (Reader.machine RequestDecoder.side none).Settled
        ((Reader.window RequestDecoder.side none bufferSize).front reader)

/-- A run that has ended, where a reader has stopped. -/
structure Ended (surroundings : Surroundings) (start : Reader RequestHead Unit) (run : ServerRun)
    (ending : Server.Ending) : Prop where
  /-- The reader has got there, and stays there. -/
  stopped : ∃ reader, (Reader.machine RequestDecoder.side none).Reaches start reader ∧
    Final surroundings reader ∧ outcome surroundings reader = (run.connection, some ending)
  /-- The run has ended so. -/
  ended : run.ending = some ending

/-- What followed from a place of the reader: the run goes on, waits, or has ended. -/
def Passed (surroundings : Surroundings) (start : Reader RequestHead Unit) (waiting : Bytes) :
    ServerRun ⊕ ServerRun → Prop
  | .inl next => next.waiting = waiting ∧ ∃ done, next.Receiving surroundings done ∧
      (Reader.machine RequestDecoder.side none).Reaches start (next.view done)
  | .inr result => result.waiting = waiting ∧
      ((∃ ending, result.Ended surroundings start ending) ∨
        ∃ done, result.Receiving surroundings done ∧
          (Reader.machine RequestDecoder.side none).Reaches start (result.view done) ∧
          (Reader.machine RequestDecoder.side none).Settled (result.view done))

/-- Where messages have ended the connection, the rest does not matter. -/
theorem outcome_served {reader : Reader RequestHead Unit} {state : ConnectionState}
    {ending : Server.Ending} (served : serveAll surroundings reader.done = (state, some ending)) :
    outcome surroundings reader = (state, some ending) := by
  unfold outcome
  rw [served]

/-- Where the reader has failed, the connection has ended with its error. -/
theorem outcome_failed {reader : Reader RequestHead Unit} {state : ConnectionState} {error : Error}
    (served : serveAll surroundings reader.done = (state, none))
    (failed : reader.failed = some error) :
    outcome surroundings reader = (state, some (.failed (.decoder error))) := by
  unfold outcome
  rw [served, failed]

/-- The answer to a message that is complete leaves the run where the reader is. -/
theorem answered_follows {start : Reader RequestHead Unit} {run : ServerRun}
    {decoder : RequestDecoder} {done : List (Message RequestHead)} {message : Message RequestHead}
    (sound : start.Proper RequestDecoder.side) (going : run.ending = none)
    (roomy : decoder.Roomy) (limits : decoder.limits = {})
    (served : serveAll surroundings done = (run.connection, none))
    (reached : (Reader.machine RequestDecoder.side none).Reaches start
      (decoder.streaming RequestDecoder.side none [] (done ++ [message]))) :
    Passed surroundings start run.waiting
      ({ run with decoder, current := none, body := none }.answered
        (serveRequest surroundings run.connection message.head message.bodyKind
          message.content)) := by
  have proper := Reader.reaches_proper RequestDecoder.side_lawful reached sound rfl
  -- The message behind the others is answered where these left the connection.
  have standing : serveAll surroundings (done ++ [message]) =
      ((serveRequest surroundings run.connection message.head message.bodyKind
        message.content).2, endingOf (serveRequest surroundings run.connection message.head
        message.bodyKind message.content).1) := by
    rw [serveAll_append, served]
    rfl
  rcases answer : serveRequest surroundings run.connection message.head message.bodyKind
    message.content with ⟨error | _ | _, connection⟩ <;> rw [answer] at standing
  · exact ⟨rfl, .inl ⟨_, ⟨_, reached, .inl (by rw [show (streaming _ decoder none []
      (done ++ [message])).done = done ++ [message] from rfl, standing]; rfl),
      outcome_served standing⟩, rfl⟩⟩
  · exact ⟨rfl, .inl ⟨_, ⟨_, reached, .inl (by rw [show (streaming _ decoder none []
      (done ++ [message])).done = done ++ [message] from rfl, standing]; rfl),
      outcome_served standing⟩, rfl⟩⟩
  · exact ⟨rfl, _, ⟨⟨going, proper, roomy, limits, standing⟩, by simp, by simp⟩, reached⟩

/-- A place of the reader from which a run has come. -/
structure From (surroundings : Surroundings) (start : Reader RequestHead Unit) (run : ServerRun)
    (done : List (Message RequestHead)) : Prop extends run.Coherent surroundings done where
  /-- The place is a proper one. -/
  sound : start.Proper RequestDecoder.side
  /-- The run has come from there. -/
  reached : (Reader.machine RequestDecoder.side none).Reaches start (run.view done)

variable {start : Reader RequestHead Unit} {run : ServerRun} {done : List (Message RequestHead)}
  {head : RequestHead} {bodyKind : BodyKind}

/-- A body that is there to receive is taken as it arrives. -/
theorem streamBody_eq (body : hasBody bodyKind) (decoder : RequestDecoder) (buf : Option Bytes) :
    streamBody decoder bodyKind buf = match decoder.takeBody with
      | (.error error, decoder, _) => (.error error, decoder, none)
      | (.ok none, decoder, pieces) => (.ok false, decoder, some (buf.getD [] ++ pieces.flatten))
      | (.ok (some _), decoder, pieces) =>
        (.ok true, decoder, some (buf.getD [] ++ pieces.flatten)) := by
  cases bodyKind with
  | contentLength length => rfl
  | chunked => rfl
  | none => exact absurd rfl body.2
  | closeDelimited => exact absurd rfl body.1.1
  | tunnel => exact absurd rfl body.1.2

/-- A body that was there to receive is the content of its message. -/
theorem content_eq (body : hasBody bodyKind) (bytes : Bytes) (trailers : Headers) :
    Message.content ⟨head, bodyKind, bytes, trailers⟩ = some bytes := by
  cases bodyKind with
  | contentLength length => rfl
  | chunked => rfl
  | none => exact absurd rfl body.2
  | closeDelimited => exact absurd rfl body.1.1
  | tunnel => exact absurd rfl body.1.2

/-- A body follows its head. -/
theorem receiveBody_body (came : run.From surroundings start done)
    (current : run.current = some (head, bodyKind)) (body : hasBody bodyKind) :
    Passed surroundings start run.waiting (run.receiveBody surroundings head bodyKind) := by
  have proper := came.proper
  have reached := came.reached
  rw [view, current] at proper reached
  have took := (takeBody_follows RequestDecoder.side_lawful (going_none done) body.1 proper).after
    reached
  obtain ⟨moves, pending⟩ := takeBody_moves run.decoder
  have changes := moves.changes RequestDecoder.side
  have roomy := came.roomy.changes changes pending
  have limits := changes.limits
  rw [receiveBody, streamBody_eq body]
  rcases taken : run.decoder.takeBody with ⟨error | _ | trailers, decoder, pieces⟩ <;>
    rw [taken] at took roomy limits
  · -- The decoder has refused what arrived.
    obtain ⟨reader, ⟨failed, _, kept⟩, got⟩ := took
    have served := came.served
    rw [← kept] at served
    exact ⟨rfl, .inl ⟨_, ⟨reader, got, .inr (.inl (by rw [failed]; rfl)),
      outcome_failed served failed⟩, rfl⟩⟩
  · obtain ⟨got, settled⟩ := took
    have later := Reader.reaches_proper RequestDecoder.side_lawful got came.sound rfl
    refine ⟨rfl, .inr ⟨done, ⟨⟨came.going, ?_, roomy, limits.trans came.limits, came.served⟩, ?_, ?_⟩,
      ?_, ?_⟩⟩
    · rw [view, current]
      exact later
    · intro _ _ found
      rw [show run.current = some _ from found] at current
      cases current
      exact body
    · intro between
      rw [show run.current = none from between] at current
      cases current
    · rw [view, current]
      exact got
    · rw [view, current]
      exact settled none
  · have answered := answered_follows came.sound came.going roomy (limits.trans came.limits)
      came.served took
    rw [content_eq body] at answered
    exact answered

/-- A message without a body is answered at once. -/
theorem receiveBody_bodiless (came : run.From surroundings start done)
    (current : run.current = some (head, .none)) :
    Passed surroundings start run.waiting (run.receiveBody surroundings head .none) := by
  -- The reader moves on to the next message.
  have reading : (run.view done).current = some (head, .none) := current
  obtain ⟨phase, empty, untrailed⟩ := Reader.complete_of_bodiless came.proper.consistent reading
  have core : (run.view done).core = run.decoder.toCore := by
    simp [view, streaming, StreamRun.view, current]
  have complete : run.decoder.phase = .complete := by rwa [core] at phase
  have onward := came.reached.trans (streaming_after (going_none done) phase
    reading empty rfl rfl untrailed complete (by rw [core]))
  exact answered_follows came.sound came.going came.roomy came.limits came.served onward

/-- A request for a tunnel ends the connection. -/
theorem serveRequest_tunnel (surroundings : Surroundings) (state : ConnectionState)
    (head : RequestHead) (body : Option Bytes) :
    ∃ ending, endingOf (serveRequest surroundings state head .tunnel body).1 = some ending := by
  unfold serveRequest
  rw [if_pos rfl]
  split <;> exact ⟨_, rfl⟩

/-- A request for a tunnel is answered, and nothing more is read. -/
theorem receiveBody_tunnel (came : run.From surroundings start done)
    (current : run.current = some (head, .tunnel)) :
    Passed surroundings start run.waiting (run.receiveBody surroundings head .tunnel) := by
  have phase := Reader.phase_of_tunnel came.proper.consistent
    (show (run.view done).current = _ from current)
  have standing : outcome surroundings (run.view done) =
      ((serveRequest surroundings run.connection head .tunnel none).2,
        endingOf (serveRequest surroundings run.connection head .tunnel none).1) := by
    unfold outcome
    rw [show (run.view done).done = done from rfl, came.served,
      show (run.view done).failed = none from rfl, phase,
      show (run.view done).current = some (head, .tunnel) from current]
  -- The tunnel ends the connection, whether its answer could be written or not.
  obtain ⟨ending, ended⟩ := serveRequest_tunnel surroundings run.connection head none
  rw [ended] at standing
  have final : Final surroundings (run.view done) := .inr (.inr (.inl phase))
  change Passed surroundings start run.waiting
    ({ run with decoder := run.decoder, current := none, body := none }.answered
      (serveRequest surroundings run.connection head .tunnel none))
  rcases answer : serveRequest surroundings run.connection head .tunnel none with
    -- An error and the end of the service are all that is left.
    ⟨error | _ | _, connection⟩ <;> rw [answer] at ended standing <;> cases ended
  · exact ⟨rfl, .inl ⟨_, ⟨_, came.reached, final, standing⟩, rfl⟩⟩
  · exact ⟨rfl, .inl ⟨_, ⟨_, came.reached, final, standing⟩, rfl⟩⟩

/-- What follows a head that is there follows the reader. -/
theorem receiveBody_follows (came : run.From surroundings start done)
    (current : run.current = some (head, bodyKind)) :
    Passed surroundings start run.waiting (run.receiveBody surroundings head bodyKind) := by
  -- Requests never end with the connection.
  have notClose := RequestDecoder.not_closeDelimited came.proper.determined
    (show (run.view done).current = some (head, bodyKind) from current)
  cases bodyKind with
  | contentLength length => exact receiveBody_body came current ⟨⟨by simp, by simp⟩, by simp⟩
  | chunked => exact receiveBody_body came current ⟨⟨by simp, by simp⟩, by simp⟩
  | none => exact receiveBody_bodiless came current
  | closeDelimited => exact absurd rfl notClose
  | tunnel => exact receiveBody_tunnel came current

/-- One pass follows the reader. -/
theorem pass_follows (receiving : run.Receiving surroundings done) :
    Passed surroundings (run.view done) run.waiting (pass surroundings run) := by
  -- A message whose head is there goes on with its body, otherwise a head is read.
  cases current : run.current with
  | some decoded =>
    obtain ⟨head, bodyKind⟩ := decoded
    have same : pass surroundings run = run.receiveBody surroundings head bodyKind := by
      simp [pass, receiveHead, current]
    rw [same]
    exact receiveBody_follows ⟨receiving.toCoherent, receiving.proper, .refl⟩ current
  | none =>
    have empty := receiving.between current
    have proper := receiving.proper
    have between : run.view done = run.decoder.streaming RequestDecoder.side none [] done := by
      rw [view, current, empty]
      rfl
    have headed := decodeHeaders_streaming (going_none done) (between ▸ proper)
    have changes := Core.decodeHeaders_changes RequestDecoder.side run.decoder.toCore
    rw [← between] at headed
    unfold pass receiveHead
    rw [current]
    dsimp only [RequestDecoder.decodeHeaders, onCore]
    simp only [onCore] at headed
    -- The head is refused, awaited or there.
    rcases read : run.decoder.toCore.decodeHeaders RequestDecoder.side with
      ⟨error | _ | ⟨head, bodyKind⟩, core⟩ <;> rw [read] at headed changes
    · -- A refused head ends the connection with what was served before.
      obtain ⟨reader, ⟨failed, _, kept⟩, got⟩ := headed
      have served := receiving.served
      rw [← kept] at served
      exact ⟨rfl, .inl ⟨_, ⟨reader, got, .inr (.inl (by rw [failed]; rfl)),
        outcome_failed served failed⟩, rfl⟩⟩
    · -- While it waits the run stays between messages.
      obtain ⟨got, settled⟩ := headed
      have later := Reader.reaches_proper RequestDecoder.side_lawful got receiving.proper rfl
      have waits : view { run with
          decoder := { run.decoder with toCore := core }, current := none } done =
          streaming RequestDecoder.side { run.decoder with toCore := core } none [] done := by
        rw [view, empty]
        rfl
      rw [← waits] at got settled later
      exact ⟨rfl, .inr ⟨done, ⟨⟨receiving.going, later,
        receiving.roomy.changes changes rfl, changes.limits.trans receiving.limits,
        receiving.served⟩, fun _ _ other => (by cases other), fun _ => empty⟩, got, settled none⟩⟩
    · -- The body is received in the same pass.
      have later := Reader.reaches_proper RequestDecoder.side_lawful headed receiving.proper rfl
      have opened : view { run with
          decoder := { run.decoder with toCore := core }, current := some (head, bodyKind) } done =
          streaming RequestDecoder.side { run.decoder with toCore := core } (some (head, bodyKind))
            [] done := by
        rw [view, empty]
        rfl
      rw [← opened] at later
      have got : (Reader.machine RequestDecoder.side none).Reaches (run.view done) (view { run with
          decoder := { run.decoder with toCore := core }, current := some (head, bodyKind) } done) := by
        rw [opened]
        exact headed
      exact receiveBody_follows ⟨⟨receiving.going, later, receiving.roomy.changes changes rfl,
        changes.limits.trans receiving.limits, receiving.served⟩, receiving.proper, got⟩ rfl

/-- Where a run waits or ends, once it has dealt with everything in its buffer. -/
structure Rests (surroundings : Surroundings) (start : Reader RequestHead Unit) (waiting : Bytes)
    (run : ServerRun) : Prop where
  /-- What was not read stays where it is. -/
  same : run.waiting = waiting
  /-- The connection has ended, or the reader waits. -/
  rest : (∃ ending, run.Ended surroundings start ending) ∨
    ∃ done, run.Receiving surroundings done ∧
      (Reader.machine RequestDecoder.side none).Reaches start (run.view done) ∧
      (Reader.machine RequestDecoder.side none).Settled (run.view done)

/-- The passes follow the reader until it waits. -/
theorem loop_follows (receiving : run.Receiving surroundings done) :
    Rests surroundings (run.view done) run.waiting ((loop surroundings).run run) := by
  refine (loop surroundings).run_rule (motive := fun run result => ∀ done,
    run.Receiving surroundings done → Rests surroundings (run.view done) run.waiting result)
    ?_ ?_ run done receiving
  · intro run result passed done receiving
    have followed := pass_follows receiving
    rw [show pass surroundings run = .inr result from passed] at followed
    exact ⟨followed.1, followed.2⟩
  · intro run next result passed ih done receiving
    have followed := pass_follows receiving
    rw [show pass surroundings run = .inl next from passed] at followed
    obtain ⟨same, more, later, reached⟩ := followed
    obtain ⟨kept, rest⟩ := ih more later
    -- What the later passes did follows what this one did.
    refine ⟨kept.trans same, ?_⟩
    rcases rest with ⟨ending, ⟨reader, got, final, shown⟩, ended⟩ | ⟨last, waits, got, settled⟩
    · exact .inl ⟨ending, ⟨reader, reached.trans got, final, shown⟩, ended⟩
    · exact .inr ⟨last, waits, reached.trans got, settled⟩

end ServerRun

end Http11

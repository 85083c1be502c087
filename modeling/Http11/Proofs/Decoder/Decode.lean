import Http11.Decoder.Request
import Http11.Decoder.Response
import Http11.Proofs.Decoder.Follows

/-! Decoding whole messages takes the steps of the reader, up to the end of a message. -/

namespace Http11

namespace Decoder

variable {Head Context : Type} {side : Side Head Context} {limit : Option Nat}
  {decoder : Decoder Head Context} {done : List (Message Head)}

/-- A decoder that collects messages, as a reader that has read some before. -/
def view (decoder : Decoder Head Context) (done : List (Message Head)) : Reader Head Context where
  core := decoder.toCore
  current := decoder.decoded
  body := decoder.decodedBody
  done := done

/-- A fresh decoder is a proper reader, which waits for input. -/
theorem view_fresh (side : Side Head Context) {decoder : Decoder Head Context}
    (phase : decoder.phase = .startLine) (started : decoder.startLine = none)
    (headers : decoder.headers = [])
    (body : decoder.bodyDecoder = {}) (undecoded : decoder.decoded = none)
    (empty : decoder.decodedBody = []) : (decoder.view []).Proper side where
  consistent := by
    simp only [Reader.Consistent, view, phase]
    exact ⟨undecoded, empty, body, started, headers⟩
  determined := by
    intro head bodyKind current
    simp [view, undecoded] at current

/-- The reader goes on while fewer messages were read than it was asked for. -/
def Going (limit : Option Nat) (done : List (Message Head)) : Prop :=
  ∀ count ∈ limit, done.length < count

/-- Without a bound there is always room for a message. -/
theorem going_none (done : List (Message Head)) : Going none done := by simp [Going]

/-- A view goes on as long as its messages are too few. -/
theorem view_running (decoder : Decoder Head Context) (going : Going limit done) :
    (decoder.view done).halted limit = false := by
  cases limit with
  | none => rfl
  | some count => exact decide_eq_false (Nat.not_le.mpr (going count rfl))

/-- A reader that failed where a method did. -/
structure FailedAs (error : Error) (next : Decoder Head Context) (reader : Reader Head Context)
    (done : List (Message Head)) : Prop where
  /-- The error is the one returned. -/
  failed : reader.failed = some error
  /-- What is buffered is the same. -/
  buffered : reader.core.buf = next.buf
  /-- The messages before it stay. -/
  kept : reader.done = done

/-- What reading a head did, as steps of the reader. -/
def HeadRead (side : Side Head Context) (limit : Option Nat) (decoder : Decoder Head Context)
    (done : List (Message Head))
    (outcome : Except Error (Option (Head × BodyKind)) × Decoder Head Context) : Prop :=
  match outcome.1 with
  | .error error => ∃ reader, FailedAs error outcome.2 reader done ∧
      (Reader.machine side limit).Reaches (decoder.view done) reader
  | .ok none => outcome.2.decoded = none ∧
      (Reader.machine side limit).Reaches (decoder.view done) (outcome.2.view done) ∧
      ∀ any, (Reader.machine side any).Settled (outcome.2.view done)
  | .ok (some decoded) => outcome.2.decoded = some decoded ∧
      (Reader.machine side limit).Reaches (decoder.view done) (outcome.2.view done)

/-- Without a head, the lines of one are next. -/
theorem heading_of_undecoded (consistent : (decoder.view done).Consistent)
    (undecoded : decoder.decoded = none) :
    decoder.phase = .startLine ∨ decoder.phase = .headers := by
  unfold Reader.Consistent at consistent
  simp only [view, undecoded] at consistent
  split at consistent
  · exact .inl (by assumption)
  · exact .inr (by assumption)
  all_goals simp at consistent

/-- Without a head there is no tunnel yet. -/
theorem not_tunnel_of_undecoded (consistent : (decoder.view done).Consistent)
    (undecoded : decoder.decoded = none) : decoder.phase ≠ .tunnel := by
  rcases heading_of_undecoded consistent undecoded with phase | phase <;> simp [phase]

/-- The head of a message to collect takes the steps of its lines. -/
theorem decodeHead_follows (side : Side Head Context) (going : Going limit done)
    (consistent : (decoder.view done).Consistent) :
    HeadRead side limit decoder done (decoder.decodeHead side) := by
  -- A decoded head takes no steps; otherwise its lines are read.
  cases decoded : decoder.decoded with
  | some found =>
    simp only [decodeHead, decoded]
    exact ⟨decoded, .refl⟩
  | none =>
    have heading := heading_of_undecoded consistent decoded
    have followed := Reader.decodeHeaders_follows side
      (view_running decoder going) heading decoded
    rw [show (decoder.view done).core = decoder.toCore from rfl] at followed
    rw [decodeHead_eq side decoded heading]
    obtain ⟨reached, waits⟩ := followed
    cases headers : decoder.toCore.decodeHeaders side with
    | mk outcome core =>
      rw [headers] at reached waits
      -- The lines end in an error, in waiting, or with the head.
      rcases outcome with error | _ | found
      · exact ⟨_, ⟨rfl, rfl, rfl⟩, reached⟩
      · obtain ⟨phases, split⟩ := waits rfl
        -- Nothing was decoded, so the reader waits where the decoder stands.
        have same : (decoder.view done).afterHead (.ok none, core) =
            ({ decoder with toCore := core } : Decoder Head Context).view done := by
          simp [Reader.afterHead, view, decoded]
        rw [same] at reached
        exact ⟨decoded, reached, fun any => Reader.settled_head phases split⟩
      · exact ⟨rfl, reached⟩

/-- The reader once the message a decoder has collected is complete. -/
structure Completed (next : Decoder Head Context) (side : Side Head Context)
    (reader : Reader Head Context) (done : List (Message Head)) : Prop where
  /-- The message is complete. -/
  phase : reader.core.phase = .complete
  /-- Its head was read before. -/
  current : reader.current = next.decoded
  /-- Its body is the one collected. -/
  body : reader.body = next.decodedBody
  /-- What is left for the next message is the same. -/
  core : reader.core.nextMessage side = next.toCore.nextMessage side
  /-- What is left of the head is the same. -/
  head : reader.core.startLine = next.startLine ∧ reader.core.headers = next.headers
  /-- No error stopped the reader. -/
  unfailed : reader.failed = none
  /-- The messages before it stay. -/
  kept : reader.done = done

/-- What collecting a body did, as steps of the reader. -/
def BodyRead (side : Side Head Context) (limit : Option Nat) (decoder : Decoder Head Context)
    (done : List (Message Head)) (outcome : Except Error Bool × Decoder Head Context) : Prop :=
  match outcome.1 with
  | .error error => ∃ reader, FailedAs error outcome.2 reader done ∧
      (Reader.machine side limit).Reaches (decoder.view done) reader
  | .ok false => outcome.2.decoded = decoder.decoded ∧
      (Reader.machine side limit).Reaches (decoder.view done) (outcome.2.view done) ∧
      ∀ any, (Reader.machine side any).Settled (outcome.2.view done)
  | .ok true => outcome.2.decoded = decoder.decoded ∧
      ∃ reader, Completed outcome.2 side reader done ∧
        (Reader.machine side limit).Reaches (decoder.view done) reader

/-- Steps before a body was collected are steps of collecting it. -/
theorem BodyRead.after {next : Decoder Head Context}
    {outcome : Except Error Bool × Decoder Head Context}
    (reached : (Reader.machine side limit).Reaches (decoder.view done) (next.view done))
    (same : next.decoded = decoder.decoded) (read : BodyRead side limit next done outcome) :
    BodyRead side limit decoder done outcome := by
  obtain ⟨result, last⟩ := outcome
  -- Whatever the outcome is, the steps before come first.
  rcases result with error | _ | _
  · obtain ⟨reader, failed, rest⟩ := read
    exact ⟨reader, failed, reached.trans rest⟩
  · obtain ⟨kept, rest, settled⟩ := read
    exact ⟨kept.trans same, reached.trans rest, settled⟩
  · obtain ⟨kept, reader, completed, rest⟩ := read
    exact ⟨kept.trans same, reader, completed, reached.trans rest⟩

/-- A framing whose body is collected by the loop. -/
def Framed (decoded : Option (Head × BodyKind)) : Prop :=
  ∃ head bodyKind, decoded = some (head, bodyKind) ∧ bodyKind ≠ .closeDelimited ∧
    bodyKind ≠ .tunnel

/-- A framed message is not read up to the close, and is no tunnel. -/
theorem phase_of_framed (consistent : (decoder.view done).Consistent)
    (framed : Framed decoder.decoded) :
    decoder.phase ≠ .bodyCloseDelimited ∧ decoder.phase ≠ .tunnel := by
  -- The phase tells the framing of what was decoded, so both would contradict it.
  obtain ⟨head, bodyKind, decoded, notClose, notTunnel⟩ := framed
  constructor
  · intro phase
    simp only [Reader.Consistent, view, phase, decoded] at consistent
    obtain ⟨⟨other, same⟩, _⟩ := consistent
    cases same
    exact notClose rfl
  · intro phase
    simp only [Reader.Consistent, view, phase, decoded] at consistent
    obtain ⟨⟨other, same⟩, _⟩ := consistent
    cases same
    exact notTunnel rfl

/-- One pass of collecting a body takes steps of the reader. -/
theorem readBodyPass_follows (side : Side Head Context) (going : Going limit done)
    (consistent : (decoder.view done).Consistent) (framed : Framed decoder.decoded) :
    match decoder.readBodyPass with
    | .inl next => next.decoded = decoder.decoded ∧
        (Reader.machine side limit).Reaches (decoder.view done) (next.view done)
    | .inr outcome => BodyRead side limit decoder done outcome := by
  have running := view_running decoder going
  obtain ⟨notClose, notTunnel⟩ := phase_of_framed consistent framed
  unfold readBodyPass
  -- Shown bytes are consumed, and without any the decoder moves on.
  cases peeked : decoder.peekBody with
  | some data =>
    have present := List.length_pos_of_ne_nil (peekBody_ne_nil peeked)
    obtain ⟨reached, achieved⟩ := Reader.consumeBody_follows side running consistent
      notClose peeked present le_rfl
    simp only [consumeBody_eq _ present]
    rw [show (decoder.view done).core = decoder.toCore from rfl, List.take_length] at reached
    rw [show (decoder.view done).core = decoder.toCore from rfl] at achieved
    cases consumed : BodyState.consumeBody decoder.limits data.length decoder.toBodyState with
    | mk result state =>
      rw [consumed] at reached achieved
      cases result with
      | error error => exact ⟨_, ⟨rfl, rfl, rfl⟩, reached⟩
      | ok progress =>
        dsimp only
        -- The body has ended, or the next pass goes on.
        by_cases complete : state.phase = .complete
        · rw [if_pos complete]
          exact ⟨rfl, _, ⟨complete, rfl, rfl, rfl, ⟨rfl, rfl⟩, rfl, rfl⟩, reached⟩
        · rw [if_neg complete]
          exact ⟨rfl, reached⟩
  | none =>
    have reading : (decoder.view done).current ≠ none := by
      -- A head was decoded, so a message is being read.
      obtain ⟨head, bodyKind, decoded, _⟩ := framed
      simp [view, decoded]
    have progressed := Reader.progress_follows side running consistent reading peeked
    simp only [progress_eq]
    rw [show (decoder.view done).core = decoder.toCore from rfl] at progressed
    cases consumed : BodyState.consumeBody decoder.limits 0 decoder.toBodyState with
    | mk result state =>
      rw [consumed] at progressed
      cases result with
      | error error =>
        -- A tunnel is the only phase that refuses to move on without a step.
        rcases progressed with ⟨phase, _⟩ | reached
        · exact absurd phase notTunnel
        · exact ⟨_, ⟨rfl, rfl, rfl⟩, reached⟩
      | ok progress =>
        -- Moving on leads further, waits for bytes, or ends the body.
        cases progress with
        | advanced => exact ⟨rfl, progressed⟩
        | needData => exact ⟨rfl, progressed.2.1, progressed.2.2⟩
        | complete trailers =>
          obtain ⟨before, phase, _, rfl, reached⟩ := progressed
          exact ⟨rfl, _, ⟨phase, rfl, rfl, rfl, ⟨rfl, rfl⟩, rfl, rfl⟩, reached⟩

/-- Collecting a framed body takes the steps of the reader. -/
theorem readBody_follows (lawful : side.Lawful) (going : Going limit done)
    (consistent : (decoder.view done).Consistent) (framed : Framed decoder.decoded) :
    BodyRead side limit decoder done decoder.readBody := by
  -- Every pass keeps the parts together, so the next one follows as well.
  refine readBodyLoop.run_rule
    (motive := fun decoder outcome => (decoder.view done).Consistent → Framed decoder.decoded →
      BodyRead side limit decoder done outcome) ?_ ?_ decoder consistent framed
  · intro decoder outcome pass consistent framed
    have followed := readBodyPass_follows side going consistent framed
    change decoder.readBodyPass = .inr outcome at pass
    rwa [pass] at followed
  · intro decoder next outcome pass ih consistent framed
    have followed := readBodyPass_follows side going consistent framed
    change decoder.readBodyPass = .inl next at pass
    rw [pass] at followed
    obtain ⟨same, reached⟩ := followed
    have sound := Reader.reaches_sound lawful reached (fun _ => consistent)
    exact .after reached same (ih (sound rfl) (by rwa [same]))

/-- The decoder once a message it has collected was handed over. -/
def finished (side : Side Head Context) (decoder : Decoder Head Context) : Decoder Head Context :=
  { decoder with
    phase := .startLine
    bodyDecoder := {}
    context := side.nextContext decoder.context
    decoded := none
    decodedBody := [] }

/-- A message that is complete counts as read, and the decoder is ready for the next one. -/
theorem completed_finished {reader : Reader Head Context} {head : Head} {bodyKind : BodyKind}
    (going : Going limit done) (completed : Completed decoder side reader done)
    (consistent : reader.Consistent) (decoded : decoder.decoded = some (head, bodyKind)) :
    (Reader.machine side limit).Reaches reader ((decoder.finished side).view
      (done ++ [⟨head, bodyKind, decoder.decodedBody, reader.core.bodyDecoder.trailers⟩])) := by
  -- A complete message leaves no line of its head behind.
  simp only [Reader.Consistent, completed.phase] at consistent
  obtain ⟨_, unstarted, empty⟩ := consistent
  have running : reader.halted limit = false := by
    have fresh := view_running decoder going
    exact Reader.running_of_done fresh completed.unfailed completed.kept
  -- The step behind a complete message puts it to those that are done.
  have stepped : reader.step side limit = some (reader.push side) := by
    simp [Reader.step, running, completed.phase]
  have rest : (decoder.finished side).toCore = reader.core.nextMessage side := by
    rw [completed.core]
    have none : decoder.startLine = none := by rw [← completed.head.1, unstarted]
    have nil : decoder.headers = [] := by rw [← completed.head.2, empty]
    simp [finished, Core.nextMessage, none, nil]
  -- Handing the message over brings the decoder to where that step leads.
  have same : reader.push side = (decoder.finished side).view
      (done ++ [⟨head, bodyKind, decoder.decodedBody, reader.core.bodyDecoder.trailers⟩]) := by
    simp only [view, rest]
    simp [Reader.push, finished, completed.current, decoded, completed.body, completed.kept,
      completed.unfailed]
  rw [same] at stepped
  exact .single stepped

/-- The error of decoding whole messages in a tunnel. -/
def tunnelError : Error :=
  .invalidData "decode() cannot be used in tunnel mode, use take_remaining() instead"

/-- What decoding a whole message did, as steps of the reader. -/
def Decoded {Whole : Type} (side : Side Head Context) (limit : Option Nat)
    (whole : Message Head → Whole) (decoder : Decoder Head Context) (done : List (Message Head))
    (outcome : Except Error (Option Whole) × Decoder Head Context) : Prop :=
  match outcome.1 with
  | .error error =>
    (∃ reader, FailedAs error outcome.2 reader done ∧
      (Reader.machine side limit).Reaches (decoder.view done) reader) ∨
    (error = tunnelError ∧ outcome.2.phase = .tunnel ∧
      (Reader.machine side limit).Reaches (decoder.view done) (outcome.2.view done))
  | .ok none => outcome.2.phase ≠ .tunnel ∧
      (Reader.machine side limit).Reaches (decoder.view done) (outcome.2.view done) ∧
      ∀ any, (Reader.machine side any).Settled (outcome.2.view done)
  | .ok (some result) => ∃ message, whole message = result ∧
      (Reader.machine side limit).Reaches (decoder.view done)
        (outcome.2.view (done ++ [message]))

/-- Steps before a message was decoded are steps of decoding it. -/
theorem Decoded.after {Whole : Type} {whole : Message Head → Whole} {next : Decoder Head Context}
    {outcome : Except Error (Option Whole) × Decoder Head Context}
    (reached : (Reader.machine side limit).Reaches (decoder.view done) (next.view done))
    (decoded : Decoded side limit whole next done outcome) :
    Decoded side limit whole decoder done outcome := by
  obtain ⟨result, last⟩ := outcome
  -- Whatever the outcome is, the steps before come first.
  rcases result with error | _ | _
  · rcases decoded with ⟨reader, failed, rest⟩ | ⟨same, phase, rest⟩
    · exact .inl ⟨reader, failed, reached.trans rest⟩
    · exact .inr ⟨same, phase, reached.trans rest⟩
  · obtain ⟨phase, rest, settled⟩ := decoded
    exact ⟨phase, reached.trans rest, settled⟩
  · obtain ⟨message, same, rest⟩ := decoded
    exact ⟨message, same, reached.trans rest⟩

/-- Where the reader gets to the end of a message, decoding returns that message. -/
theorem decoded_of_reaches {Whole : Type} {whole : Message Head → Whole}
    {outcome : Except Error (Option Whole) × Decoder Head Context} {message : Message Head}
    {reader : Reader Head Context}
    (decoded : Decoded side (some (done.length + 1)) whole decoder done outcome)
    (reached : (Reader.machine side (some (done.length + 1))).Reaches (decoder.view done) reader)
    (read : reader.done = done ++ [message]) :
    outcome.1 = .ok (some (whole message)) ∧ outcome.2.view reader.done = reader := by
  -- One more message was asked for and read, so the reader stops there.
  have stopped : ∀ other : Reader Head Context, other.done.length = done.length + 1 →
      (Reader.machine side (some (done.length + 1))).Settled other := by
    intro other same
    refine Reader.settled_of_halted (Bool.or_eq_true_iff.mpr (.inr ?_))
    exact decide_eq_true (by rw [same])
  have settled := stopped reader (by simp [read])
  -- Wherever else decoding had stopped, it would have read no message.
  have elsewhere : ∀ other : Reader Head Context, other.done = done →
      (Reader.machine side (some (done.length + 1))).Reaches (decoder.view done) other →
      ¬ (Reader.machine side (some (done.length + 1))).Settled other := by
    intro other same otherReached otherSettled
    have unique := otherReached.settled_unique otherSettled reached settled
    rw [unique, read] at same
    simp at same
  obtain ⟨result, next⟩ := outcome
  rcases result with error | _ | result
  · rcases decoded with ⟨failed, as, otherReached⟩ | ⟨_, tunnel, otherReached⟩
    · have halted : failed.halted (some (done.length + 1)) = true := by
        simp [Reader.halted, as.failed]
      exact absurd (Reader.settled_of_halted halted) (elsewhere failed as.kept otherReached)
    · exact absurd (Reader.settled_tunnel tunnel) (elsewhere _ rfl otherReached)
  · obtain ⟨_, otherReached, otherSettled⟩ := decoded
    exact absurd (otherSettled _) (elsewhere _ rfl otherReached)
  · obtain ⟨other, rfl, otherReached⟩ := decoded
    have unique := otherReached.settled_unique (stopped _ (by simp [view])) reached settled
    rw [← unique] at read ⊢
    simp only [view, List.append_cancel_left_eq, List.cons.injEq, and_true] at read
    exact ⟨by rw [read], rfl⟩

/-- The phase of a message without a body. -/
theorem phase_of_bodiless (consistent : (decoder.view done).Consistent) {head : Head}
    (decoded : decoder.decoded = some (head, .none)) : decoder.phase = .complete := by
  unfold Reader.Consistent at consistent
  simp only [view, decoded] at consistent
  split at consistent <;> simp at consistent
  assumption

/-- The phase of a tunnel. -/
theorem phase_of_tunnel (consistent : (decoder.view done).Consistent) {head : Head}
    (decoded : decoder.decoded = some (head, .tunnel)) : decoder.phase = .tunnel := by
  unfold Reader.Consistent at consistent
  simp only [view, decoded] at consistent
  split at consistent <;> simp at consistent
  assumption

/-- The phases of a body up to the end of the connection. -/
theorem phase_of_closeDelimited (consistent : (decoder.view done).Consistent) {head : Head}
    (decoded : decoder.decoded = some (head, .closeDelimited)) :
    decoder.phase = .bodyCloseDelimited ∨ decoder.phase = .complete := by
  unfold Reader.Consistent at consistent
  simp only [view, decoded] at consistent
  split at consistent <;> simp at consistent
  · exact .inl (by assumption)
  · exact .inr (by assumption)

/-- A message that is complete is handed over. -/
theorem decoded_of_complete {Whole : Type} {whole : Message Head → Whole}
    (going : Going limit done) (consistent : (decoder.view done).Consistent)
    (phase : decoder.phase = .complete) {head : Head} {bodyKind : BodyKind}
    (decoded : decoder.decoded = some (head, bodyKind)) {result : Whole}
    (same : ∀ trailers, whole ⟨head, bodyKind, decoder.decodedBody, trailers⟩ = result) :
    Decoded side limit whole decoder done (.ok (some result), decoder.finished side) := by
  have completed : Completed decoder side (decoder.view done) done :=
    ⟨phase, rfl, rfl, rfl, ⟨rfl, rfl⟩, rfl, rfl⟩
  exact ⟨_, same _, completed_finished going completed consistent decoded⟩

/-- A message with a framed body is collected and handed over. -/
theorem decoded_of_framed {Whole : Type} {whole : Message Head → Whole} (lawful : side.Lawful)
    (going : Going limit done) (consistent : (decoder.view done).Consistent)
    {head : Head} {bodyKind : BodyKind} (decoded : decoder.decoded = some (head, bodyKind))
    (notClose : bodyKind ≠ .closeDelimited) (notTunnel : bodyKind ≠ .tunnel)
    {outcome : Except Error (Option Whole) × Decoder Head Context}
    (same : outcome = match decoder.readBody with
      | (.error error, decoder) => (.error error, decoder)
      | (.ok false, decoder) => (.ok none, decoder)
      | (.ok true, decoder) =>
        (.ok (some (whole ⟨head, bodyKind, decoder.decodedBody, []⟩)), decoder.finished side))
    (untrailed : ∀ body trailers, whole ⟨head, bodyKind, body, trailers⟩ =
      whole ⟨head, bodyKind, body, []⟩) :
    Decoded side limit whole decoder done outcome := by
  have framed : Framed decoder.decoded := ⟨head, bodyKind, decoded, notClose, notTunnel⟩
  have read := readBody_follows lawful going consistent framed
  subst same
  cases collected : decoder.readBody with
  | mk result next =>
    rw [collected] at read
    -- The body is refused, awaited, or there.
    rcases result with error | _ | _
    · exact .inl read
    · obtain ⟨kept, reached, settled⟩ := read
      -- Waiting keeps the reader consistent, so the phase is still that of a framed body.
      have later := Reader.reaches_sound lawful reached (fun _ => consistent) rfl
      exact ⟨(phase_of_framed later (by rwa [kept])).2, reached, settled⟩
    · obtain ⟨kept, reader, completed, reached⟩ := read
      -- The message is handed over with the body, the trailers and the head it came with.
      have later := Reader.reaches_sound lawful reached (fun _ => consistent) completed.unfailed
      exact ⟨_, untrailed _ _, reached.trans
        (completed_finished going completed later (kept.trans decoded))⟩

end Decoder

/-- The content of a message, which framing without a body leaves out. -/
def Message.content {Head : Type} (message : Message Head) : Option Bytes :=
  match message.bodyKind with
  | .none | .tunnel => none
  | .contentLength _ | .chunked | .closeDelimited => some message.body

/-- The request a message is. -/
def Message.request (message : Message RequestHead) : Request :=
  Request.fromRawParts message.head message.content

/-- The response a message is. -/
def Message.response (message : Message ResponseHead) : Response :=
  Response.fromRawParts message.head message.content

namespace RequestDecoder

open Decoder

/-- Requests are never read up to the end of the connection. -/
theorem not_closeDelimited {reader : Reader RequestHead Unit} (determined : reader.Determined side)
    {head : RequestHead} {bodyKind : BodyKind} (current : reader.current = some (head, bodyKind)) :
    bodyKind ≠ .closeDelimited := by
  obtain ⟨limits, context, startLine, headers, finished⟩ := determined head bodyKind current
  obtain ⟨_, ⟨_, rfl⟩ | ⟨_, decided⟩, _⟩ := finishHead_ok finished
  · simp
  · obtain ⟨_, _, _, _, framed⟩ := determineBodyKind_ok decided
    rcases framed with ⟨_, _, _, rfl⟩ | ⟨_, _, _, _, rfl⟩ | ⟨_, _, rfl⟩ <;> simp

/-- Decoding a request takes the steps of the reader. -/
theorem decode_follows {limit : Option Nat} {decoder : RequestDecoder}
    {done : List (Message RequestHead)} (going : Going limit done)
    (proper : (decoder.view done).Proper side) :
    Decoded side limit Message.request decoder done (decode decoder) := by
  have headed := decodeHead_follows side going proper.consistent
  unfold decode
  cases outcome : decoder.decodeHead side with
  | mk result next =>
    rw [outcome] at headed
    rcases result with error | _ | ⟨head, bodyKind⟩
    · exact .inl headed
    · obtain ⟨undecoded, reached, settled⟩ := headed
      have later := Reader.reaches_proper side_lawful reached proper rfl
      exact ⟨not_tunnel_of_undecoded later.consistent undecoded, reached, settled⟩
    · obtain ⟨decoded, reached⟩ := headed
      have later := Reader.reaches_proper side_lawful reached proper rfl
      refine Decoded.after reached ?_
      -- The framing decides how the body is collected.
      cases bodyKind with
      | tunnel => exact .inr ⟨rfl, phase_of_tunnel later.consistent decoded, .refl⟩
      | closeDelimited => exact absurd rfl (not_closeDelimited later.determined decoded)
      | none =>
        exact decoded_of_complete going later.consistent
          (phase_of_bodiless later.consistent decoded) decoded (fun _ => rfl)
      | contentLength length =>
        refine decoded_of_framed side_lawful going later.consistent decoded (by simp) (by simp) ?_
          (fun _ _ => rfl)
        dsimp only
        rcases Decoder.readBody next with ⟨_ | _ | _, _⟩ <;> rfl
      | chunked =>
        refine decoded_of_framed side_lawful going later.consistent decoded (by simp) (by simp) ?_
          (fun _ _ => rfl)
        dsimp only
        rcases Decoder.readBody next with ⟨_ | _ | _, _⟩ <;> rfl

end RequestDecoder

namespace ResponseDecoder

open Decoder

/-- Decoding a response takes the steps of the reader, unless its body lasts up to the close. -/
theorem decode_follows {limit : Option Nat} {decoder : ResponseDecoder}
    {done : List (Message ResponseHead)} (going : Going limit done)
    (proper : (decoder.view done).Proper side) :
    Decoded side limit Message.response decoder done (decode decoder) ∨
      ∃ next : ResponseDecoder, next.phase = .bodyCloseDelimited ∧
        (Reader.machine side limit).Reaches (decoder.view done) (next.view done) := by
  have headed := decodeHead_follows side going proper.consistent
  unfold decode
  cases outcome : decoder.decodeHead side with
  | mk result next =>
    rw [outcome] at headed
    rcases result with error | _ | ⟨head, bodyKind⟩
    · exact .inl (.inl headed)
    · obtain ⟨undecoded, reached, settled⟩ := headed
      have later := Reader.reaches_proper side_lawful reached proper rfl
      exact .inl ⟨not_tunnel_of_undecoded later.consistent undecoded, reached, settled⟩
    · obtain ⟨decoded, reached⟩ := headed
      have later := Reader.reaches_proper side_lawful reached proper rfl
      by_cases lasting : next.phase = .bodyCloseDelimited
      · exact .inr ⟨next, lasting, reached⟩
      refine .inl (Decoded.after reached ?_)
      cases bodyKind with
      | tunnel => exact .inr ⟨rfl, phase_of_tunnel later.consistent decoded, .refl⟩
      | closeDelimited =>
        -- Outside its own phase such a body is complete.
        have phase : next.phase = .complete :=
          (phase_of_closeDelimited later.consistent decoded).resolve_left lasting
        have nothing : next.peekBody = none := by
          simp [Decoder.peekBody, BodyState.peekBody, phase]
        simp only [readUntilClose, nothing, phase, ne_eq, not_true, if_false]
        exact decoded_of_complete going later.consistent phase decoded (fun _ => rfl)
      | none =>
        exact decoded_of_complete going later.consistent
          (phase_of_bodiless later.consistent decoded) decoded (fun _ => rfl)
      | contentLength length =>
        refine decoded_of_framed side_lawful going later.consistent decoded (by simp) (by simp) ?_
          (fun _ _ => rfl)
        dsimp only
        rcases Decoder.readBody next with ⟨_ | _ | _, _⟩ <;> rfl
      | chunked =>
        refine decoded_of_framed side_lawful going later.consistent decoded (by simp) (by simp) ?_
          (fun _ _ => rfl)
        dsimp only
        rcases Decoder.readBody next with ⟨_ | _ | _, _⟩ <;> rfl

end ResponseDecoder

end Http11

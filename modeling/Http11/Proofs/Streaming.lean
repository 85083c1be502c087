import Http11.Lib.Window
import Http11.Proofs.Decoder.Sane
import Http11.Proofs.Encoder.Reading
import Http11.Proofs.Session
import Http11.Streaming

/-! Reads fill the buffer as feeding does, and taking a body takes the steps of the reader. -/

namespace Http11

/-- A line and the bytes behind it are no longer than the buffer they were split from. -/
theorem length_of_splitLine {buf line rest : Bytes} (split : splitLine buf = some (line, rest)) :
    rest.length ≤ buf.length := by
  have lengths := splitLine_length split
  omega

/-- No change of the state of a body makes the buffer longer. -/
theorem BodyState.Change.buf_le {limits : DecoderLimits} {state next : BodyState}
    (changed : Change limits state next) : next.buf.length ≤ state.buf.length := by
  -- Lines and bytes leave the buffer at its front.
  cases changed with
  | sizeLine _ split =>
    have shorter := length_of_splitLine split
    rcases chunkSizeLine_cases limits state _ _ with ⟨_, _, same⟩ | ⟨_, same⟩ |
      ⟨_, _, _, _, _, same⟩ | ⟨_, _, _, _, _, same⟩ <;> rw [same]
    all_goals first | exact le_rfl | exact shorter
  | trailerLine _ split =>
    have shorter := length_of_splitLine split
    rcases trailerLine_cases limits state _ _ with ⟨_, same⟩ | ⟨_, _, _, same⟩ | ⟨_, _, _, same⟩ |
      ⟨_, _, _, _, _, _, _, _, _, same⟩ <;> rw [same]
    all_goals first | exact le_rfl | exact shorter
  | lineEnd _ =>
    rcases chunkDataCrlf_cases state with ⟨_, same⟩ | ⟨_, same⟩ | ⟨rest, buffered, same⟩ <;>
      rw [same]
    rw [buffered]
    simp
  | handOver _ => exact le_rfl
  | content | chunk | lasting => simp [afterContent]
  | overflow => simp

namespace Core

variable {Head Context : Type} {side : Side Head Context} {core next : Core Context}

/-- No line of a head makes the buffer longer. -/
theorem headLine_buf_le {line rest : Bytes} (split : splitLine core.buf = some (line, rest)) :
    (core.headLine side line rest).2.buf.length ≤ core.buf.length := by
  have shorter := length_of_splitLine split
  -- The line stays in the buffer only where it is refused before it is taken.
  rcases headLine_cases side core line rest with ⟨_, _, took⟩ | ⟨_, _, took⟩ |
    ⟨_, _, _, took⟩
  · rw [took]
  · rw [took]
    exact shorter
  · rw [took, headLine_buf took]
    exact shorter

/-- No changes make the buffer longer. -/
theorem Changes.buf_le (changes : Changes side core next) :
    next.buf.length ≤ core.buf.length := by
  induction changes with
  | refl => exact le_rfl
  | tail _ last ih =>
    -- Only lines and bytes are taken, and a message that ends takes nothing.
    cases last with
    | body changed => exact changed.buf_le.trans ih
    | headLine _ split => exact (headLine_buf_le split).trans ih
    | next => exact ih

end Core

/-- No step of the reader makes the buffer longer. -/
theorem Reader.step_buf_le {Head Context : Type} {side : Side Head Context} {limit : Option Nat}
    {reader next : Reader Head Context} (stepped : reader.step side limit = some next) :
    next.core.buf.length ≤ reader.core.buf.length := by
  -- A step takes a line or a byte from the front, or nothing.
  unfold step at stepped
  split at stepped
  · cases stepped
  · simp only [Option.map_eq_some_iff] at stepped
    obtain ⟨_, split, rfl⟩ := stepped
    exact Core.headLine_buf_le split
  · simp only [Option.map_eq_some_iff] at stepped
    obtain ⟨_, split, rfl⟩ := stepped
    exact Core.headLine_buf_le split
  · split at stepped <;> cases stepped
    simp_all [afterByte]
  · rename_i phase
    simp only [Option.map_eq_some_iff] at stepped
    obtain ⟨_, split, rfl⟩ := stepped
    exact (BodyState.Change.sizeLine phase split).buf_le
  · split at stepped <;> cases stepped
    simp_all [afterByte]
  · rename_i phase
    split at stepped <;> cases stepped
    exact (BodyState.Change.lineEnd phase : BodyState.Change reader.core.limits _ _).buf_le
  · rename_i phase
    simp only [Option.map_eq_some_iff] at stepped
    obtain ⟨_, split, rfl⟩ := stepped
    exact (BodyState.Change.trailerLine phase split).buf_le
  · cases stepped
    exact le_rfl
  · cases stepped
  · cases stepped

namespace Reader

variable {Head Context : Type} {reader : Reader Head Context} {head : Head}

/-- The phase of a tunnel. -/
theorem phase_of_tunnel (consistent : reader.Consistent)
    (current : reader.current = some (head, .tunnel)) : reader.core.phase = .tunnel := by
  unfold Consistent at consistent
  rw [current] at consistent
  split at consistent <;> simp at consistent
  assumption

/-- A message without a body is complete behind its head. -/
theorem complete_of_bodiless (consistent : reader.Consistent)
    (current : reader.current = some (head, .none)) :
    reader.core.phase = .complete ∧ reader.body = [] ∧ reader.core.bodyDecoder.trailers = [] := by
  unfold Consistent at consistent
  rw [current] at consistent
  split at consistent <;> simp at consistent
  rename_i phase
  exact ⟨phase, consistent.1.1, consistent.1.2⟩

/-- What arrives in two parts arrives as one. -/
theorem feed_feed (reader : Reader Head Context) (front back : Bytes) :
    (reader.feed front).feed back = reader.feed (front ++ back) := by
  simp [feed, List.append_assoc]

end Reader

namespace Decoder

variable {Head Context : Type}

/-- The room of a buffer within its limit, and that limit within the machine word. -/
structure Roomy (decoder : Decoder Head Context) : Prop where
  /-- No room is reserved. -/
  settled : decoder.pending = 0
  /-- The buffer is within its limit. -/
  bounded : decoder.buf.length ≤ decoder.limits.maxBufferSize
  /-- The limit is within the machine word. -/
  machine : decoder.limits.maxBufferSize ≤ usizeMax

/-- A read never asks for more room than there is. -/
theorem granted_le (readChunk count : Nat) (decoder : Decoder Head Context) (waiting : Bytes) :
    decoder.granted readChunk count waiting ≤ decoder.availableBuf ∧
      decoder.granted readChunk count waiting ≤ waiting.length := by
  unfold granted want
  omega

/-- A read feeds the bytes that it returns. -/
theorem receive_eq {decoder : Decoder Head Context} (roomy : decoder.Roomy)
    (readChunk count : Nat) (waiting : Bytes) :
    decoder.receive readChunk count waiting =
      (.ok (), decoder.feedUnchecked (waiting.take (decoder.granted readChunk count waiting)),
        waiting.drop (decoder.granted readChunk count waiting)) := by
  -- The room is there, and what is not written of it is given back.
  obtain ⟨settled, bounded, machine⟩ := roomy
  obtain ⟨room, there⟩ := granted_le readChunk count decoder waiting
  have asked : decoder.granted readChunk count waiting ≤ decoder.want readChunk := by
    unfold granted
    omega
  have fits : decoder.buf.length + decoder.want readChunk ≤ decoder.limits.maxBufferSize := by
    unfold want availableBuf
    omega
  have sum : checkedAdd decoder.buf.length (decoder.want readChunk) =
      some (decoder.buf.length + decoder.want readChunk) := by
    rw [checkedAdd, if_pos (by omega)]
  have reserved : decoder.mutBuf (decoder.want readChunk) = (.ok (), { decoder with
      buf := decoder.buf ++ List.replicate (decoder.want readChunk) 0
      pending := decoder.want readChunk }) := by
    simp [mutBuf, settled, sum, Nat.not_lt.mpr fits]
  simp only [receive, reserved, Prod.mk.injEq, true_and, and_true]
  generalize decoder.granted readChunk count waiting = returned at room there asked ⊢
  generalize decoder.want readChunk = wanted at asked ⊢
  have written : (waiting.take returned).length = returned := by simp [there]
  have kept : (decoder.buf ++ List.replicate wanted 0).length - wanted = decoder.buf.length := by
    simp
  have front : (decoder.buf ++ List.replicate wanted (0 : UInt8)).take decoder.buf.length =
      decoder.buf := List.take_left
  have short : (waiting.take returned).take wanted = waiting.take returned :=
    List.take_of_length_le (by omega)
  have back : (decoder.buf ++ waiting.take returned ++
      (decoder.buf ++ List.replicate wanted (0 : UInt8)).drop (decoder.buf.length + returned)).length
        - (wanted - min returned wanted) = (decoder.buf ++ waiting.take returned).length := by
    simp only [List.length_append, List.length_drop, List.length_replicate, written]
    omega
  simp only [writePending, advanceBuf, feedUnchecked, kept, front, short, written, back,
    List.take_left]
  rw [← settled]

/-- A decoder whose bodies are taken as they arrive, as a reader between or inside messages. -/
def streaming (side : Side Head Context) (decoder : Decoder Head Context)
    (current : Option (Head × BodyKind)) (body : Bytes) (done : List (Message Head)) :
    Reader Head Context :=
  StreamRun.view side { decoder, current, body, messages := done }

/-- A framing that tells by itself where the body ends. -/
def isFramed (bodyKind : BodyKind) : Prop := bodyKind ≠ .closeDelimited ∧ bodyKind ≠ .tunnel

variable {side : Side Head Context} {limit : Option Nat} {done : List (Message Head)}

/-- What taking a body did: the reader follows to an error, to where it waits, or to the end. -/
def Took (side : Side Head Context) (limit : Option Nat) (start : Reader Head Context)
    (head : Head) (bodyKind : BodyKind) (body : Bytes) (done : List (Message Head)) :
    Taken Head Context → Prop
  | (.error error, decoder, _) => ∃ reader, FailedAs error decoder reader done ∧
      (Reader.machine side limit).Reaches start reader
  | (.ok none, decoder, pieces) =>
      (Reader.machine side limit).Reaches start
        (decoder.streaming side (some (head, bodyKind)) (body ++ pieces.flatten) done) ∧
      ∀ any, (Reader.machine side any).Settled
        (decoder.streaming side (some (head, bodyKind)) (body ++ pieces.flatten) done)
  | (.ok (some trailers), decoder, pieces) =>
      (Reader.machine side limit).Reaches start (decoder.streaming side none []
        (done ++ [⟨head, bodyKind, body ++ pieces.flatten, trailers⟩]))

/-- In a framed message the phase is one of a framed body. -/
theorem streaming_framed {decoder : Decoder Head Context} {head : Head} {bodyKind : BodyKind}
    {body : Bytes}
    (consistent : (decoder.streaming side (some (head, bodyKind)) body done).Consistent)
    (framed : isFramed bodyKind) : decoder.phase ≠ .bodyCloseDelimited ∧ decoder.phase ≠ .tunnel := by
  -- The other two phases name their framing.
  unfold Reader.Consistent at consistent
  simp only [streaming, StreamRun.view] at consistent
  constructor
  · intro phase
    simp only [phase, Option.some.injEq, Prod.mk.injEq] at consistent
    obtain ⟨⟨_, _, same⟩, _⟩ := consistent
    exact framed.1 same
  · intro phase
    simp only [phase, Option.some.injEq, Prod.mk.injEq] at consistent
    obtain ⟨⟨_, _, same⟩, _⟩ := consistent
    exact framed.2 same

/-- Where a message is complete, the reader moves on to the next one. -/
theorem streaming_after {decoder : Decoder Head Context} {head : Head} {bodyKind : BodyKind}
    {body : Bytes} {reader : Reader Head Context} (going : Going limit done)
    (phase : reader.core.phase = .complete) (current : reader.current = some (head, bodyKind))
    (read : reader.body = body) (before : reader.done = done) (unfailed : reader.failed = none)
    {trailers : Headers} (trailing : reader.core.bodyDecoder.trailers = trailers)
    (complete : decoder.phase = .complete)
    (core : reader.core.nextMessage side = decoder.toCore.nextMessage side) :
    (Reader.machine side limit).Reaches reader (decoder.streaming side none []
      (done ++ [⟨head, bodyKind, body, trailers⟩])) := by
  have running := Reader.running_of_going going unfailed before
  let run : StreamRun Head Context :=
    { decoder, current := some (head, bodyKind), body, messages := done }
  have moved : (Reader.machine side limit).Reaches reader ((run.after (.complete trailers)).view side) :=
    run.view_after running phase rfl current read before trailing complete core
  exact moved

/-- What one round did: it goes on from where the reader got, or it ends the taking. -/
def Rounded (side : Side Head Context) (limit : Option Nat) (start : Reader Head Context)
    (head : Head) (bodyKind : BodyKind) (body : Bytes) (done : List (Message Head)) :
    Taking Head Context ⊕ Taken Head Context → Prop
  | .inl (next, pieces) => (Reader.machine side limit).Reaches start
      (next.streaming side (some (head, bodyKind)) (body ++ pieces.flatten) done)
  | .inr taken => Took side limit start head bodyKind body done taken

variable {decoder : Decoder Head Context} {pieces : List Bytes} {head : Head} {bodyKind : BodyKind}
  {body : Bytes}

/-- A round in which bytes are shown takes the steps of these bytes. -/
theorem takePass_shown (going : Going limit done) (framed : isFramed bodyKind)
    (proper : (decoder.streaming side (some (head, bodyKind)) (body ++ pieces.flatten)
      done).Proper side) {data : Bytes} (peeked : decoder.peekBody = some data) :
    Rounded side limit
      (decoder.streaming side (some (head, bodyKind)) (body ++ pieces.flatten) done)
      head bodyKind body done (takePass (decoder, pieces)) := by
  have running : (decoder.streaming side (some (head, bodyKind)) (body ++ pieces.flatten)
      done).halted limit = false := Reader.running_of_going going rfl rfl
  obtain ⟨notClose, _⟩ := streaming_framed proper.consistent framed
  have present := List.length_pos_of_ne_nil (peekBody_ne_nil peeked)
  obtain ⟨reached, achieved⟩ := Reader.consumeBody_follows side running proper.consistent
    notClose peeked present le_rfl
  -- The bytes shown are the next piece.
  have more : (decoder.streaming side (some (head, bodyKind)) (body ++ pieces.flatten) done).body ++
      data.take data.length = body ++ (pieces ++ [data]).flatten := by
    simp [streaming, StreamRun.view]
  rw [more] at reached
  simp only [takePass, peeked, consumeBody_eq _ present]
  change Reader.Achieved (BodyState.consumeBody decoder.limits data.length
    decoder.toBodyState) at achieved
  change (Reader.machine side limit).Reaches _ { Reader.afterBody _ (BodyState.consumeBody
    decoder.limits data.length decoder.toBodyState) with
      body := body ++ (pieces ++ [data]).flatten } at reached
  rcases consumed : BodyState.consumeBody decoder.limits data.length decoder.toBodyState with
    ⟨error | _ | _ | trailers, state⟩ <;> rw [consumed] at reached achieved
  · exact ⟨_, ⟨rfl, rfl, rfl⟩, reached⟩
  · exact reached
  · exact reached
  · obtain ⟨rfl, phase, untrailed⟩ := achieved
    refine reached.trans ?_
    exact streaming_after going phase rfl rfl rfl rfl untrailed phase rfl

/-- A round in which nothing is shown takes the steps of lines. -/
theorem takePass_hidden (going : Going limit done) (framed : isFramed bodyKind)
    (proper : (decoder.streaming side (some (head, bodyKind)) (body ++ pieces.flatten)
      done).Proper side) (hidden : decoder.peekBody = none) :
    Rounded side limit
      (decoder.streaming side (some (head, bodyKind)) (body ++ pieces.flatten) done)
      head bodyKind body done (takePass (decoder, pieces)) := by
  have running : (decoder.streaming side (some (head, bodyKind)) (body ++ pieces.flatten)
      done).halted limit = false := Reader.running_of_going going rfl rfl
  obtain ⟨_, notTunnel⟩ := streaming_framed proper.consistent framed
  have progressed := Reader.progress_follows side running proper.consistent
    (by simp [streaming, StreamRun.view]) hidden
  simp only [takePass, hidden, progress_eq]
  change Reader.Progressed side limit _ (BodyState.consumeBody decoder.limits 0
    decoder.toBodyState) at progressed
  -- Moving on is refused, advances, waits for bytes or ends the body.
  rcases consumed : BodyState.consumeBody decoder.limits 0 decoder.toBodyState with
    ⟨error | _ | _ | trailers, state⟩ <;> rw [consumed] at progressed
  · -- Moving on is refused without a step only in a tunnel.
    rcases progressed with ⟨tunnel, _⟩ | reached
    · exact absurd tunnel notTunnel
    · exact ⟨_, ⟨rfl, rfl, rfl⟩, reached⟩
  · exact progressed
  · exact ⟨progressed.2.1, progressed.2.2⟩
  · -- The message is handed over with the step behind its end.
    obtain ⟨before, phase, rfl, same, reached⟩ := progressed
    dsimp only at same
    subst same
    refine reached.trans ?_
    exact streaming_after going phase rfl rfl rfl rfl rfl phase rfl

/-- One round takes the steps of the reader. -/
theorem takePass_follows (going : Going limit done) (framed : isFramed bodyKind)
    (proper : (decoder.streaming side (some (head, bodyKind)) (body ++ pieces.flatten)
      done).Proper side) :
    Rounded side limit
      (decoder.streaming side (some (head, bodyKind)) (body ++ pieces.flatten) done)
      head bodyKind body done (takePass (decoder, pieces)) := by
  cases peeked : decoder.peekBody with
  | none => exact takePass_hidden going framed proper peeked
  | some data => exact takePass_shown going framed proper peeked

/-- What was done from a later place was done from an earlier one. -/
theorem Took.after {start middle : Reader Head Context} {taken : Taken Head Context}
    (took : Took side limit middle head bodyKind body done taken)
    (before : (Reader.machine side limit).Reaches start middle) :
    Took side limit start head bodyKind body done taken := by
  obtain ⟨outcome, decoder, pieces⟩ := taken
  rcases outcome with error | _ | trailers
  · obtain ⟨reader, failed, reached⟩ := took
    exact ⟨reader, failed, before.trans reached⟩
  · exact ⟨before.trans took.1, took.2⟩
  · exact before.trans took

/-- Taking a body takes the steps of the reader. -/
theorem takeBody_follows (lawful : side.Lawful) (going : Going limit done)
    (framed : isFramed bodyKind)
    (proper : (decoder.streaming side (some (head, bodyKind)) body done).Proper side) :
    Took side limit (decoder.streaming side (some (head, bodyKind)) body done) head bodyKind body
      done decoder.takeBody := by
  -- The pieces taken before a round are part of the body that the reader has read.
  have rounds := takeLoop.run_rule (motive := fun taking taken =>
    (taking.1.streaming side (some (head, bodyKind)) (body ++ taking.2.flatten) done).Proper side →
      Took side limit
        (taking.1.streaming side (some (head, bodyKind)) (body ++ taking.2.flatten) done)
        head bodyKind body done taken) ?_ ?_ (decoder, [])
  · simp only [List.flatten_nil, List.append_nil] at rounds
    exact rounds proper
  · rintro ⟨decoder, pieces⟩ taken passed proper
    have rounded := takePass_follows going framed proper
    rw [show takePass (decoder, pieces) = .inr taken from passed] at rounded
    exact rounded
  · rintro ⟨decoder, pieces⟩ ⟨next, more⟩ taken passed ih proper
    have rounded := takePass_follows going framed proper
    rw [show takePass (decoder, pieces) = .inl (next, more) from passed] at rounded
    have later := ih (Reader.reaches_proper lawful rounded proper rfl)
    -- What the later rounds did follows what this one did.
    exact later.after rounded

/-- What asking for a head did: the reader follows to an error, to where it waits, or to a body. -/
def Headed (side : Side Head Context) (limit : Option Nat) (start : Reader Head Context)
    (done : List (Message Head)) :
    Except Error (Option (Head × BodyKind)) × Decoder Head Context → Prop
  | (.error error, decoder) => ∃ reader, FailedAs error decoder reader done ∧
      (Reader.machine side limit).Reaches start reader
  | (.ok none, decoder) =>
      (Reader.machine side limit).Reaches start (decoder.streaming side none [] done) ∧
        ∀ any, (Reader.machine side any).Settled (decoder.streaming side none [] done)
  | (.ok (some decoded), decoder) =>
      (Reader.machine side limit).Reaches start (decoder.streaming side (some decoded) [] done)

/-- Asking for a head takes the steps of its lines. -/
theorem decodeHeaders_streaming (going : Going limit done)
    (proper : (decoder.streaming side none [] done).Proper side) :
    Headed side limit (decoder.streaming side none [] done) done
      (decoder.onCore (Core.decodeHeaders side)) := by
  have running : (decoder.streaming side none [] done).halted limit = false :=
    Reader.running_of_going going rfl rfl
  have heading : (decoder.streaming side none [] done).core.phase = .startLine ∨
      (decoder.streaming side none [] done).core.phase = .headers := by
    have consistent := proper.consistent
    unfold Reader.Consistent at consistent
    rw [show (decoder.streaming side none [] done).current = none from rfl] at consistent
    split at consistent
    · exact .inl (by assumption)
    · exact .inr (by assumption)
    all_goals simp at consistent
  -- A message that is complete gives way to the next one first.
  have core : (decoder.streaming side none [] done).core.decodeHeaders side =
      decoder.toCore.decodeHeaders side := (StreamRun.decodeHeaders_settle side decoder.toCore).symm
  obtain ⟨reached, waits⟩ := Reader.decodeHeaders_follows side running heading rfl
  rw [core] at reached waits
  simp only [onCore]
  rcases read : decoder.toCore.decodeHeaders side with ⟨error | _ | decoded, next⟩ <;>
    rw [read] at reached waits
  · exact ⟨_, ⟨rfl, rfl, rfl⟩, reached⟩
  · obtain ⟨phases, split⟩ := waits rfl
    have same : (decoder.streaming side none [] done).afterHead (.ok none, next) =
        streaming side { decoder with toCore := next } none [] done := by
      have incomplete : next.phase ≠ .complete := by
        rcases phases with phase | phase <;> simp [show next.phase = _ from phase]
      simp [Reader.afterHead, streaming, StreamRun.view, StreamRun.settle, incomplete]
    rw [same] at reached
    refine ⟨reached, fun any => ?_⟩
    rw [← same]
    exact Reader.settled_head phases split
  · exact reached

/-- One round of taking a body changes the body only. -/
theorem takePass_moves (taking : Taking Head Context) :
    match takePass taking with
    | .inl next => taking.1.toCore.Moves next.1.toCore ∧ next.1.pending = taking.1.pending
    | .inr taken =>
      taking.1.toCore.Moves taken.2.1.toCore ∧ taken.2.1.pending = taking.1.pending := by
  obtain ⟨decoder, pieces⟩ := taking
  -- Consuming what is shown, or moving on, changes the body and nothing else.
  cases peeked : decoder.peekBody with
  | some data =>
    have moves := consumeBody_moves decoder data.length
    have frame : (decoder.consumeBody data.length).2.pending = decoder.pending := by
      unfold consumeBody
      split <;> rfl
    simp only [takePass, peeked]
    rcases consumed : decoder.consumeBody data.length with ⟨_ | _ | _ | _, next⟩ <;>
      rw [consumed] at moves frame <;> exact ⟨moves, frame⟩
  | none =>
    have moves := progress_moves decoder
    have frame : decoder.progress.2.pending = decoder.pending := rfl
    simp only [takePass, peeked]
    rcases moved : decoder.progress with ⟨_ | _ | _ | _, next⟩ <;>
      rw [moved] at moves frame <;> exact ⟨moves, frame⟩

/-- Taking a body changes the body only. -/
theorem takeBody_moves (decoder : Decoder Head Context) :
    decoder.toCore.Moves decoder.takeBody.2.1.toCore ∧
      decoder.takeBody.2.1.pending = decoder.pending := by
  refine takeLoop.run_rule (motive := fun taking taken =>
    taking.1.toCore.Moves taken.2.1.toCore ∧ taken.2.1.pending = taking.1.pending) ?_ ?_
    (decoder, [])
  · intro taking taken passed
    have moves := takePass_moves taking
    -- The last round moves, and each round before moves to where the next starts.
    rwa [show takePass taking = .inr taken from passed] at moves
  · intro taking next taken passed ih
    have moves := takePass_moves taking
    rw [show takePass taking = .inl next from passed] at moves
    exact ⟨moves.1.trans ih.1, ih.2.trans moves.2⟩

/-- A roomy decoder stays so while its buffer does not grow. -/
theorem Roomy.changes {decoder next : Decoder Head Context} (roomy : decoder.Roomy)
    (changes : Core.Changes side decoder.toCore next.toCore) (pending : next.pending = decoder.pending) :
    next.Roomy where
  settled := pending.trans roomy.settled
  bounded := by
    rw [changes.limits]
    exact changes.buf_le.trans roomy.bounded
  machine := by
    rw [changes.limits]
    exact roomy.machine

end Decoder

namespace Decoder

variable {Head Context : Type} {side : Side Head Context}

/-- More input at the end of the buffer reaches the reader of a decoder. -/
theorem streaming_feed (side : Side Head Context)
    (decoder : Decoder Head Context) (current : Option (Head × BodyKind)) (body data : Bytes)
    (done : List (Message Head)) :
    (decoder.feedUnchecked data).streaming side current body done =
      (decoder.streaming side current body done).feed data := by
  -- Moving on to the next message leaves the buffer as it is.
  cases current with
  | some decoded => rfl
  | none =>
    by_cases complete : decoder.phase = .complete <;>
      simp [streaming, StreamRun.view, StreamRun.settle, Reader.feed, feedUnchecked,
        Core.nextMessage, complete]

/-- A decoder in step with a reader that has started somewhere, inside its first message. -/
structure InStep (side : Side Head Context) (start : Reader Head Context)
    (decoder : Decoder Head Context) (current : Option (Head × BodyKind)) (body : Bytes) : Prop where
  /-- The reader has started properly. -/
  sound : start.Proper side
  /-- The buffer is within its limit. -/
  roomy : decoder.Roomy
  /-- The decoder is where the reader gets. -/
  reached : (Reader.machine side (some 1)).Reaches start (decoder.streaming side current body [])

namespace InStep

variable {start : Reader Head Context} {decoder : Decoder Head Context}
  {current : Option (Head × BodyKind)} {body : Bytes}

/-- Before the first message the reader goes on. -/
theorem going : Going (some 1) ([] : List (Message Head)) := by simp [Going]

/-- Where the decoder is, the reader is a proper one. -/
theorem proper (inStep : InStep side start decoder current body) (lawful : side.Lawful) :
    (decoder.streaming side current body []).Proper side :=
  Reader.reaches_proper lawful inStep.reached inStep.sound rfl

/-- A read brings both the same bytes. -/
theorem feed (inStep : InStep side start decoder current body) {data : Bytes}
    (fits : data.length ≤ decoder.availableBuf) :
    InStep side (start.feed data) (decoder.feedUnchecked data) current body where
  sound := inStep.sound.feed data
  roomy := by
    -- The bytes fit into what was left of the buffer.
    have bounded := inStep.roomy.bounded
    refine ⟨inStep.roomy.settled, ?_, inStep.roomy.machine⟩
    unfold availableBuf at fits
    simp only [feedUnchecked, List.length_append]
    omega
  reached := by
    rw [streaming_feed]
    exact inStep.reached.feed data

/-- What asking for a head comes to. -/
theorem decodeHeaders (inStep : InStep side start decoder none []) (lawful : side.Lawful) :
    match decoder.onCore (Core.decodeHeaders side) with
    | (.error _, _) => ∃ reader : Reader Head Context, reader.done = [] ∧
        reader.failed.isSome = true ∧ (Reader.machine side (some 1)).Reaches start reader
    | (.ok decoded, next) => InStep side start next decoded [] ∧ next.limits = decoder.limits := by
  have headed := decodeHeaders_streaming going (inStep.proper lawful)
  have changes := Core.decodeHeaders_changes side decoder.toCore
  simp only [onCore] at headed ⊢
  -- The head is refused, awaited or there.
  rcases read : decoder.toCore.decodeHeaders side with ⟨_ | _ | decoded, core⟩ <;>
    rw [read] at headed changes
  · obtain ⟨reader, ⟨failed, _, kept⟩, reached⟩ := headed
    exact ⟨reader, kept, by rw [failed]; rfl, inStep.reached.trans reached⟩
  · exact ⟨⟨inStep.sound, inStep.roomy.changes changes rfl, inStep.reached.trans headed.1⟩,
      changes.limits⟩
  · exact ⟨⟨inStep.sound, inStep.roomy.changes changes rfl, inStep.reached.trans headed⟩,
      changes.limits⟩

/-- What taking a body comes to. -/
theorem takeBody {head : Head} {bodyKind : BodyKind}
    (inStep : InStep side start decoder (some (head, bodyKind)) body) (lawful : side.Lawful)
    (framed : isFramed bodyKind) :
    match decoder.takeBody with
    | (.error _, _, _) => ∃ reader : Reader Head Context, reader.done = [] ∧
        reader.failed.isSome = true ∧ (Reader.machine side (some 1)).Reaches start reader
    | (.ok none, next, pieces) =>
      InStep side start next (some (head, bodyKind)) (body ++ pieces.flatten) ∧
        next.limits = decoder.limits
    | (.ok (some trailers), next, pieces) => (Reader.machine side (some 1)).Reaches start
        (next.streaming side none [] [⟨head, bodyKind, body ++ pieces.flatten, trailers⟩]) := by
  have took := (takeBody_follows lawful going framed (inStep.proper lawful)).after inStep.reached
  obtain ⟨moves, pending⟩ := takeBody_moves decoder
  have changes := moves.changes side
  have roomy := inStep.roomy.changes changes pending
  have limits := changes.limits
  -- The body is refused, awaited or there.
  rcases taken : decoder.takeBody with ⟨_ | _ | trailers, next, pieces⟩ <;>
    rw [taken] at took roomy limits
  · obtain ⟨reader, ⟨failed, _, kept⟩, reached⟩ := took
    exact ⟨reader, kept, by rw [failed]; rfl, reached⟩
  · exact ⟨⟨inStep.sound, roomy, took.1⟩, limits⟩
  · exact took

end InStep

end Decoder

/-- A reader that sees a number of bytes of its buffer at most. -/
def Reader.window {Head Context : Type} (side : Side Head Context) (limit : Option Nat)
    (count : Nat) : (Reader.machine side limit).Window where
  front := fun reader => { reader with
    core := { reader.core with buf := reader.core.buf.take count } }
  behind := fun reader => reader.core.buf.drop count
  whole := by
    intro reader
    simp [machine, feed]
  arrives := by
    -- What arrives fills the window up to its end.
    intro reader input
    refine ⟨input.take (count - reader.core.buf.length), ?_, ?_⟩
    · simp [machine, feed, List.take_append]
    · simp only [machine, feed, List.drop_append]
      by_cases full : count ≤ reader.core.buf.length
      · simp [Nat.sub_eq_zero_of_le full]
      · simp [List.drop_eq_nil_of_le (Nat.le_of_not_le full)]

end Http11

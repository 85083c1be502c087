import Http11.Proofs.Decoder.Sane

/-! How calls that ask for whole messages collect them, over as many calls as it takes. -/

namespace Http11

namespace Decoder

variable {Head Context Whole : Type}

/-- What is being collected has one of the framings that are collected over several calls. -/
def Collects (collected : BodyKind → Bool) (decoder : Decoder Head Context) : Prop :=
  ∀ head bodyKind, decoder.decoded = some (head, bodyKind) → collected bodyKind = true

/-- What a call that asks for a whole message does: changes, and the hand-over at the end. -/
def Decodes (side : Side Head Context) (collected : BodyKind → Bool)
    (decoder : Decoder Head Context)
    (outcome : Except Error (Option Whole) × Decoder Head Context) : Prop :=
  match outcome.1 with
  | .ok (some _) => ∃ last : Decoder Head Context, Core.Changes side decoder.toCore last.toCore ∧
      last.phase = .complete ∧ last.pending = decoder.pending ∧ outcome.2 = last.finished side
  | _ => Core.Changes side decoder.toCore outcome.2.toCore ∧ outcome.2.Collects collected ∧
      outcome.2.pending = decoder.pending


/-- Everything that reading the head to collect can do. -/
theorem decodeHead_cases (side : Side Head Context) (decoder : Decoder Head Context) :
    (∃ decoded, decoder.decoded = some decoded ∧
      decoder.decodeHead side = (.ok (some decoded), decoder)) ∨
    (decoder.decoded = none ∧ ∃ head bodyKind core,
      decoder.decodeHead side = (.ok (some (head, bodyKind)),
        { decoder with toCore := core, decoded := some (head, bodyKind) }) ∧
      decoder.toCore.decodeHeaders side = (.ok (some (head, bodyKind)), core) ∧
      core.phase = side.bodyPhase bodyKind ∧ decoder.phase.isHeading = true) ∨
    (decoder.decoded = none ∧ ∃ result core,
      decoder.decodeHead side = (result, { decoder with toCore := core }) ∧
      (∀ decoded, result ≠ .ok (some decoded)) ∧
      (decoder.phase.isHeading = true → core.phase.isHeading = true)) := by
  by_cases found : decoder.decoded = none
  · right
    by_cases heading : decoder.phase = .startLine ∨ decoder.phase = .headers
    · have inside : decoder.phase.isHeading = true := by simpa [DecodePhase.isHeading] using heading
      obtain ⟨_, _, read⟩ := Core.decodeHeaders_keeps side decoder.toCore decoder.context
        (.inl ⟨inside, rfl⟩)
      rw [decodeHead_eq side found heading]
      generalize outcome : decoder.toCore.decodeHeaders side = pair at read ⊢
      rcases pair with ⟨error | _ | ⟨head, bodyKind⟩, core⟩
      · exact .inr ⟨found, .error error, core, rfl, by simp, fun _ => read⟩
      · exact .inr ⟨found, .ok none, core, rfl, by simp, fun _ => read⟩
      · exact .inl ⟨found, head, bodyKind, core, rfl, rfl, read.1, inside⟩
    · -- In any other phase the call is refused.
      exact .inr ⟨found, _, decoder.toCore, decodeHead_refused side found heading, by simp, id⟩
  · obtain ⟨decoded, known⟩ := Option.ne_none_iff_exists'.mp found
    exact .inl ⟨decoded, known, by simp [decodeHead, known]⟩

/-- A head that is there is found again as long as it is the one being collected. -/
theorem decodeHead_found (side : Side Head Context) {decoder : Decoder Head Context}
    {decoded : Head × BodyKind}
    (found : decoder.decoded = some decoded) :
    decoder.decodeHead side = (.ok (some decoded), decoder) := by
  simp [decodeHead, found]

/-- The head that was read is the one being collected. -/
theorem decodeHead_decoded {side : Side Head Context} {decoder headed : Decoder Head Context}
    {decoded : Head × BodyKind}
    (read : decoder.decodeHead side = (.ok (some decoded), headed)) :
    headed.decoded = some decoded := by
  rcases decodeHead_cases side decoder with ⟨_, found, same⟩ | ⟨_, _, _, _, same, _⟩ |
    ⟨_, _, _, same, unread, _⟩ <;> rw [read] at same <;> cases same
  · exact found
  · rfl
  · exact absurd rfl (unread decoded)

/-- Consuming keeps what is collected and what is reserved. -/
theorem consumeBody_frame (decoder : Decoder Head Context) (len : Nat) :
    (decoder.consumeBody len).2 =
      { decoder with toBodyState := (decoder.consumeBody len).2.toBodyState } := by
  unfold consumeBody
  split <;> rfl

/-- What one pass of collecting keeps, and that a body which ends is complete. -/
theorem readBodyPass_frame (decoder : Decoder Head Context) :
    match readBodyPass decoder with
    | .inl next => next.decoded = decoder.decoded ∧ next.pending = decoder.pending
    | .inr result => (result.2.decoded = decoder.decoded ∧ result.2.pending = decoder.pending) ∧
        (result.1 = .ok true → result.2.phase = .complete) := by
  unfold readBodyPass
  cases decoder.peekBody with
  | some data =>
    have frame := consumeBody_frame
      ({ decoder with decodedBody := decoder.decodedBody ++ data } : Decoder Head Context)
      data.length
    dsimp only
    rcases consumed : consumeBody { decoder with decodedBody := decoder.decodedBody ++ data }
      data.length with ⟨_ | _, next⟩ <;> rw [consumed] at frame <;> dsimp only at frame ⊢
    · -- Refused, the decoder is as it was but for the bytes collected.
      rw [frame]
      exact ⟨⟨rfl, rfl⟩, by simp⟩
    · -- The loop ends here only with the body.
      by_cases complete : next.phase = .complete
      · rw [if_pos complete]
        refine ⟨?_, fun _ => complete⟩
        rw [frame]
        exact ⟨rfl, rfl⟩
      · rw [if_neg complete, frame]
        exact ⟨rfl, rfl⟩
  | none =>
    dsimp only
    rw [progress_eq]
    rcases consumed : BodyState.consumeBody decoder.limits 0 decoder.toBodyState with
      -- An answer without trailers leaves the body open; with them it has ended.
      ⟨_ | _ | _ | trailers, state⟩
    · exact ⟨⟨rfl, rfl⟩, by simp⟩
    · exact ⟨rfl, rfl⟩
    · exact ⟨⟨rfl, rfl⟩, by simp⟩
    · exact ⟨⟨rfl, rfl⟩, fun _ => BodyState.consumeBody_complete consumed⟩

/-- What collecting a body keeps, and that a body which ends is complete. -/
theorem readBody_frame (decoder : Decoder Head Context) :
    (decoder.readBody.2.decoded = decoder.decoded ∧
      decoder.readBody.2.pending = decoder.pending) ∧
      (decoder.readBody.1 = .ok true → decoder.readBody.2.phase = .complete) := by
  refine readBodyLoop.run_rule (motive := fun decoder result =>
    (result.2.decoded = decoder.decoded ∧ result.2.pending = decoder.pending) ∧
      (result.1 = .ok true → result.2.phase = .complete)) ?_ ?_ decoder
  · -- The last pass decides whether the body is complete, the others keep the frame.
    intro decoder result pass
    have frame := readBodyPass_frame decoder
    change readBodyPass decoder = .inr result at pass
    rwa [pass] at frame
  · intro decoder next result pass ih
    have frame := readBodyPass_frame decoder
    change readBodyPass decoder = .inl next at pass
    rw [pass] at frame
    exact ⟨⟨ih.1.1.trans frame.1, ih.1.2.trans frame.2⟩, ih.2⟩

/-- Collecting a framed body and handing it over is what a call for a whole message does. -/
theorem decodes_framed {side : Side Head Context} {collected : BodyKind → Bool}
    {decoder headed : Decoder Head Context} {head : Head} {bodyKind : BodyKind}
    (changes : Core.Changes side decoder.toCore headed.toCore)
    (pending : headed.pending = decoder.pending)
    (decoded : headed.decoded = some (head, bodyKind)) (kept : collected bodyKind = true)
    {outcome : Except Error (Option Whole) × Decoder Head Context}
    (whole : Decoder Head Context → Whole)
    (collecting : outcome = match headed.readBody with
      | (.error error, last) => (.error error, last)
      | (.ok false, last) => (.ok none, last)
      | (.ok true, last) => (.ok (some (whole last)), last.finished side)) :
    Decodes side collected decoder outcome := by
  have read := (readBody_moves headed).changes side
  obtain ⟨⟨same, reserved⟩, complete⟩ := readBody_frame headed
  subst collecting
  -- As long as the body goes on, its head stays the one that is collected.
  rcases body : headed.readBody with ⟨error | _ | _, last⟩ <;>
    rw [body] at read same reserved complete
  · refine ⟨changes.trans read, ?_, reserved.trans pending⟩
    intro other otherKind found
    rw [show last.decoded = _ from found, decoded] at same
    cases same
    exact kept
  · refine ⟨changes.trans read, ?_, reserved.trans pending⟩
    intro other otherKind found
    rw [show last.decoded = _ from found, decoded] at same
    cases same
    exact kept
  · exact ⟨last, changes.trans read, complete rfl, reserved.trans pending, rfl⟩

/-- A call for a whole message that starts with the head of that message. -/
structure HeadFirst (side : Side Head Context)
    (decode : Decoder Head Context → Except Error (Option Whole) × Decoder Head Context) : Prop where
  /-- Once the head is read, the call goes on as one that finds it there. -/
  headed : ∀ {decoder headed : Decoder Head Context} {decoded : Head × BodyKind},
    decoder.decodeHead side = (.ok (some decoded), headed) → decode decoder = decode headed
  /-- Without a head nothing is handed out, and nothing else is done. -/
  headless : ∀ {decoder next : Decoder Head Context}
    {result : Except Error (Option (Head × BodyKind))},
    decoder.decodeHead side = (result, next) → (∀ decoded, result ≠ .ok (some decoded)) →
      (decode decoder).2 = next ∧ ∀ message, (decode decoder).1 ≠ .ok (some message)

/-- What a call for a whole message does, by what it does once the head is there. -/
theorem HeadFirst.decodes {side : Side Head Context} {collected : BodyKind → Bool}
    {decode : Decoder Head Context → Except Error (Option Whole) × Decoder Head Context}
    (first : HeadFirst side decode)
    (bodiless : ∀ bodyKind, collected bodyKind = false → side.bodyPhase bodyKind = .complete)
    (headed : ∀ {decoder headed : Decoder Head Context} {head : Head} {bodyKind : BodyKind},
      decoder.decodeHead side = (.ok (some (head, bodyKind)), headed) →
      headed.decoded = some (head, bodyKind) → headed.pending = decoder.pending →
      (collected bodyKind = false → headed.phase = .complete) →
        Decodes side collected decoder (decode decoder))
    {decoder : Decoder Head Context} (collects : decoder.Collects collected) :
    Decodes side collected decoder (decode decoder) := by
  rcases decodeHead_cases side decoder with ⟨⟨head, bodyKind⟩, decoded, read⟩ |
    ⟨_, head, bodyKind, core, read, _, phase, _⟩ | ⟨undecoded, result, core, read, headless, _⟩
  · -- The head was read by an earlier call, which left its body to be collected.
    have kept := collects head bodyKind decoded
    exact headed read decoded rfl (fun other => by rw [kept] at other; cases other)
  · -- The head is read by this call, and a message without a body is complete behind it.
    exact headed read rfl rfl fun finished => phase.trans (bodiless bodyKind finished)
  · have changes := decodeHead_changes side decoder
    rw [read] at changes
    obtain ⟨same, nothing⟩ := first.headless read headless
    have kept : Decoder.Collects collected { decoder with toCore := core } := by
      intro head bodyKind found
      rw [show decoder.decoded = _ from found] at undecoded
      cases undecoded
    rcases outcome : decode decoder with ⟨error | _ | message, next⟩ <;>
      rw [outcome] at same nothing <;> dsimp only at same
    · subst same
      exact ⟨changes, kept, rfl⟩
    · subst same
      exact ⟨changes, kept, rfl⟩
    · exact absurd rfl (nothing message)

end Decoder

namespace RequestDecoder

open Decoder

/-- The framings of requests that are collected over several calls. -/
def collected : BodyKind → Bool
  | .contentLength _ | .chunked | .tunnel => true
  | .closeDelimited | .none => false

/-- The framings whose bodies are collected piece by piece. -/
def isFramed : BodyKind → Bool
  | .contentLength _ | .chunked => true
  | .closeDelimited | .none | .tunnel => false

/-- Everything that asking for a whole request can do. -/
theorem decode_cases (decoder : RequestDecoder) :
    (∃ result, (∀ request, result ≠ .ok (some request)) ∧
      decode decoder = (result, (decoder.decodeHead side).2)) ∨
    (∃ head bodyKind headed, decoder.decodeHead side = (.ok (some (head, bodyKind)), headed) ∧
      ((isFramed bodyKind = true ∧ ∃ result, (∀ request, result ≠ .ok (some request)) ∧
          decode decoder = (result, headed.readBody.2)) ∨
        (isFramed bodyKind = true ∧ ∃ last, headed.readBody = (.ok true, last) ∧
          decode decoder = finish last head bodyKind) ∨
        (isFramed bodyKind = false ∧ bodyKind ≠ .tunnel ∧
          decode decoder = finish headed head bodyKind))) := by
  unfold decode
  -- Without a head there is no request yet.
  rcases read : decoder.decodeHead side with ⟨_ | _ | ⟨head, bodyKind⟩, headed⟩
  · exact .inl ⟨_, by simp, rfl⟩
  · exact .inl ⟨_, by simp, rfl⟩
  dsimp only
  cases bodyKind with
  -- A tunnel has no request to hand over.
  | tunnel => exact .inl ⟨_, by simp, rfl⟩
  | closeDelimited | none => exact .inr ⟨_, _, _, rfl, .inr (.inr ⟨rfl, by simp, rfl⟩)⟩
  | contentLength | chunked =>
    refine .inr ⟨_, _, _, rfl, ?_⟩
    dsimp only
    -- Only a body that has been collected to its end lets the request go out.
    rcases body : headed.readBody with ⟨_ | _ | _, last⟩
    · exact .inl ⟨rfl, _, by simp, rfl⟩
    · exact .inl ⟨rfl, _, by simp, rfl⟩
    · exact .inr (.inl ⟨rfl, last, rfl, rfl⟩)

/-- Once the head is there, the body is collected and the request handed over. -/
theorem decode_headed {decoder headed : RequestDecoder} {head : RequestHead} {bodyKind : BodyKind}
    (read : decoder.decodeHead side = (.ok (some (head, bodyKind)), headed))
    (decoded : headed.decoded = some (head, bodyKind))
    (pending : headed.pending = decoder.pending)
    (complete : collected bodyKind = false → headed.phase = .complete) :
    Decodes side collected decoder (decode decoder) := by
  have changes := decodeHead_changes side decoder
  rw [read] at changes
  unfold decode
  rw [read]
  cases bodyKind with
  | tunnel =>
    refine ⟨changes, ?_, pending⟩
    intro other otherKind found
    -- For a tunnel the head is handed out by itself, and stays decoded.
    rw [show headed.decoded = _ from found] at decoded
    cases decoded
    rfl
  | contentLength length =>
    refine decodes_framed changes pending decoded rfl (fun last =>
      Request.fromRawParts head (last.collectedBody (.contentLength length))) ?_
    dsimp only
    -- The collected request has this shape whatever the loop answers.
    rcases headed.readBody with ⟨_ | _ | _, _⟩ <;> rfl
  | chunked =>
    refine decodes_framed changes pending decoded rfl (fun last =>
      Request.fromRawParts head (last.collectedBody .chunked)) ?_
    dsimp only
    rcases headed.readBody with ⟨_ | _ | _, _⟩ <;> rfl
  | closeDelimited => exact ⟨headed, changes, complete rfl, pending, rfl⟩
  | none => exact ⟨headed, changes, complete rfl, pending, rfl⟩

/-- A call for a whole request starts with its head. -/
theorem decode_headFirst : HeadFirst side decode where
  -- A head that is there already is found at once, so asking again changes nothing.
  headed := by
    intro decoder headed decoded read
    have again := decodeHead_found side (decodeHead_decoded read)
    unfold decode
    rw [again, read]
  -- Without a head the call ends as asking for the head did.
  headless := by
    intro decoder next result read headless
    unfold decode
    rw [read]
    rcases result with error | _ | decoded
    · exact ⟨rfl, by simp⟩
    · exact ⟨rfl, by simp⟩
    · exact absurd rfl (headless decoded)

/-- What asking for a whole request does. -/
theorem decode_decodes {decoder : RequestDecoder} (collects : decoder.Collects collected) :
    Decodes side collected decoder (decode decoder) := by
  refine decode_headFirst.decodes (fun bodyKind finished => ?_) decode_headed collects
  cases bodyKind <;> first | rfl | cases finished

end RequestDecoder

namespace ResponseDecoder

open Decoder

/-- The framings of responses that are collected over several calls. -/
def collected : BodyKind → Bool
  | .contentLength _ | .chunked | .closeDelimited | .tunnel => true
  | .none => false

/-- Reading a body up to the close changes the body only, and keeps what is collected. -/
theorem readUntilClose_moves (decoder : ResponseDecoder) :
    decoder.toCore.Moves (readUntilClose decoder).2.toCore ∧
      (readUntilClose decoder).2.decoded = decoder.decoded ∧
      (readUntilClose decoder).2.pending = decoder.pending := by
  unfold readUntilClose
  cases decoder.peekBody with
  | none => exact ⟨.refl, rfl, rfl⟩
  | some data =>
    dsimp only
    -- Nothing is shown, or too much has been collected, or the bytes are consumed.
    split
    · exact ⟨.refl, rfl, rfl⟩
    · split
      · exact ⟨.refl, rfl, rfl⟩
      · have moves := Decoder.consumeBody_moves
          ({ decoder with decodedBody := decoder.decodedBody ++ data } : ResponseDecoder)
          data.length
        have frame := Decoder.consumeBody_frame
          ({ decoder with decodedBody := decoder.decodedBody ++ data } : ResponseDecoder)
          data.length
        rcases consumed : Decoder.consumeBody
          ({ decoder with decodedBody := decoder.decodedBody ++ data } : ResponseDecoder)
          data.length with ⟨_ | _, next⟩ <;> rw [consumed] at moves frame <;>
          dsimp only at frame ⊢ <;> refine ⟨moves, ?_⟩ <;> rw [frame] <;> exact ⟨rfl, rfl⟩

/-- Once the head is there, the body is collected and the response handed over. -/
theorem decode_headed {decoder headed : ResponseDecoder} {head : ResponseHead}
    {bodyKind : BodyKind}
    (read : decoder.decodeHead side = (.ok (some (head, bodyKind)), headed))
    (decoded : headed.decoded = some (head, bodyKind))
    (pending : headed.pending = decoder.pending)
    (complete : collected bodyKind = false → headed.phase = .complete) :
    Decodes side collected decoder (decode decoder) := by
  have changes := decodeHead_changes side decoder
  rw [read] at changes
  -- Between calls the head that is collected stays the same.
  have kept : ∀ last : ResponseDecoder, last.decoded = headed.decoded →
      collected bodyKind = true → Decoder.Collects collected last := by
    intro last same framed other otherKind found
    rw [found, decoded] at same
    cases same
    exact framed
  unfold decode
  rw [read]
  cases bodyKind with
  | tunnel => exact ⟨changes, kept headed rfl rfl, pending⟩
  | contentLength length =>
    refine decodes_framed changes pending decoded rfl (fun last =>
      Response.fromRawParts head (last.collectedBody (.contentLength length))) ?_
    dsimp only
    rcases headed.readBody with ⟨_ | _ | _, _⟩ <;> rfl
  | chunked =>
    refine decodes_framed changes pending decoded rfl (fun last =>
      Response.fromRawParts head (last.collectedBody .chunked)) ?_
    dsimp only
    rcases headed.readBody with ⟨_ | _ | _, _⟩ <;> rfl
  | closeDelimited =>
    obtain ⟨moves, same, reserved⟩ := readUntilClose_moves headed
    have lasting := moves.changes side
    dsimp only
    rcases body : readUntilClose headed with ⟨_ | _, last⟩ <;>
      rw [body] at lasting same reserved
    · exact ⟨changes.trans lasting, kept last same rfl, reserved.trans pending⟩
    · dsimp only
      by_cases ended : last.phase = .complete
      · rw [if_neg (not_not.mpr ended)]
        exact ⟨last, changes.trans lasting, ended, reserved.trans pending, rfl⟩
      · rw [if_pos ended]
        exact ⟨changes.trans lasting, kept last same rfl, reserved.trans pending⟩
  | none => exact ⟨headed, changes, complete rfl, pending, rfl⟩

/-- A call for a whole response starts with its head. -/
theorem decode_headFirst : HeadFirst side decode where
  headed := by
    intro decoder headed decoded read
    have again := decodeHead_found side (decodeHead_decoded read)
    unfold decode
    rw [again, read]
  headless := by
    -- Without a head the call ends as asking for the head did.
    intro decoder next result read headless
    unfold decode
    rw [read]
    rcases result with error | _ | decoded
    · exact ⟨rfl, by simp⟩
    · exact ⟨rfl, by simp⟩
    · exact absurd rfl (headless decoded)

/-- What asking for a whole response does. -/
theorem decode_decodes {decoder : ResponseDecoder} (collects : decoder.Collects collected) :
    Decodes side collected decoder (decode decoder) := by
  refine decode_headFirst.decodes (fun bodyKind finished => ?_) decode_headed collects
  cases bodyKind <;> first | rfl | cases finished

end ResponseDecoder

namespace Api

variable {Head Context Whole : Type} {api : Api Head Context Whole} {collected : BodyKind → Bool}

/-- What the methods of both decoders have in common. -/
structure Lawful (api : Api Head Context Whole) (collected : BodyKind → Bool) : Prop where
  /-- Framings lead to their phases. -/
  side : api.side.Lawful
  /-- Framings are within the limits. -/
  limited : api.side.Limited
  /-- Nothing is remembered into the next message. -/
  next : ∀ context, api.side.nextContext context = api.initial
  /-- Whole messages are collected and handed over. -/
  decodes : ∀ {decoder : Decoder Head Context}, decoder.Collects collected →
    Decoder.Decodes api.side collected decoder (api.decode decoder)
  /-- The end of the connection completes a body that lasts up to it, and does nothing else. -/
  markEof : ∀ decoder, api.markEof decoder = decoder ∨ decoder.phase = .bodyCloseDelimited ∧
    api.markEof decoder = { decoder with phase := .complete }

/-- The methods of the decoder of requests are lawful. -/
theorem request_lawful : RequestDecoder.api.Lawful RequestDecoder.collected where
  side := RequestDecoder.side_lawful
  limited := RequestDecoder.side_limited
  next := fun _ => rfl
  decodes := RequestDecoder.decode_decodes
  markEof := fun _ => .inl rfl

/-- The methods of the decoder of responses are lawful. -/
theorem response_lawful : ResponseDecoder.api.Lawful ResponseDecoder.collected where
  side := ResponseDecoder.side_lawful
  limited := ResponseDecoder.side_limited
  next := fun _ => rfl
  decodes := ResponseDecoder.decode_decodes
  markEof := by
    intro decoder
    change ResponseDecoder.markEof decoder = decoder ∨ _
    -- Only a body up to the close is ended by the end of the connection.
    by_cases phase : decoder.phase = .bodyCloseDelimited
    · exact .inr ⟨phase, by simp [ResponseDecoder.api, ResponseDecoder.markEof, phase]⟩
    · exact .inl (by simp [ResponseDecoder.markEof, phase])

/-- What holds of a decoder between calls, whatever calls were made. -/
structure Holds (collected : BodyKind → Bool) (decoder : Decoder Head Context) : Prop where
  /-- Counters are within limits and heads leave nothing behind. -/
  sane : decoder.toCore.Sane
  /-- Only framed messages are collected. -/
  collects : decoder.Collects collected

/-- A message that is handed over leaves a decoder that is sane. -/
theorem sane_finished (side : Side Head Context) {last : Decoder Head Context}
    (sane : last.toCore.Sane) (phase : last.phase = .complete) :
    (last.finished side).toCore = last.toCore.nextMessage side := by
  obtain ⟨started, listed⟩ := sane.idle (by simp [phase])
  simp [Decoder.finished, Core.nextMessage, started, listed]

/-- Every call keeps what holds of a decoder. -/
theorem Lawful.call (lawful : api.Lawful collected) {decoder : Decoder Head Context}
    (holds : Holds collected decoder) (next : Call Context) :
    Holds collected (api.call decoder next) := by
  obtain ⟨sane, collects⟩ := holds
  cases next with
  | feed data =>
    rcases decoder.feed_cases data with same | ⟨_, same⟩ <;> simp only [Api.call, same]
    · exact ⟨sane.buf _, collects⟩
    · exact ⟨sane, collects⟩
  | mutBuf len =>
    obtain ⟨buf, pending, same⟩ := decoder.mutBuf_frame len
    simp only [Api.call, same]
    exact ⟨sane.buf buf, collects⟩
  | write data => exact ⟨sane.buf _, collects⟩
  | advanceBuf len => exact ⟨sane.buf _, collects⟩
  | tell context => exact ⟨sane.context context, collects⟩
  | decodeHeaders =>
    have changes := Core.decodeHeaders_changes api.side decoder.toCore
    exact ⟨changes.sane lawful.side lawful.limited sane, collects⟩
  | peekBody => exact ⟨sane, collects⟩
  | consumeBody len =>
    have changes := (Decoder.consumeBody_moves decoder len).changes api.side
    refine ⟨changes.sane lawful.side lawful.limited sane, ?_⟩
    change Decoder.Collects collected (decoder.consumeBody len).2
    rw [Decoder.consumeBody_frame decoder len]
    exact collects
  | progress =>
    have changes := (Decoder.progress_moves decoder).changes api.side
    exact ⟨changes.sane lawful.side lawful.limited sane, collects⟩
  | decode =>
    have decodes := lawful.decodes collects
    unfold Decoder.Decodes at decodes
    simp only [Api.call]
    split at decodes
    · -- A message that was handed over leaves nothing behind.
      obtain ⟨last, changes, phase, _, same⟩ := decodes
      have later := changes.sane lawful.side lawful.limited sane
      rw [same]
      refine ⟨?_, ?_⟩
      · rw [sane_finished api.side later phase]
        exact Core.sane_nextMessage api.side last.toCore
      · intro head bodyKind found
        cases found
    · obtain ⟨changes, kept, _⟩ := decodes
      exact ⟨changes.sane lawful.side lawful.limited sane, kept⟩
  | markEof =>
    simp only [Api.call]
    rcases lawful.markEof decoder with same | ⟨_, same⟩
    · rw [same]
      exact ⟨sane, collects⟩
    · rw [same]
      refine ⟨⟨sane.body.phase rfl trivial rfl (by simp), sane.few, fun _ => ?_⟩, collects⟩
      exact sane.idle (by simp [*])

/-- Whatever calls a program makes, what holds of a fresh decoder holds at every point. -/
theorem Lawful.reachable (lawful : api.Lawful collected) {limits : DecoderLimits}
    {kind : Call Context → Bool} {decoder : Decoder Head Context}
    (reachable : api.Reachable limits kind decoder) : Holds collected decoder := by
  induction reachable with
  | fresh => exact ⟨Core.sane_fresh limits api.initial [], fun _ _ found => by cases found⟩
  | call next _ _ _ ih => exact lawful.call ih next

end Api

end Http11

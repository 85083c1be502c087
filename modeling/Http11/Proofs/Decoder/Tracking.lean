import Http11.Proofs.Decoder.Within

/-! A decoder that collects a message is in step with a reader of that message. -/

namespace Http11

namespace Decoder

variable {Head Context : Type} {side : Side Head Context} {origin : Reader Head Context}
  {decoder next : Decoder Head Context}

/-- All content is collected as a reader has read it, and the message ends for both alike. -/
structure Settled (decoder : Decoder Head Context) (reader : Reader Head Context) : Prop where
  /-- The reader is still in the message. -/
  inside : reader.done = []
  /-- No error stopped it. -/
  unfailed : reader.failed = none
  /-- It has read all content. -/
  past : reader.Over
  /-- That content is what was collected. -/
  body : reader.body = decoder.decodedBody
  /-- The decoder is in front of the same end. -/
  closes : reader.core.toBodyState.Closes decoder.toBodyState

/-- What is collected is the part of the message that was read, as far as the decoder stands. -/
inductive Tracks (side : Side Head Context) (origin : Reader Head Context)
    (decoder : Decoder Head Context) : Prop where
  /-- The decoder stands where a reader came. -/
  | reading (reached : (Reader.machine side (some 1)).Reaches origin (decoder.view []))
  /-- All content is collected, and the decoder stands behind it. -/
  | settled (reader : Reader Head Context)
    (reached : (Reader.machine side (some 1)).Reaches origin reader)
    (settled : decoder.Settled reader)
  /-- The body lasts up to the end of the connection. -/
  | lasting (phase : decoder.phase = .bodyCloseDelimited)
    (decoded : ∃ head, decoder.decoded = some (head, .closeDelimited))

/-- Either the decoder keeps track of the message, or a line of the message is lost. -/
def TracksOrLost (side : Side Head Context) (origin : Reader Head Context)
    (decoder : Decoder Head Context) : Prop :=
  decoder.Tracks side origin ∨ Reader.Lost side origin decoder.buf

/-- The first message is still to be read. -/
theorem going_one : Going (some 1) ([] : List (Message Head)) := by simp [Going]

/-- A decoder that tracks a message is past its head. -/
theorem Tracks.outside (lawful : side.Lawful) (proper : origin.Proper side)
    (reading : decoder.decoded ≠ none) (tracks : decoder.Tracks side origin) :
    decoder.phase.isHeading = false := by
  -- A reader past a head, a settled end and a body up to the close are all behind the head.
  cases tracks with
  | reading reached =>
    have sound := Reader.reaches_proper lawful reached proper rfl
    exact Reader.outside_of_current sound.consistent reading
  | settled reader reached settled =>
    rcases settled.closes.past with phase | phase <;> rw [phase] <;> rfl
  | lasting phase => rw [phase]; rfl

/-- Where a reader fails inside a body, the decoder tracks it or a line is lost. -/
theorem tracks_failed {failed : Reader Head Context}
    (reached : (Reader.machine side (some 1)).Reaches origin failed)
    (stuck : failed.failed ≠ none) (unfailed : origin.failed = none)
    (reading : failed.current ≠ none) (inside : failed.done = [])
    (same : next.view [] = { failed with failed := none }) : next.TracksOrLost side origin := by
  rcases Relation.ReflTransGen.cases_tail reached with rfl | ⟨before, earlier, last⟩
  · exact absurd unfailed stuck
  · change before.step side (some 1) = some failed at last
    have none := Reader.step_done last inside
    have running := Reader.failed_of_step last
    rcases Reader.step_failed last stuck reading with kept | ⟨overruns, shorter⟩ |
      ⟨phase, line, rest, present, split, taken⟩
    · -- What is refused and stays leaves the decoder where the reader was.
      rw [← same] at kept
      rw [← kept] at earlier
      exact .inl (.reading earlier)
    · -- The size line was taken off before the chunk was refused.
      have buf : next.buf = failed.core.buf := congrArg (fun reader => reader.core.buf) same
      rw [← buf] at shorter
      exact .inr ⟨before, earlier, none, running, overruns.drops, shorter⟩
    · -- A bad trailer is gone, but all content was there before it.
      rw [← same] at taken
      have body : before.body = next.decodedBody := (congrArg Reader.body taken).symm
      have stands : next.phase = before.core.phase :=
        congrArg (fun reader => reader.core.phase) taken
      have left : next.buf = rest := congrArg (fun reader => reader.core.buf) taken
      exact .inl (.settled before earlier ⟨none, running, .inl phase, body,
        .of_line phase split present (stands.trans phase) left⟩)

/-- Moving on where nothing is shown keeps track of the message, unless a line is lost. -/
theorem advance_tracks (lawful : side.Lawful) (proper : origin.Proper side)
    (unfailed : origin.failed = none) (reading : decoder.decoded ≠ none)
    (tracks : decoder.Tracks side origin) (unseen : decoder.peekBody = none) :
    Tracks side origin { decoder with
        toBodyState := (BodyState.consumeBody decoder.limits 0 decoder.toBodyState).2 } ∨
      (∃ error, (BodyState.consumeBody decoder.limits 0 decoder.toBodyState).1 = .error error) ∧
        Reader.Lost side origin
          (BodyState.consumeBody decoder.limits 0 decoder.toBodyState).2.buf := by
  cases tracks with
  | reading reached =>
    have running : (decoder.view []).halted (some 1) = false := view_running decoder going_one
    have sound := Reader.reaches_proper lawful reached proper rfl
    have followed := Reader.progress_follows side running sound.consistent reading unseen
    rw [show (decoder.view []).core = decoder.toCore from rfl] at followed
    rcases consumed : BodyState.consumeBody decoder.limits 0 decoder.toBodyState with
      ⟨error | _ | _ | trailers, state⟩ <;> rw [consumed] at followed <;> dsimp only
    · rcases followed with ⟨_, same⟩ | stopped
      · -- In a tunnel the call is refused, and changes nothing.
        left
        dsimp only at same
        subst same
        exact .reading reached
      · have failed := tracks_failed (reached.trans stopped) (by simp [Reader.afterBody]) unfailed
          reading rfl (show ({ decoder with toBodyState := state } : Decoder Head Context).view [] =
            _ from rfl)
        rcases failed with tracks | lost
        · exact .inl tracks
        · exact .inr ⟨⟨error, rfl⟩, lost⟩
    · exact .inl (.reading (reached.trans followed))
    · exact .inl (.reading (reached.trans followed.2.1))
    · -- The trailers were handed over, which the reader does not do.
      obtain ⟨before, phase, _, same, later⟩ := followed
      dsimp only at same
      subst same
      exact .inl (.settled _ (reached.trans later)
        ⟨rfl, rfl, .inr phase, rfl, .of_same (.inr phase) rfl rfl⟩)
  | settled reader reached settled =>
    -- Behind the content the call only moves towards the end of the message.
    have moved := BodyState.consumeBody_closes decoder.limits 0 settled.closes.past
    exact .inl (.settled reader reached ⟨settled.inside, settled.unfailed, settled.past,
      settled.body, settled.closes.trans moved⟩)
  | lasting phase decoded =>
    exact .inl (.lasting (StreamRun.consumeBody_lasting decoder.limits 0 phase).1 decoded)

/-- Consuming some of what is shown keeps track of the message. -/
theorem consume_tracks (lawful : side.Lawful) (proper : origin.Proper side)
    (unfailed : origin.failed = none) (reading : decoder.decoded ≠ none)
    (tracks : decoder.Tracks side origin) {data : Bytes} (peeked : decoder.peekBody = some data)
    {len : Nat} (positive : 0 < len) (shown : len ≤ data.length) :
    Tracks side origin { decoder with
        decodedBody := decoder.decodedBody ++ data.take len
        toBodyState := (BodyState.consumeBody decoder.limits len decoder.toBodyState).2 } ∨
      (∃ error, (BodyState.consumeBody decoder.limits len decoder.toBodyState).1 =
        .error error) ∧ Reader.Lost side origin
          (BodyState.consumeBody decoder.limits len decoder.toBodyState).2.buf := by
  cases tracks with
  | reading reached =>
    have running : (decoder.view []).halted (some 1) = false := view_running decoder going_one
    have sound := Reader.reaches_proper lawful reached proper rfl
    by_cases lasting : decoder.phase = .bodyCloseDelimited
    · -- A body up to the close takes no steps of the reader, and is not left.
      have consistent := sound.consistent
      simp only [Reader.Consistent, show (decoder.view []).core.phase = _ from lasting]
        at consistent
      exact .inl (.lasting (StreamRun.consumeBody_lasting decoder.limits len lasting).1
        consistent.1)
    have followed := (Reader.consumeBody_follows side running sound.consistent lasting peeked
      positive shown).1
    rw [show (decoder.view []).core = decoder.toCore from rfl] at followed
    rcases consumed : BodyState.consumeBody decoder.limits len decoder.toBodyState with
      ⟨error | _, state⟩ <;> rw [consumed] at followed <;> dsimp only
    · have failed := tracks_failed (reached.trans followed) (by simp [Reader.afterBody]) unfailed
        reading rfl (show ({ decoder with
          decodedBody := decoder.decodedBody ++ data.take len, toBodyState := state } :
            Decoder Head Context).view [] = _ from rfl)
      rcases failed with tracks | lost
      · exact .inl tracks
      · exact .inr ⟨⟨error, rfl⟩, lost⟩
    · exact .inl (.reading (reached.trans followed))
  | settled reader reached settled =>
    -- Behind the content nothing is shown.
    rcases settled.closes.past with phase | phase <;>
      simp [peekBody, BodyState.peekBody, phase] at peeked
  | lasting phase decoded =>
    exact .inl (.lasting (StreamRun.consumeBody_lasting decoder.limits len phase).1 decoded)

/-- What collecting a body did: it kept track of the message, unless it failed past the limit. -/
def Collecting {Result : Type} (side : Side Head Context) (origin : Reader Head Context)
    (decoder : Decoder Head Context)
    (outcome : Except Error Result × Decoder Head Context) : Prop :=
  outcome.2.decoded = decoder.decoded ∧ (Tracks side origin outcome.2 ∨
    (∃ error, outcome.1 = .error error) ∧ Reader.Lost side origin outcome.2.buf)

/-- One pass of collecting a body keeps track of the message. -/
theorem readBodyPass_tracks (lawful : side.Lawful) (proper : origin.Proper side)
    (unfailed : origin.failed = none) (reading : decoder.decoded ≠ none)
    (tracks : decoder.Tracks side origin) :
    match decoder.readBodyPass with
    | .inl next => next.decoded = decoder.decoded ∧ Tracks side origin next
    | .inr outcome => Collecting side origin decoder outcome := by
  unfold readBodyPass
  -- Shown bytes are consumed, and without any the decoder moves on.
  cases peeked : decoder.peekBody with
  | some data =>
    have present := List.length_pos_of_ne_nil (peekBody_ne_nil peeked)
    have collected := consume_tracks lawful proper unfailed reading tracks peeked present le_rfl
    rw [List.take_length] at collected
    simp only [consumeBody_eq _ present]
    rcases consumed : BodyState.consumeBody decoder.limits data.length decoder.toBodyState with
      ⟨error | _, state⟩ <;> rw [consumed] at collected <;> dsimp only at collected ⊢
    · exact ⟨rfl, collected.imp_right fun lost => ⟨⟨error, rfl⟩, lost.2⟩⟩
    · -- A pass that is not refused has lost nothing.
      have kept := collected.resolve_right (by rintro ⟨⟨_, other⟩, _⟩; cases other)
      by_cases complete : state.phase = .complete
      · rw [if_pos complete]
        exact ⟨rfl, .inl kept⟩
      · rw [if_neg complete]
        exact ⟨rfl, kept⟩
  | none =>
    have advanced := advance_tracks lawful proper unfailed reading tracks peeked
    simp only [progress_eq]
    rcases consumed : BodyState.consumeBody decoder.limits 0 decoder.toBodyState with
      -- Moving on is refused, advances, waits for bytes or ends the body.
      ⟨error | _ | _ | _, state⟩ <;> rw [consumed] at advanced <;> dsimp only at advanced ⊢
    · exact ⟨rfl, advanced.imp_right fun lost => ⟨⟨error, rfl⟩, lost.2⟩⟩
    · exact ⟨rfl, advanced.resolve_right (by rintro ⟨⟨_, other⟩, _⟩; cases other)⟩
    · exact ⟨rfl, .inl (advanced.resolve_right (by rintro ⟨⟨_, other⟩, _⟩; cases other))⟩
    · exact ⟨rfl, .inl (advanced.resolve_right (by rintro ⟨⟨_, other⟩, _⟩; cases other))⟩

/-- Collecting a body keeps track of the message. -/
theorem readBody_tracks (lawful : side.Lawful) (proper : origin.Proper side)
    (unfailed : origin.failed = none) (reading : decoder.decoded ≠ none)
    (tracks : decoder.Tracks side origin) :
    Collecting side origin decoder decoder.readBody := by
  refine readBodyLoop.run_rule (motive := fun decoder outcome =>
    decoder.decoded ≠ none → Tracks side origin decoder →
      Collecting side origin decoder outcome) ?_ ?_ decoder reading tracks
  · -- The last pass collects, and each pass before it keeps track and the head.
    intro decoder outcome pass reading tracks
    have collected := readBodyPass_tracks lawful proper unfailed reading tracks
    change decoder.readBodyPass = .inr outcome at pass
    rwa [pass] at collected
  · intro decoder next outcome pass ih reading tracks
    have collected := readBodyPass_tracks lawful proper unfailed reading tracks
    change decoder.readBodyPass = .inl next at pass
    rw [pass] at collected
    obtain ⟨same, kept⟩ := collected
    obtain ⟨later, rest⟩ := ih (by rwa [same]) kept
    exact ⟨later.trans same, rest⟩

/-- Once a message is complete, a reader has read what is collected and is in front of its end. -/
theorem Tracks.content (tracks : decoder.Tracks side origin) (phase : decoder.phase = .complete) :
    ∃ reader, (Reader.machine side (some 1)).Reaches origin reader ∧ reader.done = [] ∧
      reader.failed = none ∧ reader.Over ∧ reader.body = decoder.decodedBody ∧
      reader.core.messageEnd = some decoder.buf := by
  -- Up to the close a body is never complete, so one of the first two holds.
  cases tracks with
  | reading reached =>
    refine ⟨_, reached, rfl, rfl, .inr phase, rfl, ?_⟩
    simp only [view, BodyState.messageEnd, phase]
  | settled reader reached settled =>
    have ends := settled.closes.ends []
    simp only [BodyState.endWith, List.append_nil] at ends
    refine ⟨reader, reached, settled.inside, settled.unfailed, settled.past, settled.body, ?_⟩
    rw [← ends]
    simp only [BodyState.messageEnd, phase]
  | lasting other =>
    rw [phase] at other
    cases other

/-- What asking for a whole message did, when its head was there. -/
def HandsOut {Whole : Type} (side : Side Head Context) (whole : Message Head → Whole)
    (origin : Reader Head Context) (decoder : Decoder Head Context) (head : Head)
    (bodyKind : BodyKind) (outcome : Except Error (Option Whole) × Decoder Head Context) : Prop :=
  match outcome.1 with
  | .ok (some result) => ∃ last : Decoder Head Context, outcome.2 = last.finished side ∧
      last.phase = .complete ∧ Tracks side origin last ∧ last.toCore.Sane ∧
      result = whole ⟨head, bodyKind, last.decodedBody, []⟩
  | _ => Collecting side origin decoder outcome

/-- Collecting a framed body and handing it out keeps messages apart. -/
theorem handsOut_framed {Whole : Type} {whole : Message Head → Whole} (lawful : side.Lawful)
    (limited : side.Limited) (sane : decoder.toCore.Sane) (proper : origin.Proper side)
    (unfailed : origin.failed = none) {head : Head} {bodyKind : BodyKind}
    (decoded : decoder.decoded = some (head, bodyKind)) (tracks : decoder.Tracks side origin)
    {outcome : Except Error (Option Whole) × Decoder Head Context}
    (same : outcome = match decoder.readBody with
      | (.error error, last) => (.error error, last)
      | (.ok false, last) => (.ok none, last)
      | (.ok true, last) =>
        (.ok (some (whole ⟨head, bodyKind, last.decodedBody, []⟩)), last.finished side)) :
    HandsOut side whole origin decoder head bodyKind outcome := by
  have collected := readBody_tracks lawful proper unfailed (by simp [decoded]) tracks
  have complete := (readBody_frame decoder).2
  have later := ((readBody_moves decoder).changes side).sane lawful limited sane
  subst same
  rcases read : decoder.readBody with ⟨error | _ | _, last⟩ <;> rw [read] at collected complete later
  · exact ⟨collected.1, collected.2.imp_right fun lost => ⟨⟨error, rfl⟩, lost.2⟩⟩
  · -- A body that waits for more has lost no line.
    refine ⟨collected.1, collected.2.imp_right fun lost => ?_⟩
    obtain ⟨⟨_, other⟩, _⟩ := lost
    cases other
  · have kept := collected.2.resolve_right (by rintro ⟨⟨_, other⟩, _⟩; cases other)
    exact ⟨last, rfl, complete rfl, kept, later, rfl⟩

/-- A message without a body that is tracked is complete. -/
theorem Tracks.bodiless (lawful : side.Lawful) (proper : origin.Proper side) {head : Head}
    (current : origin.current = some (head, .none))
    (decoded : decoder.decoded = some (head, .none)) (tracks : decoder.Tracks side origin) :
    decoder.phase = .complete := by
  cases tracks with
  | reading reached =>
    have sound := Reader.reaches_proper lawful reached proper rfl
    exact phase_of_bodiless sound.consistent decoded
  | settled reader reached settled =>
    -- The reader has read the same head, behind which there are no trailers.
    have kept := (Reader.reaches_told lawful reached proper (by simp [current]) settled.inside
      reader.core.context).1
    have consistent := (Reader.reaches_proper lawful reached proper settled.unfailed).consistent
    refine settled.closes.complete (settled.past.resolve_left fun trailing => ?_)
    simp only [Reader.Consistent, trailing, kept, current] at consistent
    obtain ⟨⟨_, same⟩, _⟩ := consistent
    cases same
  | lasting _ other =>
    obtain ⟨_, same⟩ := other
    rw [decoded] at same
    cases same

end Decoder

namespace RequestDecoder

open Decoder

/-- Whole requests are the messages of the connection. -/
theorem decode_handsOut {origin : Reader RequestHead Unit} {decoder : RequestDecoder}
    {head : RequestHead} {bodyKind : BodyKind} (sane : decoder.toCore.Sane)
    (proper : origin.Proper side) (unfailed : origin.failed = none)
    (current : origin.current = some (head, bodyKind))
    (decoded : decoder.decoded = some (head, bodyKind)) (tracks : decoder.Tracks side origin) :
    HandsOut side Message.request origin decoder head bodyKind (decode decoder) := by
  unfold decode
  simp only [decodeHead, decoded]
  -- A tunnel hands out its head alone, and no request lasts up to the close.
  cases bodyKind with
  | tunnel => exact ⟨rfl, .inl tracks⟩
  | closeDelimited => exact absurd rfl (not_closeDelimited proper.determined current)
  | none =>
    -- Without a body the message is complete with its head.
    have complete := tracks.bodiless side_lawful proper current decoded
    exact ⟨decoder, rfl, complete, tracks, sane, rfl⟩
  | contentLength length =>
    -- A length and chunks are collected by the same loop.
    refine handsOut_framed side_lawful side_limited sane proper unfailed decoded tracks ?_
    dsimp only
    rcases decoder.readBody with ⟨_ | _ | _, _⟩ <;> rfl
  | chunked =>
    refine handsOut_framed side_lawful side_limited sane proper unfailed decoded tracks ?_
    dsimp only
    rcases decoder.readBody with ⟨_ | _ | _, _⟩ <;> rfl

end RequestDecoder

namespace ResponseDecoder

open Decoder

/-- Reading up to the close stays in a body that lasts up to it. -/
theorem readUntilClose_lasting {decoder : ResponseDecoder}
    (phase : decoder.phase = .bodyCloseDelimited) :
    (readUntilClose decoder).2.phase = .bodyCloseDelimited := by
  unfold readUntilClose
  cases peeked : decoder.peekBody with
  | none => exact phase
  | some data =>
    have present := List.length_pos_of_ne_nil (peekBody_ne_nil peeked)
    have kept := (StreamRun.consumeBody_lasting decoder.limits data.length phase).1
    dsimp only
    -- Before bytes are consumed, the sum of the collected ones is checked.
    split
    · exact phase
    · split
      · exact phase
      · simp only [consumeBody_eq _ present]
        rcases consumed : BodyState.consumeBody decoder.limits data.length decoder.toBodyState with
          ⟨_ | _, state⟩ <;> rw [consumed] at kept <;> exact kept

/-- Whole responses are the messages of the connection. -/
theorem decode_handsOut {origin : Reader ResponseHead (Option Str)} {decoder : ResponseDecoder}
    {head : ResponseHead} {bodyKind : BodyKind} (sane : decoder.toCore.Sane)
    (proper : origin.Proper side) (unfailed : origin.failed = none)
    (current : origin.current = some (head, bodyKind))
    (decoded : decoder.decoded = some (head, bodyKind)) (tracks : decoder.Tracks side origin) :
    HandsOut side Message.response origin decoder head bodyKind (decode decoder) := by
  unfold decode
  simp only [decodeHead, decoded]
  cases bodyKind with
  | tunnel => exact ⟨rfl, .inl tracks⟩
  | closeDelimited =>
    obtain ⟨_, same, _⟩ := readUntilClose_moves decoder
    -- Either the body still lasts, or it has ended and all of it is collected.
    by_cases lasting : decoder.phase = .bodyCloseDelimited
    · have phase := readUntilClose_lasting lasting
      rcases read : readUntilClose decoder with ⟨_ | _, last⟩ <;> rw [read] at phase same <;>
        dsimp only at phase same ⊢
      · exact ⟨same, .inl (.lasting phase ⟨head, same.trans decoded⟩)⟩
      · rw [if_pos (by simp [phase])]
        exact ⟨same, .inl (.lasting phase ⟨head, same.trans decoded⟩)⟩
    · have hidden : decoder.peekBody = none := by
        cases tracks with
        | reading reached =>
          have sound := Reader.reaches_proper side_lawful reached proper rfl
          have phase := (phase_of_closeDelimited sound.consistent decoded).resolve_left lasting
          simp [Decoder.peekBody, BodyState.peekBody, phase]
        | settled reader reached settled =>
          rcases settled.closes.past with phase | phase <;>
            simp [Decoder.peekBody, BodyState.peekBody, phase]
        | lasting phase => exact absurd phase lasting
      simp only [readUntilClose, hidden]
      by_cases complete : decoder.phase = .complete
      · rw [if_neg (not_not.mpr complete)]
        exact ⟨decoder, rfl, complete, tracks, sane, rfl⟩
      · rw [if_pos complete]
        exact ⟨rfl, .inl tracks⟩
  | none =>
    have complete := tracks.bodiless side_lawful proper current decoded
    exact ⟨decoder, rfl, complete, tracks, sane, rfl⟩
  | contentLength length =>
    refine handsOut_framed side_lawful side_limited sane proper unfailed decoded tracks ?_
    dsimp only
    rcases decoder.readBody with ⟨_ | _ | _, _⟩ <;> rfl
  | chunked =>
    refine handsOut_framed side_lawful side_limited sane proper unfailed decoded tracks ?_
    dsimp only
    rcases decoder.readBody with ⟨_ | _ | _, _⟩ <;> rfl

end ResponseDecoder

end Http11

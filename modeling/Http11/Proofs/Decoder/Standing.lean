import Http11.Proofs.Decoder.Tracking

/-! Where a decoder is in a message of the connection, and that calls lead on in that message. -/

namespace Http11

namespace Decoder

variable {Head Context : Type} {side : Side Head Context} {origin : Reader Head Context}

/-- What reading a head did: a reader has read it too, or is as far, or a line is lost. -/
def HeadTracked (side : Side Head Context) (origin : Reader Head Context)
    (outcome : Except Error (Option (Head × BodyKind)) × Core Context) : Prop :=
  match outcome.1 with
  | .ok (some decoded) =>
    (Reader.machine side (some 1)).Reaches origin { core := outcome.2, current := some decoded }
  | _ => outcome.2.phase.isHeading = true ∧
    ((Reader.machine side (some 1)).Reaches origin { core := outcome.2 } ∨
      Reader.Lost side origin outcome.2.buf)

/-- Reading a head keeps track of the message, unless a line of the head is lost. -/
theorem decodeHeaders_tracks {core : Core Context} (heading : core.phase.isHeading = true)
    (reached : (Reader.machine side (some 1)).Reaches origin { core }) :
    HeadTracked side origin (core.decodeHeaders side) := by
  -- Each pass of the loop is one step of the reader, until a pass returns.
  refine (Core.decodeHeadersLoop side).run_rule
    (motive := fun core outcome => core.phase.isHeading = true →
      (Reader.machine side (some 1)).Reaches origin { core } → HeadTracked side origin outcome)
    ?_ ?_ core heading reached
  · intro core outcome pass heading reached
    rcases Core.decodeHeadersPass_returned pass with ⟨_, _, rfl⟩ |
      ⟨_, found, line, rest, split, rfl⟩ | ⟨outside, _⟩
    · exact ⟨heading, .inl reached⟩
    · have phases : core.phase = .startLine ∨ core.phase = .headers := by
        simpa [DecodePhase.isHeading] using heading
      have stepped : (Reader.machine side (some 1)).Reaches ({ core } : Reader Head Context) _ :=
        Reader.step_head side rfl phases split
      have shorter := splitLine_length split
      rcases read : core.headLine side line rest with ⟨error | _ | decoded, next⟩
      · -- A line that is refused is still there, or is lost.
        rcases Core.headLine_refused heading split read with rfl | ⟨rfl, loses⟩
        · exact ⟨heading, .inl reached⟩
        · refine ⟨heading, .inr ⟨_, reached, rfl, rfl, ⟨?_, loses⟩, ?_⟩⟩
          · rcases phases with phase | phase <;> simp [phase]
          · dsimp only
            omega
      · rw [read] at found
        exact absurd rfl found
      · rw [show ({ core } : Reader Head Context).core = core from rfl, read] at stepped
        exact reached.trans stepped
    · rw [heading] at outside
      cases outside
  · intro core next outcome pass ih heading reached
    rcases Core.decodeHeadersPass_continued pass with ⟨_, line, rest, split, read⟩ | ⟨complete, _⟩
    · have phases : core.phase = .startLine ∨ core.phase = .headers := by
        simpa [DecodePhase.isHeading] using heading
      have stepped : (Reader.machine side (some 1)).Reaches ({ core } : Reader Head Context) _ :=
        Reader.step_head side rfl phases split
      rw [show ({ core } : Reader Head Context).core = core from rfl, read] at stepped
      refine ih ?_ (reached.trans stepped)
      rw [Core.headLine_phase phases read]
      rfl
    · rw [complete] at heading
      cases heading

/-- Where a decoder is in a message of the connection, seen by a reader from its start. -/
inductive Stands (side : Side Head Context) (origin : Reader Head Context)
    (decoder : Decoder Head Context) : Prop where
  /-- The decoder reads the head, and is where the reader comes. -/
  | heading (inHead : decoder.phase.isHeading = true)
    (reached : (Reader.machine side (some 1)).Reaches origin (decoder.view []))
  /-- The head is read, and whoever takes the body keeps track of the message. -/
  | inside (decoded : Head × BodyKind) (head : Reader Head Context) (body : Bytes)
    (context : Context) (reached : (Reader.machine side (some 1)).Reaches origin head)
    (unread : head.done = []) (unfailed : head.failed = none) (current : head.current = some decoded)
    (collected : decoder.decoded = none ∨
      decoder.decoded = some decoded ∧ decoder.decodedBody = body)
    (tracks : Tracks side (head.told context)
      { decoder with decoded := some decoded, decodedBody := body })
  /-- A line of the message is lost. -/
  | lost (lost : Reader.Lost side origin decoder.buf)

/-- A reader that has read a head, and was told something behind it, is a proper one. -/
theorem told_proper (lawful : side.Lawful) {head : Reader Head Context} (proper : origin.Proper side)
    (reached : (Reader.machine side (some 1)).Reaches origin head) (unfailed : head.failed = none)
    (context : Context) : (head.told context).Proper side := by
  have sound := Reader.reaches_proper lawful reached proper unfailed
  exact ⟨sound.consistent, sound.determined⟩

/-- Behind a message that is complete stands what the decoder has not consumed yet. -/
theorem behind_complete (lawful : side.Lawful) {head : Reader Head Context}
    {decoder : Decoder Head Context} {context : Context} (proper : origin.Proper side)
    (reached : (Reader.machine side (some 1)).Reaches origin head) (unfailed : head.failed = none)
    (reading : head.current ≠ none) (tracks : decoder.Tracks side (head.told context))
    (complete : decoder.phase = .complete) :
    origin.behind side = some decoder.buf ∧
      ∃ reader, (Reader.machine side (some 1)).Reaches origin reader ∧ reader.done = [] ∧
        reader.failed = none ∧ reader.Over ∧ reader.current = head.current ∧
        reader.body = decoder.decodedBody := by
  obtain ⟨reader, later, inside, running, past, body, ends⟩ := tracks.content complete
  have sound := Reader.reaches_proper lawful reached proper unfailed
  obtain ⟨current, back⟩ := Reader.reaches_back lawful reached sound reading later inside
  -- What the reader was told does not change that it is behind the body.
  have past : (reader.told head.core.context).Over := past
  refine ⟨?_, _, back, inside, running, past, current, body⟩
  rw [Reader.behind_reaches lawful back proper running inside, Reader.behind_over past]
  exact ends

section

variable {decoder : Decoder Head Context}

/-- Input that arrives does not change where a decoder stands. -/
theorem Stands.feed (stands : decoder.Stands side origin) (data : Bytes) :
    (decoder.feedUnchecked data).Stands side (origin.feed data) := by
  -- Each way to stand is kept when the bytes are added to what the reader is to read.
  cases stands with
  | heading inHead reached => exact .heading inHead (reached.feed data)
  | inside decoded head body context reached unread unfailed current collected tracks =>
    refine .inside decoded (head.feed data) body context (reached.feed data) unread unfailed current
      collected ?_
    -- The end of a settled message is that with the bytes behind it.
    cases tracks with
    | reading later => exact .reading (later.feed data)
    | settled reader later settled =>
      refine .settled (reader.feed data) (later.feed data) ⟨settled.inside, settled.unfailed,
        settled.past, settled.body, settled.closes.past, settled.closes.complete, fun input => ?_⟩
      have ends := settled.closes.ends (data ++ input)
      simp only [BodyState.endWith, ← List.append_assoc] at ends
      exact ends
    | lasting phase lasting => exact .lasting phase lasting
  | lost lost => exact .lost (lost.feed data)

/-- In front of the end of a head, being told something does not change where a decoder stands. -/
theorem Stands.tell_heading (lawful : side.Lawful) (proper : origin.Proper side)
    (inHead : decoder.phase.isHeading = true)
    (reached : (Reader.machine side (some 1)).Reaches origin (decoder.view [])) (context : Context) :
    Stands side (origin.told context) { decoder with context } := by
  -- In front of the end of a head the reader has no message yet.
  have phases : decoder.phase = .startLine ∨ decoder.phase = .headers := by
    simpa [DecodePhase.isHeading] using inHead
  have sound := Reader.reaches_proper lawful reached proper rfl
  have unread : (decoder.view []).current = none := by
    have consistent := sound.consistent
    rcases phases with phase | phase <;>
      simp only [Reader.Consistent, show (decoder.view []).core.phase = _ from phase]
        at consistent <;> exact consistent.1
  exact .heading inHead (Reader.reaches_told_heading lawful reached proper rfl unread rfl context)

/-- Behind a head, being told something does not change how the message is tracked. -/
theorem Tracks.tell (lawful : side.Lawful) (proper : origin.Proper side)
    (reading : origin.current ≠ none) (tracks : decoder.Tracks side origin) (context : Context) :
    Tracks side (origin.told context) { decoder with context } := by
  -- The reader takes the same steps, whatever it was told.
  cases tracks with
  | reading reached =>
    exact .reading (Reader.reaches_told lawful reached proper reading rfl context).2
  | settled reader reached settled =>
    exact .settled (reader.told context)
      (Reader.reaches_told lawful reached proper reading settled.inside context).2
      ⟨settled.inside, settled.unfailed, settled.past, settled.body, settled.closes.past,
        settled.closes.complete, settled.closes.ends⟩
  | lasting phase decoded => exact .lasting phase decoded

/-- Taking some of what is shown, or moving on, keeps track of a message that is not collected. -/
theorem consume_stands (lawful : side.Lawful) (proper : origin.Proper side)
    (unfailed : origin.failed = none) (tracks : decoder.Tracks side origin)
    (reading : decoder.decoded ≠ none) (counts : decoder.phase.Counts) (len : Nat) :
    ∃ body, Tracks side origin { decoder with
        decodedBody := body
        toBodyState := (BodyState.consumeBody decoder.limits len decoder.toBodyState).2 } ∨
      Reader.Lost side origin
        (BodyState.consumeBody decoder.limits len decoder.toBodyState).2.buf := by
  by_cases shown : 0 < len ∧ ∃ data, decoder.peekBody = some data ∧ len ≤ data.length
  · obtain ⟨positive, data, peeked, enough⟩ := shown
    have taken := consume_tracks lawful proper unfailed reading tracks peeked positive enough
    exact ⟨_, taken.imp_right And.right⟩
  · -- More than what is shown, or nothing, is not taken.
    have apart : len = 0 ∨ ∀ data, decoder.toBodyState.peekBody = some data → data.length < len := by
      by_contra other
      push Not at other
      obtain ⟨positive, data, peeked, enough⟩ := other
      exact shown ⟨Nat.pos_of_ne_zero positive, data, peeked, enough⟩
    refine ⟨decoder.decodedBody, ?_⟩
    rcases BodyState.consumeBody_apart decoder.limits counts apart with same | ⟨hidden, same⟩
    · rw [same]
      exact .inl tracks
    · rw [same]
      have advanced := advance_tracks lawful proper unfailed reading tracks hidden
      exact advanced.imp_right And.right

/-- Taking bytes apart from what is collected keeps track of the message that is collected. -/
theorem consume_apart (lawful : side.Lawful) (proper : origin.Proper side)
    (unfailed : origin.failed = none) (tracks : decoder.Tracks side origin)
    (reading : decoder.decoded ≠ none) (counts : decoder.phase.Counts) {len : Nat}
    (apart : len = 0 ∨ ∀ data, decoder.peekBody = some data → data.length < len) :
    Tracks side origin { decoder with
        toBodyState := (BodyState.consumeBody decoder.limits len decoder.toBodyState).2 } ∨
      Reader.Lost side origin
        (BodyState.consumeBody decoder.limits len decoder.toBodyState).2.buf := by
  rcases BodyState.consumeBody_apart decoder.limits counts apart with same | ⟨hidden, same⟩
  · rw [same]
    exact .inl tracks
  · rw [same]
    have advanced := advance_tracks lawful proper unfailed reading tracks hidden
    exact advanced.imp_right And.right

/-- A body operation keeps where a decoder stands, unless it takes what is being collected. -/
theorem Stands.consume (lawful : side.Lawful) (proper : origin.Proper side)
    (counts : decoder.phase.Counts) (kept : ¬ Reader.Lost side origin decoder.buf)
    (stands : decoder.Stands side origin) {len : Nat}
    (apart : decoder.decoded = none ∨ len = 0 ∨
      ∀ data, decoder.peekBody = some data → data.length < len) :
    Stands side origin { decoder with
      toBodyState := (BodyState.consumeBody decoder.limits len decoder.toBodyState).2 } := by
  cases stands with
  | heading inHead reached =>
    -- In front of a body the call is refused, and changes nothing.
    have phases : decoder.phase = .startLine ∨ decoder.phase = .headers := by
      simpa [DecodePhase.isHeading] using inHead
    have same : (BodyState.consumeBody decoder.limits len decoder.toBodyState).2 =
        decoder.toBodyState := by
      rcases phases with phase | phase <;> simp [BodyState.consumeBody, phase]
    rw [same]
    exact .heading inHead reached
  | inside decoded head body context reached unread unfailed current collected tracks =>
    have told := told_proper lawful proper reached unfailed context
    have sound := Reader.reaches_proper lawful reached proper unfailed
    have reading : head.current ≠ none := by simp [current]
    rcases collected with undecoded | ⟨found, rfl⟩
    · -- Nothing is collected, so what is taken is simply the next part of the body.
      obtain ⟨later, consumed⟩ := consume_stands lawful told unfailed tracks (by simp) counts len
      rcases consumed with tracks | lost
      · exact .inside decoded head later context reached unread unfailed current (.inl undecoded)
          tracks
      · exact .lost (lost.before lawful reached sound reading)
    · have beside := apart.resolve_left (by simp [found])
      have consumed := consume_apart lawful told unfailed tracks (by simp) counts beside
      rcases consumed with tracks | lost
      · exact .inside decoded head _ context reached unread unfailed current
          (.inr ⟨found, rfl⟩) tracks
      · exact .lost (lost.before lawful reached sound reading)
  | lost lost => exact absurd lost kept

/-- A head that is read opens the body of the message. -/
theorem stands_headed {core : Core Context} {decoded : Head × BodyKind}
    (reached : (Reader.machine side (some 1)).Reaches origin { core, current := some decoded })
    (found : decoder.decoded = none ∨ decoder.decoded = some decoded ∧ decoder.decodedBody = []) :
    Stands side origin { decoder with toCore := core } :=
  .inside decoded _ [] core.context reached rfl rfl rfl found (.reading .refl)

/-- Asking for a head in front of it, or in the middle of it, keeps where a decoder stands. -/
theorem stands_heading {core : Core Context} (undecoded : decoder.decoded = none)
    (empty : decoder.decodedBody = []) (inHead : core.phase.isHeading = true)
    (reached : (Reader.machine side (some 1)).Reaches origin { core }) :
    Stands side origin { decoder with toCore := (core.decodeHeaders side).2 } := by
  have tracked := decodeHeaders_tracks inHead reached
  have view : ∀ core : Core Context, ({ decoder with toCore := core } :
      Decoder Head Context).view [] = { core } := by
    intro core
    simp only [Decoder.view, undecoded, empty]
  -- Refused or waiting, the head may be read on or is lost; otherwise it is there.
  rcases read : core.decodeHeaders side with ⟨error | _ | decoded, next⟩ <;> rw [read] at tracked
  · obtain ⟨still, reached | lost⟩ := tracked
    · exact .heading still (by rwa [view])
    · exact .lost lost
  · obtain ⟨still, reached | lost⟩ := tracked
    · exact .heading still (by rwa [view])
    · exact .lost lost
  · exact stands_headed tracked (.inl undecoded)

end

end Decoder

end Http11

import Http11.Proofs.Decoder.Heads
import Http11.Reader

/-! Phase, framing and counters of a reader hang together in every state it reaches. -/

namespace Http11

/-- A declared length that was accepted fits its type. -/
theorem checkContentLength_le {result next : Option Nat} {part : Str}
    (within : ∀ value ∈ result, value ≤ u64Max)
    (checked : checkContentLength result part = .ok next) : ∀ value ∈ next, value ≤ u64Max := by
  unfold checkContentLength at checked
  split at checked
  · cases checked
  -- A number that is read is bounded by its type, and one that is kept was.
  cases parsed : parseU64 part with
  | none => simp [parsed] at checked
  | some value =>
    have bounded := Numerals.read_le parsed
    simp only [parsed] at checked
    split at checked
    · cases checked
      simpa using bounded
    · split at checked
      · cases checked
      · cases checked
        exact within

/-- The length in a field value fits its type. -/
theorem parseContentLengthValue_le {input : Str} {value : Nat}
    (parsed : parseContentLengthValue input = .ok value) : value ≤ u64Max := by
  simp only [parseContentLengthValue, Bind.bind, Except.bind] at parsed
  split at parsed
  · -- Each part keeps the bound, and without any part there is no length.
    cases parsed
  · rename_i result folded
    have bounded := Checked.foldlM_keeps (motive := fun state => ∀ value ∈ state, value ≤ u64Max)
      _ (fun _ _ _ => checkContentLength_le) (by simp) folded
    split at parsed
    · cases parsed
      exact bounded _ rfl
    · cases parsed

/-- The length all fields agree on fits its type. -/
theorem parseContentLength_le {headers : Headers} {value : Nat}
    (parsed : parseContentLength headers = .ok (some value)) : value ≤ u64Max := by
  unfold parseContentLength at parsed
  -- Each field keeps the bound, whether it brings a length or agrees with one.
  refine Checked.foldlM_keeps (motive := fun state => ∀ value ∈ state, value ≤ u64Max) _ ?_
    (by simp) parsed value rfl
  intro state next raw within stepped
  simp only [Bind.bind, Except.bind] at stepped
  split at stepped
  · cases stepped
  · rename_i found
    have bounded := parseContentLengthValue_le found
    split at stepped
    · split at stepped
      · cases stepped
      · cases stepped
        exact within
    · cases stepped
      simpa using bounded

/-- What the two sides have in common: framings lead to their phases, and lengths fit. -/
structure Side.Lawful {Head Context : Type} (side : Side Head Context) : Prop where
  /-- A body of known length is read until it is complete, at once when it is empty. -/
  contentLength : ∀ length, side.bodyPhase (.contentLength length) =
    if 0 < length then .bodyContentLength length else .complete
  /-- Chunks start with a size line. -/
  chunked : side.bodyPhase .chunked = .bodyChunkedSize
  /-- A body up to the close is read so, or not at all. -/
  closeDelimited : side.bodyPhase .closeDelimited = .bodyCloseDelimited ∨
    side.bodyPhase .closeDelimited = .complete
  /-- No body leaves nothing to read. -/
  none : side.bodyPhase .none = .complete
  /-- A tunnel is never left. -/
  tunnel : side.bodyPhase .tunnel = .tunnel
  /-- A length that frames a body fits the machine word. -/
  bounded : ∀ {limits context startLine headers head length},
    side.finishHead limits context startLine headers = .ok (head, .contentLength length) →
      length ≤ usizeMax

/-- Requests are framed lawfully. -/
theorem RequestDecoder.side_lawful : RequestDecoder.side.Lawful where
  contentLength := fun _ => rfl
  chunked := rfl
  closeDelimited := .inr rfl
  none := rfl
  tunnel := rfl
  bounded := by
    intro limits context startLine headers head length finished
    -- A tunnel has no length, and of the framings only one has.
    obtain ⟨_, ⟨_, tunneled⟩ | ⟨_, determined⟩, _⟩ := RequestDecoder.finishHead_ok finished
    · cases tunneled
    · obtain ⟨_, _, _, parsed, framed⟩ := RequestDecoder.determineBodyKind_ok determined
      rcases framed with ⟨_, _, _, chunked⟩ | ⟨_, found, rfl, _, same⟩ | ⟨_, _, bodiless⟩
      · cases chunked
      · cases same
        exact parseContentLength_le parsed
      · cases bodiless

/-- Responses are framed lawfully. -/
theorem ResponseDecoder.side_lawful : ResponseDecoder.side.Lawful where
  contentLength := fun _ => rfl
  chunked := rfl
  closeDelimited := .inl rfl
  none := rfl
  tunnel := rfl
  bounded := by
    intro limits context startLine headers head length finished
    obtain ⟨_, _, _, determined, _⟩ := ResponseDecoder.finishHead_ok finished
    -- Of all the framings only a declared length is a length.
    rcases ResponseDecoder.determineBodyKind_ok determined with
      ⟨_, bodiless, _⟩ | ⟨_, _, _, _, _, tunneled, _⟩ |
      ⟨_, _, _, _, _, result, contentLength, _, parsed, framed⟩
    · cases bodiless
    · cases tunneled
    · rcases framed with ⟨_, _, other⟩ | ⟨_, _, other⟩ | ⟨_, found, rfl, _, same⟩ | ⟨_, _, other⟩
      · cases other
      · cases other
      · cases same
        exact parseContentLength_le parsed
      · cases other

namespace Reader

variable {Head Context : Type}

/-- Nothing of a head is left over while a body is read. -/
def Idle (reader : Reader Head Context) : Prop :=
  reader.core.startLine = none ∧ reader.core.headers = []

/-- What holds in each phase of a reader that has not failed. -/
def Consistent (reader : Reader Head Context) : Prop :=
  match reader.core.phase with
  | .startLine =>
    reader.current = none ∧ reader.body = [] ∧ reader.core.bodyDecoder = {} ∧ reader.Idle
  | .headers => reader.current = none ∧ reader.body = [] ∧ reader.core.bodyDecoder = {}
  | .bodyContentLength remaining =>
    (∃ head length, reader.current = some (head, .contentLength length)) ∧ 0 < remaining ∧
      reader.core.bodyDecoder.bodyConsumed + remaining ≤ usizeMax ∧
      reader.core.bodyDecoder.trailers = [] ∧ reader.Idle
  | .bodyChunkedSize | .bodyChunkedDataCrlf | .chunkedTrailer =>
    (∃ head, reader.current = some (head, .chunked)) ∧ reader.Idle
  | .bodyChunkedData remaining =>
    (∃ head, reader.current = some (head, .chunked)) ∧ 0 < remaining ∧
      reader.core.bodyDecoder.bodyConsumed + remaining ≤ usizeMax ∧ reader.Idle
  | .bodyCloseDelimited =>
    (∃ head, reader.current = some (head, .closeDelimited)) ∧ reader.body = [] ∧
      reader.core.bodyDecoder.bodyConsumed = 0 ∧ reader.Idle
  | .tunnel => (∃ head, reader.current = some (head, .tunnel)) ∧ reader.Idle
  | .complete =>
    (∃ head bodyKind, reader.current = some (head, bodyKind) ∧ bodyKind ≠ .tunnel ∧
      (bodyKind = .none → reader.body = []) ∧
      (bodyKind ≠ .chunked → reader.core.bodyDecoder.trailers = [])) ∧ reader.Idle

/-- A reader that has failed, or whose parts hang together. -/
def Sound (reader : Reader Head Context) : Prop := reader.failed = none → reader.Consistent

/-- A finished head leads to a consistent phase. -/
theorem consistent_of_finished {side : Side Head Context} (lawful : side.Lawful)
    {reader : Reader Head Context} {next : Core Context} {rest : Bytes} {head : Head}
    {bodyKind : BodyKind} (fresh : reader.core.bodyDecoder = {}) (empty : reader.body = [])
    (finished : reader.core.finishHeaders side rest = (.ok (head, bodyKind), next)) :
    Consistent { reader with core := next, current := some (head, bodyKind) } := by
  obtain ⟨startLine, _, accepted, rfl⟩ := Core.finishHeaders_ok finished
  -- The framing decides the phase, and the counters are still those of a fresh body.
  cases bodyKind with
  | contentLength length =>
    have bounded := lawful.bounded accepted
    by_cases positive : 0 < length
    · simp [Consistent, lawful.contentLength, positive, fresh, Idle, bounded]
    · simp [Consistent, lawful.contentLength, positive, fresh, Idle]
  | chunked => simp [Consistent, lawful.chunked, Idle]
  | closeDelimited =>
    rcases lawful.closeDelimited with until_ | complete
    · simp [Consistent, until_, fresh, empty, Idle]
    · simp [Consistent, complete, fresh, Idle]
  | none => simp [Consistent, lawful.none, fresh, empty, Idle]
  | tunnel => simp [Consistent, lawful.tunnel, Idle]

/-- A line of the head keeps the parts together. -/
theorem sound_afterHead {side : Side Head Context} (lawful : side.Lawful)
    {reader : Reader Head Context} (line rest : Bytes) (running : reader.failed = none)
    (heading : reader.core.phase = .startLine ∨ reader.core.phase = .headers)
    (fresh : reader.core.bodyDecoder = {}) (empty : reader.body = []) :
    Sound (reader.afterHead (reader.core.headLine side line rest)) := by
  intro accepted
  cases read : reader.core.headLine side line rest with
  | mk outcome next =>
    cases outcome with
    | error error => simp [afterHead, read] at accepted
    | ok result =>
      -- A start line, the end of a head or a field was accepted.
      rcases Core.headLine_ok read with
        ⟨_, rfl, started⟩ | ⟨_, _, head, bodyKind, rfl, finished⟩ | ⟨later, _, rfl, added⟩
      · obtain ⟨text, _, _, rfl⟩ := Core.readStartLine_ok started
        exact ⟨rfl, empty, fresh⟩
      · have := consistent_of_finished lawful fresh empty finished
        simpa only [afterHead, running] using this
      · obtain ⟨_, field, _, _, _, _, rfl⟩ := Core.readHeaderLine_ok added
        have headers := heading.resolve_left later
        simp [Consistent, afterHead, headers, empty, fresh]

/-- A body operation that leads to a consistent phase keeps the parts together. -/
theorem sound_afterBody {Result : Type} {reader : Reader Head Context}
    {outcome : Except Error Result × BodyState}
    (holds : ∀ result next, outcome = (.ok result, next) →
      Consistent { reader with core := { reader.core with toBodyState := next } }) :
    Sound (reader.afterBody outcome) := by
  intro accepted
  obtain ⟨outcome, next⟩ := outcome
  cases outcome with
  | error error => simp [afterBody] at accepted
  | ok result => exact holds result next rfl

/-- Every step keeps the parts together. -/
theorem step_sound {side : Side Head Context} (lawful : side.Lawful) {limit : Option Nat}
    {reader next : Reader Head Context} (sound : reader.Sound)
    (stepped : reader.step side limit = some next) : next.Sound := by
  cases running : reader.halted limit with
  | true => simp [step, running] at stepped
  | false =>
    have unfailed : reader.failed = none := by simpa [halted] using (Bool.or_eq_false_iff.mp running).1
    have consistent := sound unfailed
    unfold step at stepped
    cases phase : reader.core.phase with
    -- A line of the head keeps its parts together, whichever line it is.
    | startLine =>
      simp only [Consistent, phase] at consistent
      simp only [running, phase, Option.map_eq_some_iff] at stepped
      obtain ⟨⟨line, rest⟩, _, rfl⟩ := stepped
      exact sound_afterHead lawful line rest unfailed (.inl phase) consistent.2.2.1 consistent.2.1
    | headers =>
      simp only [Consistent, phase] at consistent
      simp only [running, phase, Option.map_eq_some_iff] at stepped
      obtain ⟨⟨line, rest⟩, _, rfl⟩ := stepped
      exact sound_afterHead lawful line rest unfailed (.inr phase) consistent.2.2 consistent.2.1
    -- A byte less is to come, and at the last one the body is complete.
    | bodyContentLength remaining =>
      simp only [Consistent, phase] at consistent
      obtain ⟨⟨head, length, current⟩, positive, fits, untrailed, idle⟩ := consistent
      simp only [running, phase] at stepped
      split at stepped
      · cases stepped
      · cases stepped
        intro _
        by_cases last : remaining = 1
        · simpa [Consistent, afterByte, last, current, untrailed, Idle] using idle
        · simp only [Consistent, afterByte, if_neg last]
          exact ⟨⟨head, length, current⟩, by omega, by omega, untrailed, idle⟩
    | bodyChunkedSize =>
      simp only [Consistent, phase] at consistent
      obtain ⟨⟨head, current⟩, idle⟩ := consistent
      simp only [running, phase, Option.map_eq_some_iff] at stepped
      obtain ⟨⟨line, rest⟩, _, rfl⟩ := stepped
      refine sound_afterBody ?_
      intro result next accepted
      -- The last size leads to the trailers, any other to its data.
      obtain ⟨size, _, ⟨_, rfl⟩ | ⟨positive, fits, _, rfl⟩⟩ := BodyState.chunkSizeLine_ok accepted
      · exact ⟨⟨head, current⟩, idle⟩
      · exact ⟨⟨head, current⟩, positive, fits, idle⟩
    | bodyChunkedData remaining =>
      simp only [Consistent, phase] at consistent
      obtain ⟨⟨head, current⟩, positive, fits, idle⟩ := consistent
      simp only [running, phase] at stepped
      split at stepped
      · cases stepped
      · cases stepped
        intro _
        -- Behind the last byte of a chunk comes its line end.
        by_cases last : remaining = 1
        · simp only [Consistent, afterByte, if_pos last]
          exact ⟨⟨head, current⟩, idle⟩
        · simp only [Consistent, afterByte, if_neg last]
          exact ⟨⟨head, current⟩, by omega, by omega, idle⟩
    | bodyChunkedDataCrlf =>
      simp only [Consistent, phase] at consistent
      simp only [running, phase] at stepped
      split at stepped
      · cases stepped
        refine sound_afterBody ?_
        intro result next accepted
        -- Only the right two bytes are accepted, and they change the phase alone.
        rename_i first second rest buffered
        simp only [BodyState.chunkDataCrlf, buffered] at accepted
        split at accepted
        · cases accepted
        · cases accepted
          exact consistent
      · cases stepped
    | chunkedTrailer =>
      simp only [Consistent, phase] at consistent
      obtain ⟨⟨head, current⟩, idle⟩ := consistent
      simp only [running, phase, Option.map_eq_some_iff] at stepped
      obtain ⟨⟨line, rest⟩, _, rfl⟩ := stepped
      refine sound_afterBody ?_
      intro result next accepted
      -- The empty line completes the body, any other stays among the trailers.
      rcases (BodyState.trailerLine_ok accepted).2 with complete | more
      · simp only [Consistent, complete]
        exact ⟨⟨head, .chunked, current, by simp, by simp, fun other => absurd rfl other⟩, idle⟩
      · simp only [Consistent, more.trans phase]
        exact ⟨⟨head, current⟩, idle⟩
    | complete =>
      simp only [running, phase] at stepped
      cases stepped
      -- A new message starts with nothing.
      intro _
      simp [Consistent, push, Core.nextMessage, Idle]
    -- No step is taken in the last two phases.
    | bodyCloseDelimited => simp [running, phase] at stepped
    | tunnel => simp [running, phase] at stepped

/-- Every state a reader reaches has its parts together. -/
theorem reaches_sound {side : Side Head Context} (lawful : side.Lawful) {limit : Option Nat}
    {reader next : Reader Head Context} (reached : (machine side limit).Reaches reader next)
    (sound : reader.Sound) : next.Sound :=
  reached.preserves (fun _ _ before stepped => step_sound lawful before stepped) sound

/-- The message that is being read has a head and a framing that the side has determined. -/
def Determined (side : Side Head Context) (reader : Reader Head Context) : Prop :=
  ∀ head bodyKind, reader.current = some (head, bodyKind) →
    ∃ limits context startLine headers,
      side.finishHead limits context startLine headers = .ok (head, bodyKind)

/-- Every step keeps heads that the side has determined. -/
theorem step_determined {side : Side Head Context} {limit : Option Nat}
    {reader next : Reader Head Context} (determined : reader.Determined side)
    (stepped : reader.step side limit = some next) : next.Determined side := by
  have atLine : ∀ line rest,
      Determined side (reader.afterHead (reader.core.headLine side line rest)) := by
    intro line rest head bodyKind current
    cases read : reader.core.headLine side line rest with
    | mk outcome core =>
      cases outcome with
      | error error => simp [afterHead, read] at current
      | ok result =>
        have found : result = some (head, bodyKind) := by simpa [afterHead, read] using current
        subst found
        rcases Core.headLine_ok read with ⟨_, other, _⟩ | ⟨_, _, _, _, same, finished⟩ |
          ⟨_, _, other, _⟩
        · cases other
        · cases same
          obtain ⟨startLine, _, accepted, _⟩ := Core.finishHeaders_ok finished
          exact ⟨_, _, startLine, _, accepted⟩
        · cases other
  -- Only a line of the head and the end of a message touch what is being read.
  unfold step at stepped
  split at stepped
  · cases stepped
  · simp only [Option.map_eq_some_iff] at stepped
    obtain ⟨⟨line, rest⟩, _, rfl⟩ := stepped
    exact atLine line rest
  · simp only [Option.map_eq_some_iff] at stepped
    obtain ⟨⟨line, rest⟩, _, rfl⟩ := stepped
    exact atLine line rest
  · split at stepped <;> cases stepped
    exact determined
  · simp only [Option.map_eq_some_iff] at stepped
    obtain ⟨⟨line, rest⟩, _, rfl⟩ := stepped
    exact determined
  · split at stepped <;> cases stepped
    exact determined
  · split at stepped <;> cases stepped
    exact determined
  · simp only [Option.map_eq_some_iff] at stepped
    obtain ⟨⟨line, rest⟩, _, rfl⟩ := stepped
    exact determined
  · cases stepped
    intro head bodyKind current
    simp [push] at current
  · cases stepped
  · cases stepped

/-- A reader that goes on: its parts hang together and its head was determined. -/
structure Proper (side : Side Head Context) (reader : Reader Head Context) : Prop where
  /-- Phase, framing and counters hang together. -/
  consistent : reader.Consistent
  /-- The head and its framing were determined. -/
  determined : reader.Determined side

/-- A reader between messages is a proper one. -/
theorem ready_proper (side : Side Head Context) (limits : DecoderLimits) (context : Context)
    (done : List (Message Head)) (buf : Bytes) :
    (ready limits context done buf : Reader Head Context).Proper side := by
  refine ⟨?_, fun head bodyKind current => by cases current⟩
  simp [Consistent, ready, Idle]

/-- Every state a reader reaches without failing is a proper one. -/
theorem reaches_proper {side : Side Head Context} (lawful : side.Lawful) {limit : Option Nat}
    {reader next : Reader Head Context} (reached : (machine side limit).Reaches reader next)
    (proper : reader.Proper side) (unfailed : next.failed = none) : next.Proper side where
  consistent := reaches_sound lawful reached (fun _ => proper.consistent) unfailed
  determined := reached.preserves (fun _ _ before stepped => step_determined before stepped)
    proper.determined

end Reader

end Http11

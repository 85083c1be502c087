import Http11.Calls
import Http11.Proofs.Decoder.Changes
import Http11.Proofs.Decoder.Decode

/-! What holds of a decoder whatever calls were made: counters within limits, no leftovers. -/

namespace Http11

/-- The bytes of the body that a phase still waits for. -/
def DecodePhase.remaining : DecodePhase → Nat
  | .bodyContentLength remaining | .bodyChunkedData remaining => remaining
  | _ => 0

/-- A phase that counts bytes has some left to count. -/
def DecodePhase.Counts : DecodePhase → Prop
  | .bodyContentLength remaining | .bodyChunkedData remaining => 0 < remaining
  | _ => True

/-- A length that frames a body is within the limit of bodies. -/
def Side.Limited {Head Context : Type} (side : Side Head Context) : Prop :=
  ∀ {limits context startLine headers head length},
    side.finishHead limits context startLine headers = .ok (head, .contentLength length) →
      length ≤ limits.maxBodySize

/-- Requests are framed within the limit. -/
theorem RequestDecoder.side_limited : RequestDecoder.side.Limited := by
  intro limits context startLine headers head length finished
  -- A tunnel has no length, and among the framings only one has it.
  obtain ⟨_, ⟨_, tunneled⟩ | ⟨_, determined⟩, _⟩ := RequestDecoder.finishHead_ok finished
  · cases tunneled
  · obtain ⟨_, _, _, _, framed⟩ := RequestDecoder.determineBodyKind_ok determined
    rcases framed with ⟨_, _, _, chunked⟩ | ⟨_, found, rfl, allowed, same⟩ | ⟨_, _, bodiless⟩
    · cases chunked
    · -- The length was compared with the limit when it was determined.
      cases same
      exact allowed
    · cases bodiless

/-- Responses are framed within the limit. -/
theorem ResponseDecoder.side_limited : ResponseDecoder.side.Limited := by
  intro limits context startLine headers head length finished
  obtain ⟨_, _, _, determined, _⟩ := ResponseDecoder.finishHead_ok finished
  -- Of the framings of a response only a declared length is a length.
  rcases ResponseDecoder.determineBodyKind_ok determined with
    ⟨_, bodiless, _⟩ | ⟨_, _, _, _, _, tunneled, _⟩ |
    ⟨_, _, _, _, _, result, contentLength, _, parsed, framed⟩
  · cases bodiless
  · cases tunneled
  · rcases framed with ⟨_, _, other⟩ | ⟨_, _, other⟩ | ⟨_, found, rfl, allowed, same⟩ | ⟨_, _, other⟩
    · cases other
    · cases other
    · cases same
      exact allowed
    · cases other

namespace BodyState

/-- What holds of the state of a body under some limits. -/
structure Sane (limits : DecoderLimits) (state : BodyState) : Prop where
  /-- What was consumed and what is waited for are within the limit of bodies. -/
  allowed : state.bodyDecoder.bodyConsumed + state.phase.remaining ≤ limits.maxBodySize
  /-- Their sum fits the machine word. -/
  fits : state.bodyDecoder.bodyConsumed + state.phase.remaining ≤ usizeMax
  /-- There is something left to count. -/
  counts : state.phase.Counts
  /-- Every trailer was counted. -/
  trailers : state.bodyDecoder.trailers.length ≤ state.bodyDecoder.trailerCount
  /-- The trailers counted are within the limit of fields. -/
  few : state.bodyDecoder.trailerCount ≤ limits.maxHeadersCount
  /-- A body of known length has no trailers. -/
  untrailed : ∀ remaining, state.phase = .bodyContentLength remaining →
    state.bodyDecoder.trailers = []
  /-- While a head is read nothing is remembered of a body. -/
  heading : state.phase.isHeading = true → state.bodyDecoder = {}

/-- A state that differs from a sane one in its buffer only is sane. -/
theorem Sane.buf {limits : DecoderLimits} {state : BodyState} (sane : state.Sane limits)
    (buf : Bytes) : ({ state with buf } : BodyState).Sane limits :=
  ⟨sane.allowed, sane.fits, sane.counts, sane.trailers, sane.few, sane.untrailed, sane.heading⟩

/-- A phase without a counter can follow any sane state once the head is over. -/
theorem Sane.phase {limits : DecoderLimits} {state : BodyState} (sane : state.Sane limits)
    {phase : DecodePhase} (plain : phase.remaining = 0) (counts : phase.Counts)
    (body : phase.isHeading = false) (unknown : ∀ remaining, phase ≠ .bodyContentLength remaining) :
    ({ state with phase } : BodyState).Sane limits where
  -- Without a counter less is allowed for than before.
  allowed := by
    have bound := sane.allowed
    dsimp only
    omega
  fits := by
    have bound := sane.fits
    dsimp only
    omega
  counts := counts
  trailers := sane.trailers
  few := sane.few
  -- Only a declared length leaves no room for trailers, and the phase is not one.
  untrailed := fun remaining same => absurd same (unknown remaining)
  heading := fun heading => by simp [body] at heading

/-- Counting some bytes of the body leaves that many fewer to wait for. -/
theorem Sane.afterContent {limits : DecoderLimits} {state : BodyState} (sane : state.Sane limits)
    {remaining len : Nat} (waiting : state.phase.remaining = remaining) (enough : len ≤ remaining)
    {phase : DecodePhase} (left : phase.remaining = remaining - len) (counts : phase.Counts)
    (body : phase.isHeading = false)
    (untrailed : ∀ remaining, phase = .bodyContentLength remaining →
      state.bodyDecoder.trailers = []) :
    (state.afterContent len phase).Sane limits where
  -- What has been counted and what is left add up as before.
  allowed := by
    have bound := sane.allowed
    dsimp only [BodyState.afterContent]
    omega
  fits := by
    have bound := sane.fits
    dsimp only [BodyState.afterContent]
    omega
  -- The phase, the trailers and the head are as the caller says.
  counts := counts
  trailers := sane.trailers
  few := sane.few
  untrailed := untrailed
  heading := fun heading => by simp [BodyState.afterContent, body] at heading

/-- Moving on without taking bytes of a body that goes on changes nothing. -/
theorem advance_content (limits : DecoderLimits) {state : BodyState} {remaining : Nat}
    (phase : state.phase = .bodyContentLength remaining) (counts : 0 < remaining) :
    (consumeBody limits 0 state).2 = state := by
  have more : ¬ remaining = 0 := by omega
  have same : ({ state with phase := .bodyContentLength remaining } : BodyState) = state := by
    rw [← phase]
  cases fits : addConsumed limits 0 state with
  | error error => simp [consumeBody, phase, same, fits]
  | ok total =>
    -- Nothing is added to what was consumed.
    have kept : total = state.bodyDecoder.bodyConsumed := by
      unfold addConsumed checkedAdd at fits
      split at fits
      · rename_i found
        split at found <;> cases found
        cases fits
        rfl
      · cases fits
    simp [consumeBody, phase, same, fits, more, kept]

/-- Where less than a number of bytes is shown of a longer body, less is buffered. -/
theorem buffered_of_shown {buf : Bytes} {remaining len : Nat} (counts : 0 < remaining)
    (positive : len ≠ 0) (enough : ¬ remaining < len)
    (long : ∀ data, (if (buf.take remaining).isEmpty then none else some (buf.take remaining)) =
      some data → data.length < len) : buf.length < len := by
  -- Nothing is shown only where nothing is buffered, as some bytes are expected.
  by_cases nothing : (buf.take remaining).isEmpty
  · simp only [List.isEmpty_iff, List.take_eq_nil_iff] at nothing
    have empty : buf = [] := nothing.resolve_left (by omega)
    rw [empty, List.length_nil]
    omega
  · have shown := long _ (if_neg nothing)
    rw [List.length_take] at shown
    omega

/-- Consuming more than is shown, or nothing, is refused, waits, or just moves on. -/
theorem consumeBody_apart (limits : DecoderLimits) {len : Nat} {state : BodyState}
    (counts : state.phase.Counts)
    (apart : len = 0 ∨ ∀ data, state.peekBody = some data → data.length < len) :
    (consumeBody limits len state).2 = state ∨
      state.peekBody = none ∧ consumeBody limits len state = consumeBody limits 0 state := by
  -- In the phases that count, too many bytes are refused or awaited without a change.
  cases phase : state.phase with
  | bodyContentLength remaining =>
    left
    rw [phase] at counts
    change 0 < remaining at counts
    -- No bytes change nothing there, and more are past the end or not yet buffered.
    by_cases empty : len = 0
    · rw [empty]
      exact advance_content limits phase counts
    · have long := apart.resolve_left empty
      simp only [peekBody, phase] at long
      by_cases many : remaining < len
      · simp [consumeBody, phase, many]
      · have short := buffered_of_shown counts empty many long
        simp [consumeBody, phase, many, short]
  | bodyChunkedData remaining =>
    left
    rw [phase] at counts
    change 0 < remaining at counts
    by_cases empty : len = 0
    · simp [consumeBody, phase, empty]
    · have long := apart.resolve_left empty
      simp only [peekBody, phase] at long
      -- The same holds within a chunk.
      by_cases many : remaining < len
      · simp [consumeBody, phase, many]
      · have short := buffered_of_shown counts empty many long
        simp [consumeBody, phase, many, short]
  | bodyCloseDelimited =>
    left
    by_cases empty : len = 0
    · simp [consumeBody, phase, empty]
    · have long := apart.resolve_left empty
      simp only [peekBody, phase] at long
      have short : state.buf.length < len := by
        -- Up to the close everything that is buffered is shown.
        by_cases nothing : state.buf.isEmpty
        · rw [List.isEmpty_iff.mp nothing]
          simp
          omega
        · exact long _ (if_neg nothing)
      simp [consumeBody, phase, short]
  -- In all other phases the number of bytes does not matter.
  | startLine | headers | bodyChunkedSize | bodyChunkedDataCrlf | chunkedTrailer | tunnel
  | complete => exact .inr ⟨by simp [peekBody, phase], by simp [consumeBody, phase]⟩

/-- Every elementary change keeps a body sane. -/
theorem Change.sane {limits : DecoderLimits} {state next : BodyState}
    (changed : Change limits state next) (sane : state.Sane limits) : next.Sane limits := by
  cases changed with
  -- A size line changes what is left of the chunk, if it is accepted.
  | sizeLine phase split =>
    rename_i line rest
    rcases chunkSizeLine_cases limits state line rest with ⟨_, _, read⟩ | ⟨_, read⟩ |
      ⟨size, _, positive, fits, allowed, read⟩ | ⟨_, _, _, _, _, read⟩
    · rw [read]
      exact sane
    · rw [read]
      exact (sane.buf rest).phase rfl trivial rfl (by simp)
    · -- The size of the chunk was added to what is consumed and compared with both bounds.
      rw [read]
      exact ⟨allowed, fits, positive, sane.trailers, sane.few, by simp,
        by simp [DecodePhase.isHeading]⟩
    · rw [read]
      exact sane.buf rest
  -- A trailer line changes the trailers at most.
  | trailerLine phase split =>
    rename_i line rest
    rcases trailerLine_cases limits state line rest with ⟨_, read⟩ | ⟨_, _, _, read⟩ |
      ⟨_, _, _, read⟩ | ⟨_, taken, _, _, _, _, _, _, _, read⟩
    · rw [read]
      exact (sane.buf rest).phase rfl trivial rfl (by simp)
    · rw [read]
      exact sane
    · rw [read]
      exact sane.buf rest
    · -- One more trailer is counted, and there was room for it.
      rw [read]
      obtain ⟨_, room, _⟩ := refusesLine_eq_false.mp taken
      have counted := sane.trailers
      refine ⟨sane.allowed, sane.fits, sane.counts, ?_, room, ?_, ?_⟩
      · simp only [List.length_append, List.length_singleton]
        omega
      · intro remaining other
        rw [show state.phase = _ from other] at phase
        cases phase
      · intro heading
        simp [phase, DecodePhase.isHeading] at heading
  -- The line end behind a chunk moves on to the next size line.
  | lineEnd phase =>
    rcases chunkDataCrlf_cases state with ⟨_, read⟩ | ⟨_, read⟩ | ⟨rest, _, read⟩
    · rw [read]
      exact sane
    · rw [read]
      exact sane
    · rw [read]
      exact (sane.buf rest).phase rfl trivial rfl (by simp)
  | handOver phase =>
    refine ⟨sane.allowed, sane.fits, sane.counts, Nat.zero_le _, sane.few, fun _ _ => rfl, ?_⟩
    intro heading
    simp [takeTrailers, phase, DecodePhase.isHeading] at heading
  -- Bytes that are counted down move from what is left to what was consumed.
  | content phase enough buffered fits =>
    rename_i remaining len
    have untrailed := sane.untrailed remaining phase
    by_cases last : remaining - len = 0
    · rw [if_pos last]
      exact sane.afterContent (by rw [phase]; rfl) enough last.symm trivial rfl (by simp)
    · rw [if_neg last]
      exact sane.afterContent (by rw [phase]; rfl) enough rfl (Nat.pos_of_ne_zero last) rfl
        fun _ _ => untrailed
  | chunk phase enough buffered fits =>
    rename_i remaining len
    by_cases last : remaining - len = 0
    · rw [if_pos last]
      exact sane.afterContent (by rw [phase]; rfl) enough last.symm trivial rfl (by simp)
    · rw [if_neg last]
      exact sane.afterContent (by rw [phase]; rfl) enough rfl (Nat.pos_of_ne_zero last) rfl
        (by simp)
  | lasting phase buffered fits allowed =>
    exact ⟨allowed, fits, trivial, sane.trailers, sane.few, by simp [afterContent],
      by simp [afterContent, DecodePhase.isHeading]⟩
  | overflow counting kind phase enough unfit =>
    -- What is consumed and what is waited for fit together, so this never happens.
    exfalso
    have bounded := sane.fits
    rcases kind with rfl | rfl <;> rw [phase] at bounded <;>
      dsimp only [DecodePhase.remaining] at bounded <;> omega

end BodyState

namespace Core

variable {Head Context : Type}

/-- What holds of a decoder whatever calls were made. -/
structure Sane (core : Core Context) : Prop where
  /-- The body is sane. -/
  body : core.toBodyState.Sane core.limits
  /-- The fields are within their limit. -/
  few : core.headers.length ≤ core.limits.maxHeadersCount
  /-- Only inside a head there is something of one. -/
  idle : core.phase ≠ .headers → core.startLine = none ∧ core.headers = []

/-- A fresh decoder is sane. -/
theorem sane_fresh (limits : DecoderLimits) (context : Context) (buf : Bytes) :
    ({ buf, limits, context } : Core Context).Sane where
  body := ⟨by simp [DecodePhase.remaining], by simp [DecodePhase.remaining], trivial, le_rfl,
    Nat.zero_le _, fun _ _ => rfl, fun _ => rfl⟩
  few := Nat.zero_le _
  idle := fun _ => ⟨rfl, rfl⟩

/-- The next message starts from a sane decoder. -/
theorem sane_nextMessage (side : Side Head Context) (core : Core Context) :
    (core.nextMessage side).Sane :=
  sane_fresh core.limits (side.nextContext core.context) core.buf

/-- What is sane stays so with another buffer. -/
theorem Sane.buf {core : Core Context} (sane : core.Sane) (buf : Bytes) :
    ({ core with buf } : Core Context).Sane :=
  ⟨sane.body.buf buf, sane.few, sane.idle⟩

/-- What is sane stays so with another context. -/
theorem Sane.context {core : Core Context} (sane : core.Sane) (context : Context) :
    ({ core with context } : Core Context).Sane :=
  ⟨sane.body, sane.few, sane.idle⟩

/-- The end of a head leads to a body within its limit. -/
theorem finishHeaders_sane {side : Side Head Context} (lawful : side.Lawful)
    (limited : side.Limited) {core next : Core Context} (sane : core.Sane)
    (heading : core.phase.isHeading = true) {rest : Bytes} {head : Head} {bodyKind : BodyKind}
    (finished : core.finishHeaders side rest = (.ok (head, bodyKind), next)) : next.Sane := by
  obtain ⟨startLine, _, accepted, rfl⟩ := finishHeaders_ok finished
  have empty := sane.body.heading heading
  -- Nothing was consumed of the body yet, so its framing alone decides.
  have framed : (side.bodyPhase bodyKind).remaining ≤ core.limits.maxBodySize ∧
      (side.bodyPhase bodyKind).remaining ≤ usizeMax ∧ (side.bodyPhase bodyKind).Counts ∧
      (side.bodyPhase bodyKind).isHeading = false := by
    cases bodyKind with
    | contentLength length =>
      have allowed := limited accepted
      have fits := lawful.bounded accepted
      rw [lawful.contentLength]
      split
      · rename_i positive
        exact ⟨allowed, fits, positive, rfl⟩
      · exact ⟨Nat.zero_le _, Nat.zero_le _, trivial, rfl⟩
    | chunked =>
      rw [lawful.chunked]
      exact ⟨Nat.zero_le _, Nat.zero_le _, trivial, rfl⟩
    | closeDelimited =>
      rcases lawful.closeDelimited with same | same <;> rw [same] <;>
        exact ⟨Nat.zero_le _, Nat.zero_le _, trivial, rfl⟩
    | none =>
      rw [lawful.none]
      exact ⟨Nat.zero_le _, Nat.zero_le _, trivial, rfl⟩
    | tunnel =>
      rw [lawful.tunnel]
      exact ⟨Nat.zero_le _, Nat.zero_le _, trivial, rfl⟩
  obtain ⟨allowed, fits, counts, body⟩ := framed
  refine ⟨⟨?_, ?_, counts, ?_, ?_, ?_, ?_⟩, Nat.zero_le _, fun _ => ⟨rfl, rfl⟩⟩
  · simpa [empty] using allowed
  · simpa [empty] using fits
  · simp [empty]
  · simp [empty]
  · simp [empty]
  · simp [body]

/-- Every line of a head keeps a decoder sane. -/
theorem headLine_sane {side : Side Head Context} (lawful : side.Lawful) (limited : side.Limited)
    {core : Core Context} (sane : core.Sane) (heading : core.phase.isHeading = true)
    (line rest : Bytes) : (core.headLine side line rest).2.Sane := by
  rcases headLine_cases side core line rest with ⟨_, _, read⟩ | ⟨_, _, read⟩ |
    ⟨_, result, next, read⟩
  · rw [read]
    exact sane
  · rw [read]
    exact sane.buf rest
  · rw [read]
    rcases headLine_ok read with ⟨first, _, started⟩ | ⟨_, _, _, _, _, finished⟩ |
      ⟨later, _, _, listed⟩
    · obtain ⟨_, _, _, rfl⟩ := readStartLine_ok started
      have empty := sane.body.heading heading
      have none := sane.idle (by simp [first])
      refine ⟨⟨?_, ?_, trivial, ?_, ?_, by simp, fun _ => empty⟩, sane.few, by simp⟩
      · simp [empty, DecodePhase.remaining]
      · simp [empty, DecodePhase.remaining]
      · simp [empty]
      · simp [empty]
    · exact finishHeaders_sane lawful limited sane heading finished
    · -- One more field is collected, and there was room for it.
      obtain ⟨_, _, _, _, _, room, rfl⟩ := readHeaderLine_ok listed
      have phase : core.phase = .headers := by
        simpa [DecodePhase.isHeading, later] using heading
      refine ⟨sane.body.buf rest, ?_, fun outside => absurd phase outside⟩
      simp only [List.length_append, List.length_singleton]
      omega

/-- Every elementary change keeps a decoder sane. -/
theorem Change.sane {side : Side Head Context} (lawful : side.Lawful) (limited : side.Limited)
    {core next : Core Context} (sane : core.Sane) (changed : Change side core next) :
    next.Sane := by
  -- A body change, a line of a head and the next message are sane on their own.
  cases changed with
  | body changed =>
    refine ⟨changed.sane sane.body, sane.few, fun _ => sane.idle fun phase => ?_⟩
    -- No change of a body leads back into a head.
    have outside := changed.outside
    rw [phase] at outside
    cases outside
  | headLine heading split => exact headLine_sane lawful limited sane heading _ _
  | next phase => exact sane_nextMessage side core

/-- Any number of changes keeps a decoder sane. -/
theorem Changes.sane {side : Side Head Context} (lawful : side.Lawful) (limited : side.Limited)
    {core next : Core Context} (changes : Changes side core next) (sane : core.Sane) :
    next.Sane :=
  changes.preserves (fun _ _ before changed => changed.sane lawful limited before) sane

/-- Lines of a head keep the limits. -/
theorem headLine_limits (side : Side Head Context) (core : Core Context) (line rest : Bytes) :
    (core.headLine side line rest).2.limits = core.limits := by
  -- A refused line keeps all but the buffer.
  rcases headLine_cases side core line rest with ⟨_, _, read⟩ | ⟨_, _, read⟩ | ⟨_, _, _, read⟩ <;>
    rw [read]
  -- An accepted one is a start line, the end of a head or a field.
  rcases headLine_ok read with ⟨_, _, started⟩ | ⟨_, _, _, _, _, finished⟩ | ⟨_, _, _, listed⟩
  · obtain ⟨_, _, _, rfl⟩ := readStartLine_ok started
    rfl
  · obtain ⟨_, _, _, rfl⟩ := finishHeaders_ok finished
    rfl
  · obtain ⟨_, _, _, _, _, _, rfl⟩ := readHeaderLine_ok listed
    rfl

/-- Every change keeps the limits. -/
theorem Changes.limits {side : Side Head Context} {core next : Core Context}
    (changes : Changes side core next) : next.limits = core.limits := by
  induction changes with
  | refl => rfl
  | tail _ last ih =>
    -- Only a line of a head may touch what lies outside the body.
    cases last with
    | body => exact ih
    | headLine => rw [headLine_limits, ih]
    | next => exact ih

end Core

end Http11

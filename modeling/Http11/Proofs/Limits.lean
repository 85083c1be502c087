import Http11.Proofs.Decoder.Counting
import Http11.Proofs.Isolation

/-! The limits of a decoder hold at every point of a program that uses it. -/

namespace Http11

/-- A phase that follows from changes of a body was outside the head before them. -/
theorem BodyState.Changes.outside {limits : DecoderLimits} {state next : BodyState}
    (changes : Changes limits state next) (outside : next.phase.isHeading = false) :
    state.phase.isHeading = false := by
  -- The first change alone tells, since no change is made inside a head.
  cases changes.cases_head with
  | inl same => rwa [same]
  | inr more =>
    obtain ⟨middle, changed, _⟩ := more
    exact changed.outside

/-- How the buffer of a decoder stands to its limit. -/
structure Decoder.Bounded {Head Context : Type} (limits : DecoderLimits)
    (decoder : Decoder Head Context) : Prop where
  /-- The reserved room is a part of the buffer. -/
  reserved : decoder.pending ≤ decoder.buf.length
  /-- The buffer is within its limit. -/
  buffered : decoder.buf.length ≤ limits.maxBufferSize
  /-- Its length fits the machine word. -/
  fits : decoder.buf.length ≤ usizeMax

/-- What shortens the buffer while nothing is reserved keeps it within its limit. -/
theorem Decoder.Bounded.shortened {Head Context : Type} {limits : DecoderLimits}
    {decoder next : Decoder Head Context} (bounded : decoder.Bounded limits)
    (settled : decoder.pending = 0) (pending : next.pending = decoder.pending)
    (shorter : next.buf.length ≤ decoder.buf.length) : next.Bounded limits where
  reserved := by omega
  buffered := shorter.trans bounded.buffered
  fits := shorter.trans bounded.fits

namespace Api

variable {Head Context Whole : Type} {api : Api Head Context Whole} {collected : BodyKind → Bool}
  {limits : DecoderLimits} {kind : Call Context → Bool} {decoder : Decoder Head Context}

/-- Input changes the buffer, what is reserved in it and what is told, and nothing else. -/
theorem call_input (api : Api Head Context Whole) (decoder : Decoder Head Context)
    {next : Call Context} (input : next.isInput = true) :
    ∃ buf pending context, api.call decoder next = { decoder with buf, pending, context } := by
  cases next with
  | feed data =>
    -- Bytes are refused or stored, and room is refused, given or given again.
    simp only [Api.call, Decoder.feed]
    split
    · exact ⟨_, _, _, rfl⟩
    · split <;> exact ⟨_, _, _, rfl⟩
  | mutBuf len =>
    simp only [Api.call, Decoder.mutBuf]
    split
    · exact ⟨_, _, _, rfl⟩
    · split <;> exact ⟨_, _, _, rfl⟩
  | write | advanceBuf | tell => exact ⟨_, _, _, rfl⟩
  -- The other calls are no input.
  | decodeHeaders | peekBody | consumeBody | progress | decode | markEof => cases input

/-- Input leaves the buffer within its limit, or is refused. -/
theorem bounded_input (api : Api Head Context Whole) (bounded : decoder.Bounded decoder.limits)
    {next : Call Context} (input : next.isInput = true) (admitted : decoder.admits next = true) :
    (api.call decoder next).Bounded decoder.limits := by
  obtain ⟨reserved, buffered, small⟩ := bounded
  cases next with
  | feed data =>
    have settled : decoder.pending = 0 := by simpa [Decoder.admits] using admitted
    simp only [Api.call, Decoder.feed, checkedAdd]
    by_cases fits : decoder.buf.length + data.length ≤ usizeMax
    · simp only [if_pos fits]
      by_cases large : decoder.limits.maxBufferSize < decoder.buf.length + data.length
      · simp only [if_pos large]
        exact ⟨reserved, buffered, small⟩
      · simp only [if_neg large]
        refine ⟨?_, ?_, ?_⟩ <;> simp only [List.length_append] <;> omega
    · simp only [if_neg fits]
      exact ⟨reserved, buffered, small⟩
  | mutBuf len =>
    -- The room that was reserved before is given up first.
    have kept : (decoder.buf.take (decoder.buf.length - decoder.pending)).length =
        decoder.buf.length - decoder.pending := by simp
    simp only [Api.call, Decoder.mutBuf, checkedAdd, kept]
    by_cases fits : decoder.buf.length - decoder.pending + len ≤ usizeMax
    · simp only [if_pos fits]
      by_cases large :
          decoder.limits.maxBufferSize < decoder.buf.length - decoder.pending + len
      · simp only [if_pos large]
        refine ⟨?_, ?_, ?_⟩ <;> dsimp only <;> rw [kept] <;> omega
      · simp only [if_neg large]
        refine ⟨?_, ?_, ?_⟩ <;>
          simp only [List.length_append, List.length_replicate, kept] <;> omega
    · simp only [if_neg fits]
      refine ⟨?_, ?_, ?_⟩ <;> dsimp only <;> rw [kept] <;> omega
  | write data =>
    -- What is written replaces as many bytes of the room.
    have short : data.length ≤ decoder.pending := by simpa [Decoder.admits] using admitted
    have same : (decoder.writePending data).buf.length = decoder.buf.length := by
      simp only [Decoder.writePending, List.length_append, List.length_take, List.length_drop]
      omega
    refine ⟨?_, ?_, ?_⟩ <;> simp only [Api.call, same]
    · exact reserved
    · exact buffered
    · exact small
  | advanceBuf len =>
    refine ⟨Nat.zero_le _, ?_, ?_⟩ <;>
      simp only [Api.call, Decoder.advanceBuf, List.length_take] <;> omega
  | tell context => exact ⟨reserved, buffered, small⟩
  | decodeHeaders | peekBody | consumeBody | progress | decode | markEof => cases input

/-- A call that gives no input keeps the buffer within its limit. -/
theorem Lawful.bounded_output (lawful : api.Lawful collected) (holds : Holds collected decoder)
    (bounded : decoder.Bounded limits) {next : Call Context} (output : next.isInput = false)
    (admitted : decoder.admits next = true) : (api.call decoder next).Bounded limits := by
  have settled : decoder.pending = 0 := by
    cases next with
    | feed | mutBuf | write | advanceBuf | tell => cases output
    | decodeHeaders | peekBody | consumeBody | progress | decode | markEof =>
      simpa [Decoder.admits] using admitted
  cases next with
  | feed | mutBuf | write | advanceBuf | tell => cases output
  | decodeHeaders =>
    exact bounded.shortened settled rfl
      (Core.decodeHeaders_changes api.side decoder.toCore).shortens
  | peekBody => exact bounded
  | consumeBody len =>
    refine bounded.shortened settled ?_
      ((Decoder.consumeBody_moves decoder len).changes api.side).shortens
    simp only [Api.call]
    rw [Decoder.consumeBody_frame decoder len]
  | progress =>
    exact bounded.shortened settled rfl
      ((Decoder.progress_moves decoder).changes api.side).shortens
  | decode =>
    have decodes := lawful.decodes holds.collects
    unfold Decoder.Decodes at decodes
    simp only [Api.call]
    split at decodes
    · -- The buffer of a message that is handed over is what is left behind it.
      obtain ⟨last, changes, _, pending, same⟩ := decodes
      rw [same]
      exact bounded.shortened settled pending changes.shortens
    · exact bounded.shortened settled decodes.2.2 decodes.1.shortens
  | markEof =>
    simp only [Api.call]
    rcases lawful.markEof decoder with same | ⟨_, same⟩ <;> rw [same]
    · exact bounded
    · exact bounded.shortened settled rfl le_rfl

/-- Whatever calls a program makes, the buffer stays within its limit. -/
theorem Lawful.bounded (lawful : api.Lawful collected)
    (reachable : api.Reachable limits kind decoder) : decoder.Bounded limits := by
  induction reachable with
  | fresh => exact ⟨Nat.zero_le _, Nat.zero_le _, Nat.zero_le _⟩
  | @call decoder next before _ admitted bounded =>
    -- Input was admitted because there was room, and all other calls only take from the buffer.
    cases input : next.isInput with
    | true =>
      have same := lawful.limits_kept before
      rw [← same] at bounded ⊢
      exact bounded_input api bounded input admitted
    | false => exact lawful.bounded_output (lawful.reachable before) bounded input admitted

end Api

namespace Watch

variable {Head Context Whole : Type} {api : Api Head Context Whole} {collected : BodyKind → Bool}
  {size : Whole → Nat} {limits : DecoderLimits} {kind : Call Context → Bool}
  {watch : Watch Head Context}

/-- Every limit holds, and what was consumed is what was declared and delivered. -/
structure Within (limits : DecoderLimits) (watch : Watch Head Context) : Prop where
  /-- The buffer is within its limit, which the machine word holds, and so is what is reserved. -/
  buffer : watch.decoder.Bounded limits
  /-- The fields are within their limit. -/
  fields : watch.decoder.headers.length ≤ limits.maxHeadersCount
  /-- Every trailer that waits to be handed over was counted. -/
  trailers : watch.decoder.bodyDecoder.trailers.length ≤ watch.decoder.bodyDecoder.trailerCount
  /-- The trailers that were accepted are within the limit of fields. -/
  few : watch.decoder.bodyDecoder.trailerCount ≤ limits.maxHeadersCount
  /-- What was consumed and what is waited for are within the limit of bodies. -/
  body : watch.decoder.bodyDecoder.bodyConsumed + watch.decoder.phase.remaining ≤
    limits.maxBodySize
  /-- Their sum fits the machine word. -/
  fits : watch.decoder.bodyDecoder.bodyConsumed + watch.decoder.phase.remaining ≤ usizeMax
  /-- In a body of known length, they add up to the length that was declared. -/
  declared : watch.decoder.toCore.Declared watch.framing
  /-- What was delivered of one message is within the limit of bodies. -/
  delivered : watch.delivered ≤ limits.maxBodySize

/-- The decoder that is watched is one that the same calls lead to. -/
theorem Reachable.decoder (reachable : Reachable api size limits kind watch) :
    api.Reachable limits kind watch.decoder := by
  induction reachable with
  | fresh => exact .fresh
  | call next _ allowed admitted ih => exact ih.call next allowed admitted

/-- Input changes nothing that is watched but the input that waits and what is told. -/
theorem call_input (api : Api Head Context Whole) (size : Whole → Nat)
    (watch : Watch Head Context) {next : Call Context} (input : next.isInput = true) :
    ∃ buf pending context, watch.call api size next =
      { watch with decoder := { watch.decoder with buf, pending, context } } := by
  obtain ⟨buf, pending, context, kept⟩ := Api.call_input api watch.decoder input
  refine ⟨buf, pending, context, ?_⟩
  cases next with
  | feed | mutBuf | write | advanceBuf | tell => simp only [call, kept]
  | decodeHeaders | peekBody | consumeBody | progress | decode | markEof => cases input

/-- What the counters alone say together with the length and the delivery. -/
theorem Reachable.within (lawful : api.Lawful collected)
    (reachable : Reachable api size limits kind watch)
    (declared : watch.decoder.toCore.Declared watch.framing)
    (delivered : watch.delivered ≤ limits.maxBodySize) : watch.Within limits := by
  have reached := reachable.decoder
  obtain ⟨sane, _⟩ := lawful.reachable reached
  have same := lawful.limits_kept reached
  have few := sane.few
  obtain ⟨allowed, fits, _, counted, listed, _, _⟩ := sane.body
  rw [same] at allowed few listed
  exact ⟨lawful.bounded reached, few, counted, listed, allowed, fits, declared, delivered⟩

/-- What holds where messages are read piece by piece. -/
structure Streams (limits : DecoderLimits) (watch : Watch Head Context) : Prop where
  /-- The last head declares the length of a body of known length. -/
  declared : watch.decoder.toCore.Declared watch.framing
  /-- What was delivered is within the limit of bodies. -/
  delivered : watch.delivered ≤ limits.maxBodySize
  /-- What was delivered of the body that is read was counted. -/
  counted : watch.decoder.phase.isHeading = false →
    watch.delivered ≤ watch.decoder.bodyDecoder.bodyConsumed

/-- Reading a head keeps what holds, and starts to count when the head is there. -/
theorem Streams.decodeHeaders (lawful : api.Lawful collected)
    (holds : Api.Holds collected watch.decoder) (streams : watch.Streams limits) :
    (watch.call api size .decodeHeaders).Streams limits := by
  obtain ⟨declared, delivered, counted⟩ := streams
  simp only [call, Api.call, Decoder.onCore]
  by_cases entered : watch.decoder.phase.isHeading = true ∨ watch.decoder.phase = .complete
  · obtain ⟨_, _, phase⟩ := Core.decodeHeaders_keeps api.side watch.decoder.toCore
      (if watch.decoder.phase = .complete then api.side.nextContext watch.decoder.context
        else watch.decoder.context) (by
        by_cases complete : watch.decoder.phase = .complete
        · exact .inr ⟨complete, (if_pos complete).symm⟩
        · exact .inl ⟨entered.resolve_right complete, (if_neg complete).symm⟩)
    rcases read : watch.decoder.toCore.decodeHeaders api.side with
      ⟨_ | _ | ⟨head, bodyKind⟩, core⟩ <;> rw [read] at phase <;> dsimp only at phase ⊢
    · refine ⟨fun _ other => ?_, delivered, fun other => ?_⟩
      · rw [other] at phase
        cases phase
      · rw [phase] at other
        cases other
    · refine ⟨fun _ other => ?_, delivered, fun other => ?_⟩
      · rw [other] at phase
        cases phase
      · rw [phase] at other
        cases other
    · have fresh := Core.decodeHeaders_unconsumed lawful.side lawful.limited holds.sane read
      exact ⟨Core.declared_headed lawful.side phase.1 fresh, Nat.zero_le _, fun _ => Nat.zero_le _⟩
  · -- During a body no head is read, and nothing changes.
    rw [not_or, Bool.not_eq_true] at entered
    obtain ⟨error, refused⟩ := Core.decodeHeaders_refused api.side entered.1 entered.2
    rw [refused]
    exact ⟨declared, delivered, counted⟩

/-- Consuming delivers what it counts. -/
theorem Streams.consumeBody (lawful : api.Lawful collected)
    (holds : Api.Holds collected watch.decoder) (same : watch.decoder.limits = limits)
    (streams : watch.Streams limits) (len : Nat) :
    (watch.call api size (.consumeBody len)).Streams limits := by
  obtain ⟨declared, delivered, counted⟩ := streams
  have moves := Decoder.consumeBody_moves watch.decoder len
  have later := (moves.changes api.side).sane lawful.side lawful.limited holds.sane
  have bound := (moves.changes api.side).limits
  simp only [call, Api.call]
  -- Either nothing changed, or the bytes that left the buffer were counted.
  have counts : (watch.decoder.consumeBody len).2 = watch.decoder ∨
      (watch.decoder.toBodyState.shown = 0 ∧
        (watch.decoder.consumeBody len).2.bodyDecoder.bodyConsumed =
          watch.decoder.bodyDecoder.bodyConsumed) ∨
      (len ≤ watch.decoder.toBodyState.shown ∧
        (watch.decoder.consumeBody len).2.bodyDecoder.bodyConsumed =
          watch.decoder.bodyDecoder.bodyConsumed + len) := by
    by_cases empty : len = 0
    · exact .inl (by rw [Decoder.consumeBody, if_pos empty])
    · rw [Decoder.consumeBody_eq _ (Nat.pos_of_ne_zero empty)]
      refine (BodyState.consumeBody_counts holds.sane.body len).imp_left fun unchanged => ?_
      rw [unchanged]
  have advanced := declared.moves holds.sane moves
  have shown : (watch.decoder.peekBody.getD []).length = watch.decoder.toBodyState.shown := rfl
  obtain ⟨state, changes, moved⟩ := moves
  rcases counts with unchanged | more
  · rw [unchanged, if_pos rfl]
    exact ⟨declared, delivered, counted⟩
  · have allowed := later.body.allowed
    rw [bound, same] at allowed
    rw [shown]
    -- What is delivered grows by no more than what is counted.
    have grown : (watch.decoder.phase.isHeading = false) →
        (if (watch.decoder.consumeBody len).2.buf = watch.decoder.buf then watch.delivered
          else watch.delivered + min len watch.decoder.toBodyState.shown) ≤
        (watch.decoder.consumeBody len).2.bodyDecoder.bodyConsumed := by
      intro outside
      have before := counted outside
      split <;> omega
    by_cases outside : watch.decoder.phase.isHeading = false
    · have grew := grown outside
      exact ⟨advanced, grew.trans (by omega), fun _ => grew⟩
    · -- Inside a head nothing is shown.
      have hidden : watch.decoder.toBodyState.shown = 0 := by
        simp only [Bool.not_eq_false] at outside
        simp only [BodyState.shown, BodyState.peekBody]
        split <;> first | rfl | (rename_i phase; rw [phase] at outside; cases outside)
      refine ⟨advanced, ?_, fun other => ?_⟩
      · rw [hidden, Nat.min_zero, Nat.add_zero, ite_self]
        exact delivered
      · refine absurd (changes.outside ?_) outside
        rw [moved] at other
        exact other

/-- Every call keeps what holds where messages are read piece by piece. -/
theorem Streams.call (lawful : api.Lawful collected) (holds : Api.Holds collected watch.decoder)
    (same : watch.decoder.limits = limits) (streams : watch.Streams limits) {next : Call Context}
    (streaming : next.isStreaming = true) : (watch.call api size next).Streams limits := by
  have ⟨declared, delivered, counted⟩ := streams
  -- Input touches neither the counters nor the framing.
  by_cases input : next.isInput = true
  · obtain ⟨_, _, _, kept⟩ := call_input api size watch input
    rw [kept]
    exact ⟨declared, delivered, counted⟩
  cases next with
  | feed | mutBuf | write | advanceBuf | tell => exact absurd rfl input
  | decodeHeaders => exact streams.decodeHeaders lawful holds
  | peekBody => exact streams
  | consumeBody len => exact streams.consumeBody lawful holds same len
  -- Moving on counts nothing and may only leave the phases in which bytes are declared.
  | progress =>
    have moves := Decoder.progress_moves watch.decoder
    refine ⟨declared.moves holds.sane moves, delivered, fun outside => ?_⟩
    have unread := BodyState.advance_consumed watch.decoder.limits holds.sane.body.counts
    obtain ⟨state, changes, moved⟩ := moves
    change watch.decoder.progress.2.phase.isHeading = false at outside
    rw [show watch.decoder.progress.2.phase = state.phase from congrArg (·.phase) moved] at outside
    exact (counted (changes.outside outside)).trans (Nat.le_of_eq unread.symm)
  | decode => cases streaming
  | markEof =>
    simp only [Watch.call, Api.call]
    -- The connection ends only a body that lasts up to its close, which declares nothing.
    rcases lawful.markEof watch.decoder with kept | ⟨phase, kept⟩ <;> rw [kept]
    · exact streams
    · exact ⟨fun _ other => (by cases other), delivered, fun _ => counted (by rw [phase]; rfl)⟩

/-- Where messages are read piece by piece, every limit holds. -/
theorem within_streaming (lawful : api.Lawful collected)
    (reachable : Reachable api size limits Call.isStreaming watch) : watch.Within limits := by
  have streams : watch.Streams limits := by
    -- The induction is on the calls, each of which reads piece by piece.
    induction reachable with
    | fresh => exact ⟨fun _ other => (by cases other), Nat.zero_le _, fun other => (by cases other)⟩
    | call next before streaming _ ih =>
      have reached := before.decoder
      exact ih.call lawful (lawful.reachable reached) (lawful.limits_kept reached) streaming
  exact reachable.within lawful streams.declared streams.delivered

/-- What holds where whole messages are asked for. -/
structure Collects (limits : DecoderLimits) (watch : Watch Head Context) : Prop where
  /-- What is collected is what was consumed. -/
  gathers : watch.decoder.Gathers
  /-- The framing is that of the head that is collected. -/
  framed : ∀ head bodyKind, watch.decoder.decoded = some (head, bodyKind) →
    watch.framing = some bodyKind
  /-- What was delivered is within the limit of bodies. -/
  delivered : watch.delivered ≤ limits.maxBodySize

/-- Every call keeps what holds where whole messages are asked for. -/
theorem Collects.call (lawful : api.Lawful collected)
    (measured : ∀ decoder : Decoder Head Context, decoder.toCore.Sane → decoder.Gathers →
      Decoder.Measured size decoder (api.decode decoder))
    (holds : Api.Holds collected watch.decoder) (same : watch.decoder.limits = limits)
    (collects : watch.Collects limits) {next : Call Context} (whole : next.isWhole = true) :
    (watch.call api size next).Collects limits := by
  have ⟨gathers, framed, delivered⟩ := collects
  -- Input touches neither the body collected nor the framing.
  by_cases input : next.isInput = true
  · obtain ⟨_, _, _, kept⟩ := call_input api size watch input
    rw [kept]
    exact ⟨⟨gathers.idle, gathers.counted, gathers.lasting, gathers.framed, gathers.declared⟩,
      framed, delivered⟩
  cases next with
  | feed | mutBuf | write | advanceBuf | tell => exact absurd rfl input
  | decodeHeaders | peekBody | consumeBody | progress => cases whole
  | decode =>
    obtain ⟨later, sized⟩ := measured watch.decoder holds.sane gathers
    -- The call is refused, waits, or hands a message over, which has been measured.
    rcases outcome : api.decode watch.decoder with ⟨_ | _ | message, decoder⟩ <;>
      rw [outcome] at later sized <;>
      refine ⟨by simp only [Watch.call, Api.call, outcome]; exact later, ?_, ?_⟩ <;>
      simp only [Watch.call, Api.call, outcome]
    · intro head bodyKind found
      rw [found]
    · exact delivered
    · intro head bodyKind found
      -- While it waits, the framing is that of the head that was decoded.
      rw [found]
    · exact delivered
    · intro head bodyKind found
      rw [found]
    · rw [← same]
      exact sized message rfl
  | markEof =>
    simp only [Watch.call, Api.call]
    -- The connection ends only a body that lasts up to its close.
    rcases lawful.markEof watch.decoder with kept | ⟨phase, kept⟩ <;> rw [kept]
    · exact collects
    · refine ⟨⟨fun undecoded => ?_, gathers.counted, fun _ _ => .inr rfl, fun _ _ _ _ => by simp,
        fun _ _ _ _ other => (by cases other)⟩, framed, delivered⟩
      -- Such a body has a head that was decoded.
      have heading := gathers.idle undecoded
      rw [phase] at heading
      cases heading

/-- Where whole messages are asked for, what is collected is what was consumed. -/
theorem Reachable.collects (lawful : api.Lawful collected)
    (measured : ∀ decoder : Decoder Head Context, decoder.toCore.Sane → decoder.Gathers →
      Decoder.Measured size decoder (api.decode decoder))
    (reachable : Reachable api size limits Call.isWhole watch) : watch.Collects limits := by
  -- The induction is on the calls, each of which asks for a whole message.
  induction reachable with
  | fresh =>
    exact ⟨Decoder.gathers_fresh rfl rfl rfl rfl, fun _ _ found => (by cases found),
      Nat.zero_le _⟩
  | call next before whole _ ih =>
    have reached := before.decoder
    exact ih.call lawful measured (lawful.reachable reached) (lawful.limits_kept reached) whole

/-- Whatever calls are made, they can be watched. -/
theorem watched (api : Api Head Context Whole) (size : Whole → Nat)
    {decoder : Decoder Head Context} (reachable : api.Reachable limits kind decoder) :
    ∃ watch, Reachable api size limits kind watch ∧ watch.decoder = decoder := by
  induction reachable with
  | fresh => exact ⟨_, .fresh, rfl⟩
  | call next _ allowed admitted ih =>
    obtain ⟨watch, before, same⟩ := ih
    rw [← same] at admitted ⊢
    exact ⟨_, before.call next allowed admitted, rfl⟩

/-- Where whole messages are asked for, every limit holds. -/
theorem within_whole (lawful : api.Lawful collected)
    (measured : ∀ decoder : Decoder Head Context, decoder.toCore.Sane → decoder.Gathers →
      Decoder.Measured size decoder (api.decode decoder))
    (reachable : Reachable api size limits Call.isWhole watch) : watch.Within limits := by
  have collects := reachable.collects lawful measured
  refine reachable.within lawful ?_ collects.delivered
  -- Between messages a head is read, and otherwise the head that is collected declares the length.
  cases found : watch.decoder.decoded with
  | none =>
    intro _ other
    have heading := collects.gathers.idle found
    rw [other] at heading
    cases heading
  | some decoded =>
    obtain ⟨head, bodyKind⟩ := decoded
    rw [collects.framed head bodyKind found]
    exact collects.gathers.declared head bodyKind found

/-- Whatever a program does with one of the decoders, its limits hold at every point. -/
theorem within_limits (limits : DecoderLimits) :
    (∀ watch, Reachable RequestDecoder.api RequestDecoder.size limits Call.isWhole watch →
      watch.Within limits) ∧
    (∀ watch, Reachable RequestDecoder.api RequestDecoder.size limits Call.isStreaming watch →
      watch.Within limits) ∧
    (∀ watch, Reachable ResponseDecoder.api ResponseDecoder.size limits Call.isWhole watch →
      watch.Within limits) ∧
    (∀ watch, Reachable ResponseDecoder.api ResponseDecoder.size limits Call.isStreaming watch →
      watch.Within limits) := by
  refine ⟨fun _ reachable => ?_, fun _ reachable => ?_, fun _ reachable => ?_,
    fun _ reachable => ?_⟩
  · exact within_whole Api.request_lawful (fun _ => RequestDecoder.decode_measured) reachable
  · exact within_streaming Api.request_lawful reachable
  · exact within_whole Api.response_lawful (fun _ => ResponseDecoder.decode_measured) reachable
  · exact within_streaming Api.response_lawful reachable

/-- A request that is read piece by piece, and a response in chunks that is asked for as a whole. -/
theorem within_limits_reached :
    let limits : DecoderLimits := { maxBufferSize := 64, maxBodySize := 3 }
    let sent := Utf8.encode "POST / HTTP/1.1\r\nHost: a\r\nContent-Length: 3\r\n\r\nab".toList
    let answer := Utf8.encode
      "HTTP/1.1 200 OK\r\nTransfer-Encoding: chunked\r\n\r\n2\r\nabc".toList
    let posted := ([.feed sent, .decodeHeaders, .consumeBody 2] : List (Call Unit)).foldl
      (call RequestDecoder.api RequestDecoder.size) { decoder := RequestDecoder.api.fresh limits }
    let answered := ([.feed answer, .decode] : List (Call (Option Str))).foldl
      (call ResponseDecoder.api ResponseDecoder.size)
      { decoder := ResponseDecoder.api.fresh limits }
    posted.Within limits ∧ posted.framing = some (.contentLength 3) ∧ posted.delivered = 2 ∧
      answered.Within limits ∧ answered.decoder.decodedBody.length = 2 := by
  intro limits sent answer posted answered
  have fed : Reachable RequestDecoder.api RequestDecoder.size limits Call.isStreaming
      (call RequestDecoder.api RequestDecoder.size
        { decoder := RequestDecoder.api.fresh limits } (.feed sent)) := .call _ .fresh rfl rfl
  have headed := fed.call .decodeHeaders rfl (by decide)
  have streamed := headed.call (.consumeBody 2) rfl (by decide +kernel)
  have asked : Reachable ResponseDecoder.api ResponseDecoder.size limits Call.isWhole
      (call ResponseDecoder.api ResponseDecoder.size
        { decoder := ResponseDecoder.api.fresh limits } (.feed answer)) := .call _ .fresh rfl rfl
  have gathered := asked.call .decode rfl (by decide)
  have framing : posted.framing = some (.contentLength 3) := by decide +kernel
  have delivered : posted.delivered = 2 := by decide +kernel
  have collected : answered.decoder.decodedBody.length = 2 := by decide +kernel
  exact ⟨(within_limits limits).2.1 _ streamed, framing, delivered,
    (within_limits limits).2.2.1 _ gathered, collected⟩

end Watch

end Http11

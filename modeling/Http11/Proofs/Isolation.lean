import Http11.Proofs.Decoder.Collecting

/-! Messages on one connection do not influence each other. -/

namespace Http11

namespace Api

variable {Head Context Whole : Type} {api : Api Head Context Whole} {collected : BodyKind → Bool}
  {limits : DecoderLimits} {kind : Call Context → Bool} {decoder : Decoder Head Context}

/-- Every call keeps the limits. -/
theorem Lawful.call_limits (lawful : api.Lawful collected) (holds : Holds collected decoder)
    (next : Call Context) : (api.call decoder next).limits = decoder.limits := by
  cases next with
  | feed data =>
    -- Bytes are refused or stored, and the limits are no part of that.
    simp only [Api.call, Decoder.feed]
    split
    · rfl
    · split <;> rfl
  | mutBuf len =>
    simp only [Api.call, Decoder.mutBuf]
    split
    · rfl
    · split <;> rfl
  | write | advanceBuf | tell | peekBody => rfl
  | decodeHeaders => exact (Core.decodeHeaders_changes api.side decoder.toCore).limits
  | consumeBody len => exact ((Decoder.consumeBody_moves decoder len).changes api.side).limits
  | progress => exact ((Decoder.progress_moves decoder).changes api.side).limits
  | decode =>
    have decodes := lawful.decodes holds.collects
    unfold Decoder.Decodes at decodes
    simp only [Api.call]
    -- A message is handed over by the step behind it, or there are only changes of its body.
    split at decodes
    · obtain ⟨last, changes, _, _, same⟩ := decodes
      rw [same]
      exact changes.limits
    · exact decodes.1.limits
  | markEof =>
    simp only [Api.call]
    -- The end of the connection touches the phase only.
    rcases lawful.markEof decoder with same | ⟨_, same⟩ <;> rw [same]

/-- The limits of a decoder are those it was made with. -/
theorem Lawful.limits_kept (lawful : api.Lawful collected)
    (reachable : api.Reachable limits kind decoder) : decoder.limits = limits := by
  induction reachable with
  | fresh => rfl
  | call next before _ _ ih =>
    rw [lawful.call_limits (lawful.reachable before) next, ih]

/-- Where messages are read piece by piece, nothing is collected. -/
theorem Lawful.streaming (lawful : api.Lawful collected)
    (reachable : api.Reachable limits Call.isStreaming decoder) :
    decoder.decoded = none ∧ decoder.decodedBody = [] := by
  -- The induction is on the calls, none of which asks for a whole message.
  induction reachable with
  | fresh => exact ⟨rfl, rfl⟩
  | @call decoder next before streaming _ ih =>
    cases next with
    | feed data =>
      simp only [Api.call, Decoder.feed]
      split
      · exact ih
      · split <;> exact ih
    | mutBuf len =>
      simp only [Api.call, Decoder.mutBuf]
      split
      · exact ih
      · split <;> exact ih
    | write | advanceBuf | tell | decodeHeaders | peekBody | progress => exact ih
    | consumeBody len =>
      simp only [Api.call]
      rw [Decoder.consumeBody_frame decoder len]
      exact ih
    | decode => cases streaming
    | markEof =>
      simp only [Api.call]
      rcases lawful.markEof decoder with same | ⟨_, same⟩ <;> rw [same] <;> exact ih

/-- A decoder that has handed out a message is a fresh one with what is left in its buffer. -/
theorem Lawful.decode_fresh (lawful : api.Lawful collected)
    (reachable : api.Reachable limits kind decoder) (settled : decoder.admits .decode = true)
    {message : Whole} {next : Decoder Head Context}
    (decoded : api.decode decoder = (.ok (some message), next)) :
    next = { api.fresh limits with buf := next.buf } := by
  have holds := lawful.reachable reachable
  have decodes := lawful.decodes holds.collects
  rw [decoded] at decodes
  obtain ⟨last, changes, phase, pending, same⟩ := decodes
  dsimp only at same
  -- Nothing of a head is left over, and everything else was cleared or is kept empty.
  have sane := changes.sane lawful.side lawful.limited holds.sane
  have core := sane_finished api.side sane phase
  have bounds : last.limits = limits := changes.limits.trans (lawful.limits_kept reachable)
  have empty : last.pending = 0 := pending.trans (by simpa [Decoder.admits] using settled)
  have whole : next.toCore = ({ api.fresh limits with buf := next.buf } :
      Decoder Head Context).toCore := by
    rw [same, core]
    simp [Core.nextMessage, fresh, lawful.next, bounds]
  subst same
  simp only [Decoder.finished] at whole ⊢
  rw [whole, empty]
  rfl

/-- Behind a complete message a head is read as by a fresh decoder. -/
theorem Lawful.decodeHeaders_fresh (lawful : api.Lawful collected)
    (reachable : api.Reachable limits Call.isStreaming decoder)
    (settled : decoder.admits .decodeHeaders = true) (complete : decoder.phase = .complete) :
    decoder.onCore (Core.decodeHeaders api.side) =
      ({ api.fresh limits with buf := decoder.buf } : Decoder Head Context).onCore
        (Core.decodeHeaders api.side) := by
  have bounds := lawful.limits_kept reachable
  obtain ⟨undecoded, nothing⟩ := lawful.streaming reachable
  have empty : decoder.pending = 0 := by simpa [Decoder.admits] using settled
  -- The next message starts with everything cleared, as a fresh decoder does.
  have cleared : decoder.toCore.nextMessage api.side =
      { api.fresh limits with buf := decoder.buf }.toCore := by
    simp [Core.nextMessage, fresh, lawful.next, bounds]
  have same : decoder.toCore.decodeHeaders api.side =
      { api.fresh limits with buf := decoder.buf }.toCore.decodeHeaders api.side := by
    rw [← cleared]
    exact Core.decodeHeaders_complete api.side complete
  simp only [Decoder.onCore, same, undecoded, nothing, empty]
  rfl

end Api

/-- Once a message has ended, a decoder is as good as a fresh one with the rest of the input. -/
theorem isolated (limits : DecoderLimits) :
    (∀ decoder message next, RequestDecoder.api.Reachable limits Call.isWhole decoder →
      decoder.admits .decode = true → RequestDecoder.decode decoder = (.ok (some message), next) →
        next = { RequestDecoder.withLimits limits with buf := next.buf }) ∧
    (∀ decoder, RequestDecoder.api.Reachable limits Call.isStreaming decoder →
      decoder.admits .decodeHeaders = true → decoder.phase = .complete →
        RequestDecoder.decodeHeaders decoder = RequestDecoder.decodeHeaders
          { RequestDecoder.withLimits limits with buf := decoder.buf }) ∧
    (∀ decoder message next, ResponseDecoder.api.Reachable limits Call.isWhole decoder →
      decoder.admits .decode = true → ResponseDecoder.decode decoder = (.ok (some message), next) →
        next = { ResponseDecoder.withLimits limits with buf := next.buf }) ∧
    (∀ decoder, ResponseDecoder.api.Reachable limits Call.isStreaming decoder →
      decoder.admits .decodeHeaders = true → decoder.phase = .complete →
        ResponseDecoder.decodeHeaders decoder = ResponseDecoder.decodeHeaders
          { ResponseDecoder.withLimits limits with buf := decoder.buf }) := by
  refine ⟨fun decoder message next reachable settled decoded => ?_,
    fun decoder reachable settled complete => ?_,
    fun decoder message next reachable settled decoded => ?_,
    fun decoder reachable settled complete => ?_⟩
  · -- Both ways of reading, for requests and then for responses.
    exact Api.request_lawful.decode_fresh reachable settled decoded
  · exact Api.request_lawful.decodeHeaders_fresh reachable settled complete
  · exact Api.response_lawful.decode_fresh reachable settled decoded
  · exact Api.response_lawful.decodeHeaders_fresh reachable settled complete

/-- Behind a request that is handed out or read piece by piece, the next one is read afresh. -/
theorem isolated_pipelined :
    let wire := Utf8.encode "GET / HTTP/1.1\r\nHost: a\r\n\r\n".toList
    let decoder := RequestDecoder.api.call (RequestDecoder.withLimits {}) (.feed (wire ++ wire))
    let headed := RequestDecoder.api.call decoder .decodeHeaders
    (RequestDecoder.decode decoder).2 =
        { RequestDecoder.withLimits {} with buf := (RequestDecoder.decode decoder).2.buf } ∧
      RequestDecoder.decodeHeaders headed =
        RequestDecoder.decodeHeaders { RequestDecoder.withLimits {} with buf := headed.buf } ∧
      (RequestDecoder.decode decoder).2.buf = wire ∧ headed.buf = wire := by
  intro wire decoder headed
  have request : (RequestDecoder.decode decoder).1 = .ok (some ⟨"GET".toList, "/".toList, http11,
      [("Host".toList, "a".toList)], none⟩) := by decide +kernel
  have complete : headed.phase = .complete := by decide +kernel
  have settled : headed.admits .decodeHeaders = true := by decide +kernel
  have rest : (RequestDecoder.decode decoder).2.buf = wire ∧ headed.buf = wire := by decide +kernel
  have whole : RequestDecoder.api.Reachable {} Call.isWhole decoder := .call _ .fresh rfl rfl
  have fed : RequestDecoder.api.Reachable {} Call.isStreaming decoder := .call _ .fresh rfl rfl
  have streamed : RequestDecoder.api.Reachable {} Call.isStreaming headed := .call _ fed rfl rfl
  have ready : decoder.admits .decode = true := rfl
  clear_value headed decoder
  have outcome : RequestDecoder.decode decoder = (_, (RequestDecoder.decode decoder).2) :=
    Prod.ext request rfl
  exact ⟨(isolated {}).1 decoder _ _ whole ready outcome,
    (isolated {}).2.1 headed streamed settled complete, rest⟩

end Http11

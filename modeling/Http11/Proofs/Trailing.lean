import Http11.Proofs.Decoder.Collecting
import Http11.Proofs.Decoder.Trailers

/-! Trailers are reported once and as they stand, as long as no refused line is skipped. -/

namespace Http11

namespace Delivery

variable {Head Context Whole : Type} {api : Api Head Context Whole} {collected : BodyKind → Bool}
  {delivery : Delivery Head Context}

/-- How far a decoder is with a message in chunks. -/
inductive Stage (limits : DecoderLimits) (headers : Headers) (delivery : Delivery Head Context) :
    Prop where
  /-- It reads the message. -/
  | reading (incomplete : delivery.decoder.phase ≠ .complete) (unreported : delivery.reported = none)
    (delivered : Bytes)
    (stands : delivery.decoder.toBodyState.Stands limits headers delivery.taken delivered)
  /-- It has reported the message. -/
  | done (complete : delivery.decoder.phase = .complete)
    (given : delivery.decoder.bodyDecoder.trailers = []) (reported : delivery.reported ≠ none)
  /-- It has lost a line of the message. -/
  | lost (skipped : BodyState.Skipped limits headers delivery.taken)

/-- What holds of the message whose head was handed out last. -/
structure Sound (api : Api Head Context Whole) (collected : BodyKind → Bool)
    (delivery : Delivery Head Context) : Prop where
  /-- What holds after any calls. -/
  holds : Api.Holds collected delivery.decoder
  /-- The trailers of a message in chunks are reported as they stand. -/
  reports : delivery.Reports api.side
  /-- Until the next head is read, the decoder is somewhere in the message. -/
  stage : ∀ head, delivery.current = some (head, .chunked) →
    delivery.decoder.phase.isHeading = false →
      delivery.Stage delivery.decoder.limits (api.side.headersOf head)

/-- Calls that touch neither the limits nor the state of a body besides its buffer keep it all. -/
theorem Sound.keep (sound : delivery.Sound api collected) {decoder : Decoder Head Context}
    (holds : Api.Holds collected decoder) (limits : decoder.limits = delivery.decoder.limits)
    (phase : decoder.phase = delivery.decoder.phase)
    (body : decoder.bodyDecoder = delivery.decoder.bodyDecoder) :
    Sound api collected { delivery with decoder } := by
  refine ⟨holds, ?_, fun head current outside => ?_⟩
  · intro head fields current reported
    rw [show ({ delivery with decoder } : Delivery Head Context).decoder.limits = _ from limits]
    exact sound.reports head fields current reported
  · rw [show ({ delivery with decoder } : Delivery Head Context).decoder.phase = _ from phase]
      at outside
    rw [show ({ delivery with decoder } : Delivery Head Context).decoder.limits = _ from limits]
    -- Each stage speaks of the phase, the counters and what was taken only.
    cases sound.stage head current outside with
    | reading incomplete unreported delivered stands =>
      exact .reading (by rwa [show decoder.phase = _ from phase]) unreported delivered
        (stands.buf phase body)
    | done complete given reported =>
      exact .done (phase.trans complete) (by rw [body]; exact given) reported
    | lost skipped => exact .lost skipped

/-- What left the buffer is what stood in front of the rest. -/
theorem after_taken {outcome : Except Error BodyProgress × Decoder Head Context} {front : Bytes}
    (buffered : delivery.decoder.buf = front ++ outcome.2.buf) :
    (delivery.after outcome).taken = delivery.taken ++ front := by
  simp [after, buffered]

/-- A call on the body reports the trailers as they stand, or a line of the message is lost. -/
theorem Sound.consume (sound : delivery.Sound api collected) (len : Nat)
    (kept : ∀ head, delivery.current = some (head, .chunked) →
      ¬ BodyState.Skipped delivery.decoder.limits (api.side.headersOf head) delivery.taken)
    {outcome : Except Error BodyProgress × BodyState}
    (consumed : BodyState.consumeBody delivery.decoder.limits len delivery.decoder.toBodyState =
      outcome)
    (holds : Api.Holds collected { delivery.decoder with toBodyState := outcome.2 }) :
    (delivery.after (outcome.1, { delivery.decoder with toBodyState := outcome.2 })).Sound api
      collected := by
  suffices both : ∀ head, delivery.current = some (head, .chunked) →
      (∀ fields, (delivery.after (outcome.1, { delivery.decoder with
          toBodyState := outcome.2 })).reported = some fields →
        IsWhole delivery.decoder.limits (api.side.headersOf head) (delivery.after (outcome.1,
          { delivery.decoder with toBodyState := outcome.2 })).taken fields) ∧
      (outcome.2.phase.isHeading = false → Stage delivery.decoder.limits (api.side.headersOf head)
        (delivery.after (outcome.1, { delivery.decoder with toBodyState := outcome.2 }))) by
    exact ⟨holds, fun head fields current => (both head current).1 fields,
      fun head current => (both head current).2⟩
  intro head current
  by_cases heading : delivery.decoder.phase.isHeading = true
  · -- While the next head is read, nothing is reported of a body.
    have lines : delivery.decoder.phase = .startLine ∨ delivery.decoder.phase = .headers := by
      simpa [DecodePhase.isHeading] using heading
    have refused : ∃ error, outcome = (.error error, delivery.decoder.toBodyState) := by
      rcases lines with phase | phase <;>
        exact ⟨_, by simpa [BodyState.consumeBody, phase] using consumed.symm⟩
    obtain ⟨error, rfl⟩ := refused
    refine ⟨fun fields reported => ?_, fun outside => by rw [heading] at outside; cases outside⟩
    rw [after_taken (List.nil_append _).symm, List.append_nil]
    exact sound.reports head fields current reported
  · -- The message is being read, is complete, or has lost a line.
    cases sound.stage head current (by simpa using heading) with
    | reading incomplete unreported content stands =>
      obtain ⟨front, buffered, delivered⟩ := BodyState.consumeBody_delivered stands incomplete len
      rw [consumed] at buffered delivered
      have taken : (delivery.after (outcome.1, { delivery.decoder with
          toBodyState := outcome.2 })).taken = delivery.taken ++ front := after_taken buffered
      rw [taken]
      obtain ⟨result, next⟩ := outcome
      -- Only the call that completes the message reports anything.
      have unfinished : (∀ trailers, result ≠ .ok (.complete trailers)) →
          (delivery.after (result, { delivery.decoder with toBodyState := next })).reported =
            none := by
        intro other
        rcases result with error | _ | _ | trailers
        · exact unreported
        · exact unreported
        · exact unreported
        · exact absurd rfl (other trailers)
      have quiet : (∀ trailers, result ≠ .ok (.complete trailers)) → ∀ fields,
          (delivery.after (result, { delivery.decoder with toBodyState := next })).reported =
            some fields →
          IsWhole delivery.decoder.limits (api.side.headersOf head) (delivery.taken ++ front)
            fields := by
        intro other fields reported
        rw [unfinished other] at reported
        cases reported
      rcases result with error | _ | _ | trailers
      · refine ⟨quiet (by simp), fun _ => ?_⟩
        rcases delivered.2 with ⟨shown, stands⟩ | skipped
        · exact .reading delivered.1 (unfinished (by simp)) shown (by rwa [taken])
        · exact .lost (by rwa [taken])
      · -- A refusal leaves the line in the buffer, or drops it.
        refine ⟨quiet (by simp), fun _ => ?_⟩
        exact .reading delivered.1 (unfinished (by simp)) _ (by rw [taken]; exact delivered.2)
      · refine ⟨quiet (by simp), fun _ => ?_⟩
        exact .reading delivered.1 (unfinished (by simp)) _ (by rw [taken]; exact delivered.2)
      · obtain ⟨complete, given, whole⟩ := delivered
        refine ⟨fun fields reported => ?_, fun _ => .done complete given (by simp [after])⟩
        simp only [after, unreported, Option.getD_none, List.nil_append,
          Option.some.injEq] at reported
        rw [← reported]
        exact whole.isWhole
    | done complete given reported =>
      -- What was reported is not reported again.
      obtain ⟨fields, same⟩ := Option.ne_none_iff_exists'.mp reported
      have done : outcome = BodyState.takeTrailers delivery.decoder.toBodyState := by
        simpa [BodyState.consumeBody, complete] using consumed.symm
      subst done
      rw [after_taken (List.nil_append _).symm, List.append_nil]
      refine ⟨fun others reported => ?_, fun _ => .done complete rfl (by simp [after,
        BodyState.takeTrailers])⟩
      simp only [after, BodyState.takeTrailers, given, same, Option.getD_some, List.append_nil,
        Option.some.injEq] at reported
      rw [← reported]
      exact sound.reports head fields current same
    -- A lost line is what the condition excludes.
    | lost skipped => exact absurd skipped (kept head current)

/-- A head that is read puts the decoder in front of the body of its message. -/
theorem Sound.decodeHeaders (lawful : api.Lawful collected) (sound : delivery.Sound api collected)
    {core : Core Context} {outcome : Except Error (Option (Head × BodyKind))}
    (read : delivery.decoder.toCore.decodeHeaders api.side = (outcome, core))
    (holds : Api.Holds collected { delivery.decoder with toCore := core }) :
    (delivery.call api .decodeHeaders).Sound api collected := by
  have changes := Core.decodeHeaders_changes api.side delivery.decoder.toCore
  have limits := changes.limits
  rw [read] at changes limits
  have called : delivery.decoder.onCore (Core.decodeHeaders api.side) =
      (outcome, { delivery.decoder with toCore := core }) := by
    simp [Decoder.onCore, read]
  simp only [call, called]
  -- Without a head nothing new is being read of a message.
  have refused : (∀ decoded, outcome ≠ .ok (some decoded)) →
      Sound api collected { delivery with decoder := { delivery.decoder with toCore := core } } := by
    intro unread
    by_cases inside : delivery.decoder.phase.isHeading = false ∧ delivery.decoder.phase ≠ .complete
    · -- During a body nothing changes.
      obtain ⟨error, same⟩ := Core.decodeHeaders_refused api.side inside.1 inside.2
      rw [read] at same
      cases same
      exact sound
    · -- Otherwise the decoder is in the head of the next message.
      have entered : delivery.decoder.phase.isHeading = true ∨
          delivery.decoder.phase = .complete := by
        by_cases heading : delivery.decoder.phase.isHeading = true
        · exact .inl heading
        · exact .inr (by simpa [heading] using inside)
      have keeps := Core.decodeHeaders_keeps api.side delivery.decoder.toCore
        (if delivery.decoder.phase = .complete then
          api.side.nextContext delivery.decoder.context else delivery.decoder.context) (by
          rcases entered with heading | complete
          · refine .inl ⟨heading, ?_⟩
            rw [if_neg (by intro complete; rw [complete] at heading; cases heading)]
          · exact .inr ⟨complete, (if_pos complete).symm⟩)
      rw [read] at keeps
      have heading : core.phase.isHeading = true := by
        rcases outcome with error | _ | decoded
        · exact keeps.2.2
        · exact keeps.2.2
        · exact absurd rfl (unread decoded)
      refine ⟨holds, ?_, fun head current outside => ?_⟩
      · intro head fields current reported
        rw [show ({ delivery with decoder := { delivery.decoder with toCore := core } } :
          Delivery Head Context).decoder.limits = _ from limits]
        exact sound.reports head fields current reported
      · rw [show ({ delivery with decoder := { delivery.decoder with toCore := core } } :
          Delivery Head Context).decoder.phase = core.phase from rfl, heading] at outside
        cases outside
  rcases outcome with error | _ | ⟨head, bodyKind⟩
  · exact refused (by simp)
  · exact refused (by simp)
  · -- A head starts a body of which nothing was read yet.
    refine ⟨holds, fun _ _ _ reported => (by cases reported), ?_⟩
    intro other current outside
    simp only [Option.some.injEq, Prod.mk.injEq] at current
    obtain ⟨rfl, rfl⟩ := current
    obtain ⟨last, rest, before, heading, finished⟩ := Core.decodeHeaders_last read
    obtain ⟨startLine, _, _, rfl⟩ := Core.finishHeaders_ok finished
    have sane := before.sane lawful.side lawful.limited sound.holds.sane
    have fresh := sane.body.heading heading
    have phase : api.side.bodyPhase .chunked = .bodyChunkedSize := lawful.side.chunked
    refine .reading (by simp [phase]) rfl [] ⟨rfl, .size phase .none ?_ ?_⟩
    · simp [fresh]
    · simp [fresh]

/-- A refused call that changes nothing leaves the delivery as it was. -/
theorem after_refused (error : Error) :
    delivery.after (.error error, delivery.decoder) = delivery := by
  simp [after]

/-- Every call on a message of which nothing is lost keeps what holds of the delivery. -/
theorem Sound.call (lawful : api.Lawful collected) (sound : delivery.Sound api collected)
    (next : Call Context) (streaming : next.isStreaming = true)
    (intact : delivery.Intact api.side next) : (delivery.call api next).Sound api collected := by
  have holds : Api.Holds collected (api.call delivery.decoder next) :=
    lawful.call sound.holds next
  have kept : delivery.Intact api.side .progress → ∀ head,
      delivery.current = some (head, .chunked) →
      ¬ BodyState.Skipped delivery.decoder.limits (api.side.headersOf head) delivery.taken := by
    rintro intact head current (bad | large)
    · exact (intact head current).1 bad
    · exact (intact head current).2 large
  cases next with
  -- Feeding and buffers leave everything but the waiting bytes alone.
  | feed data =>
    refine sound.keep holds ?_ ?_ ?_ <;>
      rcases delivery.decoder.feed_cases data with same | ⟨_, same⟩ <;>
      simp only [Api.call, same] <;> rfl
  | mutBuf len =>
    obtain ⟨buf, pending, same⟩ := delivery.decoder.mutBuf_frame len
    refine sound.keep holds ?_ ?_ ?_ <;> simp only [Api.call, same]
  | write data => exact sound.keep holds rfl rfl rfl
  | advanceBuf len => exact sound.keep holds rfl rfl rfl
  | tell context => exact sound.keep holds rfl rfl rfl
  | peekBody => exact sound
  | decodeHeaders =>
    rcases read : delivery.decoder.toCore.decodeHeaders api.side with ⟨outcome, core⟩
    refine sound.decodeHeaders lawful read ?_
    simpa [Api.call, Decoder.onCore, read] using holds
  | consumeBody len =>
    change (delivery.after (delivery.decoder.consumeBody len)).Sound api collected
    -- The source refuses to consume nothing.
    by_cases empty : len = 0
    · have refused : ∃ error, delivery.decoder.consumeBody len = (.error error, delivery.decoder) := by
        rw [Decoder.consumeBody, if_pos empty]
        exact ⟨_, rfl⟩
      obtain ⟨error, refused⟩ := refused
      rwa [refused, after_refused]
    · have positive := Nat.pos_of_ne_zero empty
      rw [Decoder.consumeBody_eq _ positive]
      refine sound.consume len (kept intact) rfl ?_
      simpa [Api.call, Decoder.consumeBody_eq _ positive] using holds
  -- Progress is the consumption of no bytes.
  | progress => exact sound.consume 0 (kept intact) rfl holds
  | markEof =>
    change Sound api collected { delivery with decoder := api.markEof delivery.decoder }
    rcases lawful.markEof delivery.decoder with same | ⟨phase, same⟩
    · rwa [same]
    · -- Only a body up to the end of the connection ends there, which is not one in chunks.
      refine ⟨holds, ?_, fun head current _ => ?_⟩
      · rw [same]
        exact sound.reports
      · rw [same]
        cases sound.stage head current (by simp [phase, DecodePhase.isHeading]) with
        | reading _ _ _ stands =>
          cases stands.place with
          | size other | trailers other | complete other => rw [phase] at other; cases other
          | data _ other => rw [phase] at other; split at other <;> cases other
        | done complete => rw [phase] at complete; cases complete
        | lost skipped => exact .lost skipped
  | decode => cases streaming

/-- What holds after calls that skip no refused line. -/
theorem reachable_sound (lawful : api.Lawful collected) {limits : DecoderLimits}
    (reachable : Reachable api limits (Intact api.side) delivery) :
    delivery.Sound api collected := by
  induction reachable with
  | fresh =>
    have started : api.Reachable limits (fun _ => true) (api.fresh limits) := .fresh
    exact ⟨lawful.reachable started, fun _ _ current => (by cases current),
      fun _ current => (by cases current)⟩
  | call next _ streaming intact ih => exact ih.call lawful next streaming intact

/-- A message that is reported as it stands has no trailer line that may not be there. -/
theorem Sound.rejects (sound : delivery.Sound api collected) : delivery.Rejects api.side := by
  intro head input current bad
  by_contra complete
  obtain ⟨fields, reported⟩ := Option.ne_none_iff_exists'.mp complete
  exact (sound.reports head fields current reported).good bad

end Delivery

/-- Trailers are reported once and as they stand, as long as no refused line is skipped. -/
theorem reports_trailers (limits : DecoderLimits) :
    (∀ delivery, Delivery.Reachable RequestDecoder.api limits
        (Delivery.Intact RequestDecoder.side) delivery →
      delivery.Reports RequestDecoder.side ∧ delivery.Rejects RequestDecoder.side) ∧
    (∀ delivery, Delivery.Reachable ResponseDecoder.api limits
        (Delivery.Intact ResponseDecoder.side) delivery →
      delivery.Reports ResponseDecoder.side ∧ delivery.Rejects ResponseDecoder.side) := by
  refine ⟨fun delivery reachable => ?_, fun delivery reachable => ?_⟩
  · have sound := Delivery.reachable_sound Api.request_lawful reachable
    exact ⟨sound.reports, sound.rejects⟩
  · have sound := Delivery.reachable_sound Api.response_lawful reachable
    exact ⟨sound.reports, sound.rejects⟩

/-- Where nothing was taken, nothing is lost. -/
theorem Delivery.intact_start {Head Context : Type} {side : Side Head Context}
    {delivery : Delivery Head Context} (none : delivery.taken = []) (next : Call Context) :
    delivery.Intact side next := by
  have intact : ∀ head, delivery.current = some (head, .chunked) →
      ¬ HasBadTrailer delivery.decoder.limits (side.headersOf head) delivery.taken ∧
      ¬ HasLargeChunk delivery.decoder.limits delivery.taken := by
    intro head _
    rw [none]
    refine ⟨?_, ?_⟩
    · -- A line that was taken is at least its line end, and nothing was taken.
      rintro ⟨body, lines, line, rest, _, _, _, _, same⟩
      simp [crlf] at same
    · rintro ⟨chunks, content, line, size, rest, _, _, _, _, same⟩
      simp [crlf] at same
  -- Only the calls that move through a body have a condition.
  cases next with
  | consumeBody | progress => exact intact
  | feed | mutBuf | write | advanceBuf | tell | decodeHeaders | peekBody | decode | markEof =>
    trivial

/-- A decoder of requests that has read the head of a message in chunks, with all that follows. -/
def Delivery.headed (text : String) : Delivery RequestHead Unit :=
  let fresh : Delivery RequestHead Unit := { decoder := RequestDecoder.api.fresh {} }
  (fresh.call RequestDecoder.api (.feed (Utf8.encode text.toList))).call RequestDecoder.api
    .decodeHeaders

/-- A decoder that has read a head can be reached where only calls on the body are restricted. -/
theorem Delivery.headed_reachable
    {condition : Delivery RequestHead Unit → Call Unit → Prop}
    (free : ∀ delivery, (∀ data, condition delivery (.feed data)) ∧
      condition delivery .decodeHeaders) (text : String) :
    Delivery.Reachable RequestDecoder.api {} condition (Delivery.headed text) :=
  .call .decodeHeaders (.call (.feed _) .fresh rfl ((free _).1 _)) rfl (free _).2

/-- A request whose head announces one trailer. -/
def announcing (trailer : String) : String :=
  "POST / HTTP/1.1\r\nHost: h\r\nTransfer-Encoding: chunked\r\nTrailer: X-A\r\n\r\n0\r\n" ++
    trailer ++ "\r\n\r\n"

/-- A trailer that was announced is reported. -/
theorem reports_trailers_announced :
    let delivery := (Delivery.headed (announcing "x-a: b")).call RequestDecoder.api .progress
    delivery.reported = some [("x-a".toList, "b".toList)] ∧
      delivery.Reports RequestDecoder.side ∧ delivery.Rejects RequestDecoder.side := by
  have none : (Delivery.headed (announcing "x-a: b")).taken = [] := by decide +kernel
  have reported : ((Delivery.headed (announcing "x-a: b")).call RequestDecoder.api
      .progress).reported = some [("x-a".toList, "b".toList)] := by decide +kernel
  exact ⟨reported, (reports_trailers {}).1 _ (.call .progress
    (Delivery.headed_reachable (fun _ => ⟨fun _ => trivial, trivial⟩) _) rfl
    (Delivery.intact_start none .progress))⟩

/-- A trailer that was not announced is refused, and the next call completes the message. -/
theorem reports_trailers_skipped :
    let api := RequestDecoder.api
    let delivery := ((Delivery.headed (announcing "X-B: c")).call api .progress).call api .progress
    Delivery.Reachable api {} (fun _ _ => True) delivery ∧ delivery.reported = some [] ∧
      ¬ delivery.Rejects RequestDecoder.side := by
  intro api delivery
  have reported : delivery.reported = some [] := by decide +kernel
  have limits : delivery.decoder.limits = {} := by decide +kernel
  have current : delivery.current = some (⟨"POST".toList, "/".toList, http11,
      [("Host".toList, "h".toList), ("Transfer-Encoding".toList, "chunked".toList),
        ("Trailer".toList, "X-A".toList)]⟩, .chunked) := by decide +kernel
  have taken : delivery.taken = Utf8.encode "0\r\nX-B: c\r\n\r\n".toList := by decide +kernel
  have reachable : Delivery.Reachable api {} (fun _ _ => True) delivery :=
    .call .progress (.call .progress (Delivery.headed_reachable
      (fun _ => ⟨fun _ => trivial, trivial⟩) _) rfl trivial) rfl trivial
  refine ⟨reachable, reported, fun rejects => ?_⟩
  clear_value delivery
  have unreported := rejects _ [] current ?_
  · rw [reported] at unreported
    cases unreported
  rw [limits, taken]
  refine ⟨Utf8.encode "0\r\n".toList, [], Utf8.encode "X-B: c".toList, crlf, ?_, by simp,
    ⟨by decide +kernel, by unfold IsLine; decide +kernel⟩, ?_, by decide +kernel⟩
  · exact ⟨[], [], Utf8.encode "0".toList, .none, by unfold IsLine; decide +kernel,
      by decide +kernel, by decide +kernel⟩
  · rintro field ⟨⟨text, decoded, parsed⟩, ⟨element, listed, same⟩, _⟩
    have read : lineText (Utf8.encode "X-B: c".toList) = .ok "X-B: c".toList := by decide +kernel
    have split : parseHeaderLine "X-B: c".toList = .ok ("X-B".toList, "c".toList) := by
      decide +kernel
    rw [read] at decoded
    cases decoded
    rw [split] at parsed
    cases parsed
    -- The only name that the head announces is another one.
    have names : fieldElements (RequestDecoder.side.headersOf ⟨"POST".toList, "/".toList, http11,
        [("Host".toList, "h".toList), ("Transfer-Encoding".toList, "chunked".toList),
          ("Trailer".toList, "X-A".toList)]⟩) "Trailer".toList = ["X-A".toList] := by
      decide +kernel
    rw [names, List.mem_singleton] at listed
    rw [listed] at same
    revert same
    decide +kernel

end Http11

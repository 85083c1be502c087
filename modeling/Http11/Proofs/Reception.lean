import Http11.Proofs.Decoder.Decode
import Http11.Reception

/-! Of a body up to the end of the connection, what was asked for in time is kept. -/

namespace Http11

namespace ResponseDecoder

/-- A call of decode that reads the head of such a response, and nothing of its body. -/
theorem opened_of_decode {decoder next : ResponseDecoder} {head : ResponseHead}
    (consistent : (decoder.view []).Consistent)
    (called : decode decoder = (.ok none, next))
    (decoded : next.decoded = some (head, .closeDelimited)) (nothing : next.decodedBody = []) :
    next.Opened head := by
  have headed := Decoder.decodeHead_follows side (Decoder.going_none []) consistent
  unfold decode at called
  rcases read : decoder.decodeHead side with ⟨_ | _ | ⟨found, bodyKind⟩, start⟩ <;>
    rw [read] at headed called
  · cases called
  · cases called
    rw [headed.1] at decoded
    cases decoded
  obtain ⟨startDecoded, reached⟩ := headed
  dsimp only at startDecoded reached
  have later := Reader.reaches_sound side_lawful reached (fun _ => consistent) rfl
  -- A framed body keeps its framing while it is collected.
  have framed : Decoder.Framed start.decoded → start.readBody ≠ (.ok false, next) := by
    intro framed collected
    have kept := Decoder.readBody_follows side_lawful (Decoder.going_none []) later framed
    rw [collected] at kept
    obtain ⟨_, _, other, notClose, _⟩ := framed
    rw [kept.1, other] at decoded
    cases decoded
    exact notClose rfl
  cases bodyKind with
  | tunnel => cases called
  | none => cases called
  | contentLength length =>
    dsimp only at called
    rcases collected : start.readBody with ⟨_ | _ | _, last⟩ <;> rw [collected] at called framed <;>
      cases called
    exact absurd rfl (framed ⟨_, _, startDecoded, by simp, by simp⟩)
  | chunked =>
    dsimp only at called
    rcases collected : start.readBody with ⟨_ | _ | _, last⟩ <;> rw [collected] at called framed <;>
      cases called
    exact absurd rfl (framed ⟨_, _, startDecoded, by simp, by simp⟩)
  | closeDelimited =>
    dsimp only at called
    rcases Decoder.phase_of_closeDelimited later startDecoded with phase | phase
    · simp only [Reader.Consistent, Decoder.view, phase] at later
      obtain ⟨_, collected, consumed, _⟩ := later
      by_cases empty : start.buf = []
      · have unseen : start.peekBody = none := by
          simp [Decoder.peekBody, BodyState.peekBody, phase, empty]
        simp only [readUntilClose, unseen, phase, ne_eq, reduceCtorEq, not_false_eq_true,
          if_true] at called
        cases called
        exact ⟨decoded, phase, empty, collected, consumed⟩
      · -- Bytes that were there already would have been collected.
        have shown : start.peekBody = some start.buf := by
          simp [Decoder.peekBody, BodyState.peekBody, phase, empty]
        have positive := List.length_pos_of_ne_nil empty
        simp only [readUntilClose, shown, Decoder.consumeBody_eq _ positive] at called
        split at called
        · cases called
        rename_i last read
        split at called
        · cases called
          split at read
          · cases read
          split at read
          · cases read
          split at read
          · cases read
          · rename_i consumption
            cases read
            obtain ⟨_, rfl⟩ := Prod.mk.inj consumption
            simp [empty] at nothing
        · cases called
    · have unseen : start.peekBody = none := by
        simp [Decoder.peekBody, BodyState.peekBody, phase]
      simp only [readUntilClose, unseen, phase, ne_eq, not_true, if_false] at called
      cases called

/-- A decoder in such a body, with what was collected and what is buffered. -/
structure Receiving (decoder : ResponseDecoder) (head : ResponseHead) (collected waiting : Bytes) :
    Prop where
  /-- The head is there, with its framing. -/
  decoded : decoder.decoded = some (head, .closeDelimited)
  /-- The body is being read. -/
  phase : decoder.phase = .bodyCloseDelimited
  /-- What is buffered. -/
  buf : decoder.buf = waiting
  /-- What was collected. -/
  decodedBody : decoder.decodedBody = collected
  /-- The count of what was collected. -/
  bodyConsumed : decoder.bodyDecoder.bodyConsumed = collected.length

/-- Asking for the response collects what is buffered, as long as the limit allows it. -/
theorem Receiving.decode {decoder : ResponseDecoder} {head : ResponseHead}
    {collected waiting : Bytes} (receiving : Receiving decoder head collected waiting)
    (limited : decoder.limits.maxBodySize ≤ usizeMax)
    (fits : (collected ++ waiting).length ≤ decoder.limits.maxBodySize) :
    Receiving (decode decoder).2 head (collected ++ waiting) [] ∧
      (ResponseDecoder.decode decoder).2.limits = decoder.limits := by
  obtain ⟨decoded, phase, rfl, rfl, consumed⟩ := receiving
  rw [List.length_append] at fits
  have headed : decoder.decodeHead side = (.ok (some (head, .closeDelimited)), decoder) := by
    simp [Decoder.decodeHead, decoded]
  simp only [ResponseDecoder.decode, headed, readUntilClose]
  -- Nothing is shown, or everything is shown, collected and consumed.
  by_cases empty : decoder.buf = []
  · have nothing : decoder.peekBody = none := by
      simp [Decoder.peekBody, BodyState.peekBody, phase, empty]
    simp only [nothing, phase, ne_eq, reduceCtorEq, not_false_eq_true, if_true]
    exact ⟨⟨decoded, phase, by simp [empty], by simp [empty], by simp [empty, consumed]⟩, trivial⟩
  · have shown : decoder.peekBody = some decoder.buf := by
      simp [Decoder.peekBody, BodyState.peekBody, phase, empty]
    have positive := List.length_pos_of_ne_nil empty
    have sum : checkedAdd decoder.decodedBody.length decoder.buf.length =
        some (decoder.decodedBody.length + decoder.buf.length) := by
      rw [checkedAdd, if_pos (by omega)]
    -- The limit was the only thing that could refuse the bytes.
    have taken : BodyState.consumeBody decoder.limits decoder.buf.length decoder.toBodyState =
        (.ok .advanced, { decoder.toBodyState with
          buf := []
          bodyDecoder := { decoder.bodyDecoder with
            bodyConsumed := decoder.decodedBody.length + decoder.buf.length } }) := by
      simp [BodyState.consumeBody, phase, BodyState.addConsumed, consumed, sum,
        Nat.not_lt.mpr fits, empty]
    simp only [shown, sum, if_neg (Nat.not_lt.mpr fits), Decoder.consumeBody_eq _ positive, taken,
      phase, ne_eq, reduceCtorEq, not_false_eq_true, if_true]
    exact ⟨⟨decoded, rfl, rfl, rfl, by simp⟩, trivial⟩

/-- Input that is accepted waits in the buffer. -/
theorem Receiving.feed {decoder next : ResponseDecoder} {head : ResponseHead}
    {collected waiting data : Bytes} (receiving : Receiving decoder head collected waiting)
    (accepted : decoder.feed data = (.ok (), next)) :
    Receiving next head collected (waiting ++ data) ∧ next.limits = decoder.limits := by
  rcases decoder.feed_cases data with same | ⟨_, same⟩ <;> rw [same] at accepted <;> cases accepted
  refine ⟨⟨receiving.decoded, receiving.phase, ?_, receiving.decodedBody,
    receiving.bodyConsumed⟩, rfl⟩
  simp [Decoder.feedUnchecked, receiving.buf]

/-- After the end of the connection the response has what was collected. -/
theorem Receiving.close {decoder : ResponseDecoder} {head : ResponseHead}
    {collected waiting : Bytes} (receiving : Receiving decoder head collected waiting) :
    ∃ next : ResponseDecoder, ResponseDecoder.decode (markEof decoder) =
        (.ok (some (Response.fromRawParts head (some collected))), next) ∧
      next.remaining = waiting := by
  obtain ⟨decoded, phase, rfl, rfl, _⟩ := receiving
  have ended : markEof decoder = { decoder with phase := .complete } := by simp [markEof, phase]
  rw [ended]
  have headed : Decoder.decodeHead side { decoder with phase := .complete } =
      (.ok (some (head, .closeDelimited)), { decoder with phase := .complete }) := by
    simp [Decoder.decodeHead, decoded]
  -- The phase is that of a complete body, in which nothing is shown.
  have nothing : Decoder.peekBody { decoder with phase := .complete } = none := rfl
  simp only [ResponseDecoder.decode, headed, readUntilClose, nothing, ne_eq, not_true, if_false]
  exact ⟨_, rfl, rfl⟩

end ResponseDecoder

namespace Reception

open ResponseDecoder

/-- Input that was refused stays refused. -/
theorem run_accepted (reception : Reception) (arrivals : List Arrival)
    (accepted : (reception.run arrivals).accepted = true) : reception.accepted = true := by
  induction arrivals generalizing reception with
  | nil => exact accepted
  | cons arrival arrivals ih =>
    have later : (reception.arrive arrival).accepted = true := ih _ accepted
    -- Only feeding can be refused.
    cases arrival with
    | decode => exact later
    | feed data =>
      simp only [arrive] at later
      split at later
      · exact later
      · cases later

/-- Arrivals leave collected what was asked for, and buffered what came after. -/
theorem run_receiving (reception : Reception) {head : ResponseHead}
    {collected waiting : Bytes} (arrivals : List Arrival)
    (receiving : reception.decoder.Receiving head collected waiting)
    (limited : reception.decoder.limits.maxBodySize ≤ usizeMax)
    (accepted : (reception.run arrivals).accepted = true)
    (fits : (collected ++ waiting ++ fed arrivals).length ≤
      reception.decoder.limits.maxBodySize) :
    ∃ kept, kept ++ arrivals.foldl wait waiting = collected ++ waiting ++ fed arrivals ∧
      (reception.run arrivals).decoder.Receiving head kept (arrivals.foldl wait waiting) := by
  -- The induction is on the arrivals, with what is collected and what waits before each.
  induction arrivals generalizing reception collected waiting with
  | nil => exact ⟨collected, by simp [fed], receiving⟩
  | cons arrival arrivals ih =>
    have later := run_accepted (reception.arrive arrival) arrivals accepted
    cases arrival with
    | feed data =>
      -- Refused input would have shown at the end.
      rcases called : reception.decoder.feed data with ⟨_ | _, next⟩
      · simp [arrive, called] at later
      · obtain ⟨receivingNext, sameLimits⟩ := receiving.feed called
        have arrived : reception.arrive (.feed data) = { reception with decoder := next } := by
          simp [arrive, called]
        have receivingArrived :
            (reception.arrive (.feed data)).decoder.Receiving head collected (waiting ++ data) := by
          rw [arrived]
          exact receivingNext
        obtain ⟨kept, whole, ends⟩ := ih _ receivingArrived
          (by rw [arrived, sameLimits]; exact limited) accepted (by
            rw [arrived, sameLimits]
            simpa [fed] using fits)
        exact ⟨kept, by rw [List.foldl_cons, wait, whole]; simp [fed], ends⟩
    | decode =>
      -- What was asked for before is part of what was fed.
      have bounded : (collected ++ waiting).length ≤ reception.decoder.limits.maxBodySize := by
        rw [List.length_append] at fits
        omega
      obtain ⟨receivingNext, sameLimits⟩ := receiving.decode limited bounded
      have receivingArrived :
          (reception.arrive .decode).decoder.Receiving head (collected ++ waiting) [] :=
        receivingNext
      obtain ⟨kept, whole, ends⟩ := ih _ receivingArrived
        (by simpa only [arrive, sameLimits] using limited) accepted (by
          simp only [arrive, sameLimits]
          simpa [fed] using fits)
      exact ⟨kept, by rw [List.foldl_cons, wait, whole]; simp [fed], ends⟩

/-- The response has all of its body, with nothing left over. -/
def Whole (reception : Reception) (body : Bytes) : Prop :=
  ∃ response next, reception.close = (.ok (some response), next) ∧ response.body = some body ∧
    next.remaining = []

/-- A body up to the end of the connection is whole when all of it was asked for before that. -/
theorem run_whole {decoder : ResponseDecoder} {head : ResponseHead} (opened : decoder.Opened head)
    (limited : decoder.limits.maxBodySize ≤ usizeMax) (arrivals : List Arrival)
    (accepted : (run { decoder } arrivals).accepted = true)
    (fits : (fed arrivals).length ≤ decoder.limits.maxBodySize) :
    (run { decoder } arrivals).Whole (fed arrivals) ↔ unread arrivals = [] := by
  have receiving : decoder.Receiving head [] [] :=
    ⟨opened.decoded, opened.phase, opened.buf, opened.decodedBody, opened.bodyConsumed⟩
  obtain ⟨kept, whole, ends⟩ := run_receiving { decoder } arrivals receiving limited
    accepted (by simpa using fits)
  change kept ++ unread arrivals = [] ++ [] ++ fed arrivals at whole
  obtain ⟨next, closed, remaining⟩ := ends.close
  change next.remaining = unread arrivals at remaining
  -- The response is whole exactly if nothing was left waiting at the end.
  constructor
  · rintro ⟨response, last, closedAs, _, empty⟩
    rw [close, closed] at closedAs
    cases closedAs
    rw [← remaining, empty]
  · intro nothing
    rw [nothing, List.append_nil] at whole
    exact ⟨_, next, closed, by rw [whole]; rfl, by rw [remaining, nothing]⟩

/-- A body that was asked for after every input. -/
theorem run_whole_asked :
    let fresh := (withLimits .unlimited).feedUnchecked
      (Utf8.encode "HTTP/1.1 200 OK\r\n\r\n".toList)
    let opened := (ResponseDecoder.decode fresh).2
    let arrivals : List Arrival := [.feed [0x61], .decode, .feed [0x62, 0x63], .decode]
    (run { decoder := opened } arrivals).Whole [0x61, 0x62, 0x63] := by
  intro fresh opened arrivals
  have proper : (fresh.view []).Proper side := Decoder.view_fresh _ rfl rfl rfl rfl rfl rfl
  have head : opened.Opened ⟨http11, 200, "OK".toList, []⟩ :=
    opened_of_decode proper.consistent (Prod.ext (by decide) rfl) (by decide)
      (by decide)
  exact (run_whole head (by decide) arrivals (by decide) (by decide)).mpr
    (by decide)

/-- Input that was not asked for before the end of the connection stays in the buffer. -/
theorem close_unread :
    let opened := (ResponseDecoder.decode ((withLimits .unlimited).feedUnchecked
      (Utf8.encode "HTTP/1.1 200 OK\r\n\r\n".toList))).2
    let closed := (run { decoder := opened } [.feed [0x61]]).close
    opened.decoded = some (⟨http11, 200, "OK".toList, []⟩, .closeDelimited) ∧
      closed.1 = .ok (some ⟨http11, 200, "OK".toList, [], some [], false⟩) ∧
      closed.2.remaining = [0x61] := by
  decide

end Reception

end Http11

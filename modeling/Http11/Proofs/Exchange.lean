import Http11.Exchange
import Http11.Proofs.Decoder.Heads
import Http11.Proofs.Decoder.Phases
import Http11.Proofs.Text

/-! Which method frames a response: the one set for it, when it was set in time. -/

namespace Http11

namespace ResponseDecoder

/-- The status line matters to the framing through its first word only. -/
theorem determineBodyKind_version {startLine other : Str}
    (same : (startLine.splitOn ' ').head?.getD [] = (other.splitOn ' ').head?.getD [])
    (limits : DecoderLimits) (requestMethod : Option Str) (headers : Headers) (statusCode : Nat) :
    determineBodyKind limits requestMethod startLine headers statusCode =
      determineBodyKind limits requestMethod other headers statusCode := by
  unfold determineBodyKind
  rw [same]

/-- Neither HEAD nor such a status leaves a body. -/
theorem determineBodyKind_none {limits : DecoderLimits} {requestMethod : Option Str}
    {startLine : Str} {headers : Headers} {statusCode : Nat}
    (bodiless : requestMethod = some "HEAD".toList ∨ statusHasBody statusCode = false) :
    determineBodyKind limits requestMethod startLine headers statusCode =
      .ok (.none, headers) := by
  unfold determineBodyKind
  -- The framing without a body is asked for first.
  rw [if_pos]
  simp only [Bool.or_eq_true, decide_eq_true_eq, Bool.not_eq_true']
  exact bodiless

/-- The answer to CONNECT makes a tunnel. -/
theorem determineBodyKind_tunnel {limits : DecoderLimits} {requestMethod : Option Str}
    {startLine : Str} {headers : Headers} {statusCode : Nat}
    (notHead : requestMethod ≠ some "HEAD".toList) (hasBody : statusHasBody statusCode = true)
    (connect : requestMethod = some "CONNECT".toList) (lower : 200 ≤ statusCode)
    (upper : statusCode < 300) :
    determineBodyKind limits requestMethod startLine headers statusCode =
      .ok (.tunnel, headers.filter fun field => !isFramingField field) := by
  unfold determineBodyKind
  rw [if_neg, if_pos]
  · simp only [Bool.and_eq_true, decide_eq_true_eq]
    exact ⟨connect, lower, upper⟩
  · simp only [Bool.or_eq_true, decide_eq_true_eq, Bool.not_eq_true', not_or, Bool.not_eq_false]
    exact ⟨notHead, hasBody⟩

/-- A finished head has the framing that its own parts determine. -/
theorem framingFor_of_finished {limits : DecoderLimits} {requestMethod : Option Str}
    {startLine : Str} {headers : Headers} {head : ResponseHead} {bodyKind : BodyKind}
    (finished : finishHead limits requestMethod startLine headers = .ok (head, bodyKind)) :
    framingFor limits requestMethod head = .ok bodyKind := by
  obtain ⟨statusCode, kept, _, determined, rfl⟩ := finishHead_ok finished
  simp only [framingFor, Checked.map_ok]
  -- The framings by method and status need no version; any other one has that of the line.
  rcases determineBodyKind_ok determined with
    ⟨bodiless, rfl, _⟩ | ⟨notHead, hasBody, connect, lower, upper, rfl, _⟩ | ⟨_, _, _, _, rfl, _⟩
  · exact ⟨(.none, kept), determineBodyKind_none bodiless, rfl⟩
  · exact ⟨_, determineBodyKind_tunnel notHead hasBody connect lower upper, rfl⟩
  · refine ⟨(bodyKind, kept), ?_, rfl⟩
    obtain ⟨first, plain⟩ := splitn_head 1 ' ' startLine
    rw [← determined]
    refine determineBodyKind_version ?_ limits requestMethod kept statusCode
    rw [List.splitOn_eq_singleton plain, ← first]
    rfl

/-- Neither HEAD nor such a status leaves a body, whatever the head holds. -/
theorem framingFor_none {limits : DecoderLimits} {requestMethod : Option Str} {head : ResponseHead}
    (bodiless : requestMethod = some "HEAD".toList ∨ statusHasBody head.statusCode = false) :
    framingFor limits requestMethod head = .ok .none := by
  rw [framingFor, determineBodyKind_none bodiless]
  rfl

/-- A status of success other than 204 admits a body. -/
theorem statusHasBody_success {statusCode : Nat} (lower : 200 ≤ statusCode)
    (upper : statusCode < 300) (content : statusCode ≠ 204) : statusHasBody statusCode = true := by
  simp only [statusHasBody, Bool.not_eq_true', Bool.or_eq_false_iff, Bool.and_eq_false_iff,
    decide_eq_false_iff_not, beq_eq_false_iff_ne]
  omega

/-- The answer to CONNECT makes a tunnel, whatever the head holds. -/
theorem framingFor_tunnel {limits : DecoderLimits} {head : ResponseHead}
    (lower : 200 ≤ head.statusCode) (upper : head.statusCode < 300)
    (content : head.statusCode ≠ 204) :
    framingFor limits (some "CONNECT".toList) head = .ok .tunnel := by
  rw [framingFor, determineBodyKind_tunnel (by decide) (statusHasBody_success lower upper content)
    rfl lower upper]
  rfl

/-- A framing leads to no head. -/
theorem bodyPhase_outside (bodyKind : BodyKind) : (bodyPhase bodyKind).isHeading = false := by
  -- Every framing leads to a body, to the end or to the tunnel.
  cases bodyKind with
  | contentLength length =>
    simp only [bodyPhase]
    split <;> rfl
  | chunked => rfl
  | closeDelimited => rfl
  | none => rfl
  | tunnel => rfl

/-- What is left of a decoder after a body: outside heads, or ready for the next message. -/
def Rests (limits : DecoderLimits) (decoder : ResponseDecoder) : Prop :=
  decoder.limits = limits ∧ (decoder.phase.isHeading = false ∨
    decoder.context = none ∧ decoder.decoded = none)

/-- A body up to the close neither enters nor leaves a head. -/
theorem readUntilClose_keeps (decoder : ResponseDecoder) :
    decoder.KeepsBody (readUntilClose decoder) := by
  unfold readUntilClose
  -- Bytes that are shown are collected and consumed; nothing else changes.
  cases decoder.peekBody with
  | none => exact ⟨rfl, rfl, rfl⟩
  | some data =>
    dsimp only
    split
    · exact ⟨rfl, rfl, rfl⟩
    · split
      · exact ⟨rfl, rfl, rfl⟩
      · have kept := Decoder.consumeBody_keeps
          ({ decoder with decodedBody := decoder.decodedBody ++ data } : ResponseDecoder)
          data.length
        rcases consumed : Decoder.consumeBody
          ({ decoder with decodedBody := decoder.decodedBody ++ data } : ResponseDecoder)
          data.length with ⟨_ | _, next⟩ <;> rwa [consumed] at kept

/-- Once a head is there, decoding ends outside heads or ready for the next message. -/
theorem decode_rests {decoder next : ResponseDecoder} {head : ResponseHead} {bodyKind : BodyKind}
    (headed : decoder.decodeHead side = (.ok (some (head, bodyKind)), next))
    (outside : next.phase.isHeading = false) :
    Rests next.limits (decode decoder).2 := by
  -- A message that is finished leaves the decoder ready for the next one.
  have ready : ∀ last : ResponseDecoder, last.limits = next.limits →
      Rests next.limits (finish last head bodyKind).2 :=
    fun last same => ⟨same, .inr ⟨rfl, rfl⟩⟩
  unfold decode
  rw [headed]
  -- The framings with a body may stop before its end, where the phase is still outside.
  cases bodyKind with
  | tunnel => exact ⟨rfl, .inl outside⟩
  | none => exact ready next rfl
  | contentLength length =>
    obtain ⟨limits, _, kept⟩ := Decoder.readBody_keeps next
    dsimp only
    rcases collected : next.readBody with ⟨_ | _ | _, last⟩ <;> rw [collected] at limits kept
    · exact ⟨limits, .inl (kept.trans outside)⟩
    · exact ⟨limits, .inl (kept.trans outside)⟩
    · exact ready last limits
  | chunked =>
    obtain ⟨limits, _, kept⟩ := Decoder.readBody_keeps next
    dsimp only
    rcases collected : next.readBody with ⟨_ | _ | _, last⟩ <;> rw [collected] at limits kept
    · exact ⟨limits, .inl (kept.trans outside)⟩
    · exact ⟨limits, .inl (kept.trans outside)⟩
    · exact ready last limits
  | closeDelimited =>
    obtain ⟨limits, _, kept⟩ := readUntilClose_keeps next
    dsimp only
    rcases collected : readUntilClose next with ⟨_ | _, last⟩ <;> rw [collected] at limits kept
    · exact ⟨limits, .inl (kept.trans outside)⟩
    · dsimp only
      split
      · exact ⟨limits, .inl (kept.trans outside)⟩
      · exact ready last limits

end ResponseDecoder

namespace Exchange

open ResponseDecoder

/-- What holds between calls, as long as methods are set in time. -/
structure Kept (limits : DecoderLimits) (exchange : Exchange) : Prop where
  /-- The limits never change. -/
  limited : exchange.decoder.limits = limits
  /-- While a head is read, the decoder has the method that was set for it. -/
  heading : exchange.decoder.phase.isHeading = true → exchange.decoder.context = exchange.awaited
  /-- Outside heads no method is awaited. -/
  reading : exchange.decoder.phase.isHeading = false → exchange.awaited = none
  /-- A head that decode has read is followed by its body. -/
  collecting : exchange.decoder.decoded ≠ none → exchange.decoder.phase.isHeading = false
  /-- Every head has the framing of the method that was set for it. -/
  answers : ∀ answer ∈ exchange.answers,
    framingFor limits answer.method answer.head = .ok answer.bodyKind

variable {limits : DecoderLimits} {exchange : Exchange}

/-- A call that leaves heads alone keeps what holds. -/
theorem Kept.alike (kept : exchange.Kept limits) {decoder : ResponseDecoder}
    (sameLimits : decoder.limits = exchange.decoder.limits)
    (samePhase : decoder.phase.isHeading = exchange.decoder.phase.isHeading)
    (sameContext : decoder.context = exchange.decoder.context)
    (sameDecoded : decoder.decoded = exchange.decoder.decoded) :
    Kept limits { exchange with decoder } where
  limited := sameLimits.trans kept.limited
  -- In a head the decoder still has the method it was told.
  heading := fun heading => by
    rw [show ({ exchange with decoder } : Exchange).decoder.context = decoder.context from rfl,
      sameContext]
    exact kept.heading (samePhase.symm.trans heading)
  reading := fun outside => kept.reading (samePhase.symm.trans outside)
  collecting := fun collecting => by
    rw [show ({ exchange with decoder } : Exchange).decoder.phase = decoder.phase from rfl, samePhase]
    exact kept.collecting (by rwa [sameDecoded] at collecting)
  answers := kept.answers

/-- A call that reads on in a head keeps what holds. -/
theorem Kept.headed (kept : exchange.Kept limits) {decoder : ResponseDecoder}
    (limited : decoder.limits = limits) (heading : decoder.phase.isHeading = true)
    (context : decoder.context = exchange.awaited) (undecoded : decoder.decoded = none) :
    Kept limits { exchange with decoder } where
  limited := limited
  heading := fun _ => context
  -- Within a head there is no answer to speak of.
  reading := fun outside => by
    rw [show ({ exchange with decoder } : Exchange).decoder.phase = decoder.phase from rfl,
      heading] at outside
    cases outside
  collecting := fun collecting => absurd undecoded collecting
  answers := kept.answers

/-- A call after a head, which no method is awaited for, keeps what holds. -/
theorem Kept.rested (kept : exchange.Kept limits) (answered : exchange.awaited = none)
    {decoder : ResponseDecoder} (rests : Rests limits decoder) :
    Kept limits { exchange with decoder } where
  limited := rests.1
  heading := fun heading => by
    -- Outside of heads no method is looked at, and between messages it was cleared.
    rcases rests.2 with outside | ⟨cleared, _⟩
    · rw [show ({ exchange with decoder } : Exchange).decoder = decoder from rfl, outside] at heading
      cases heading
    · exact cleared.trans answered.symm
  reading := fun _ => answered
  collecting := fun collecting => rests.2.resolve_right fun ready => collecting ready.2
  answers := kept.answers

/-- A call that returns a head keeps what holds, once the head has the framing awaited. -/
theorem Kept.answered (kept : exchange.Kept limits) {decoder : ResponseDecoder}
    {head : ResponseHead} {bodyKind : BodyKind} (rests : Rests limits decoder)
    (framed : framingFor limits exchange.awaited head = .ok bodyKind) :
    Kept limits (exchange.returned decoder (some (head, bodyKind))) where
  limited := rests.1
  heading := fun heading => by
    -- The head that was read has left no method behind.
    rcases rests.2 with outside | ⟨cleared, _⟩
    · rw [show (exchange.returned decoder (some (head, bodyKind))).decoder = decoder from rfl,
        outside] at heading
      cases heading
    · exact cleared
  reading := fun _ => rfl
  collecting := fun collecting => rests.2.resolve_right fun ready => collecting ready.2
  answers := by
    intro answer found
    simp only [returned, List.mem_append, List.mem_singleton] at found
    rcases found with before | rfl
    · exact kept.answers answer before
    · exact framed

/-- A call for a head keeps what holds. -/
theorem call_decodeHeaders (kept : exchange.Kept limits)
    (unmixed : exchange.decoder.decoded = none) :
    Kept limits (exchange.call .decodeHeaders) := by
  simp only [call, ResponseDecoder.decodeHeaders, Decoder.onCore]
  -- A head is read in its own phases, or behind a message that is left first.
  by_cases entered : exchange.decoder.phase.isHeading = true ∨ exchange.decoder.phase = .complete
  · have awaited : exchange.decoder.phase.isHeading = true ∧
        exchange.decoder.context = exchange.awaited ∨
        exchange.decoder.phase = .complete ∧ side.nextContext exchange.decoder.context =
          exchange.awaited := by
      rcases entered with heading | complete
      · exact .inl ⟨heading, kept.heading heading⟩
      · exact .inr ⟨complete, (kept.reading (by simp [complete, DecodePhase.isHeading])).symm⟩
    have read := Core.decodeHeaders_keeps side exchange.decoder.toCore exchange.awaited awaited
    rcases headers : exchange.decoder.toCore.decodeHeaders side with
      ⟨_ | _ | ⟨head, bodyKind⟩, core⟩ <;> rw [headers] at read <;>
      obtain ⟨context, sameLimits, result⟩ := read
    · exact kept.headed (sameLimits.trans kept.limited) result context unmixed
    · exact kept.headed (sameLimits.trans kept.limited) result context unmixed
    · obtain ⟨phase, startLine, fields, finished⟩ := result
      rw [kept.limited] at sameLimits finished
      exact kept.answered ⟨sameLimits, .inl (by rw [phase]; exact bodyPhase_outside bodyKind)⟩
        (framingFor_of_finished finished)
  · simp only [not_or, Bool.not_eq_true] at entered
    obtain ⟨error, refused⟩ := Core.decodeHeaders_refused side entered.1 entered.2
    rw [refused]
    exact kept

/-- A call for a whole response keeps what holds. -/
theorem call_decode (kept : exchange.Kept limits) : Kept limits (exchange.call .decode) := by
  simp only [call, headOfDecode]
  cases decoded : exchange.decoder.decoded with
  | some found =>
    obtain ⟨head, bodyKind⟩ := found
    -- The head was read by an earlier call, and only its body is left.
    have outside := kept.collecting (by simp [decoded])
    have headed : exchange.decoder.decodeHead side =
        (.ok (some (head, bodyKind)), exchange.decoder) := by
      simp [Decoder.decodeHead, decoded]
    have rests := decode_rests headed outside
    rw [kept.limited] at rests
    exact kept.rested (kept.reading outside) rests
  | none =>
    by_cases heading : exchange.decoder.phase.isHeading = true
    · have lines : exchange.decoder.phase = .startLine ∨ exchange.decoder.phase = .headers := by
        simpa [DecodePhase.isHeading] using heading
      have read := Core.decodeHeaders_keeps side exchange.decoder.toCore exchange.awaited
        (.inl ⟨heading, kept.heading heading⟩)
      have headed := Decoder.decodeHead_eq side decoded lines
      rcases headers : exchange.decoder.toCore.decodeHeaders side with
        ⟨error | _ | ⟨head, bodyKind⟩, core⟩ <;> rw [headers] at read headed <;>
        obtain ⟨context, sameLimits, result⟩ := read <;> rw [headed]
      · have ended : decode exchange.decoder =
            (.error error, { exchange.decoder with toCore := core }) := by
          rw [decode, headed]
        rw [ended]
        exact kept.headed (sameLimits.trans kept.limited) result context decoded
      · have ended : decode exchange.decoder =
            (.ok none, { exchange.decoder with toCore := core }) := by
          rw [decode, headed]
        rw [ended]
        exact kept.headed (sameLimits.trans kept.limited) result context decoded
      · obtain ⟨phase, startLine, fields, finished⟩ := result
        have rests := decode_rests headed (by rw [phase]; exact bodyPhase_outside bodyKind)
        rw [sameLimits, kept.limited] at rests
        rw [kept.limited] at finished
        exact kept.answered rests (framingFor_of_finished finished)
    · have refused : ∃ error, exchange.decoder.decodeHead side = (.error error, exchange.decoder) := by
        simp only [Decoder.decodeHead, decoded]
        split
        · rename_i phase
          simp [phase, DecodePhase.isHeading] at heading
        · rename_i phase
          simp [phase, DecodePhase.isHeading] at heading
        · exact ⟨_, rfl⟩
      obtain ⟨error, headed⟩ := refused
      have ended : decode exchange.decoder = (.error error, exchange.decoder) := by
        rw [decode, headed]
      rw [headed, ended]
      exact kept

/-- Every call keeps what holds, when methods are set in time and the two ways are not mixed. -/
theorem call_kept (kept : exchange.Kept limits) {next : ResponseDecoder.Call}
    (timely : exchange.timelyCall next)
    (unmixed : next = .decodeHeaders → exchange.decoder.decoded = none) :
    Kept limits (exchange.call next) := by
  -- Only calls for heads and messages, and the method, touch what holds.
  cases next with
  | feed data =>
    simp only [call, Decoder.feed]
    split
    · exact kept
    · split
      · exact kept
      · exact kept.alike rfl rfl rfl rfl
  | setRequestMethod method =>
    -- In time means not while a complete message waits to be left.
    have left : exchange.decoder.phase ≠ .complete := by simpa [timelyCall] using timely
    refine ⟨kept.limited, fun heading => ?_, fun outside => ?_, kept.collecting, kept.answers⟩
    · change exchange.decoder.phase.isHeading = true at heading
      have between : isBetween exchange.decoder.phase = true := by
        simp only [isBetween, Bool.or_eq_true]
        exact .inl (by simpa [DecodePhase.isHeading] using heading)
      simp [call, ResponseDecoder.setRequestMethod, between]
    · change exchange.decoder.phase.isHeading = false at outside
      have within : isBetween exchange.decoder.phase = false := by
        simp only [isBetween, Bool.or_eq_false_iff]
        exact ⟨by simpa [DecodePhase.isHeading] using outside, by simpa using left⟩
      simp only [call, within, Bool.false_eq_true, if_false]
      exact kept.reading outside
  | decodeHeaders => exact call_decodeHeaders kept (unmixed rfl)
  | consumeBody len =>
    obtain ⟨sameLimits, _, samePhase⟩ := Decoder.consumeBody_keeps exchange.decoder len
    refine kept.alike sameLimits samePhase ?_ ?_ <;> unfold Decoder.consumeBody <;> split <;> rfl
  | progress =>
    obtain ⟨sameLimits, _, samePhase⟩ := Decoder.progress_keeps exchange.decoder
    exact kept.alike sameLimits samePhase rfl rfl
  | decode => exact call_decode kept
  | markEof =>
    simp only [call, markEof]
    split
    · rename_i phase
      exact kept.alike rfl (by rw [phase]; rfl) rfl rfl
    · exact kept

/-- A fresh decoder of responses in use. -/
theorem start_kept (limits : DecoderLimits) :
    Kept limits { decoder := withLimits limits } where
  limited := rfl
  heading := fun _ => rfl
  reading := fun _ => rfl
  collecting := fun collecting => absurd rfl collecting
  answers := by simp

/-- Calls other than decode collect no message. -/
theorem call_undecoded {next : ResponseDecoder.Call} (streaming : next ≠ .decode)
    (undecoded : exchange.decoder.decoded = none) :
    (exchange.call next).decoder.decoded = none := by
  -- No other call stores a head that was decoded.
  cases next with
  | feed data =>
    simp only [call, Decoder.feed]
    split
    · exact undecoded
    · split <;> exact undecoded
  | setRequestMethod method => exact undecoded
  | decodeHeaders =>
    simp only [call, ResponseDecoder.decodeHeaders, Decoder.onCore]
    rcases exchange.decoder.toCore.decodeHeaders side with ⟨_ | _ | _, _⟩ <;> exact undecoded
  | consumeBody len =>
    simp only [call, Decoder.consumeBody]
    split <;> exact undecoded
  | progress => exact undecoded
  | decode => exact absurd rfl streaming
  | markEof =>
    simp only [call, markEof]
    split <;> exact undecoded

/-- Calls keep what holds, when methods are set in time and the two ways are not mixed. -/
theorem run_kept (calls : List ResponseDecoder.Call) (timely : exchange.timely calls = true)
    (kept : exchange.Kept limits)
    (unmixed : .decode ∉ calls ∧ exchange.decoder.decoded = none ∨ .decodeHeaders ∉ calls) :
    Kept limits (exchange.run calls) := by
  -- Without decode nothing is collected, and without decode_headers nothing can be mixed.
  induction calls generalizing exchange with
  | nil => exact kept
  | cons next calls ih =>
    simp only [Exchange.timely, Bool.and_eq_true] at timely
    simp only [List.mem_cons, not_or] at unmixed
    rcases unmixed with ⟨streaming, undecoded⟩ | whole
    · exact ih timely.2 (call_kept kept timely.1 fun _ => undecoded)
        (.inl ⟨streaming.2, call_undecoded (Ne.symm streaming.1) undecoded⟩)
    · exact ih timely.2 (call_kept kept timely.1 fun same => absurd same.symm whole.1)
        (.inr whole.2)

/-- A method that is set in time frames the response that comes next. -/
theorem run_answers (limits : DecoderLimits) (calls : List ResponseDecoder.Call)
    (streaming : .decode ∉ calls)
    (timely : timely { decoder := withLimits limits } calls = true) :
    ∀ answer ∈ (run { decoder := withLimits limits } calls).answers, ∀ method,
      answer.method = some method →
      framingFor limits (some method) answer.head = .ok answer.bodyKind ∧
      (method = "HEAD".toList → answer.bodyKind = .none) ∧
      (method = "CONNECT".toList → 200 ≤ answer.head.statusCode → answer.head.statusCode < 300 →
        answer.head.statusCode ≠ 204 → answer.bodyKind = .tunnel) := by
  intro answer found method awaited
  have kept := run_kept calls timely (start_kept limits) (.inl ⟨streaming, rfl⟩)
  have framed := kept.answers answer found
  rw [awaited] at framed
  -- The framing for the method has only one value for HEAD and for a tunnel.
  refine ⟨framed, fun head => ?_, fun connect lower upper content => ?_⟩
  · rw [head, framingFor_none (.inl rfl)] at framed
    exact (Except.ok.inj framed).symm
  · rw [connect, framingFor_tunnel lower upper content] at framed
    exact (Except.ok.inj framed).symm

/-- The method is set once a call for a head has left the response before. -/
theorem run_answers_timely :
    let ok (length : String) := Utf8.encode
      ("HTTP/1.1 200 OK\r\nContent-Length: " ++ length ++ "\r\n\r\n").toList
    let calls : List ResponseDecoder.Call := [.feed (ok "0"), .decodeHeaders, .progress, .decodeHeaders,
      .setRequestMethod "HEAD".toList, .feed (ok "5"), .decodeHeaders]
    ((run { decoder := withLimits .unlimited } calls).answers.map fun answer =>
      (answer.method, answer.bodyKind)) =
        [(none, .contentLength 0), (some "HEAD".toList, .none)] ∧
    ∀ answer ∈ (run { decoder := withLimits .unlimited } calls).answers, ∀ method,
      answer.method = some method →
      framingFor .unlimited (some method) answer.head = .ok answer.bodyKind := by
  intro ok calls
  refine ⟨by decide, fun answer found method awaited => ?_⟩
  exact (run_answers .unlimited calls (by decide) (by decide) answer found method
    awaited).1

/-- A method that is set while the response before is complete does not reach the next one. -/
theorem run_answers_untimely :
    let ok (length : String) := Utf8.encode
      ("HTTP/1.1 200 OK\r\nContent-Length: " ++ length ++ "\r\n\r\n").toList
    let calls : List ResponseDecoder.Call := [.feed (ok "0"), .decodeHeaders, .progress,
      .setRequestMethod "HEAD".toList, .feed (ok "5"), .decodeHeaders]
    ∃ answer ∈ (run { decoder := withLimits .unlimited } calls).answers,
      answer.method = some "HEAD".toList ∧ answer.bodyKind = .contentLength 5 ∧
      framingFor .unlimited (some "HEAD".toList) answer.head ≠ .ok answer.bodyKind := by
  decide

/-- What a call that sets no method does to the heads: nothing, or one more. -/
theorem call_answers (exchange : Exchange) {next : ResponseDecoder.Call}
    (silent : ∀ method, next ≠ .setRequestMethod method) :
    ((exchange.call next).awaited = exchange.awaited ∧
      (exchange.call next).answers = exchange.answers) ∨
    ((exchange.call next).awaited = none ∧ ∃ head bodyKind,
      (exchange.call next).answers = exchange.answers ++ [⟨exchange.awaited, head, bodyKind⟩]) := by
  -- A call either returns a head, which takes the method along, or it changes neither.
  have returns : ∀ decoder decoded,
      ((exchange.returned decoder decoded).awaited = exchange.awaited ∧
        (exchange.returned decoder decoded).answers = exchange.answers) ∨
      ((exchange.returned decoder decoded).awaited = none ∧ ∃ head bodyKind,
        (exchange.returned decoder decoded).answers =
          exchange.answers ++ [⟨exchange.awaited, head, bodyKind⟩]) := by
    intro decoder decoded
    rcases decoded with _ | ⟨head, bodyKind⟩
    · exact .inl ⟨rfl, rfl⟩
    · exact .inr ⟨rfl, head, bodyKind, rfl⟩
  -- Heads come from calls for heads and messages only.
  cases next with
  | feed data => exact .inl ⟨rfl, rfl⟩
  | setRequestMethod method => exact absurd rfl (silent method)
  | decodeHeaders =>
    simp only [call]
    split
    · exact returns _ _
    · exact .inl ⟨rfl, rfl⟩
  | consumeBody len => exact .inl ⟨rfl, rfl⟩
  | progress => exact .inl ⟨rfl, rfl⟩
  | decode => exact returns _ _
  | markEof => exact .inl ⟨rfl, rfl⟩

/-- Only the first head answers a method that was set once. -/
def Once (method : Str) (exchange : Exchange) : Prop :=
  (exchange.awaited = some method ∧ exchange.answers = []) ∨
    (exchange.awaited = none ∧ ∃ first rest, exchange.answers = first :: rest ∧
      first.method = some method ∧ ∀ answer ∈ rest, answer.method = none)

/-- A method that was set once is answered by the first head only. -/
theorem run_once {method : Str} (calls : List ResponseDecoder.Call)
    (silent : ∀ other, .setRequestMethod other ∉ calls) (once : exchange.Once method) :
    (exchange.run calls).Once method := by
  -- Calls one by one, the first head takes the method and the later ones find none.
  induction calls generalizing exchange with
  | nil => exact once
  | cons next calls ih =>
    simp only [List.mem_cons, not_or] at silent
    refine ih (fun other => (silent other).2) ?_
    rcases call_answers exchange fun other same => (silent other).1 same.symm with
      ⟨awaited, answers⟩ | ⟨awaited, head, bodyKind, answers⟩
    · unfold Once at once ⊢
      rw [awaited, answers]
      exact once
    · right
      refine ⟨awaited, ?_⟩
      rw [answers]
      -- The head is the first one, or one more of those without a method.
      rcases once with ⟨before, empty⟩ | ⟨before, first, rest, some, method, others⟩
      · exact ⟨_, [], by rw [empty]; rfl, before, by simp⟩
      · refine ⟨first, rest ++ [⟨exchange.awaited, head, bodyKind⟩], by rw [some]; rfl, method, ?_⟩
        intro answer found
        simp only [List.mem_append, List.mem_singleton] at found
        rcases found with earlier | rfl
        · exact others answer earlier
        · exact before

/-- Calls that set no method set none too late. -/
theorem timely_silent (calls : List ResponseDecoder.Call)
    (silent : ∀ method, .setRequestMethod method ∉ calls) :
    exchange.timely calls = true := by
  induction calls generalizing exchange with
  | nil => rfl
  | cons next calls ih =>
    simp only [List.mem_cons, not_or] at silent
    simp only [timely, Bool.and_eq_true]
    -- The only call that can be late is the excluded one.
    refine ⟨?_, ih fun method => (silent method).2⟩
    cases next with
    | setRequestMethod method => exact absurd rfl (silent method).1
    | feed | decodeHeaders | consumeBody | progress | decode | markEof => rfl

end Exchange

namespace ResponseDecoder

/-- Without a method, a status with a body gets a framing for one. -/
theorem framingFor_bodied {limits : DecoderLimits} {head : ResponseHead} {bodyKind : BodyKind}
    (framed : framingFor limits none head = .ok bodyKind)
    (hasBody : statusHasBody head.statusCode = true) :
    bodyKind ≠ .none ∧ bodyKind ≠ .tunnel := by
  simp only [framingFor, Checked.map_ok] at framed
  obtain ⟨⟨kind, kept⟩, determined, rfl⟩ := framed
  -- Without a method only statuses without a body have a framing for none.
  rcases determineBodyKind_ok determined with
    ⟨other | other, _⟩ | ⟨_, _, other, _⟩ | ⟨_, _, _, _, _, _, _, _, _, framed⟩
  · cases other
  · rw [hasBody] at other
    cases other
  · cases other
  · rcases framed with ⟨_, _, rfl⟩ | ⟨_, _, rfl⟩ | ⟨_, _, _, _, rfl⟩ | ⟨_, _, rfl⟩ <;> simp

/-- A method that is neither HEAD nor answered by a tunnel frames as none does. -/
theorem framingFor_other {limits : DecoderLimits} {head : ResponseHead} {method : Str}
    (notHead : method ≠ "HEAD".toList)
    (untunneled : ¬ (method = "CONNECT".toList ∧ 200 ≤ head.statusCode ∧ head.statusCode < 300)) :
    framingFor limits (some method) head = framingFor limits none head := by
  -- Neither of the two questions about the method is answered with yes.
  have first : (decide (some method = some "HEAD".toList) || !statusHasBody head.statusCode) =
      (decide ((none : Option Str) = some "HEAD".toList) || !statusHasBody head.statusCode) := by
    rw [decide_eq_false (by simpa using notHead), decide_eq_false (by simp)]
  have second : (decide (some method = some "CONNECT".toList) &&
      (decide (200 ≤ head.statusCode) && decide (head.statusCode < 300))) =
      (decide ((none : Option Str) = some "CONNECT".toList) &&
        (decide (200 ≤ head.statusCode) && decide (head.statusCode < 300))) := by
    rw [decide_eq_false (by simp : ¬ (none : Option Str) = some "CONNECT".toList), Bool.false_and]
    simpa [Bool.and_eq_false_iff, not_and] using untunneled
  unfold framingFor determineBodyKind
  rw [first, second]

/-- The framing without a method is that of a method exactly when the method does not matter. -/
theorem framingFor_iff {limits : DecoderLimits} {head : ResponseHead} {bodyKind : BodyKind}
    (framed : framingFor limits none head = .ok bodyKind) (method : Str) :
    framingFor limits (some method) head = .ok bodyKind ↔
      methodMatters method head.statusCode = false := by
  by_cases bodiless : statusHasBody head.statusCode = false
  · -- Such a status has no body for any method, and none of success is among them.
    rw [framingFor_none (.inr bodiless)] at framed
    have quiet : methodMatters method head.statusCode = false := by
      by_contra loud
      have matters : methodMatters method head.statusCode = true := by simpa using loud
      simp only [methodMatters, bodiless, Bool.and_false, Bool.false_or, Bool.and_eq_true,
        decide_eq_true_eq, bne_iff_ne, ne_eq] at matters
      obtain ⟨⟨⟨_, lower⟩, upper⟩, content⟩ := matters
      rw [statusHasBody_success lower upper content] at bodiless
      cases bodiless
    rw [framingFor_none (.inr bodiless)]
    simp [framed, quiet]
  have hasBody : statusHasBody head.statusCode = true := by simpa using bodiless
  obtain ⟨notNone, notTunnel⟩ := framingFor_bodied framed hasBody
  by_cases isHead : method = "HEAD".toList
  · rw [isHead, framingFor_none (.inl rfl)]
    have matters : methodMatters "HEAD".toList head.statusCode = true := by
      simp [methodMatters, hasBody]
    rw [matters]
    simp [Ne.symm notNone]
  by_cases tunneled : method = "CONNECT".toList ∧ 200 ≤ head.statusCode ∧ head.statusCode < 300
  · obtain ⟨rfl, lower, upper⟩ := tunneled
    have content : head.statusCode ≠ 204 := by
      intro same
      simp [statusHasBody, same] at hasBody
    have matters : methodMatters "CONNECT".toList head.statusCode = true := by
      simp [methodMatters, lower, upper, content]
    rw [framingFor_tunnel lower upper content]
    rw [matters]
    simp [Ne.symm notTunnel]
  · rw [framingFor_other isHead tunneled]
    have quiet : methodMatters method head.statusCode = false := by
      simp only [methodMatters, decide_eq_false isHead, Bool.false_and, Bool.false_or]
      by_contra loud
      simp only [Bool.not_eq_false, Bool.and_eq_true, decide_eq_true_eq] at loud
      exact tunneled ⟨loud.1.1.1, loud.1.1.2, loud.1.2⟩
    simp [framed, quiet]

end ResponseDecoder

namespace Exchange

open ResponseDecoder

/-- After other responses, such as interim ones, a method is lost, if it matters. -/
theorem run_interim (limits : DecoderLimits) (method : Str) (calls : List ResponseDecoder.Call)
    (silent : ∀ other, .setRequestMethod other ∉ calls)
    (unmixed : .decode ∉ calls ∨ .decodeHeaders ∉ calls) {interim : List Answer} {final : Answer}
    (answered : (run { decoder := withLimits limits } (.setRequestMethod method :: calls)).answers =
      interim ++ [final]) :
    framingFor limits (some method) final.head = .ok final.bodyKind ↔
      interim = [] ∨ methodMatters method final.head.statusCode = false := by
  have kept : Kept limits (call { decoder := withLimits limits } (.setRequestMethod method)) :=
    call_kept (start_kept limits) rfl (by simp)
  have ended : Kept limits (run { decoder := withLimits limits } (.setRequestMethod method :: calls)) :=
    run_kept calls (timely_silent calls silent) kept (unmixed.imp_left fun streaming =>
      ⟨streaming, rfl⟩)
  have once : Once method (run { decoder := withLimits limits } (.setRequestMethod method :: calls)) :=
    run_once calls silent (.inl ⟨rfl, rfl⟩)
  have framed := ended.answers final (by simp [answered])
  -- A method was set, so that some head has taken it: the first one.
  rcases once with ⟨_, none⟩ | ⟨_, first, rest, answers, answersMethod, others⟩
  · simp [answered] at none
  · rw [answered] at answers
    -- The final head is the first one, or there were others in front of it.
    cases interim with
    | nil =>
      simp only [List.nil_append, List.cons.injEq] at answers
      obtain ⟨rfl, _⟩ := answers
      rw [answersMethod] at framed
      simp [framed]
    | cons before interim =>
      simp only [List.cons_append, List.cons.injEq] at answers
      obtain ⟨_, rfl⟩ := answers
      rw [others final (by simp)] at framed
      simpa using framingFor_iff framed method

/-- An interim response before the final one, to a method that does not matter. -/
theorem run_interim_plain :
    let calls : List ResponseDecoder.Call := [.feed (Utf8.encode ("HTTP/1.1 100 Continue\r\n\r\n" ++
      "HTTP/1.1 200 OK\r\nContent-Length: 5\r\n\r\n").toList), .decode, .decode]
    let interim : Answer :=
      ⟨some "GET".toList, ⟨http11, 100, "Continue".toList, []⟩, .none⟩
    let final : Answer :=
      ⟨none, ⟨http11, 200, "OK".toList, [("Content-Length".toList, "5".toList)]⟩, .contentLength 5⟩
    (run { decoder := withLimits .unlimited } (.setRequestMethod "GET".toList :: calls)).answers =
      [interim, final] ∧
    framingFor .unlimited (some "GET".toList) final.head = .ok final.bodyKind := by
  intro calls interim final
  have answered : (run { decoder := withLimits .unlimited }
      (.setRequestMethod "GET".toList :: calls)).answers = [interim] ++ [final] := by
    decide
  -- The interim answer took the method with it, and without one the framing is the same.
  have framed := run_interim .unlimited "GET".toList calls (by simp [calls]) (.inr (by simp [calls]))
    answered
  exact ⟨answered, framed.mpr (.inr (by decide))⟩

/-- An interim response makes the answer to HEAD lose its method. -/
theorem run_interim_head :
    let calls : List ResponseDecoder.Call := [.feed (Utf8.encode ("HTTP/1.1 100 Continue\r\n\r\n" ++
      "HTTP/1.1 200 OK\r\nContent-Length: 5\r\n\r\n").toList), .decode, .decode]
    (run { decoder := withLimits .unlimited } (.setRequestMethod "HEAD".toList :: calls)).answers.map
      (fun answer => (answer.head.statusCode, answer.bodyKind,
        framingFor .unlimited (some "HEAD".toList) answer.head)) =
      [(100, .none, .ok .none), (200, .contentLength 5, .ok .none)] := by
  decide

end Exchange

end Http11

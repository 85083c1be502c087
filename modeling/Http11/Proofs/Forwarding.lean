import Http11.Proofs.Decoder.FieldLine
import Http11.Proofs.Encoder.Accepts
import Http11.Proofs.Encoder.Requests
import Http11.Proofs.Limits

/-! Requests that a decoder has handed out are encoded and decoded again, where they can be. -/

namespace Http11

open Checked

namespace Request

/-- What is known of a request without transfer encoding that a decoder has handed out. -/
structure Delivered (request : Request) : Prop where
  /-- Its request line was checked word by word. -/
  words : RequestDecoder.Words request.method request.uri request.version
  /-- The decoder accepts its request line. -/
  started : RequestDecoder.checkStartLine request.startText = .ok ()
  /-- It opens no tunnel. -/
  tunnelless : request.method ≠ "CONNECT".toList
  /-- Its fields can be sent. -/
  sendables : ∀ field ∈ request.headers, sendable field
  /-- Its fields are trimmed. -/
  trimmed : receivedHeaders request.headers = request.headers
  /-- Its host was checked. -/
  hosted : request.version = http11 → RequestDecoder.checkHost request.headers = .ok ()
  /-- It has a body exactly when its fields declare a length. -/
  framed : ∃ length, parseContentLength request.headers = .ok length ∧
    length.isSome = request.body.isSome

/-- A request that was made of checked lines is one that a decoder hands out. -/
theorem delivered_of_made {head : RequestHead} {bodyKind : BodyKind} {last : RequestDecoder}
    (made : Core.Made RequestDecoder.side (head, bodyKind)) (closed : bodyKind ≠ .tunnel)
    (uncoded : hasHeader head.headers "Transfer-Encoding".toList = false) :
    (Request.fromRawParts head (last.collectedBody bodyKind)).Delivered := by
  obtain ⟨limits, _, startLine, headers, lines, finished⟩ := made
  obtain ⟨method, uri, version, words, whole, parts, split⟩ :=
    RequestDecoder.checkStartLine_ok lines.checked
  obtain ⟨hosted, framed, rfl⟩ := RequestDecoder.finishHead_ok finished
  simp only [parts, split, List.getElem?_cons_zero, List.getElem?_cons_succ, List.head?_cons,
    Option.getD_some] at hosted framed uncoded ⊢
  obtain ⟨tunnelless, determined⟩ :=
    framed.resolve_left fun tunnel => closed tunnel.2
  have fields : ∀ field ∈ headers, sendable field ∧ receivedField field = field := by
    intro field inside
    obtain ⟨text, parsed⟩ := lines.listed field inside
    exact parseHeaderLine_ok parsed
  refine ⟨words, ?_, tunnelless, fun field inside => (fields field inside).1, ?_, hosted, ?_⟩
  · rw [← lines.checked, whole]
    rfl
  · exact (List.map_congr_left fun field inside => (fields field inside).2).trans (List.map_id' _)
  · obtain ⟨chunked, length, codings, lengths, kinds⟩ :=
      RequestDecoder.determineBodyKind_ok determined
    -- Without a transfer encoding the body is framed by its length, or there is none.
    have unchunked : chunked = false := by
      rw [parseTransferEncodingForRequest_none (hasHeader_eq_false.mp uncoded)] at codings
      cases codings
      rfl
    subst unchunked
    refine ⟨length, lengths, ?_⟩
    rcases kinds with ⟨other, _⟩ | ⟨_, size, rfl, _, rfl⟩ | ⟨_, rfl, rfl⟩
    · cases other
    · rfl
    · rfl

/-- A request that the encoder can send on. -/
structure Forwardable (request : Request) : Prop where
  /-- No field lists several lengths. -/
  unlisted : unlisted request.headers
  /-- A host of version 1.1 agrees with the target. -/
  agrees : request.version = http11 →
    ∀ host ∈ getHeaders request.headers "Host".toList, hostAgrees request.uri host
  /-- The body has the length that is declared. -/
  sized : ∀ length, parseContentLength request.headers = .ok (some length) →
    length = bodyLength request.body

section Delivered

variable {request : Request} (delivered : request.Delivered)

include delivered

/-- The target of a request that was handed out is one whose form was told. -/
theorem Delivered.told : Told request.method request.uri := by
  obtain ⟨present, text⟩ :=
    isValidRequestTarget_text delivered.words.target delivered.words.narrow
  exact ⟨present, text, delivered.tunnelless, delivered.words.used⟩

/-- Such a request has no length to add, and comes back as it is. -/
theorem Delivered.received : request.received = request := by
  obtain ⟨length, parsed, present⟩ := delivered.framed
  have declared := parseContentLength_isSome parsed
  -- The length is declared exactly where there is a body, so none is added.
  have unadded : request.addedLength = none := by
    rw [addedLength, shouldAutoEmitContentLengthForRequest, declared, present]
    cases request.body <;> rfl
  have kept : keptHeaders request.headers none = request.headers := by
    rw [keptHeaders, delivered.trimmed]
    simp
  rw [Request.received, hasContent, declared, present, unadded, kept]
  obtain ⟨method, uri, version, headers, body⟩ := request
  cases body <;> rfl

/-- The fields of a request that was handed out pass the checks of the encoder. -/
theorem Delivered.fields (filed : ¬ Misfiled request.method request.uri) :
    validateRequestFields request = .ok () := by
  -- The words of the start line were checked when they were received.
  have told := delivered.told
  have narrow : (Utf8.encode request.uri).any (fun byte => 0x7E < byte) = false := by
    refine List.any_eq_false.mpr fun byte inside => ?_
    simpa using told.text.ascii byte inside
  simp only [validateRequestFields, Checked.bind_ok, Checked.reject_ok, delivered.words.token,
    delivered.words.target, narrow, told.accepted filed,
    isValidVersionForEncode_of_protocol delivered.words.versioned,
    validateHeaders_sendable delivered.sendables, Bool.not_true]
  exact ⟨(), trivial, (), trivial, (), trivial, (), trivial, (), trivial, trivial⟩

/-- The host of such a request passes the checks of the encoder when it agrees with the target. -/
theorem Delivered.host_iff (filed : ¬ Misfiled request.method request.uri) :
    validateHostHeader request = .ok () ↔ (request.version = http11 →
      ∀ host ∈ getHeaders request.headers "Host".toList, hostAgrees request.uri host) := by
  unfold validateHostHeader
  by_cases version11 : request.version = http11
  · have hosted := delivered.hosted version11
    rw [if_neg (not_not.mpr version11)]
    unfold RequestDecoder.checkHost at hosted
    match values : getHeaders request.headers "Host".toList, hosted with
    | [host], hosted =>
      have valid : (!host.isEmpty && !(Host.parse host).isOk) = false := by
        dsimp only at hosted
        split at hosted
        · cases hosted
        · rename_i accepted
          simpa using accepted
      have agrees := delivered.told.hostAgrees_iff filed host
      simp only [Checked.bind_ok, Checked.reject_ok, valid, decide_eq_false delivered.tunnelless]
      constructor
      · rintro ⟨_, _, _, authority, _, _, absent⟩ _ other inside
        rw [List.mem_singleton] at inside
        rw [inside]
        exact agrees.mpr ⟨authority, absent⟩
      · intro each
        obtain ⟨authority, absent⟩ := agrees.mp (each version11 host (by simp))
        exact ⟨(), trivial, (), authority, (), rfl, absent⟩
  · -- Another version needs no host.
    rw [if_pos version11]
    exact iff_of_true rfl fun same => absurd same version11

/-- The declared length passes the checks of the encoder when it is one, and that of the body. -/
theorem Delivered.length_iff : checkLength request.headers request.body true = .ok () ↔
    unlisted request.headers ∧ ∀ length, parseContentLength request.headers = .ok (some length) →
      length = bodyLength request.body := by
  obtain ⟨length, parsed, _⟩ := delivered.framed
  have read := validateContentLengthHeaders_iff delivered.trimmed parsed
  simp only [checkLength, Checked.bind_ok, parsed, Except.ok.injEq]
  -- Behind a single agreed length only a list of lengths can still be refused.
  constructor
  · rintro ⟨validated, checked, agreed⟩
    have commaless := validateContentLengthHeaders_commaless checked
    rw [read.mpr commaless] at checked
    cases checked
    refine ⟨commaless, ?_⟩
    rintro length rfl
    simpa [Checked.reject_ok] using agreed
  · rintro ⟨commaless, sized⟩
    refine ⟨length, read.mpr commaless, ?_⟩
    -- Without a declared length there is nothing to compare.
    cases length with
    | none => rfl
    | some length => simp [Checked.reject_ok, sized length rfl]

/-- The encoder sends on what can be sent on, and nothing else. -/
theorem Delivered.encodes_iff (uncoded : hasHeader request.headers "Transfer-Encoding".toList = false)
    (filed : ¬ Misfiled request.method request.uri) :
    (∃ wire, encodeRequest request = .ok wire) ↔ request.Forwardable := by
  have fields := delivered.fields filed
  obtain ⟨userless, hosted⟩ := delivered.told.rejects
  have host := delivered.host_iff filed
  have length := delivered.length_iff
  simp only [encodeRequest, checkRequest, checkDeclaredLength, Checked.bind_ok, Checked.reject_ok,
    Checked.onlyIf_ok, fields, userless, hosted, host, uncoded, length]
  -- All checks but those of the host and the length have been passed already.
  constructor
  · rintro ⟨_, _, ⟨_, _, _, _, _, _, _, agrees, _⟩, _, sized, _⟩
    obtain ⟨commaless, declared⟩ := sized rfl
    exact ⟨commaless, agrees, declared⟩
  · intro forwardable
    exact ⟨_, (), ⟨(), trivial, (), trivial, (), trivial, (), forwardable.agrees, rfl⟩, (),
      fun _ => ⟨forwardable.unlisted, forwardable.sized⟩, rfl⟩

end Delivered

end Request

namespace RequestDecoder

open Decoder

variable {decoder next : RequestDecoder}

/-- A request that was handed out without transfer encoding is known. -/
theorem decode_delivered {request : Request} (reachable : Reachable decoder)
    (decoded : decode decoder = (.ok (some request), next))
    (uncoded : hasHeader request.headers "Transfer-Encoding".toList = false) :
    request.Delivered := by
  obtain ⟨_, checks⟩ := decode_accepts (reachable_accepts reachable)
  obtain ⟨head, bodyKind, last, made, closed, rfl⟩ := checks request (by rw [decoded])
  exact Request.delivered_of_made made closed uncoded

/-- Calls on the decoder of requests are calls that a program can make. -/
theorem reachable_of_api {limits : DecoderLimits} {kind : Call Unit → Bool}
    (reachable : api.Reachable limits kind decoder) : Reachable decoder := by
  -- The induction is on the calls, each of which is one of the two lists.
  induction reachable with
  | fresh => exact .withLimits limits
  | call next _ _ _ ih =>
    cases next with
    | feed data => exact ih.feed data
    | mutBuf len => exact ih.mutBuf len
    | write data => exact ih.writePending data
    | advanceBuf len => exact ih.advanceBuf len
    | tell => exact ih
    | decodeHeaders => exact ih.decodeHeaders
    | peekBody => exact ih
    | consumeBody len => exact ih.consumeBody len
    | progress => exact ih.progress
    | decode => exact ih.decode
    | markEof => exact ih

/-- The body that is collected has the length that its head declares, or will have it. -/
def Promises (decoder : RequestDecoder) : Prop :=
  ∀ head length, decoder.decoded = some (head, .contentLength length) →
    decoder.toBodyState.Owes length

/-- Reading a head promises the length that it declares. -/
theorem promises_headed (sane : decoder.toCore.Sane) (promises : Promises decoder) :
    Promises (decoder.decodeHead side).2 := by
  -- The head was there, is there now or is still missing.
  rcases decodeHead_cases side decoder with ⟨_, _, same⟩ |
    ⟨_, head, bodyKind, core, same, lines, phase, _⟩ | ⟨undecoded, _, _, same, _, _⟩ <;> rw [same]
  · exact promises
  · intro other length found
    cases found
    exact Core.owes_headed side_lawful phase
      (Core.decodeHeaders_unconsumed side_lawful side_limited sane lines)
  · intro head length found
    rw [show decoder.decoded = _ from found] at undecoded
    cases undecoded

/-- Moving through the body keeps the promise. -/
theorem Promises.moves (promises : Promises decoder) (sane : decoder.toCore.Sane)
    (moves : decoder.toCore.Moves next.toCore) (same : next.decoded = decoder.decoded) :
    Promises next := by
  intro head length found
  rw [same] at found
  exact moves.owes sane (promises head length found)

/-- Asking for a whole request keeps the promise. -/
theorem decode_promises (sane : decoder.toCore.Sane) (promises : Promises decoder) :
    Promises (decode decoder).2 := by
  have headed := promises_headed sane promises
  have changes := decodeHead_changes side decoder
  rcases decode_cases decoder with ⟨_, _, same⟩ | ⟨head, bodyKind, after, read, outcome⟩
  · rw [same]
    exact headed
  rw [read] at headed changes
  have later := changes.sane side_lawful side_limited sane
  have finished : ∀ last : RequestDecoder, Promises (finish last head bodyKind).2 :=
    fun _ _ _ found => by cases found
  -- The body is being collected, or the request is handed over and nothing is promised.
  rcases outcome with ⟨_, _, _, same⟩ | ⟨_, last, _, same⟩ | ⟨_, _, same⟩ <;> rw [same]
  · exact headed.moves later (readBody_moves after) (readBody_frame after).1.1
  · exact finished last
  · exact finished after

/-- Where whole requests are asked for, every head that is collected has its promise kept. -/
theorem reachable_promises {limits : DecoderLimits}
    (reachable : api.Reachable limits Call.isWhole decoder) : Promises decoder := by
  induction reachable with
  | fresh => exact fun _ _ found => by cases found
  | @call decoder next before whole _ ih =>
    -- Input does not touch the head that is collected.
    by_cases input : next.isInput = true
    · obtain ⟨_, _, _, same⟩ := Api.call_input api decoder input
      rw [same]
      exact ih
    · cases next with
      | feed | mutBuf | write | advanceBuf | tell => exact absurd rfl input
      | decodeHeaders | peekBody | consumeBody | progress => cases whole
      -- Only asking for a whole request does.
      | decode => exact decode_promises (Api.request_lawful.reachable before).sane ih
      | markEof => exact ih

/-- A request that was collected as a whole has the body that its head declares. -/
theorem decode_sized {limits : DecoderLimits} {request : Request}
    (reachable : api.Reachable limits Call.isWhole decoder)
    (decoded : decode decoder = (.ok (some request), next)) {length : Nat}
    (declared : parseContentLength request.headers = .ok (some length)) :
    length = bodyLength request.body := by
  have sane := (Api.request_lawful.reachable reachable).sane
  obtain ⟨watch, watched, rfl⟩ := Watch.watched api size reachable
  have gathers := (watched.collects Api.request_lawful fun _ => decode_measured).gathers
  have accepts := (reachable_accepts (reachable_of_api reachable)).decodeHead
  have promises := promises_headed sane (reachable_promises reachable)
  rcases decode_cases watch.decoder with ⟨_, unfinished, same⟩ |
    ⟨head, bodyKind, headed, read, outcome⟩
  · rw [decoded] at same
    cases same
    exact absurd rfl (unfinished request)
  rw [read] at accepts promises
  obtain ⟨later, _, gathering⟩ := gathers_headed side_lawful side_limited sane gathers read
  have found := decodeHead_decoded read
  -- The length that is declared is the one that frames the body.
  have framing : bodyKind ≠ .tunnel → parseContentLength head.headers = .ok (some length) →
      bodyKind = .contentLength length := by
    intro closed parsed
    obtain ⟨_, _, _, _, _, finished⟩ := accepts.made _ found
    obtain ⟨_, framed, rfl⟩ := finishHead_ok finished
    obtain ⟨_, determined⟩ := framed.resolve_left fun tunnel => closed tunnel.2
    obtain ⟨_, _, _, lengths, kinds⟩ := determineBodyKind_ok determined
    rw [show parseContentLength _ = _ from parsed] at lengths
    cases lengths
    rcases kinds with ⟨_, other, _⟩ | ⟨_, _, same, _, kind⟩ | ⟨_, other, _⟩
    · cases other
    · cases same
      exact kind
    · cases other
  rcases outcome with ⟨_, _, unfinished, same⟩ | ⟨framed, last, body, same⟩ | ⟨unframed, closed, same⟩
  · rw [decoded] at same
    cases same
    exact absurd rfl (unfinished request)
  · rw [decoded] at same
    cases same
    cases framing (by rintro rfl; cases framed) declared
    have moves := readBody_moves headed
    have counted := readBody_counted side_lawful side_limited later
      (gathering.framed head _ found (by simp)) gathering.counted
    obtain ⟨_, complete⟩ := readBody_frame headed
    rw [body] at moves counted complete
    -- The body is complete, so all that was promised was consumed and collected.
    rcases moves.owes later (promises head length found) with ⟨_, going, _⟩ | ⟨_, consumed⟩
    · rw [complete rfl] at going
      cases going
    · exact (counted.trans consumed).symm
  · rw [decoded] at same
    cases same
    rw [framing closed declared] at unframed
    cases unframed

end RequestDecoder

/--
A request that was handed out is sent on and received again, where the encoder accepts it.

It is accepted unless its fields list a length, or its host or its body is not the one declared;
the body of a request that was asked for as a whole always is.
-/
theorem forwarded :
    (∀ decoder request next, RequestDecoder.Reachable decoder →
      RequestDecoder.decode decoder = (.ok (some request), next) →
      hasHeader request.headers "Transfer-Encoding".toList = false →
      (¬ Misfiled request.method request.uri →
        ((∃ wire, encodeRequest request = .ok wire) ↔ request.Forwardable)) ∧
      (∀ wire, encodeRequest request = .ok wire → wire.length ≤ usizeMax →
        ∃ after, RequestDecoder.decode
          ((RequestDecoder.withLimits .unlimited).feed wire).2 = (.ok (some request), after) ∧
            after.remaining = [])) ∧
    (∀ limits decoder request next,
      RequestDecoder.api.Reachable limits Call.isWhole decoder →
      RequestDecoder.decode decoder = (.ok (some request), next) →
      ∀ length, parseContentLength request.headers = .ok (some length) →
        length = bodyLength request.body) := by
  refine ⟨fun decoder request next reachable decoded uncoded => ?_,
    fun limits decoder request next reachable decoded length declared =>
      RequestDecoder.decode_sized reachable decoded declared⟩
  have delivered := RequestDecoder.decode_delivered reachable decoded uncoded
  refine ⟨fun filed => delivered.encodes_iff uncoded filed, fun wire encoded fits => ?_⟩
  -- The bytes are received as the request they encode.
  have encodes : request.Encoded wire :=
    ⟨delivered.words.versioned, delivered.tunnelless, uncoded, encoded⟩
  have again := encodes.decode delivered.started
    (show (wire ++ []).length ≤ usizeMax by simpa using fits)
  rwa [List.append_nil, delivered.received] at again

/-- A request with a host and a body that was fed in one piece is sent on and received again. -/
theorem forwarded_whole :
    let wire := Utf8.encode ("POST http://a:80/?b HTTP/1.1\r\nHost: A:80\r\n" ++
      "Content-Length: 2\r\n\r\nab").toList
    let request : Request := ⟨"POST".toList, "http://a:80/?b".toList, http11,
      [("Host".toList, "A:80".toList), ("Content-Length".toList, "2".toList)], some [97, 98]⟩
    request.Forwardable ∧ encodeRequest request = .ok wire ∧
      (∃ after, RequestDecoder.decode ((RequestDecoder.withLimits .unlimited).feed wire).2 =
        (.ok (some request), after) ∧ after.remaining = []) ∧
      2 = bodyLength request.body := by
  intro wire request
  have fed : RequestDecoder.api.Reachable {} Call.isWhole
      (RequestDecoder.api.call (RequestDecoder.api.fresh {}) (.feed wire)) := .call _ .fresh rfl rfl
  have returned : (RequestDecoder.decode
      (RequestDecoder.api.call (RequestDecoder.api.fresh {}) (.feed wire))).1 =
        .ok (some request) := by decide +kernel
  have uncoded : hasHeader request.headers "Transfer-Encoding".toList = false := by decide +kernel
  have encoded : encodeRequest request = .ok wire := by decide +kernel
  -- The target is no path, has slashes behind its scheme, and its parts are sound.
  have filed : ¬ Misfiled request.method request.uri := by
    rintro (⟨origin, _, _⟩ | ⟨_, plain, _, _, _⟩ | ⟨_, _, _, _, unsound⟩)
    · revert origin
      decide
    · revert plain
      decide +kernel
    · revert unsound
      decide +kernel
  have fits : wire.length ≤ usizeMax := by decide
  have declared : parseContentLength request.headers = .ok (some 2) := by decide +kernel
  clear_value wire request
  have decoded : RequestDecoder.decode
      (RequestDecoder.api.call (RequestDecoder.api.fresh {}) (.feed wire)) =
        (.ok (some request), (RequestDecoder.decode
          (RequestDecoder.api.call (RequestDecoder.api.fresh {}) (.feed wire))).2) :=
    Prod.ext returned rfl
  obtain ⟨sent, received⟩ :=
    forwarded.1 _ request _ (RequestDecoder.reachable_of_api fed) decoded uncoded
  exact ⟨(sent filed).mp ⟨wire, encoded⟩, encoded, received wire encoded fits,
    forwarded.2 {} _ request _ fed decoded 2 declared⟩

/-- A list of lengths, or a host other than the one of the target, is received and not sent on. -/
theorem unforwarded :
    let listed := Utf8.encode
      "POST / HTTP/1.1\r\nHost: a\r\nContent-Length: 2, 2\r\n\r\nab".toList
    let elsewhere := Utf8.encode "GET http://a/ HTTP/1.1\r\nHost: b\r\n\r\n".toList
    (∃ request next, RequestDecoder.decode ((RequestDecoder.withLimits .unlimited).feed listed).2 =
        (.ok (some request), next) ∧
      hasHeader request.headers "Transfer-Encoding".toList = false ∧
      encodeRequest request = .error (.invalidContentLengthValue "2, 2".toList)) ∧
    (∃ request next,
      RequestDecoder.decode ((RequestDecoder.withLimits .unlimited).feed elsewhere).2 =
        (.ok (some request), next) ∧
      hasHeader request.headers "Transfer-Encoding".toList = false ∧
      encodeRequest request = .error (.hostAuthorityMismatch "b".toList "a".toList)) := by
  intro listed elsewhere
  -- What is handed out is evaluated, and the decoder after it is left as it is.
  have pair : ∀ {outcome : Except Error (Option Request) × RequestDecoder} {request : Request},
      outcome.1 = .ok (some request) → outcome = (.ok (some request), outcome.2) :=
    fun same => Prod.ext same rfl
  exact ⟨⟨⟨"POST".toList, "/".toList, http11, [("Host".toList, "a".toList),
      ("Content-Length".toList, "2, 2".toList)], some [97, 98]⟩, _, pair (by decide +kernel),
      by decide +kernel, by decide +kernel⟩,
    ⟨⟨"GET".toList, "http://a/".toList, http11, [("Host".toList, "b".toList)], none⟩, _,
      pair (by decide +kernel), by decide +kernel, by decide +kernel⟩⟩

end Http11
